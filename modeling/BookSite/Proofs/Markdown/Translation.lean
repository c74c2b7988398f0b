import BookSite.Markdown.Pipeline
import BookSite.Proofs.Markdown.AttributeEdits
import BookSite.Proofs.Markdown.ImageEdits
import BookSite.Proofs.Markdown.Include.ImportEdits

/-!
# Proofs/Markdown/Translation — the standard pipeline as one edit of lines

With imports in place of directives no stage can fail, so the standard pipeline is a function of the
page alone: five edits of lines one after another.  Each of them cuts the page into lines anew, so
what a later one takes for code depends on what the earlier ones made of the lines above.
-/

namespace BookSite

open Include Quote Image

/-! ## Pages on their way -/

/-- The page as the stage for quotes reads it. -/
def readByQuotes (page : Text) : Text :=
  moveAllAttributes (dropPlaygroundFlags (importPage (revealHiddenLines page)))

/-- The page as the stage for attributes reads it. -/
def readByAttributes (page : Text) : Text :=
  dropPlaygroundFlags (importPage (revealHiddenLines page))

theorem readByQuotes_eq (page : Text) :
    readByQuotes page = moveAllAttributes (readByAttributes page) := rfl

/-- The page as the stage for images reads it. -/
def readByImages (page : Text) : Text := containQuotes (readByQuotes page)

theorem apply_includes_translate (fs : FileSystem) (path? : Option Path) (page : Text) :
    (Stage.includes .translate).apply fs path? page = .ok (importPage page) := by
  rw [Stage.apply]
  cases h : hasDirective page with
  | true => rfl
  | false => exact congrArg Except.ok (importPage_eq_self h).symm

/-- **Only including files can fail**: behind it the pipeline goes through with what it gives. -/
theorem convert_standard (fs : FileSystem) (path? : Option Path) (mode : IncludeMode)
    (page : Text) :
    (Pipeline.standard mode).convert fs path? page =
      ((Stage.includes mode).apply fs path? (revealHiddenLines page)).map fun included =>
        rootImages (containQuotes (moveAllAttributes (dropPlaygroundFlags included))) := by
  have hbind : ∀ (t : Text) (f : Text → Except StageError Text), (Except.ok t >>= f) = f t :=
    fun _ _ => rfl
  have hhidden : ∀ t, Stage.hiddenLines.apply fs path? t = .ok (revealHiddenLines t) :=
    fun _ => rfl
  have hplayground : ∀ t, Stage.playground.apply fs path? t = .ok (dropPlaygroundFlags t) :=
    fun _ => rfl
  have hattributes : ∀ t, Stage.attributes.apply fs path? t = .ok (moveAllAttributes t) :=
    fun _ => rfl
  have hmath : ∀ t, Stage.math.apply fs path? t = .ok t := fun _ => rfl
  have hquotes : ∀ t, Stage.quotes.apply fs path? t = .ok (containQuotes t) := fun _ => rfl
  have himages : ∀ t, Stage.images.apply fs path? t = .ok (rootImages t) := fun _ => rfl
  simp only [Pipeline.convert, Pipeline.standard, List.foldlM_cons, List.foldlM_nil, hbind, hhidden,
    hplayground, hattributes, hmath, hquotes, himages]
  cases (Stage.includes mode).apply fs path? (revealHiddenLines page) with
  | error e => rfl
  | ok included => rfl

/-- **Translating never fails**, and neither the files nor the path of the page matter to it. -/
theorem convert_translate (fs : FileSystem) (path? : Option Path) (page : Text) :
    (Pipeline.standard .translate).convert fs path? page =
      .ok (rootImages (readByImages page)) := by
  rw [convert_standard, apply_includes_translate]
  rfl

/-! ## Lines on their way -/

/-- The lines of a page with its hidden lines shown. -/
def revealedLines (lines : List Text) : List Text := mapLines (editLine .code revealLine?) lines

/-- The lines of a page without playground flags. -/
def plainFences (lines : List Text) : List Text :=
  mapLines (editLine .fenceOpen plainFence?) lines

/-- The lines that the stage for quotes reads. -/
def linesReadByQuotes (lines : List Text) : List Text :=
  attributeLines (plainFences (importLines (revealedLines lines)))

/-- The lines that the stage for images reads. -/
def linesReadByImages (lines : List Text) : List Text := quoteLines (linesReadByQuotes lines)

/-- **The lines of the translated page.** -/
def translatedLines (lines : List Text) : List Text := imageLines (linesReadByImages lines)

section Lines

variable {lines : List Text} (h : Text.ArePageLines lines)

include h

theorem arePageLines_revealedLines : Text.ArePageLines (revealedLines lines) :=
  arePageLines_mapLines (newline_not_mem_editLine fun _ _ => newline_not_mem_of_revealLine?) h

theorem arePageLines_plainFences : Text.ArePageLines (plainFences lines) :=
  arePageLines_mapLines (newline_not_mem_editLine fun _ _ => newline_not_mem_of_plainFence?) h

theorem arePageLines_linesReadByQuotes : Text.ArePageLines (linesReadByQuotes lines) :=
  arePageLines_attributeLines
    (arePageLines_plainFences (arePageLines_importLines (arePageLines_revealedLines h)))

theorem arePageLines_linesReadByImages : Text.ArePageLines (linesReadByImages lines) :=
  arePageLines_quoteLines (arePageLines_linesReadByQuotes h)

end Lines

section Page

variable (page : Text)

theorem segments_readByAttributes :
    (readByAttributes page).segments = plainFences (importLines (revealedLines page.segments)) := by
  rw [readByAttributes, dropPlaygroundFlags,
    segments_editLines (fun _ _ => newline_not_mem_of_plainFence?), segments_importPage_eq,
    revealHiddenLines, segments_editLines (fun _ _ => newline_not_mem_of_revealLine?)]
  rfl

theorem segments_readByQuotes : (readByQuotes page).segments = linesReadByQuotes page.segments := by
  rw [readByQuotes_eq, segments_moveAllAttributes, segments_readByAttributes]
  rfl

theorem segments_readByImages : (readByImages page).segments = linesReadByImages page.segments := by
  rw [readByImages, segments_containQuotes, segments_readByQuotes]
  rfl

/-- **The lines of the translated page** are the edited lines of the page. -/
theorem segments_rootImages_readByImages :
    (rootImages (readByImages page)).segments = translatedLines page.segments := by
  rw [segments_rootImages, segments_readByImages]
  rfl

end Page

/-! ## Regions on their way -/

theorem regionBehind_revealedLines (lines : List Text) :
    regionBehind (revealedLines lines) = regionBehind lines :=
  keepsFences_revealLine.regionBehind_mapLines lines

theorem regionBehind_plainFences (lines : List Text) :
    regionBehind (plainFences lines) = regionBehind lines :=
  keepsFences_plainFence.regionBehind_mapLines lines

/-- **Up to the attributes the regions stay.** -/
theorem regionBehind_plainFences_importLines_revealedLines (lines : List Text) :
    regionBehind (plainFences (importLines (revealedLines lines))) = regionBehind lines := by
  rw [regionBehind_plainFences, regionBehind_importLines, regionBehind_revealedLines]

end BookSite
