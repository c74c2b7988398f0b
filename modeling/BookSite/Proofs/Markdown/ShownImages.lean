import BookSite.Proofs.Files.Place
import BookSite.Proofs.Markdown.Translation

/-!
# Proofs/Markdown/ShownImages — the images of a page and the paths that are written for them

The last stage finds the images of a page outside of its code and writes each with a rooted path.
Wherever one starts from, a rooted path leads to the same place as the path it is made of
(`placeFrom_rootPath`).
-/

namespace BookSite

/-! ## The stage before -/

/-- The stages of the standard pipeline before that for images. -/
def Pipeline.beforeImages (mode : IncludeMode) : Pipeline :=
  ⟨[.hiddenLines, .includes mode, .playground, .attributes, .math, .quotes]⟩

/-- **The standard pipeline** roots the images of what the stages before give. -/
theorem Pipeline.convert_standard_eq_ok {fs : FileSystem} {path? : Option Path} {mode : IncludeMode}
    {page converted : Text} (h : (standard mode).convert fs path? page = .ok converted) :
    ∃ shown, (beforeImages mode).convert fs path? page = .ok shown ∧
      converted = Image.rootImages shown := by
  have hstages : (standard mode).stages = (beforeImages mode).stages ++ [.images] := rfl
  rw [convert, hstages, List.foldlM_append] at h
  obtain ⟨shown, hshown, himages⟩ := bind_eq_ok.mp h
  cases himages
  exact ⟨shown, hshown, rfl⟩

/-- With imports in place of directives those stages never fail. -/
theorem Pipeline.convert_beforeImages_translate (fs : FileSystem) (path? : Option Path)
    (page : Text) : (beforeImages .translate).convert fs path? page = .ok (readByImages page) := by
  rw [convert, beforeImages, List.foldlM_cons]
  refine bind_eq_ok.mpr ⟨revealHiddenLines page, rfl, ?_⟩
  rw [List.foldlM_cons]
  exact bind_eq_ok.mpr ⟨_, apply_includes_translate fs path? _, rfl⟩

namespace Image

/-! ## Images -/

/-- What the scan for references finds in a line. -/
def tokensIn (line : Text) : List ReferenceToken := Text.tokens ReferenceToken.find line

/-- The code spans and images of a part of a page. -/
def tokensOfStretch : Stretch Line → List ReferenceToken
  | .run first more =>
    (replaceTags (Text.unlines ((first :: more).map Line.text))).segments.flatMap tokensIn
  | .single _ => []

/-- **The code spans and images of a page** outside of blocks of code, as the stage for images finds
them. -/
def shownTokens (page : Text) : List ReferenceToken :=
  (runs (·.kind == .text) (classify page)).flatMap tokensOfStretch

theorem isInfix_rootReferences {line alt path title : Text}
    (h : .image alt path title ∈ tokensIn line) (hpath : path.startsWith ['#'] = false) :
    reference alt (rootPath path) title <:+: rootReferences line := by
  obtain ⟨wording, hpiece⟩ := Text.mem_tokens_iff.mp h
  have hwritten : _ <:+: rootReferences line := Text.write_isInfix hpiece
  simpa only [hpath, Bool.false_eq_true, if_false] using hwritten

/-- **The converted page shows each image** with its path rooted. -/
theorem isInfix_rootImages {page alt path title : Text}
    (h : .image alt path title ∈ shownTokens page) (hpath : path.startsWith ['#'] = false) :
    reference alt (rootPath path) title <:+: rootImages page := by
  obtain ⟨stretch, hstretch, htoken⟩ := List.mem_flatMap.mp h
  cases stretch with
  | single line => cases htoken
  | run first more =>
    obtain ⟨line, hline, htoken⟩ := List.mem_flatMap.mp htoken
    refine (isInfix_rootReferences htoken hpath).trans (Text.isInfix_unlines ?_)
    exact List.mem_flatMap.mpr ⟨_, hstretch, List.mem_map_of_mem hline⟩

/-! ## Paths -/

/-- **A rooted path** leads to the place that the path leads to. -/
theorem placeFrom_rootPath (place : List Text) (path : Text) :
    placeFrom place (Path.segments ⟨rootPath path⟩) = placeFrom place (Path.segments ⟨path⟩) := by
  have hslash : ∀ t : Text, placeFrom place (Path.segments ⟨'/' :: t⟩) =
      placeFrom place (Path.segments ⟨t⟩) := fun t => by
    have hsegments := Path.segments_append_slash [] t
    rw [List.nil_append] at hsegments
    rw [hsegments]
    rfl
  rw [rootPath]
  split
  · rfl
  · rw [hslash, Text.dropLeading]
    cases hrest : path.behind? ['.', '/'] with
    | none => rfl
    | some rest =>
      rw [Text.behind?_eq_some_iff.mp hrest, Option.getD_some]
      exact (congrArg (placeFrom place) (Path.segments_append_slash ['.'] rest)).symm

end Image

end BookSite
