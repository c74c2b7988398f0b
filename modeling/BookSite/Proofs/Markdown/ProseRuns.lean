import BookSite.Proofs.Markdown.KeptFences
import BookSite.Proofs.Markdown.PlainPage
import BookSite.Proofs.Markdown.RunParts
import BookSite.Proofs.Markdown.ShownImages

/-!
# Proofs/Markdown/ProseRuns — rooting images, run by run

The stage for images sees a page as its runs of prose.  It edits each of them on its own
(`rootRun`), and the edited texts are again the runs of prose of the result
(`proseRuns_rootImages`).  So a page stays just when each of its runs does.
-/

namespace BookSite.Image

/-- A line of prose. -/
def isProse (line : Line) : Bool := line.kind == .text

/-- The text of a run of prose. -/
def proseText? : Stretch Line → Option Text
  | .run first more => some (Text.unlines ((first :: more).map Line.text))
  | .single _ => none

/-- **The runs of prose of a page**, the lines of each joined. -/
def proseRuns (page : Text) : List Text := (runs isProse (classify page)).filterMap proseText?

/-- **The edit of a run**: tags are replaced over the whole run, references line by line. -/
def rootRun (t : Text) : Text := Text.unlines ((replaceTags t).segments.map rootReferences)

theorem segments_rootRun (t : Text) :
    (rootRun t).segments = (replaceTags t).segments.map rootReferences := by
  refine Text.segments_unlines (by simp [Text.segments_ne_nil]) (List.forall_mem_map.mpr ?_)
  exact fun l hl => newline_not_mem_rootReferences (Text.newline_not_mem_of_mem_segments hl)

/-! ## The runs of the result -/

/-- A part of the page with its images rooted. -/
def rootPart : Stretch Line → Stretch Line
  | .single line => .single line
  | .run first more =>
    match convertRun ((first :: more).map Line.text) with
    | l :: ls => .run ⟨l, .text⟩ (ls.map fun l => ⟨l, .text⟩)
    | [] => .run first more

/-- A run becomes a run of the lines that it is converted to. -/
theorem exists_rootPart_run (first : Line) (more : List Line) :
    ∃ l ls, convertRun ((first :: more).map Line.text) = l :: ls ∧
      rootPart (.run first more) = .run ⟨l, .text⟩ (ls.map fun l => ⟨l, .text⟩) := by
  obtain ⟨s, ss, hs⟩ := List.exists_cons_of_ne_nil
    (Text.segments_ne_nil (replaceTags (Text.unlines ((first :: more).map Line.text))))
  have hlines : convertRun ((first :: more).map Line.text) =
      rootReferences s :: ss.map rootReferences := by rw [convertRun, hs, List.map_cons]
  exact ⟨_, _, hlines, by rw [rootPart, hlines]⟩

theorem elements_rootPart (part : Stretch Line) :
    (rootPart part).elements = classifiedStretch part := by
  cases part with
  | single line => rfl
  | run first more =>
    obtain ⟨l, ls, hlines, hrun⟩ := exists_rootPart_run first more
    rw [hrun, classifiedStretch, hlines]
    rfl

theorem isRun_rootPart (part : Stretch Line) : (rootPart part).isRun = part.isRun := by
  cases part with
  | single line => rfl
  | run first more =>
    obtain ⟨l, ls, -, hrun⟩ := exists_rootPart_run first more
    rw [hrun]
    rfl

theorem proseText?_rootPart (part : Stretch Line) :
    proseText? (rootPart part) = (proseText? part).map rootRun := by
  cases part with
  | single line => rfl
  | run first more =>
    obtain ⟨l, ls, hlines, hrun⟩ := exists_rootPart_run first more
    have htexts : (ls.map fun l => (⟨l, .text⟩ : Line)).map Line.text = ls := by
      rw [List.map_map]
      exact List.map_id ls
    rw [hrun, proseText?, List.map_cons, htexts, ← hlines]
    rfl

/-- **The runs of the result** are the runs of the page, each of them edited. -/
theorem proseRuns_rootImages (page : Text) :
    proseRuns (rootImages page) = (proseRuns page).map rootRun := by
  have hparts : AreRuns isProse ((runs isProse (classify page)).map rootPart) := by
    refine (areRuns_runs isProse (classify page)).map fun part hpart => ⟨isRun_rootPart part, ?_⟩
    cases part with
    | single line => exact (areRuns_runs isProse (classify page)).respects _ hpart
    | run first more =>
      intro line hline
      rw [elements_rootPart] at hline
      obtain ⟨l, -, rfl⟩ := List.mem_map.mp hline
      rw [isRun_rootPart]
      rfl
  have hclassified : classify (rootImages page) =
      ((runs isProse (classify page)).map rootPart).flatMap Stretch.elements := by
    rw [classify_rootImages, List.flatMap_map]
    exact List.flatMap_congr fun part _ => (elements_rootPart part).symm
  rw [proseRuns, hclassified, hparts.runs_flatMap_elements, List.filterMap_map, proseRuns,
    List.map_filterMap]
  exact congrArg (List.filterMap · _) (funext proseText?_rootPart)

theorem arePageLines_of_run_mem {page : Text} {first : Line} {more : List Line}
    (h : .run first more ∈ runs isProse (classify page)) :
    Text.ArePageLines ((first :: more).map Line.text) := by
  refine ⟨by simp, List.forall_mem_map.mpr fun line hline => ?_⟩
  exact (Text.arePageLines_segments page).newline_not_mem_text (mem_of_mem_runs h line hline)

/-- **A page stays** just when every run of prose of it stays. -/
theorem rootImages_eq_self_iff_runs {page : Text} :
    rootImages page = page ↔ ∀ t ∈ proseRuns page, rootRun t = t := by
  constructor
  · intro h
    have hruns := proseRuns_rootImages page
    rw [h] at hruns
    exact fun t ht => List.map_inj_left.mp (hruns.symm.trans (List.map_id' _).symm) t ht
  · intro h
    have hlines : imageLines page.segments = page.segments := by
      refine editRuns_eq_self fun part hpart => ?_
      cases part with
      | single line => rfl
      | run first more =>
        have htexts := arePageLines_of_run_mem hpart
        have hrun := h _ (List.mem_filterMap.mpr ⟨_, hpart, rfl⟩)
        change convertRun _ = (first :: more).map Line.text
        rw [convertRun, ← segments_rootRun, hrun, htexts.segments_unlines]
    rw [rootImages_eq, hlines, Text.unlines_segments]

/-! ## What the runs show -/

/-- The code spans and images in the prose of a page, line by line. -/
def proseTokens (page : Text) : List ReferenceToken :=
  ((classify page).filter isProse).flatMap fun line => tokensIn line.text

theorem proseTokens_eq (page : Text) :
    proseTokens page = (proseRuns page).flatMap fun t => t.segments.flatMap tokensIn := by
  rw [proseTokens, ← flatMap_elements_runs isProse (classify page), List.filter_flatMap,
    List.flatMap_assoc, proseRuns, List.filterMap_eq_flatMap_toList, List.flatMap_assoc]
  refine List.flatMap_congr fun part hpart => ?_
  have hrespects := (areRuns_runs isProse (classify page)).respects _ hpart
  cases part with
  | single line =>
    have hline : isProse line = false := hrespects line List.mem_cons_self
    rw [Stretch.elements, List.filter_cons_of_neg (ne_true_of_eq_false hline)]
    rfl
  | run first more =>
    rw [List.filter_eq_self.mpr hrespects, proseText?, Option.toList_some, List.flatMap_singleton,
      (arePageLines_of_run_mem hpart).segments_unlines, List.flatMap_map]
    rfl

theorem shownTokens_eq (page : Text) : shownTokens page =
    (proseRuns page).flatMap fun t => (replaceTags t).segments.flatMap tokensIn := by
  rw [proseRuns, List.filterMap_eq_flatMap_toList, List.flatMap_assoc]
  refine List.flatMap_congr fun part _ => ?_
  cases part with
  | single line => rfl
  | run first more => simp [tokensOfStretch, proseText?]

/-- The source of a tag: the first value of `src` that is not empty. -/
def tagSource? (attributes : Text) : Option Text :=
  value? (!·.isEmpty) "src".toList attributes

theorem tagReference?_eq_none_iff {attributes : Text} :
    tagReference? attributes = none ↔ tagSource? attributes = none := Option.map_eq_none_iff

/-- **The tags of a page** outside of blocks of code, as the stage for images finds them. -/
def shownTags (page : Text) : List TagToken := (proseRuns page).flatMap tagsIn

end BookSite.Image
