import BookSite.Markdown.Stage
import BookSite.Proofs.Markdown.FenceFree
import Mathlib.Data.List.Forall2

/-!
# Proofs/Markdown/KeptFences — stages that move no fence

Showing hidden lines and dropping playground flags put one line in the place of each, of the same
kind.  Rooting images may change the number of prose lines, but a run of prose becomes a run of
prose.  So behind each of these stages the next one finds the same blocks with the same code.
-/

namespace BookSite

open Image

/-! ## A line for a line -/

/-- **Lines of one kind that are the same unless they are of the given kind.** -/
structure DifferOnlyIn (kind : LineKind) (old new : Line) : Prop where
  kind_eq : new.kind = old.kind
  eq_of_ne : old.kind ≠ kind → new = old

/-- The new lines are of the kinds of the old ones. -/
theorem KeepsFences.classifyFrom_map {f : Line → Text} (hf : KeepsFences f) (r : Region)
    (lines : List Text) :
    classifyFrom r ((classifyFrom r lines).map f) =
      (classifyFrom r lines).map fun line => ⟨f line, line.kind⟩ := by
  induction lines generalizing r with
  | nil => rfl
  | cons line rest ih =>
    rw [classifyFrom, List.map_cons, List.map_cons, classifyFrom, Region.kindOf_congr (hf r line),
      Region.after_congr (hf r line), ih]

theorem differOnlyIn_editLine (kind : LineKind) (edit? : Text → Option Text) (line : Line) :
    DifferOnlyIn kind line ⟨editLine kind edit? line, line.kind⟩ where
  kind_eq := rfl
  eq_of_ne hne := by rw [editLine, if_neg hne]

section EditLines

variable {kind : LineKind} {edit? : Text → Option Text}
  (hfences : KeepsFences (editLine kind edit?))
  (hnewline : ∀ l l', '\n' ∉ l → edit? l = some l' → '\n' ∉ l') (page : Text)

include hfences hnewline

/-- **The edited page, classified**: all kinds stay. -/
theorem classify_editLines :
    classify (editLines kind edit? page) =
      (classify page).map fun line => ⟨editLine kind edit? line, line.kind⟩ := by
  rw [classify, segments_editLines hnewline]
  exact hfences.classifyFrom_map .prose page.segments

/-- **An edit of the lines of one kind** that keeps fences changes nothing but such lines. -/
theorem forall₂_editLines :
    List.Forall₂ (DifferOnlyIn kind) (classify page) (classify (editLines kind edit? page)) := by
  rw [classify_editLines hfences hnewline, List.forall₂_map_right_iff, List.forall₂_same]
  exact fun line _ => differOnlyIn_editLine kind edit? line

end EditLines

/-! ## Runs of prose -/

namespace Image

/-- The lines a part of a page becomes, with their kinds. -/
def classifiedStretch : Stretch Line → List Line
  | .run first more => (convertRun ((first :: more).map Line.text)).map fun line => ⟨line, .text⟩
  | .single line => [line]

/-- **Converted parts are of the kinds they were.** -/
theorem classifyFrom_flatMap_convertStretch {parts : List (Stretch Line)} {r : Region}
    {lines : List Text} (h : classifyFrom r lines = parts.flatMap Stretch.elements)
    (hruns : ∀ first more, .run first more ∈ parts →
      ∀ line ∈ first :: more, line.kind = .text ∧ '\n' ∉ line.text) :
    classifyFrom r (parts.flatMap convertStretch) = parts.flatMap classifiedStretch := by
  induction parts generalizing r lines with
  | nil => rfl
  | cons part parts ih =>
    rw [List.flatMap_cons] at h
    obtain ⟨hpart, hparts⟩ := classifyFrom_eq_append h
    have hrest := ih hparts fun first more hrun => hruns first more (List.mem_cons_of_mem part hrun)
    rw [List.flatMap_cons, List.flatMap_cons, classifyFrom_append]
    cases part with
    | single line => exact congrArg₂ (· ++ ·) hpart hrest
    | run first more =>
      have hrun := hruns first more List.mem_cons_self
      have htexts : Text.ArePageLines ((first :: more).map Line.text) :=
        ⟨by simp, List.forall_mem_map.mpr fun line hline => (hrun line hline).2⟩
      have hkinds : ∀ line ∈ classifyFrom r ((first :: more).map Line.text), line.kind = .text := by
        rw [show classifyFrom r ((first :: more).map Line.text) = first :: more from hpart]
        exact fun line hline => (hrun line hline).1
      obtain ⟨hregion, hfence⟩ := eq_prose_of_classifyFrom hkinds
      have hprose := hregion (by simp)
      subst hprose
      have hconverted := not_isFence_of_mem_convertRun htexts hfence
      rw [Stretch.elements, Region.afterAll_of_forall_not_isFence hfence] at hrest
      rw [convertStretch, classifyFrom_of_forall_not_isFence .prose hconverted,
        Region.afterAll_of_forall_not_isFence hconverted, hrest]
      rfl

/-- **The page with its images rooted, classified.** -/
theorem classify_rootImages (page : Text) :
    classify (rootImages page) =
      (runs (·.kind == .text) (classify page)).flatMap classifiedStretch := by
  rw [classify, segments_rootImages]
  have hparts : classifyFrom .prose page.segments =
      (runs (·.kind == .text) (classify page)).flatMap Stretch.elements :=
    (flatMap_elements_runs _ _).symm
  refine classifyFrom_flatMap_convertStretch hparts fun first more hrun line hline => ⟨?_, ?_⟩
  · simpa using forall_mem_of_run_mem_runs hrun line hline
  · exact (Text.arePageLines_segments page).newline_not_mem_text
      (mem_of_mem_runs hrun line hline)

/-- **Outside of the prose nothing changes.** -/
theorem filter_classify_rootImages (page : Text) :
    (classify (rootImages page)).filter (·.kind != .text) =
      (classify page).filter (·.kind != .text) := by
  have hparts : ∀ part ∈ runs (fun line : Line => line.kind == .text) (classify page),
      (classifiedStretch part).filter (·.kind != .text) =
        part.elements.filter (·.kind != .text) := by
    intro part hpart
    cases part with
    | single line => rfl
    | run first more =>
      have htext := forall_mem_of_run_mem_runs hpart
      rw [Stretch.elements, List.filter_eq_nil_iff.mpr, List.filter_eq_nil_iff.mpr]
      · intro line hline
        simpa using htext line hline
      · simp [classifiedStretch]
  conv_rhs => rw [← flatMap_elements_runs (·.kind == .text) (classify page)]
  rw [classify_rootImages, List.filter_flatMap, List.filter_flatMap]
  exact List.flatMap_congr hparts

end Image

/-! ## The stages -/

/-- **Three stages move no fence.**  Showing hidden lines changes lines of code only, and dropping
playground flags fences that open a block only, so line for line all kinds stay.  Rooting images
keeps fences and code as they are, in their order. -/
theorem stages_move_no_fence (fs : FileSystem) (path? : Option Path) (page : Text) :
    (∃ out, Stage.hiddenLines.apply fs path? page = .ok out ∧
      List.Forall₂ (DifferOnlyIn .code) (classify page) (classify out)) ∧
    (∃ out, Stage.playground.apply fs path? page = .ok out ∧
      List.Forall₂ (DifferOnlyIn .fenceOpen) (classify page) (classify out)) ∧
    ∃ out, Stage.images.apply fs path? page = .ok out ∧
      (classify out).filter (·.kind != .text) = (classify page).filter (·.kind != .text) := by
  refine ⟨⟨_, rfl, ?_⟩, ⟨_, rfl, ?_⟩, ⟨_, rfl, filter_classify_rootImages page⟩⟩
  · exact forall₂_editLines keepsFences_revealLine (fun _ _ => newline_not_mem_of_revealLine?) page
  · exact forall₂_editLines keepsFences_plainFence (fun _ _ => newline_not_mem_of_plainFence?) page

end BookSite
