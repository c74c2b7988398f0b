import BookSite.Proofs.Markdown.RunEdits
import Mathlib.Data.List.Chain

/-!
# Proofs/Markdown/RunParts — parts that are the runs of their elements

The runs of a list are told by two properties of its parts: a part is a run when its elements
satisfy `p`, and no run follows another (`AreRuns`).  So parts that are rewritten one by one, runs
to runs, are again the runs of what they are written to.
-/

namespace BookSite

variable {α β : Type} {p : α → Bool} {q : β → Bool}

namespace Stretch

/-- Whether a part is a run. -/
@[simp] def isRun : Stretch α → Bool
  | run _ _ => true
  | single _ => false

/-- The elements of a run satisfy `p`, and an element outside all runs does not. -/
def Respects (p : α → Bool) (s : Stretch α) : Prop := ∀ a ∈ s.elements, p a = s.isRun

/-- No run begins the parts, so that a run may stand before them. -/
def BeginsApart (parts : List (Stretch α)) : Prop := ∀ s ∈ parts.head?, s.isRun = false

theorem cons_of_beginsApart {a : α} (ha : p a = true) {parts : List (Stretch α)}
    (h : BeginsApart parts) : cons p a parts = run a [] :: parts := by
  cases parts with
  | nil => exact if_pos ha
  | cons s parts =>
    cases s with
    | single b => exact if_pos ha
    | run first more => cases h _ rfl

theorem cons_of_eq_false {a : α} (ha : p a = false) (parts : List (Stretch α)) :
    cons p a parts = single a :: parts :=
  if_neg (ne_true_of_eq_false ha)

end Stretch

open Stretch

/-- **A run** in front of parts that begin with none. -/
theorem runs_append_of_beginsApart {first : α} {more ys : List α}
    (hrun : ∀ a ∈ first :: more, p a = true) (hys : BeginsApart (runs p ys)) :
    runs p (first :: more ++ ys) = .run first more :: runs p ys := by
  obtain ⟨hfirst, hmore⟩ := List.forall_mem_cons.mp hrun
  induction more generalizing first with
  | nil => exact cons_of_beginsApart hfirst hys
  | cons m more ih =>
    rw [List.cons_append, runs, ih hmore (List.forall_mem_cons.mp hmore).1
      (List.forall_mem_cons.mp hmore).2, Stretch.cons, if_pos hfirst]

/-- **Parts cut as the runs of a list**: every run is of elements that satisfy `p`, what stands
between runs is not, and no run follows another. -/
structure AreRuns (p : α → Bool) (parts : List (Stretch α)) : Prop where
  respects : ∀ s ∈ parts, s.Respects p
  separated : parts.IsChain fun s s' => s.isRun = true → s'.isRun = false

namespace AreRuns

variable {parts : List (Stretch α)}

theorem of_cons {s : Stretch α} (h : AreRuns p (s :: parts)) : AreRuns p parts :=
  ⟨fun s' hs' => h.respects s' (List.mem_cons_of_mem s hs'), h.separated.tail⟩

/-- **Such parts are the runs of their elements.** -/
theorem runs_flatMap_elements (h : AreRuns p parts) :
    runs p (parts.flatMap Stretch.elements) = parts := by
  induction parts with
  | nil => rfl
  | cons s parts ih =>
    have hrest := ih h.of_cons
    have hs := h.respects s List.mem_cons_self
    rw [List.flatMap_cons]
    cases s with
    | single a =>
      have ha : p a = false := hs a List.mem_cons_self
      rw [Stretch.elements, List.singleton_append, runs, hrest, cons_of_eq_false ha]
    | run first more =>
      have hapart : BeginsApart (runs p (parts.flatMap Stretch.elements)) := fun s' hs' =>
        (List.isChain_cons.mp h.separated).1 s' (by rwa [hrest] at hs') rfl
      rw [Stretch.elements, runs_append_of_beginsApart hs hapart, hrest]

/-- **Parts rewritten one by one**, runs to runs. -/
theorem map {g : Stretch α → Stretch β} (h : AreRuns p parts)
    (hg : ∀ s ∈ parts, (g s).isRun = s.isRun ∧ (g s).Respects q) : AreRuns q (parts.map g) := by
  refine ⟨List.forall_mem_map.mpr fun s hs => (hg s hs).2, ?_⟩
  rw [List.isChain_map]
  refine h.separated.imp_of_mem_imp fun s s' hs hs' hone => ?_
  rwa [(hg s hs).1, (hg s' hs').1]

end AreRuns

/-- **The runs of a list** are cut so. -/
theorem areRuns_runs (p : α → Bool) (xs : List α) : AreRuns p (runs p xs) := by
  induction xs with
  | nil => exact ⟨by simp [runs], .nil⟩
  | cons x xs ih =>
    rw [runs]
    cases hx : p x with
    | false =>
      rw [cons_of_eq_false hx]
      refine ⟨List.forall_mem_cons.mpr ⟨?_, ih.respects⟩, ?_⟩
      · simpa [Stretch.Respects, Stretch.elements] using hx
      · exact List.isChain_cons.mpr ⟨fun s _ hrun => absurd hrun (by simp), ih.separated⟩
    | true =>
      by_cases hapart : BeginsApart (runs p xs)
      · rw [cons_of_beginsApart hx hapart]
        refine ⟨List.forall_mem_cons.mpr ⟨?_, ih.respects⟩, ?_⟩
        · simpa [Stretch.Respects, Stretch.elements] using hx
        · exact List.isChain_cons.mpr ⟨fun s hs _ => hapart s hs, ih.separated⟩
      · -- the run that begins the parts goes on with the element
        cases hruns : runs p xs with
        | nil =>
          rw [hruns] at hapart
          exact absurd (fun s hs => by cases hs) hapart
        | cons s rest =>
          rw [hruns] at hapart ih
          cases s with
          | single a => exact absurd (fun s hs => by cases hs; rfl) hapart
          | run first more =>
            rw [Stretch.cons, if_pos hx]
            refine ⟨List.forall_mem_cons.mpr ⟨?_, ih.of_cons.respects⟩, ?_⟩
            · exact List.forall_mem_cons.mpr ⟨hx, ih.respects _ List.mem_cons_self⟩
            · have hseparated := List.isChain_cons.mp ih.separated
              exact List.isChain_cons.mpr hseparated

end BookSite
