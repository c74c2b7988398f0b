import BookSite.Markdown.Include.Excerpt

/-!
# Proofs/Markdown/Include/LineNumbers — lines selected by their numbers

Lines are numbered from 1, and a selection of lines takes those whose numbers lie within its bounds,
both included.  Lines with anchor markers are numbered with all others and left out afterwards, so a
page cut in two behind any line is the whole page again.
-/

namespace BookSite.Include

/-! ## Numbered lines -/

/-- **The lines whose numbers satisfy `p`**; the first line has number 1. -/
def linesNumbered (p : Nat → Prop) [DecidablePred p] (lines : List Text) : List Text :=
  ((lines.zipIdx 1).filter fun numbered => p numbered.2).map Prod.fst

section Numbers

variable {α : Type}

/-- Numbers from a bound on: the lines before it are dropped. -/
theorem filter_le_zipIdx (first n : Nat) (xs : List α) :
    ((xs.zipIdx n).filter fun numbered => first ≤ numbered.2) =
      (xs.drop (first - n)).zipIdx (max first n) := by
  induction xs generalizing n with
  | nil => simp
  | cons x xs ih =>
    rw [List.zipIdx_cons]
    by_cases h : first ≤ n
    · rw [List.filter_cons_of_pos (by simpa using h), ih, Nat.sub_eq_zero_of_le h,
        Nat.sub_eq_zero_of_le (by omega), Nat.max_eq_right h, Nat.max_eq_right (by omega)]
      rfl
    · obtain ⟨d, hd⟩ := Nat.exists_eq_add_of_lt (Nat.lt_of_not_le h)
      rw [List.filter_cons_of_neg (by simpa using h), ih, show first - n = d + 1 by omega,
        show first - (n + 1) = d by omega, show max first (n + 1) = max first n by omega]
      rfl

/-- Numbers up to a bound: no more lines are taken than there are such numbers. -/
theorem filter_ge_zipIdx (last n : Nat) (xs : List α) :
    ((xs.zipIdx n).filter fun numbered => numbered.2 ≤ last) =
      (xs.take (last + 1 - n)).zipIdx n := by
  induction xs generalizing n with
  | nil => simp
  | cons x xs ih =>
    rw [List.zipIdx_cons]
    by_cases h : n ≤ last
    · rw [List.filter_cons_of_pos (by simpa using h), ih,
        show last + 1 - n = (last + 1 - (n + 1)) + 1 by omega]
      rfl
    · rw [List.filter_cons_of_neg (by simpa using h), ih,
        Nat.sub_eq_zero_of_le (show last + 1 ≤ n by omega),
        Nat.sub_eq_zero_of_le (show last + 1 ≤ n + 1 by omega)]
      rfl

end Numbers

theorem linesNumbered_from (first : Nat) (lines : List Text) :
    linesNumbered (max 1 first ≤ ·) lines = lines.drop (first - 1) := by
  rw [linesNumbered, filter_le_zipIdx, List.zipIdx_map_fst,
    show max 1 first - 1 = first - 1 by omega]

theorem linesNumbered_upTo (last : Nat) (lines : List Text) :
    linesNumbered (· ≤ last) lines = lines.take last := by
  rw [linesNumbered, filter_ge_zipIdx, List.zipIdx_map_fst, Nat.add_sub_cancel]

theorem linesNumbered_all (lines : List Text) : linesNumbered (fun _ => True) lines = lines := by
  rw [linesNumbered, List.filter_eq_self.mpr (by simp), List.zipIdx_map_fst]

theorem linesNumbered_within (first last : Nat) (lines : List Text) :
    linesNumbered (fun i => max 1 first ≤ i ∧ i ≤ last) lines =
      (lines.drop (first - 1)).take (last - (first - 1)) := by
  have hboth : ((lines.zipIdx 1).filter fun numbered =>
      decide (max 1 first ≤ numbered.2 ∧ numbered.2 ≤ last)) =
        ((lines.zipIdx 1).filter fun numbered => max 1 first ≤ numbered.2).filter
          fun numbered => numbered.2 ≤ last := by
    rw [List.filter_filter]
    exact List.filter_congr fun _ _ => by rw [Bool.decide_and, Bool.and_comm]
  rw [linesNumbered, hboth, filter_le_zipIdx, filter_ge_zipIdx, List.zipIdx_map_fst,
    show max 1 first - 1 = first - 1 by omega,
    show last + 1 - max (max 1 first) 1 = last - (first - 1) by omega]

/-! ## Excerpts -/

/-- **The lines that an excerpt is made of**: the selected ones without anchor markers. -/
def Selection.keptLines? (selection : Selection) (t : Text) : Option (List Text) :=
  (selection.lines? t.lines).map (List.filter (!isMarkerLine ·))

theorem Selection.excerpt?_eq (selection : Selection) (t : Text) :
    selection.excerpt? t = (selection.keptLines? t).map Text.unlines :=
  (Option.map_map ..).symm

/-- The lines of a text whose numbers satisfy `p`, without those that hold anchor markers. -/
def keptNumbered (p : Nat → Prop) [DecidablePred p] (t : Text) : List Text :=
  (linesNumbered p t.lines).filter (!isMarkerLine ·)

/-- **Selections are exact at every bound.**  A range gives the lines from the first bound, or from
line 1, up to the last bound; with one bound only, the other end is that of the text; and without
bounds all lines are given.  There is always an excerpt.  So what is kept up to a line and what is
kept from the next line on are together all that is kept. -/
theorem excerpts_by_line_numbers (t : Text) :
    (∀ first last, (Selection.range first last).excerpt? t =
      some (Text.unlines (keptNumbered (fun i => max 1 first ≤ i ∧ i ≤ last) t))) ∧
    (∀ first, (Selection.starting first).excerpt? t =
      some (Text.unlines (keptNumbered (max 1 first ≤ ·) t))) ∧
    (∀ last, (Selection.ending last).excerpt? t =
      some (Text.unlines (keptNumbered (· ≤ last) t))) ∧
    Selection.all.excerpt? t = some (Text.unlines (keptNumbered (fun _ => True) t)) ∧
    ∀ k, ∃ upTo behind, (Selection.ending k).keptLines? t = some upTo ∧
      (Selection.starting (k + 1)).keptLines? t = some behind ∧
      Selection.all.keptLines? t = some (upTo ++ behind) := by
  refine ⟨fun first last => ?_, fun first => ?_, fun last => ?_, ?_, fun k => ?_⟩
  · rw [keptNumbered, linesNumbered_within]
    rfl
  · rw [keptNumbered, linesNumbered_from]
    rfl
  · rw [keptNumbered, linesNumbered_upTo]
    rfl
  · rw [keptNumbered, linesNumbered_all]
    rfl
  · refine ⟨_, _, rfl, rfl, ?_⟩
    rw [Nat.add_sub_cancel, ← List.filter_append, List.take_append_drop]
    rfl

end BookSite.Include
