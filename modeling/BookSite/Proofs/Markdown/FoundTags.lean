import BookSite.Proofs.Markdown.MathEdits

/-!
# Proofs/Markdown/FoundTags — what the scan for tags finds

A token begins at a backtick or at `<`.  A code span runs to the next backtick of its line, and a
tag to the next `>`.  In each of these cases it is said when something is found and what it is.
-/

namespace BookSite

/-- Whether a word ends is seen at the next character. -/
theorem wordEnds_append_cons (t : Text) (c : Char) (more : Text) :
    wordEnds (t ++ c :: more) = wordEnds (t ++ [c]) := by
  cases t <;> rfl

namespace Image

namespace TagToken

/-- Tokens begin at two characters only. -/
theorem find_eq_none_of_ne {c : Char} (hspan : c ≠ backtick) (htag : c ≠ '<') (rest : Text) :
    find (c :: rest) = none := by
  have hnospan : codeSpanLength? (c :: rest) = none := if_neg hspan
  have hnotag : tagInside? (c :: rest) = none := by
    have hmark : Text.behind? (c :: rest) ('<' :: "img".toList) = none :=
      if_neg (by simpa using Ne.symm htag)
    change Text.behind? (c :: rest) "<img".toList = none at hmark
    rw [tagInside?, hmark]
    rfl
  rw [find, hnospan, hnotag]
  rfl

/-- A code span ends at the next backtick, in the same line. -/
theorem find_codeSpan {inner : Text} (hspan : backtick ∉ inner) (hline : '\n' ∉ inner)
    (behind : Text) :
    find (backtick :: (inner ++ backtick :: behind)) = some (.codeSpan, inner.length + 2) := by
  have hinner : (inner ++ backtick :: behind).takeWhile (fun d => d != backtick && d != '\n') =
      inner := by
    rw [Text.takeWhile_append_cons (by simp), List.takeWhile_eq_self_iff]
    intro c hc
    rw [Bool.and_eq_true, bne_iff_ne, bne_iff_ne]
    exact ⟨ne_of_mem_of_not_mem hc hspan, ne_of_mem_of_not_mem hc hline⟩
  have hlength : codeSpanLength? (backtick :: (inner ++ backtick :: behind)) =
      some (inner.length + 2) := by
    unfold codeSpanLength?
    simp only [hinner, List.drop_left]
    rfl
  rw [find, hlength]

theorem exists_codeSpan {rest : Text} (h : backtick ∈ rest.takeWhile (· != '\n')) :
    ∃ inner behind, backtick ∉ inner ∧ '\n' ∉ inner ∧ rest = inner ++ backtick :: behind := by
  obtain ⟨inner, more, hfront, hinner⟩ := List.eq_append_cons_of_mem h
  have hline := Text.not_mem_takeWhile_bne '\n' rest
  rw [hfront, List.mem_append, not_or] at hline
  refine ⟨inner, more ++ rest.dropWhile (· != '\n'), hinner, hline.1, ?_⟩
  rw [← List.cons_append, ← List.append_assoc, ← hfront, List.takeWhile_append_dropWhile]

/-- **A code span** begins at a backtick when another one stands behind it in its line. -/
theorem find_backtick_eq_none_iff {rest : Text} :
    find (backtick :: rest) = none ↔ backtick ∉ rest.takeWhile (· != '\n') := by
  constructor
  · intro h hmem
    obtain ⟨inner, behind, hinner, hline, rfl⟩ := exists_codeSpan hmem
    rw [find_codeSpan hinner hline] at h
    cases h
  · intro h
    have hnospan : codeSpanLength? (backtick :: rest) = none := by
      simp only [codeSpanLength?, if_true]
      refine if_neg fun hclosed => h ?_
      have hfront := List.takeWhile_prefix (l := rest) fun d => d != backtick && d != '\n'
      have hinner : ∀ c ∈ rest.takeWhile fun d => d != backtick && d != '\n',
          (c != '\n') = true := fun c hc => by
        have hkeeps := List.mem_takeWhile_imp hc
        rw [Bool.and_eq_true] at hkeeps
        exact hkeeps.2
      rw [List.prefix_iff_eq_append] at hfront
      rw [Text.startsWith, List.isPrefixOf_iff_prefix] at hclosed
      obtain ⟨behind, hbehind⟩ := hclosed
      rw [← hbehind] at hfront
      rw [← hfront, List.takeWhile_append_of_pos hinner]
      exact List.mem_append_right _ List.mem_cons_self
    have hnotag : tagInside? (backtick :: rest) = none := rfl
    rw [find, hnospan, hnotag]
    rfl

/-- What stands between the name of a tag and its end, without one slash before it. -/
def attributesOf (inside : Text) : Text := (inside.dropTrailing? ['/']).getD inside

/-- A tag ends at the next `>`, when its name ends where the attributes begin. -/
theorem find_tag {inside : Text} (hclose : '>' ∉ inside) (hname : wordEnds (inside ++ ['>']) = true)
    (behind : Text) : find ("<img".toList ++ (inside ++ '>' :: behind)) =
      some (.tag (attributesOf inside), inside.length + 5) := by
  have hends : wordEnds (inside ++ '>' :: behind) = true := by rw [wordEnds_append_cons, hname]
  have hmark : Text.behind? ("<img".toList ++ (inside ++ '>' :: behind)) "<img".toList =
      some (inside ++ '>' :: behind) := Text.behind?_eq_some_iff.mpr rfl
  have hinside : tagInside? ("<img".toList ++ (inside ++ '>' :: behind)) = some inside := by
    rw [tagInside?, hmark]
    simp [Text.takeWhile_bne_append hclose, hends]
  have hnospan : codeSpanLength? ("<img".toList ++ (inside ++ '>' :: behind)) = none := rfl
  rw [find, hnospan, hinside]
  rfl

theorem find_eq_none_of_not_tag {rest : Text}
    (h : ∀ r, '<' :: rest = "<img".toList ++ r → wordEnds r = true → '>' ∉ r) :
    find ('<' :: rest) = none := by
  have hnotag : tagInside? ('<' :: rest) = none := by
    rw [tagInside?]
    cases hmark : Text.behind? ('<' :: rest) "<img".toList with
    | none => rfl
    | some r =>
      cases hname : wordEnds r with
      | false => simp [hname]
      | true =>
        have hopen := h r (Text.behind?_eq_some_iff.mp hmark) hname
        simp [Text.takeWhile_bne hopen]
  have hnospan : codeSpanLength? ('<' :: rest) = none := rfl
  rw [find, hnospan, hnotag]
  rfl

theorem find_img_eq_none {r : Text} (h : wordEnds r = true → '>' ∉ r) :
    find ("<img".toList ++ r) = none := by
  change find ('<' :: ("img".toList ++ r)) = none
  refine find_eq_none_of_not_tag fun r' hr => ?_
  have hsame : "<img".toList ++ r = "<img".toList ++ r' := hr
  rwa [← List.append_cancel_left hsame]

/-- **What is found at a place**: a code span in one line, or a tag up to its first `>`. -/
theorem cases_of_find {s : Text} {found : TagToken} {n : Nat} (h : find s = some (found, n)) :
    (∃ inner behind, backtick ∉ inner ∧ '\n' ∉ inner ∧
        s = backtick :: (inner ++ backtick :: behind) ∧ found = codeSpan ∧ n = inner.length + 2) ∨
      ∃ inside behind, '>' ∉ inside ∧ wordEnds (inside ++ ['>']) = true ∧
        s = "<img".toList ++ (inside ++ '>' :: behind) ∧ found = tag (attributesOf inside) ∧
        n = inside.length + 5 := by
  cases s with
  | nil => cases h
  | cons c rest =>
    by_cases hspan : c = backtick
    · subst hspan
      left
      by_cases hclosed : backtick ∈ rest.takeWhile (· != '\n')
      · obtain ⟨inner, behind, hinner, hline, rfl⟩ := exists_codeSpan hclosed
        rw [find_codeSpan hinner hline] at h
        cases h
        exact ⟨inner, behind, hinner, hline, rfl, rfl, rfl⟩
      · rw [find_backtick_eq_none_iff.mpr hclosed] at h
        cases h
    by_cases htag : c = '<'
    · subst htag
      right
      by_cases hclosed : ∃ r, '<' :: rest = "<img".toList ++ r ∧ wordEnds r = true ∧ '>' ∈ r
      · obtain ⟨r, hr, hname, hmem⟩ := hclosed
        obtain ⟨inside, behind, rfl, hinside⟩ := List.eq_append_cons_of_mem hmem
        rw [wordEnds_append_cons] at hname
        rw [hr, find_tag hinside hname] at h
        cases h
        exact ⟨inside, behind, hinside, hname, hr, rfl, rfl⟩
      · rw [find_eq_none_of_not_tag fun r hr hname hmem => hclosed ⟨r, hr, hname, hmem⟩] at h
        cases h
    · rw [find_eq_none_of_ne hspan htag] at h
      cases h

/-- **A token is found where it is written**, whatever follows. -/
theorem find_take_append {s : Text} {found : TagToken} {n : Nat} (h : find s = some (found, n))
    (more : Text) : ∃ c w, s.take (n - 1 + 1) = c :: w ∧ w.length = n - 1 ∧
      find (c :: (w ++ more)) = some (found, n) := by
  obtain ⟨inner, behind, hinner, hline, rfl, rfl, rfl⟩ |
    ⟨inside, behind, hinside, hname, rfl, rfl, rfl⟩ := cases_of_find h
  · refine ⟨backtick, inner ++ [backtick], ?_, by simp, ?_⟩
    · rw [List.append_cons, ← List.cons_append]
      exact List.take_left' (by simp)
    · rw [List.append_assoc]
      exact find_codeSpan hinner hline more
  · refine ⟨'<', "img".toList ++ (inside ++ ['>']), ?_, ?_, ?_⟩
    · have hwording : "<img".toList ++ (inside ++ '>' :: behind) =
          '<' :: ("img".toList ++ (inside ++ ['>'])) ++ behind := by
        rw [List.append_cons]
        rfl
      rw [hwording]
      exact List.take_left' (by simp)
    · simp
    · have hagain := find_tag hinside hname more
      rw [List.append_cons] at hagain
      exact hagain

end TagToken

open TagToken

/-! ## One step of the scan -/

theorem tagsIn_cons_of_none {c : Char} {rest : Text} (h : find (c :: rest) = none) :
    tagsIn (c :: rest) = tagsIn rest :=
  Text.tokens_cons_of_none h

theorem tagsIn_cons_of_some {c : Char} {rest : Text} {found : TagToken} {n : Nat}
    (h : find (c :: rest) = some (found, n)) :
    tagsIn (c :: rest) = found :: tagsIn (rest.drop (n - 1)) :=
  Text.tokens_cons_of_some h

end Image

end BookSite
