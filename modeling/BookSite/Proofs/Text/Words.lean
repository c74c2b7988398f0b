import BookSite.Proofs.Text.Blanks
import BookSite.Proofs.Text.Scanning
import Mathlib.Algebra.GroupWithZero.Nat

/-!
# Proofs/Text/Words — marks in texts that are cut and joined

Where a text is cut into words, or joined from parts, a mark that holds nothing of what stands
between them stands in one of them.  So words may be joined anew, with other blanks, and such marks
are where they were: pairs of dollars are counted word by word (`countPairs_eq_sum_words`).
-/

namespace BookSite.Text

/-! ## Words -/

/-- **Induction over the cuts of a text**: at none, or at the first one. -/
theorem splitOnP_induction {p : Char → Bool} {P : Text → List Text → Prop}
    (whole : ∀ t, (∀ c ∈ t, p c = false) → P t [t])
    (cut : ∀ first sep rest, (∀ c ∈ first, p c = false) → p sep = true →
      P rest (List.splitOnP p rest) → P (first ++ sep :: rest) (first :: List.splitOnP p rest))
    (t : Text) : P t (List.splitOnP p t) := by
  induction h : t.length using Nat.strongRecOn generalizing t with
  | ind k ih =>
    by_cases hall : ∀ c ∈ t, p c = false
    · rw [List.splitOnP_eq_singleton hall]
      exact whole t hall
    · have hlength : (t.takeWhile (!p ·)).length < t.length := by
        by_contra hle
        refine hall fun c hc => ?_
        have heq := (List.takeWhile_prefix (l := t) (!p ·)).eq_of_length_le (not_lt.mp hle)
        rw [← heq] at hc
        simpa using List.mem_takeWhile_imp hc
      obtain ⟨sep, rest, hsep, ht⟩ := exists_stop_of_length_takeWhile_lt hlength
      have hfirst : ∀ c ∈ t.takeWhile (!p ·), p c = false := fun c hc => by
        simpa using List.mem_takeWhile_imp hc
      have hrest := ih rest.length (by rw [← h, ht]; simp; omega) rest rfl
      rw [Bool.not_eq_false'] at hsep
      rw [ht, List.splitOnP_append_cons_of_forall_mem hfirst sep hsep]
      exact cut _ sep rest hfirst hsep hrest

theorem isInfix_of_mem_splitOnP {p : Char → Bool} (t : Text) :
    ∀ s ∈ List.splitOnP p t, s <:+: t := by
  induction t using splitOnP_induction (p := p) with
  | whole t _ =>
    intro s hs
    obtain rfl := List.mem_singleton.mp hs
    exact List.infix_refl s
  | cut first sep rest _ _ ih =>
    intro s hs
    rcases List.mem_cons.mp hs with rfl | hs
    · exact (List.prefix_append s _).isInfix
    · exact (ih s hs).trans ((List.suffix_cons sep rest).trans (List.suffix_append _ _)).isInfix

/-- **A word** stands in its text. -/
theorem isInfix_of_mem_words {t w : Text} (h : w ∈ t.words) : w <:+: t :=
  isInfix_of_mem_splitOnP t w (List.mem_filter.mp h).1

/-! ## Marks at the end -/

/-- A mark without the stop ends a text when it ends what stands behind the stop. -/
theorem isSuffix_append_cons_iff {mark : Text} {stop : Char} (h : stop ∉ mark) {t more : Text} :
    mark <:+ t ++ stop :: more ↔ mark <:+ more := by
  have hmore : more <:+ t ++ stop :: more :=
    (List.suffix_cons stop more).trans (List.suffix_append t _)
  refine ⟨fun hmark => ?_, fun hmark => hmark.trans hmore⟩
  rcases le_or_gt mark.length more.length with hle | hlt
  · exact List.suffix_of_suffix_length_le hmark hmore hle
  · have hstop : stop :: more <:+ mark :=
      List.suffix_of_suffix_length_le (List.suffix_append t _) hmark hlt
    exact absurd (hstop.mem List.mem_cons_self) h

/-! ## Joined texts -/

theorem joinWith_cons {sep : Text} {p : Text} {parts : List Text} (h : parts ≠ []) :
    joinWith sep (p :: parts) = p ++ sep ++ joinWith sep parts :=
  List.intercalate_cons_of_ne_nil h

@[simp] theorem joinWith_singleton (sep p : Text) : joinWith sep [p] = p :=
  List.intercalate_singleton

/-- The last part ends a joined text. -/
theorem isSuffix_joinWith_concat (sep : Text) (front : List Text) (last : Text) :
    last <:+ joinWith sep (front ++ [last]) := by
  induction front with
  | nil => simp
  | cons p front ih =>
    rw [List.cons_append, joinWith_cons (by simp)]
    exact ih.trans (List.suffix_append _ _)

/-- **A mark without the separator** stands in one of the parts. -/
theorem exists_isInfix_of_isInfix_joinWith {mark : Text} {sep : Char} (hne : mark ≠ [])
    (hsep : sep ∉ mark) {parts : List Text} (h : mark <:+: joinWith [sep] parts) :
    ∃ p ∈ parts, mark <:+: p := by
  induction parts with
  | nil => exact absurd (List.infix_nil.mp h) hne
  | cons p parts ih =>
    by_cases hparts : parts = []
    · subst hparts
      exact ⟨p, by simp, by rwa [joinWith_singleton] at h⟩
    · rw [joinWith_cons hparts, List.append_assoc] at h
      rcases isInfix_of_isInfix_append_cons hsep h with h | h
      · exact ⟨p, by simp, h⟩
      · obtain ⟨q, hq, hmark⟩ := ih h
        exact ⟨q, List.mem_cons_of_mem p hq, hmark⟩

/-- **A mark without the separator** ends the joined text when it ends the last part. -/
theorem isSuffix_joinWith_iff {mark : Text} {sep : Char} (hne : mark ≠ []) (hsep : sep ∉ mark)
    (parts : List Text) :
    mark <:+ joinWith [sep] parts ↔ ∃ p ∈ parts.getLast?, mark <:+ p := by
  induction parts with
  | nil => simpa [joinWith] using hne
  | cons p parts ih =>
    by_cases hparts : parts = []
    · simp [hparts]
    · obtain ⟨q, rest, rfl⟩ := List.exists_cons_of_ne_nil hparts
      rw [joinWith_cons hparts, List.append_assoc, List.singleton_append,
        isSuffix_append_cons_iff hsep, ih, List.getLast?_cons_cons]

/-! ## Counting pairs -/

section CountPairs

variable {d : Char}

@[simp] theorem countPairs_nil : countPairs d d [] = 0 := rfl

theorem countPairs_cons_of_ne {sep : Char} (h : sep ≠ d) (more : Text) :
    countPairs d d (sep :: more) = countPairs d d more := by
  cases more with
  | nil => rfl
  | cons c more => simp [countPairs, h]

/-- **Pairs are counted on both sides** of a character that belongs to none. -/
theorem countPairs_append_cons {sep : Char} (h : sep ≠ d) (t more : Text) :
    countPairs d d (t ++ sep :: more) = countPairs d d t + countPairs d d more := by
  fun_induction countPairs d d t with
  | case1 c c' rest hpair ih =>
    rw [List.cons_append, List.cons_append, countPairs, if_pos hpair, ih]
    omega
  | case2 c c' rest hpair ih =>
    rw [List.cons_append, List.cons_append, countPairs, if_neg hpair]
    exact ih
  | case3 t hshort =>
    cases t with
    | nil => simpa using countPairs_cons_of_ne h more
    | cons c t =>
      cases t with
      | nil => simp [countPairs, h, countPairs_cons_of_ne h]
      | cons c' rest => exact absurd rfl (hshort c c' rest)

/-- A text without the character holds no pair. -/
theorem countPairs_eq_zero {t : Text} (h : d ∉ t) : countPairs d d t = 0 := by
  induction t with
  | nil => rfl
  | cons c t ih =>
    rw [List.mem_cons, not_or] at h
    rw [countPairs_cons_of_ne (Ne.symm h.1), ih h.2]

/-- Blanks behind a text hold no pair. -/
theorem countPairs_append_of_blank (h : isBlank d = false) {blanks : Text}
    (hblanks : ∀ c ∈ blanks, isBlank c = true) (t : Text) :
    countPairs d d (t ++ blanks) = countPairs d d t := by
  have hne : ∀ c ∈ blanks, c ≠ d := by
    rintro c hc rfl
    rw [hblanks c hc] at h
    cases h
  cases blanks with
  | nil => rw [List.append_nil]
  | cons c blanks =>
    have hmore : countPairs d d blanks = 0 :=
      countPairs_eq_zero fun hmem => hne d (List.mem_cons_of_mem c hmem) rfl
    rw [countPairs_append_cons (hne c List.mem_cons_self), hmore, Nat.add_zero]

theorem countPairs_joinWith {sep : Char} (h : sep ≠ d) (parts : List Text) :
    countPairs d d (joinWith [sep] parts) = (parts.map (countPairs d d)).sum := by
  induction parts with
  | nil => rfl
  | cons p parts ih =>
    by_cases hparts : parts = []
    · simp [hparts]
    · rw [joinWith_cons hparts, List.append_assoc, List.singleton_append,
        countPairs_append_cons h, ih, List.map_cons, List.sum_cons]

/-- **Pairs are counted word by word.** -/
theorem countPairs_eq_sum_words (h : isBlank d = false) (t : Text) :
    countPairs d d t = (t.words.map (countPairs d d)).sum := by
  have hwords : ∀ parts : List Text,
      ((parts.filter (!·.isEmpty)).map (countPairs d d)).sum =
        (parts.map (countPairs d d)).sum := by
    intro parts
    induction parts with
    | nil => rfl
    | cons p parts ih => cases p <;> simp [ih, countPairs]
  rw [words, hwords]
  induction t using splitOnP_induction (p := isBlank) with
  | whole t _ => simp
  | cut first sep rest _ hsep ih =>
    have hne : sep ≠ d := by
      rintro rfl
      rw [h] at hsep
      cases hsep
    rw [countPairs_append_cons hne, List.map_cons, List.sum_cons, ih]

end CountPairs

end BookSite.Text
