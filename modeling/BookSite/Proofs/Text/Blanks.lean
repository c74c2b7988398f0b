import BookSite.Proofs.Text.Lines
import BookSite.Text.Blank
import Mathlib.Data.List.Basic
import Mathlib.Data.List.DropRight

/-!
# Proofs/Text/Blanks — what trimming and cutting leave

Trimming takes blanks off the ends and nothing else: it leaves the **core** of a text (`isCore_iff`).
No word holds a blank.  What is cut off at a front, a mark or an end is part of the text.
-/

namespace BookSite.Text

/-! ## Trimming -/

theorem isBlank_of_mem_leadingBlanks {t : Text} {c : Char} (h : c ∈ t.leadingBlanks) :
    isBlank c = true := List.mem_takeWhile_imp h

theorem drop_length_leadingBlanks (t : Text) : t.drop t.leadingBlanks.length = t.trimStart := by
  have hdrop := @List.drop_left _ t.leadingBlanks t.trimStart
  rwa [leadingBlanks_append_trimStart] at hdrop

theorem not_of_mem_head?_dropWhile {p : Char → Bool} {t : Text} {c : Char}
    (h : c ∈ (t.dropWhile p).head?) : p c = false := by
  have hhead := List.head?_dropWhile_not p t
  rwa [show (t.dropWhile p).head? = some c from h] at hhead

theorem dropWhile_eq_self {p : Char → Bool} {t : Text} (h : ∀ c ∈ t.head?, p c = false) :
    t.dropWhile p = t := by
  cases t with
  | nil => rfl
  | cons c rest => exact List.dropWhile_cons_of_neg (by simp [h c rfl])

theorem not_isBlank_of_mem_head?_trimStart {t : Text} {c : Char} (h : c ∈ t.trimStart.head?) :
    isBlank c = false := not_of_mem_head?_dropWhile h

theorem trimStart_eq_self {t : Text} (h : ∀ c ∈ t.head?, isBlank c = false) : t.trimStart = t :=
  dropWhile_eq_self h

/-- Blanks in front of a text do not matter to what is left of it without them. -/
theorem trimStart_append {blanks : Text} (hblanks : ∀ c ∈ blanks, isBlank c = true) (t : Text) :
    trimStart (blanks ++ t) = t.trimStart :=
  List.dropWhile_append_of_pos hblanks

theorem trimStart_append_cons {stop : Char} (h : isBlank stop = false) (t more : Text) :
    trimStart (t ++ stop :: more) = trimStart t ++ stop :: more := by
  rw [trimStart, trimStart, List.dropWhile_append]
  split
  · rename_i hblank
    rw [List.isEmpty_iff.mp hblank, List.dropWhile_cons, h]
    rfl
  · rfl

theorem trimStart_suffix (t : Text) : t.trimStart <:+ t := List.dropWhile_suffix _

theorem dropWhileEnd_isPrefix (t : Text) (p : Char → Bool) : t.dropWhileEnd p <+: t :=
  List.rdropWhile_prefix p t

/-- Blanks behind a text do not matter either. -/
theorem trimEnd_append {blanks : Text} (hblanks : ∀ c ∈ blanks, isBlank c = true) (t : Text) :
    trimEnd (t ++ blanks) = t.trimEnd := by
  have hfront : (blanks.reverse ++ t.reverse).dropWhile isBlank = t.reverse.dropWhile isBlank :=
    List.dropWhile_append_of_pos fun c hc => hblanks c (List.mem_reverse.mp hc)
  rw [← List.reverse_append] at hfront
  exact congrArg List.reverse hfront

theorem trim_isInfix (t : Text) : t.trim <:+: t :=
  (dropWhileEnd_isPrefix _ _).isInfix.trans (trimStart_suffix t).isInfix

section FirstCharacter

variable {t rest : Text} {c : Char} (h : t.trimStart = c :: rest) (hc : isBlank c = false)

include h hc

/-- Trimming keeps the first character that is not blank. -/
theorem trim_eq_cons : ∃ rest', t.trim = c :: rest' := by
  have hprefix : t.trim <+: c :: rest := h ▸ dropWhileEnd_isPrefix t.trimStart isBlank
  rcases List.prefix_cons_iff.mp hprefix with hnil | ⟨rest', hrest', -⟩
  · have hall := List.rdropWhile_eq_nil_iff.mp hnil c (by rw [h]; simp)
    rw [hc] at hall
    cases hall
  · exact ⟨rest', hrest'⟩

theorem not_allBlank : t.allBlank = false := by
  rw [allBlank, List.all_eq_false]
  exact ⟨c, (trimStart_suffix t).mem (by rw [h]; simp), by simp [hc]⟩

end FirstCharacter

/-! ## Cores

Blanks and slashes are both trimmed off.  What is left of a text does not depend on how they are
taken off, for no text has two cores of a kind. -/

section Cores

variable {p : Char → Bool} {core t : Text}

/-- **The core of a text**: characters of a kind stand around it, and none of them at its ends. -/
structure IsCore (p : Char → Bool) (core t : Text) : Prop where
  around : ∃ before behind, t = before ++ core ++ behind ∧
    (∀ c ∈ before, p c = true) ∧ ∀ c ∈ behind, p c = true
  not_of_mem_head? : ∀ c ∈ core.head?, p c = false
  not_of_mem_getLast? : ∀ c ∈ core.getLast?, p c = false

/-- Cutting a text off at both ends leaves its core. -/
theorem isCore_dropWhileEnd (p : Char → Bool) (t : Text) :
    IsCore p (dropWhileEnd (t.dropWhile p) p) t where
  around := by
    have hback : dropWhileEnd (t.dropWhile p) p ++ (t.dropWhile p).rtakeWhile p = t.dropWhile p :=
      List.rdropWhile_append_rtakeWhile
    refine ⟨t.takeWhile p, (t.dropWhile p).rtakeWhile p, ?_, fun c => List.mem_takeWhile_imp,
      fun c => List.mem_rtakeWhile_imp⟩
    rw [List.append_assoc, hback, List.takeWhile_append_dropWhile]
  not_of_mem_head? c hc := by
    obtain ⟨more, hmore⟩ := dropWhileEnd_isPrefix (t.dropWhile p) p
    obtain ⟨rest, hrest⟩ := List.head?_eq_some_iff.mp hc
    refine not_of_mem_head?_dropWhile (t := t) ?_
    rw [← hmore, hrest]
    rfl
  not_of_mem_getLast? c hc := by
    have hlast := List.head?_dropWhile_not p (t.dropWhile p).reverse
    rw [dropWhileEnd, List.getLast?_reverse] at hc
    rwa [show List.head? _ = some c from hc] at hlast

/-- **A text has one core** of a kind. -/
theorem isCore_iff : IsCore p core t ↔ core = dropWhileEnd (t.dropWhile p) p := by
  refine ⟨fun h => ?_, fun h => h ▸ isCore_dropWhileEnd p t⟩
  obtain ⟨before, behind, rfl, hbefore, hbehind⟩ := h.around
  have hlast : core.reverse.dropWhile p = core.reverse :=
    dropWhile_eq_self (by rw [List.head?_reverse]; exact h.not_of_mem_getLast?)
  have hback : dropWhileEnd (core ++ behind) p = core := by
    rw [dropWhileEnd, List.reverse_append,
      List.dropWhile_append_of_pos fun c hc => hbehind c (List.mem_reverse.mp hc), hlast,
      List.reverse_reverse]
  rw [List.append_assoc, List.dropWhile_append_of_pos hbefore]
  cases core with
  | nil =>
    rw [List.nil_append, List.dropWhile_eq_nil_iff.mpr hbehind]
    rfl
  | cons c rest =>
    have hfront : (c :: rest ++ behind).dropWhile p = c :: rest ++ behind :=
      dropWhile_eq_self h.not_of_mem_head?
    rw [hfront, hback]

end Cores

/-! ## Trimmed texts -/

theorem isCore_trim (t : Text) : IsCore isBlank t.trim t := isCore_dropWhileEnd isBlank t

theorem trim_eq_iff {t core : Text} : t.trim = core ↔ IsCore isBlank core t :=
  eq_comm.trans isCore_iff.symm

theorem trim_eq_self_iff {t : Text} :
    t.trim = t ↔ (∀ c ∈ t.head?, isBlank c = false) ∧ ∀ c ∈ t.getLast?, isBlank c = false := by
  rw [trim_eq_iff]
  exact ⟨fun h => ⟨h.not_of_mem_head?, h.not_of_mem_getLast?⟩,
    fun h => ⟨⟨[], [], by simp⟩, h.1, h.2⟩⟩

@[simp] theorem trim_trim (t : Text) : t.trim.trim = t.trim :=
  trim_eq_self_iff.mpr ⟨(isCore_trim t).not_of_mem_head?, (isCore_trim t).not_of_mem_getLast?⟩

/-- Nothing is left of blanks. -/
theorem trim_eq_nil_iff {t : Text} : t.trim = [] ↔ ∀ c ∈ t, isBlank c = true := by
  rw [trim_eq_iff]
  refine ⟨fun h => ?_, fun h => ⟨⟨t, [], by simp, h, by simp⟩, by simp, by simp⟩⟩
  obtain ⟨before, behind, rfl, hbefore, hbehind⟩ := h.around
  rw [List.append_nil]
  exact fun c hc => (List.mem_append.mp hc).elim (hbefore c) (hbehind c)

/-- **Blanks around a trimmed text** are trimmed off. -/
theorem trim_append_append {t before behind : Text} (ht : t.trim = t)
    (hbefore : ∀ c ∈ before, isBlank c = true) (hbehind : ∀ c ∈ behind, isBlank c = true) :
    trim (before ++ (t ++ behind)) = t := by
  have hcore : IsCore isBlank t t := trim_eq_iff.mp ht
  exact trim_eq_iff.mpr ⟨⟨before, behind, (List.append_assoc _ _ _).symm, hbefore, hbehind⟩,
    hcore.not_of_mem_head?, hcore.not_of_mem_getLast?⟩

theorem not_allBlank_of_trim_eq {t : Text} (ht : t.trim = t) (hne : t ≠ []) :
    t.allBlank = false := by
  obtain ⟨c, rest, rfl⟩ := List.exists_cons_of_ne_nil hne
  have hc : isBlank c = false := (trim_eq_self_iff.mp ht).1 c rfl
  rw [allBlank, List.all_cons, hc, Bool.false_and]

/-! ## Words -/

/-- **No word holds a blank.** -/
theorem not_isBlank_of_mem_words {t w : Text} (h : w ∈ t.words) : ∀ c ∈ w, isBlank c = false :=
  not_of_mem_splitOnP (List.mem_filter.mp h).1

/-! ## Fronts and ends -/

/-- A text is a front of it and what is left behind this front. -/
theorem behind?_eq_some_iff {t start rest : Text} :
    t.behind? start = some rest ↔ t = start ++ rest := by
  rw [behind?, List.isPrefixOf?_eq_some_iff_append_eq, eq_comm]

/-- A part stands somewhere in a text when it is a stretch of it. -/
theorem hasPart_iff {t part : Text} : t.hasPart part = true ↔ part <:+: t := by
  induction t with
  | nil => simp [hasPart]
  | cons c rest ih =>
    rw [hasPart, Bool.or_eq_true, ih, startsWith, List.isPrefixOf_iff_prefix, List.infix_cons_iff]

theorem dropLeading_subset (t start : Text) : t.dropLeading start ⊆ t := by
  unfold dropLeading
  cases h : t.behind? start with
  | none => exact List.Subset.refl t
  | some rest =>
    rw [behind?_eq_some_iff.mp h]
    exact List.subset_append_right start rest

/-- The texts in front of a mark and behind it. -/
theorem subset_of_splitOnce {t before behind : Text} {mark : Char}
    (h : t.splitOnce mark = some (before, behind)) : before ⊆ t ∧ behind ⊆ t := by
  unfold splitOnce at h
  split at h
  · cases h
  · rename_i c rest hrest
    cases h
    have hsuffix : c :: behind <:+ t := hrest ▸ List.dropWhile_suffix _
    exact ⟨(List.takeWhile_sublist _).subset, fun d hd => hsuffix.mem (List.mem_cons_of_mem c hd)⟩

/-- A text is what is left of it in front of an end, and this end. -/
theorem eq_append_of_dropTrailing? {t tail start : Text} (h : t.dropTrailing? tail = some start) :
    t = start ++ tail := by
  obtain ⟨r, hr, rfl⟩ := Option.map_eq_some_iff.mp h
  rw [← List.reverse_reverse t, behind?_eq_some_iff.mp hr]
  simp

theorem dropTrailing?_eq_some_iff {t tail start : Text} :
    t.dropTrailing? tail = some start ↔ t = start ++ tail := by
  constructor
  · exact eq_append_of_dropTrailing?
  · rintro rfl
    rw [dropTrailing?, behind?_eq_some_iff.mpr (List.reverse_append ..), Option.map_some,
      List.reverse_reverse]

end BookSite.Text
