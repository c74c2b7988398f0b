import BookSite.Proofs.Markdown.Include.Directives
import BookSite.Proofs.Markdown.LineEdits
import Mathlib.Data.List.Forall2

/-!
# Proofs/Markdown/Include/ShownDirectives — showing hidden lines leaves directives alone

A hidden line may be part of a directive that runs over line ends, and the `#` of a directive might
be taken for the mark of a hidden line.  It never is, for a brace stands in front of it, and the
comment of a hidden line holds no brace that the line did not hold.  `Shown` reads both texts in
lockstep; whatever a directive is made of is found in both or in neither.
-/

namespace BookSite.Include

/-! ## Both texts in lockstep -/

/-- **A text with marks of hidden lines replaced.**  The flag says whether a brace stands right in
front: no mark does so. -/
inductive Shown : Bool → Text → Text → Prop
  | nil {braced : Bool} : Shown braced [] []
  | keep {braced : Bool} {t t' : Text} (c : Char) (h : Shown (c == '{') t t') :
      Shown braced (c :: t) (c :: t')
  | mark {braced : Bool} {t t' gap : Text} (hbraced : braced = false)
      (hgap : gap = [] ∨ gap = [' ']) (h : Shown false t t') :
      Shown braced ('#' :: t) ('/' :: '/' :: (gap ++ t'))

namespace Shown

variable {braced : Bool} {t t' : Text}

theorem refl (braced : Bool) (t : Text) : Shown braced t t := by
  induction t generalizing braced with
  | nil => exact .nil
  | cons c t ih => exact .keep c (ih _)

/-- Texts one after the other: a line feed separates them. -/
theorem append_newline {s s' : Text} (hs : Shown braced s s') (ht : Shown false t t') :
    Shown braced (s ++ '\n' :: t) (s' ++ '\n' :: t') := by
  induction hs with
  | nil => exact .keep '\n' ht
  | keep c _ ih => exact .keep c ih
  | mark hbraced hgap _ ih =>
    have hmark := Shown.mark hbraced hgap ih
    rwa [← List.append_assoc] at hmark

/-- Blanks in front of a mark. -/
theorem append_blanks {blanks : Text} (hblanks : ∀ c ∈ blanks, isBlank c = true)
    (h : Shown false t t') : Shown false (blanks ++ t) (blanks ++ t') := by
  induction blanks with
  | nil => exact h
  | cons c blanks ih =>
    obtain ⟨hc, hblanks⟩ := List.forall_mem_cons.mp hblanks
    have hbrace : (c == '{') = false := by
      rw [beq_eq_false_iff_ne]
      rintro rfl
      cases hc
    refine .keep c ?_
    rw [hbrace]
    exact ih hblanks

theorem unlines {lines lines' : List Text} (h : List.Forall₂ (Shown false) lines lines') :
    Shown false (Text.unlines lines) (Text.unlines lines') := by
  induction h with
  | nil => exact .nil
  | cons hline hrest ih =>
    cases hrest with
    | nil => simpa using hline
    | cons hsecond hmore =>
      rw [Text.unlines_cons _ (List.cons_ne_nil _ _), Text.unlines_cons _ (List.cons_ne_nil _ _)]
      exact hline.append_newline ih

/-! ## What a directive is made of -/

/-- A text that no mark can stand in: it holds no slash, and a brace in front of every `#`. -/
def Guarded : Bool → Text → Prop
  | _, [] => True
  | braced, c :: rest => c ≠ '/' ∧ (c = '#' → braced = true) ∧ Guarded (c == '{') rest

theorem behind?_cons_cons (c m : Char) (t mark : Text) :
    Text.behind? (c :: t) (m :: mark) = if m = c then Text.behind? t mark else none := by
  by_cases h : m = c
  · rw [if_pos h]
    exact if_pos (by simpa using h)
  · rw [if_neg h]
    exact if_neg (by simpa using h)

/-- **Such a text stands in front of both** or of neither. -/
theorem behind? {guarded : Text} (hguarded : Guarded braced guarded) (h : Shown braced t t') :
    Option.Rel (fun rest rest' => ∃ braced', Shown braced' rest rest') (Text.behind? t guarded)
      (Text.behind? t' guarded) := by
  induction guarded generalizing braced t t' with
  | nil => exact .some ⟨braced, h⟩
  | cons m guarded ih =>
    obtain ⟨hslash, hhash, hrest⟩ := hguarded
    cases h with
    | nil => exact .none
    | keep c h =>
      rw [behind?_cons_cons, behind?_cons_cons]
      split
      · rename_i hm
        rw [hm] at hrest
        exact ih hrest h
      · exact .none
    | mark hbraced hgap h =>
      have hne : m ≠ '#' := fun hm => by
        rw [hhash hm] at hbraced
        cases hbraced
      rw [behind?_cons_cons, behind?_cons_cons, if_neg hne, if_neg hslash]
      exact .none

theorem startsWith_eq {guarded : Text} (hguarded : Guarded braced guarded)
    (h : Shown braced t t') : t.startsWith guarded = t'.startsWith guarded := by
  have hsome : ∀ u : Text, u.startsWith guarded = (Text.behind? u guarded).isSome := fun u =>
    (List.isSome_isPrefixOf?_eq_isPrefixOf guarded u).symm
  have hbehind := h.behind? hguarded
  rw [hsome, hsome]
  generalize Text.behind? t guarded = rest, Text.behind? t' guarded = rest' at hbehind
  cases hbehind <;> rfl

/-- The front up to a closing brace, and what follows it. -/
theorem takeWhile_dropWhile (h : Shown braced t t') :
    Shown braced (t.takeWhile (· != '}')) (t'.takeWhile (· != '}')) ∧
      ∃ braced', Shown braced' (t.dropWhile (· != '}')) (t'.dropWhile (· != '}')) := by
  induction h with
  | nil => exact ⟨.nil, false, .nil⟩
  | @keep braced t t' c h ih =>
    rw [List.takeWhile_cons, List.takeWhile_cons, List.dropWhile_cons, List.dropWhile_cons]
    split
    · exact ⟨.keep c ih.1, ih.2⟩
    · exact ⟨.nil, braced, .keep c h⟩
  | @mark braced t t' gap hbraced hgap h ih =>
    have htake : ('/' :: '/' :: (gap ++ t')).takeWhile (· != '}') =
        '/' :: '/' :: (gap ++ t'.takeWhile (· != '}')) := by
      rcases hgap with rfl | rfl <;> simp
    have hdrop : ('/' :: '/' :: (gap ++ t')).dropWhile (· != '}') = t'.dropWhile (· != '}') := by
      rcases hgap with rfl | rfl <;> simp
    rw [htake, hdrop]
    exact ⟨.mark hbraced hgap ih.1, ih.2⟩

theorem isBody_eq (h : Shown braced t t') : isBody t = isBody t' := by
  cases h with
  | nil => rfl
  | keep c h => cases h <;> rfl
  | @mark _ t t' _ _ _ _ =>
    cases t <;> rfl

theorem guarded_closing (braced : Bool) : Guarded braced closing := by
  cases braced <;> simp [closing, Guarded]

theorem guarded_of_mem_openings {opening : Text} (h : opening ∈ openings) (braced : Bool) :
    Guarded braced opening := by
  simp only [openings, List.mem_cons, List.not_mem_nil, or_false] at h
  rcases h with rfl | rfl <;> cases braced <;> simp [Guarded]

/-- **A directive stands in front of both** or of neither. -/
theorem isSome_directiveAfter_eq {opening : Text} (hopening : opening ∈ openings)
    (h : Shown braced t t') :
    (directiveAfter opening t).isSome = (directiveAfter opening t').isSome := by
  have hbehind := h.behind? (guarded_of_mem_openings hopening braced)
  unfold directiveAfter
  generalize Text.behind? t opening = rest, Text.behind? t' opening = rest' at hbehind
  cases hbehind with
  | none => rfl
  | @some rest rest' hrest =>
    obtain ⟨braced', hrest⟩ := hrest
    obtain ⟨hbody, braced'', hclosing⟩ := hrest.takeWhile_dropWhile
    simp only [Option.bind_eq_bind, Option.bind_some, hbody.isBody_eq,
      hclosing.startsWith_eq (guarded_closing braced'')]
    split <;> rfl

theorem isSome_directive_eq (h : Shown braced t t') :
    (directive t).isSome = (directive t').isSome := by
  have hsome : ∀ u : Text, (directive u).isSome =
      openings.any fun opening => (directiveAfter opening u).isSome := fun u => by
    rw [directive, List.isSome_findSome?]
  rw [hsome, hsome, Bool.eq_iff_iff, List.any_eq_true, List.any_eq_true]
  refine exists_congr fun opening => and_congr_right fun hopening => ?_
  rw [h.isSome_directiveAfter_eq hopening]

theorem hasDirective_cons (c : Char) (rest : Text) :
    hasDirective (c :: rest) = ((directive (c :: rest)).isSome || hasDirective rest) :=
  Text.finds_cons c rest

/-- Behind another character than a brace the search goes on. -/
theorem hasDirective_cons_of_ne {c : Char} (hc : c ≠ '{') (rest : Text) :
    hasDirective (c :: rest) = hasDirective rest := by
  rw [hasDirective_cons, directive_eq_none_of_ne hc]
  rfl

/-- **Both texts hold a directive**, or neither does. -/
theorem hasDirective_eq (h : Shown braced t t') : hasDirective t = hasDirective t' := by
  induction h with
  | nil => rfl
  | @keep braced t t' c h ih =>
    have hboth : Shown braced (c :: t) (c :: t') := .keep c h
    rw [hasDirective_cons, hasDirective_cons, isSome_directive_eq hboth, ih]
  | @mark braced t t' gap hbraced hgap h ih =>
    have hcomment : hasDirective ('/' :: '/' :: (gap ++ t')) = hasDirective t' := by
      rw [hasDirective_cons_of_ne (by decide), hasDirective_cons_of_ne (by decide)]
      rcases hgap with rfl | rfl
      · rfl
      · exact hasDirective_cons_of_ne (by decide) t'
    rw [hasDirective_cons_of_ne (by decide), hcomment, ih]

end Shown

/-! ## Hidden lines -/

theorem shown_editLine (line : Line) :
    Shown false line.text (editLine .code revealLine? line) := by
  unfold editLine
  split
  · cases hl : revealLine? line.text with
    | none => exact .refl false _
    | some comment =>
      obtain ⟨rest, gap, hstart, hgap, hcomment⟩ := eq_comment_of_revealLine? hl
      have hline : line.text = line.text.leadingBlanks ++ '#' :: rest := by
        rw [← hstart, Text.leadingBlanks_append_trimStart]
      have hshown : Shown false (line.text.leadingBlanks ++ '#' :: rest)
          (line.text.leadingBlanks ++ '/' :: '/' :: (gap ++ rest)) :=
        .append_blanks (fun c hc => Text.isBlank_of_mem_leadingBlanks hc)
          (.mark rfl hgap (.refl false rest))
      rwa [← hline, ← hcomment] at hshown
  · exact .refl false _

/-- **Showing hidden lines makes no directive and breaks none**, not even one that runs over line
ends. -/
theorem hasDirective_revealHiddenLines (page : Text) :
    hasDirective (revealHiddenLines page) = hasDirective page := by
  have hlines : List.Forall₂ (Shown false) page.segments
      (mapLines (editLine .code revealLine?) page.segments) := by
    conv => arg 2; rw [← map_text_classifyFrom .prose page.segments]
    rw [mapLines, List.forall₂_map_left_iff, List.forall₂_map_right_iff, List.forall₂_same]
    exact fun line _ => shown_editLine line
  have hshown := Shown.unlines hlines
  rw [Text.unlines_segments] at hshown
  exact hshown.hasDirective_eq.symm

/-! ## The pattern of a directive -/

/-- **A text with a directive in it**: two opening braces and one of the two words, blanks, an
argument without closing brace, perhaps more blanks, and two closing braces. -/
def MatchesDirective (t : Text) : Prop :=
  ∃ before opening blanks argument blanks' behind,
    t = before ++ (opening ++ (blanks ++ argument ++ blanks' ++ closing ++ behind)) ∧
    opening ∈ openings ∧ (blanks ≠ [] ∧ ∀ c ∈ blanks, isBlank c = true) ∧
    (argument ≠ [] ∧ '}' ∉ argument) ∧ ∀ c ∈ blanks', isBlank c = true

/-- The finder of directives goes by this pattern. -/
theorem hasDirective_iff_matchesDirective {t : Text} :
    hasDirective t = true ↔ MatchesDirective t := by
  rw [hasDirective_iff]
  constructor
  · rintro ⟨before, s, r, rfl, h⟩
    obtain ⟨opening, body, rest, hopening, rfl, hbrace, hbody, -⟩ :=
      eq_of_directive (show directive s = some (r.1, r.2) from h)
    unfold isBody at hbody
    split at hbody
    · cases hbody
    · cases hbody
    · rename_i c d more
      rw [List.mem_cons, not_or] at hbrace
      refine ⟨before, opening, [c], d :: more, [], rest, by simp, hopening, ⟨by simp, ?_⟩,
        ⟨by simp, hbrace.2⟩, by simp⟩
      exact List.forall_mem_singleton.mpr hbody
  · rintro ⟨before, opening, blanks, argument, blanks', behind, rfl, hopening, hblanks, hargument,
      hblanks'⟩
    have hnobrace : ∀ {bs : Text}, (∀ c ∈ bs, isBlank c = true) → '}' ∉ bs := fun hbs hmem => by
      cases hbs _ hmem
    have hbrace : '}' ∉ blanks ++ argument ++ blanks' := by
      simp only [List.mem_append, not_or]
      exact ⟨⟨hnobrace hblanks.2, hargument.2⟩, hnobrace hblanks'⟩
    have hbody : isBody (blanks ++ argument ++ blanks') = true := by
      obtain ⟨c, more, rfl⟩ := List.exists_cons_of_ne_nil hblanks.1
      obtain ⟨d, more', rfl⟩ := List.exists_cons_of_ne_nil hargument.1
      have hc := hblanks.2 c List.mem_cons_self
      cases more <;> exact hc
    exact ⟨before, _, _, rfl, directive_append hopening hbrace hbody behind⟩

end BookSite.Include
