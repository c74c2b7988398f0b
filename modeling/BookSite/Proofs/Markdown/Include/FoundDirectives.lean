import BookSite.Proofs.Markdown.Include.Directives

/-!
# Proofs/Markdown/Include/FoundDirectives — the directives that a scan finds

Files are read at once by a scan over the whole page, while imports are written line by line.  A
directive that lies in one line is found by both scans (`SingleLine.directivesIn_unlines`); one that
runs over a line end is found by the first only.
-/

namespace BookSite.Include

/-! ## One directive -/

/-- **A text that is one directive**, and the target it names. -/
def IsDirective (wording : Text) (target : Target) : Prop :=
  directive wording = some (target, wording.length)

namespace IsDirective

variable {w : Text} {target : Target} (h : IsDirective w target)

include h

theorem ne_nil : w ≠ [] := by
  rintro rfl
  cases h

/-- What follows a directive does not matter to it. -/
theorem directive_append (rest : Text) : directive (w ++ rest) = some (target, w.length) :=
  directive_append_of_some h rest

/-- What a directive is made of. -/
theorem eq_append : ∃ opening body, opening ∈ openings ∧ w = opening ++ (body ++ closing) ∧
    '}' ∉ body ∧ isBody body = true ∧ target = .parse body := by
  obtain ⟨opening, body, rest, hopening, hw, hbrace, hbody, htarget, hlength⟩ := eq_of_directive h
  obtain rfl : rest = [] := by
    have := congrArg List.length hw
    simp only [List.length_append] at this hlength
    exact List.eq_nil_of_length_eq_zero (by omega)
  exact ⟨opening, body, hopening, by rw [hw, List.append_nil], hbrace, hbody, htarget⟩

end IsDirective

theorem isDirective_append {opening body : Text} (hopening : opening ∈ openings)
    (hbrace : '}' ∉ body) (hbody : isBody body = true) :
    IsDirective (opening ++ (body ++ closing)) (.parse body) := by
  have hfound := directive_append hopening hbrace hbody []
  rwa [List.append_nil] at hfound

/-- What is found at the front of a text is a directive and what follows it. -/
theorem exists_isDirective {s : Text} {target : Target} {n : Nat}
    (h : directive s = some (target, n)) :
    ∃ w rest, s = w ++ rest ∧ IsDirective w target ∧ n = w.length := by
  obtain ⟨opening, body, rest, hopening, rfl, hbrace, hbody, rfl, rfl⟩ := eq_of_directive h
  exact ⟨_, rest, by simp, isDirective_append hopening hbrace hbody, rfl⟩

/-- **Induction over the directives of a text**: past a character outside all of them, or past a
directive. -/
theorem directive_induction {P : Text → Prop} (nil : P [])
    (char : ∀ c rest, directive (c :: rest) = none → P rest → P (c :: rest))
    (token : ∀ w target rest, IsDirective w target → P rest → P (w ++ rest)) (t : Text) : P t := by
  induction t using Text.scan_induction directive with
  | nil => exact nil
  | char c rest hnone ih => exact char c rest hnone ih
  | token c rest target n hsome ih =>
    obtain ⟨w, rest', hw, hdirective, rfl⟩ := exists_isDirective hsome
    rw [hw]
    refine token w target rest' hdirective ?_
    obtain ⟨d, w', rfl⟩ := List.exists_cons_of_ne_nil hdirective.ne_nil
    obtain ⟨-, rfl⟩ := List.cons.inj hw
    simpa using ih

/-! ## All directives -/

/-- The wording of a token with what it stands for. -/
def tokenOf? : Text.Piece Target → Option (Text × Target)
  | .char _ => none
  | .token wording target => some (wording, target)

/-- **The directives of a text**, each with its wording: these are replaced. -/
def directivesIn (t : Text) : List (Text × Target) := (Text.scan directive t).filterMap tokenOf?

@[simp] theorem directivesIn_nil : directivesIn [] = [] := rfl

theorem directivesIn_cons_of_none {c : Char} {rest : Text} (h : directive (c :: rest) = none) :
    directivesIn (c :: rest) = directivesIn rest := by
  rw [directivesIn, Text.scan_cons_of_none h]
  rfl

theorem scan_directive_append {w : Text} {target : Target} (h : IsDirective w target)
    (rest : Text) :
    Text.scan directive (w ++ rest) = .token w target :: Text.scan directive rest := by
  obtain ⟨c, w, rfl⟩ := List.exists_cons_of_ne_nil h.ne_nil
  have hfound : directive (c :: (w ++ rest)) = some (target, w.length + 1) :=
    h.directive_append rest
  rw [List.cons_append, Text.scan_cons_of_some hfound]
  simp

theorem directivesIn_append {w : Text} {target : Target} (h : IsDirective w target)
    (rest : Text) : directivesIn (w ++ rest) = (w, target) :: directivesIn rest := by
  rw [directivesIn, scan_directive_append h]
  rfl

theorem importDirectives_append {w : Text} {target : Target} (h : IsDirective w target)
    (rest : Text) : importDirectives (w ++ rest) = target.toImport ++ importDirectives rest := by
  rw [importDirectives, Text.replaceTokens, scan_directive_append h]
  rfl

/-- A directive of a text is part of it. -/
theorem of_mem_directivesIn {t : Text} {d : Text × Target} (h : d ∈ directivesIn t) :
    d.1 <:+: t ∧ IsDirective d.1 d.2 := by
  induction t using directive_induction with
  | nil => cases h
  | char c rest hnone ih =>
    rw [directivesIn_cons_of_none hnone] at h
    exact ⟨(ih h).1.trans (List.suffix_cons c rest).isInfix, (ih h).2⟩
  | token w target rest hdirective ih =>
    rw [directivesIn_append hdirective, List.mem_cons] at h
    rcases h with rfl | h
    · exact ⟨(List.prefix_append w rest).isInfix, hdirective⟩
    · exact ⟨(ih h).1.trans (List.suffix_append w rest).isInfix, (ih h).2⟩

theorem directivesIn_eq_nil {t : Text} (h : hasDirective t = false) : directivesIn t = [] := by
  rw [List.eq_nil_iff_forall_not_mem]
  intro d hd
  obtain ⟨hpart, hdirective⟩ := of_mem_directivesIn hd
  have hfound : hasDirective d.1 = true :=
    hasDirective_iff.mpr ⟨[], d.1, _, rfl, hdirective⟩
  rw [hasDirective_of_isInfix hpart hfound] at h
  cases h

/-! ## Directives in one line -/

/-- **Every directive of a text lies in one line.** -/
def SingleLine (t : Text) : Prop := ∀ d ∈ directivesIn t, '\n' ∉ d.1

namespace SingleLine

theorem of_cons {c : Char} {rest : Text} (hnone : directive (c :: rest) = none)
    (h : SingleLine (c :: rest)) : SingleLine rest := by
  rwa [SingleLine, directivesIn_cons_of_none hnone] at h

theorem of_append {w rest : Text} {target : Target} (hw : IsDirective w target)
    (h : SingleLine (w ++ rest)) : SingleLine rest := fun d hd =>
  h d (by rw [directivesIn_append hw]; exact List.mem_cons_of_mem _ hd)

/-- Where a line has no directive, the page has none either. -/
theorem directive_append_eq_none {s rest : Text} (h : SingleLine (s ++ '\n' :: rest))
    (hnone : directive s = none) : directive (s ++ '\n' :: rest) = none := by
  by_contra hfound
  obtain ⟨r, hr⟩ := Option.ne_none_iff_exists'.mp hfound
  obtain ⟨w, rest', heq, hw, -⟩ :=
    exists_isDirective (show directive (s ++ '\n' :: rest) = some (r.1, r.2) from hr)
  have hnewline : '\n' ∉ w := h (w, r.1) (by rw [heq, directivesIn_append hw]; simp)
  obtain ⟨x, rfl, hx⟩ | ⟨x, rfl, -⟩ := List.append_eq_append_iff.mp heq
  · cases x with
    | nil =>
      rw [List.append_nil] at hw
      rw [hw] at hnone
      cases hnone
    | cons d x =>
      obtain ⟨rfl, -⟩ := List.cons.inj hx
      simp at hnewline
  · rw [hw.directive_append] at hnone
    cases hnone

/-- **A line end cuts the scan** of a page whose directives lie in one line each. -/
theorem directivesIn_append_newline {line rest : Text} (h : SingleLine (line ++ '\n' :: rest)) :
    directivesIn (line ++ '\n' :: rest) = directivesIn line ++ directivesIn rest := by
  induction line using directive_induction with
  | nil => exact directivesIn_cons_of_none (directive_eq_none_of_ne (by decide) rest)
  | char c line hnone ih =>
    have hboth := directive_append_eq_none h hnone
    rw [List.cons_append] at h hboth ⊢
    rw [directivesIn_cons_of_none hboth, directivesIn_cons_of_none hnone, ih (h.of_cons hboth)]
  | token w target line hw ih =>
    rw [List.append_assoc] at h ⊢
    rw [directivesIn_append hw, directivesIn_append hw, ih (h.of_append hw), List.cons_append]

theorem of_append_newline {line rest : Text} (h : SingleLine (line ++ '\n' :: rest)) :
    SingleLine rest := fun d hd =>
  h d (by rw [h.directivesIn_append_newline]; exact List.mem_append_right _ hd)

/-- **Both scans find the same directives**, that of the page and those of its lines. -/
theorem directivesIn_unlines {lines : List Text} (h : SingleLine (Text.unlines lines)) :
    directivesIn (Text.unlines lines) = lines.flatMap directivesIn := by
  induction lines with
  | nil => rfl
  | cons line rest ih =>
    by_cases hrest : rest = []
    · subst hrest
      simp
    · rw [Text.unlines_cons line hrest] at h ⊢
      rw [h.directivesIn_append_newline, ih h.of_append_newline, List.flatMap_cons]

end SingleLine

end BookSite.Include
