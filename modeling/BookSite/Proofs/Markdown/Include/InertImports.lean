import BookSite.Proofs.Markdown.Include.FoundDirectives
import BookSite.Proofs.Markdown.Include.ImportText
import BookSite.Proofs.Markdown.Include.ShownDirectives

/-!
# Proofs/Markdown/Include/InertImports — imports in which no directive begins

The argument of a directive may hold anything but a closing brace, another opening of a directive
for one; and an import keeps what the argument held.  An import is **inert** when no directive
begins in it, whatever follows.  Where all imports are inert, a text with its directives replaced
holds none: `Imported` reads the text before and after in lockstep, and what looks like a directive
afterwards was one before (`Imported.hasDirective_eq_false`).
-/

namespace BookSite.Include

/-- A body begins with a blank, and there is something besides that blank. -/
theorem exists_of_isBody {body : Text} (h : isBody body = true) :
    ∃ b d more, body = b :: d :: more ∧ isBlank b = true := by
  unfold isBody at h
  split at h
  · cases h
  · cases h
  · exact ⟨_, _, _, rfl, h⟩

/-! ## Inert texts -/

/-- **A text in which no directive begins**, whatever follows it. -/
def Inert (t : Text) : Prop := ∀ s, s <:+ t → s ≠ [] → ∀ more, directive (s ++ more) = none

/-- A single brace begins no directive. -/
theorem directive_brace_eq_none {c : Char} (hc : c ≠ '{') (rest : Text) :
    directive ('{' :: c :: rest) = none := by
  cases h : directive ('{' :: c :: rest) with
  | none => rfl
  | some r =>
    obtain ⟨opening, body, t, hopening, hs, -⟩ := eq_of_directive h
    obtain ⟨word, rfl⟩ := mem_openings hopening
    exact absurd (List.cons.inj (List.cons.inj hs).2).1 hc

/-- A text without braces in front of an inert one. -/
theorem Inert.append_left {front tail : Text} (hfront : '{' ∉ front) (h : Inert tail) :
    Inert (front ++ tail) := by
  intro s hs hne more
  obtain ⟨c, s, rfl⟩ := List.exists_cons_of_ne_nil hne
  by_cases hc : c = '{'
  · subst hc
    obtain ⟨before, hbefore⟩ := hs
    obtain ⟨x, rfl, hx⟩ | ⟨x, -, hx⟩ := List.append_eq_append_iff.mp hbefore
    · cases x with
      | nil => exact h _ (hx ▸ List.suffix_refl _) hne more
      | cons d x =>
        obtain ⟨rfl, -⟩ := List.cons.inj hx
        exact absurd (List.mem_append_right before List.mem_cons_self) hfront
    · exact h _ ⟨x, hx.symm⟩ hne more
  · exact directive_eq_none_of_ne hc _

theorem inert_nil : Inert [] := fun _ hs hne => absurd (List.suffix_nil.mp hs) hne

theorem inert_of_not_mem {t : Text} (h : '{' ∉ t) : Inert t := by
  have hinert := inert_nil.append_left h
  rwa [List.append_nil] at hinert

/-- The brace in front of the bounds of a selection begins no directive. -/
theorem inert_boundsText (bounds : Nat × Option Nat) : Inert (boundsText bounds) := by
  have hinner : '{' ∉ boundsInner bounds ++ ['}'] := by
    simp [not_mem_boundsInner (c := '{') rfl (by decide)]
  obtain ⟨c, rest, hcons⟩ : ∃ c rest, boundsInner bounds ++ ['}'] = c :: rest :=
    List.exists_cons_of_ne_nil (by simp)
  have htext : boundsText bounds = '{' :: c :: rest := congrArg ('{' :: ·) hcons
  intro s hs hne more
  rw [htext] at hs
  rcases List.suffix_cons_iff.mp hs with rfl | hs
  · exact directive_brace_eq_none (fun hc => hinner (by simp [hcons, hc])) _
  · exact inert_of_not_mem (hcons ▸ hinner) s hs hne more

/-- **Without an opening brace in what it names**, the import of a target is inert. -/
theorem inert_toImport {target : Target} (hpath : '{' ∉ target.path)
    (hname : ∀ name, target.selection = .anchor name → '{' ∉ name) : Inert target.toImport := by
  rw [Target.toImport_eq, ← List.append_assoc]
  have hfront : '{' ∉ "<<< ".toList ++ target.path := by simp [hpath]
  refine Inert.append_left hfront ?_
  cases hselection : target.selection with
  | all => exact inert_nil
  | starting first => exact inert_boundsText _
  | ending last => exact inert_boundsText _
  | range first last => exact inert_boundsText _
  | anchor name =>
    refine inert_of_not_mem ?_
    simp [Selection.importText, hname name hselection]

/-! ## Both texts in lockstep -/

/-- **A text with imports in place of its directives.**  The flag says that a line or an import ends
right in front: there a part without closing brace may be missing afterwards. -/
inductive Imported : Bool → Text → Text → Prop
  | nil {ended : Bool} : Imported ended [] []
  | keep {ended : Bool} {t t' : Text} (c : Char) (hnone : directive (c :: t) = none)
      (h : Imported (c == '\n') t t') : Imported ended (c :: t) (c :: t')
  | token {ended : Bool} {t t' w : Text} {target : Target} (hw : IsDirective w target)
      (hinert : Inert target.toImport) (h : Imported true t t') :
      Imported ended (w ++ t) (target.toImport ++ t')
  | drop {t t' missing : Text} (hmissing : '}' ∉ missing) (h : Imported true t t') :
      Imported true (missing ++ t) t'

theorem brace_not_mem_opening : ∀ opening ∈ openings, '}' ∉ opening ∧ 2 ≤ opening.length := by
  decide

theorem ne_of_mem_opening {opening : Text} (h : opening ∈ openings) :
    ∀ m ∈ opening, m ≠ '<' ∧ m ≠ '\n' := by
  have hnone : ∀ opening ∈ openings, '<' ∉ opening ∧ '\n' ∉ opening := by decide
  intro m hm
  refine ⟨?_, ?_⟩
  · rintro rfl
    exact (hnone opening h).1 hm
  · rintro rfl
    exact (hnone opening h).2 hm

namespace Imported

/-- Within a line another character than `<` was there before. -/
theorem exists_cons {t v : Text} {c : Char} (h : Imported false t (c :: v)) (hc : c ≠ '<') :
    ∃ u, t = c :: u ∧ Imported (c == '\n') u v := by
  generalize hcv : c :: v = s at h
  cases h with
  | nil => cases hcv
  | keep d hnone h =>
    obtain ⟨rfl, rfl⟩ := List.cons.inj hcv
    exact ⟨_, rfl, h⟩
  | token hw hinert h => exact absurd (List.cons.inj hcv).1 hc

/-- A part of a line that no import begins in was there before. -/
theorem exists_append {mark t v : Text} (hmark : ∀ m ∈ mark, m ≠ '<' ∧ m ≠ '\n')
    (h : Imported false t (mark ++ v)) : ∃ u, t = mark ++ u ∧ Imported false u v := by
  induction mark generalizing t with
  | nil => exact ⟨t, rfl, h⟩
  | cons m mark ih =>
    obtain ⟨hm, hmark⟩ := List.forall_mem_cons.mp hmark
    obtain ⟨u, rfl, hu⟩ := h.exists_cons hm.1
    rw [beq_false_of_ne hm.2] at hu
    obtain ⟨u', rfl, hu'⟩ := ih hmark hu
    exact ⟨u', rfl, hu'⟩

/-- **What two closing braces end afterwards**, two closing braces ended before, and no less stood
in front of them. -/
theorem exists_closing {ended : Bool} {t body rest : Text}
    (h : Imported ended t (body ++ closing ++ rest)) (hbody : '}' ∉ body) :
    ∃ body' rest', t = body' ++ closing ++ rest' ∧ '}' ∉ body' ∧
      min 2 body.length ≤ body'.length := by
  generalize hs : body ++ closing ++ rest = s at h
  induction h generalizing body with
  | nil =>
    have := congrArg List.length hs
    simp [closing] at this
  | @keep ended t t' c hnone h ih =>
    cases body with
    | nil =>
      obtain ⟨rfl, rfl⟩ := List.cons.inj hs
      obtain ⟨u, rfl, -⟩ := h.exists_cons (by decide)
      exact ⟨[], u, rfl, by simp, by simp⟩
    | cons d body =>
      obtain ⟨rfl, htail⟩ := List.cons.inj hs
      rw [List.mem_cons, not_or] at hbody
      obtain ⟨body', rest', rfl, hbrace, hlength⟩ := ih hbody.2 htail
      refine ⟨d :: body', rest', rfl, by simp [hbody.1, hbrace], ?_⟩
      rw [List.length_cons, List.length_cons]
      omega
  | @token ended t t' w target hw hinert h ih =>
    obtain ⟨opening, body', hopening, rfl, hbrace, -⟩ := hw.eq_append
    obtain ⟨hopeningBrace, hlong⟩ := brace_not_mem_opening opening hopening
    refine ⟨opening ++ body', t, by simp, by simp [hopeningBrace, hbrace], ?_⟩
    rw [List.length_append]
    omega
  | @drop t t' missing hmissing h ih =>
    obtain ⟨body', rest', rfl, hbrace, hlength⟩ := ih hbody hs
    refine ⟨missing ++ body', rest', by simp, by simp [hmissing, hbrace], ?_⟩
    rw [List.length_append]
    omega

/-- **A directive that is seen afterwards** in front of a kept character was seen before. -/
theorem directive_eq_none {c : Char} {t t' : Text} (hnone : directive (c :: t) = none)
    (h : Imported (c == '\n') t t') : directive (c :: t') = none := by
  by_contra hfound
  obtain ⟨r, hr⟩ := Option.ne_none_iff_exists'.mp hfound
  obtain ⟨opening, body, rest, hopening, heq, hbrace, hbody, -⟩ :=
    eq_of_directive (show directive (c :: t') = some (r.1, r.2) from hr)
  have hmark := ne_of_mem_opening hopening
  obtain ⟨word, rfl⟩ := mem_openings hopening
  obtain ⟨rfl, rfl⟩ := List.cons.inj heq
  obtain ⟨u, rfl, hu⟩ := h.exists_append fun m hm => hmark m (List.mem_cons_of_mem _ hm)
  -- The body begins with a blank, which stands behind the opening in both texts.
  obtain ⟨b, d, more, rfl, hblank⟩ := exists_of_isBody hbody
  have hb : b ≠ '<' := by
    rintro rfl
    cases hblank
  obtain ⟨body', rest', hu', hbrace', hlength⟩ := hu.exists_closing hbrace
  obtain ⟨v, hv, -⟩ := hu.exists_cons hb
  have hbody' : isBody body' = true := by
    rcases body' with _ | ⟨b', _ | ⟨d', more'⟩⟩
    · simp at hlength
    · simp at hlength
    · rw [hu'] at hv
      obtain ⟨rfl, -⟩ := List.cons.inj hv
      exact hblank
  rw [hu'] at hnone
  have hsome := directive_append hopening hbrace' hbody' rest'
  rw [List.cons_append] at hsome
  rw [hsome] at hnone
  cases hnone

theorem hasDirective_append_eq_false {s t : Text}
    (hs : ∀ u, u <:+ s → u ≠ [] → directive (u ++ t) = none) (ht : hasDirective t = false) :
    hasDirective (s ++ t) = false := by
  induction s with
  | nil => exact ht
  | cons c s ih =>
    have hnone := hs (c :: s) (List.suffix_refl _) (by simp)
    rw [List.cons_append] at hnone
    rw [List.cons_append, Shown.hasDirective_cons, hnone,
      ih fun u hu => hs u (hu.trans (List.suffix_cons c s))]
    rfl

/-- **With inert imports in place of its directives a text holds none.** -/
theorem hasDirective_eq_false {ended : Bool} {t t' : Text} (h : Imported ended t t') :
    hasDirective t' = false := by
  induction h with
  | nil => rfl
  | keep c hnone h ih => rw [Shown.hasDirective_cons, h.directive_eq_none hnone, ih]; rfl
  | token hw hinert h ih =>
    exact hasDirective_append_eq_false (fun u hu hne => hinert u hu hne _) ih
  | drop hmissing h ih => exact ih

end Imported

end BookSite.Include
