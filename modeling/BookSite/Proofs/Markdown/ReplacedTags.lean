import BookSite.Proofs.Markdown.TagSources

/-!
# Proofs/Markdown/ReplacedTags — scanning the references of tags for tags

What a tag becomes is scanned again when the page is converted again.  A reference is copied from
the attributes of its tag, and what it holds may be read as the beginning of a tag or of a code span
then.  When no reference does (`ArePlain`), the second scan finds the tags without source and
nothing else (`tagsIn_replaceTags`).
-/

namespace BookSite.Image

open Text (Piece)

namespace TagToken

/-- The reference a token becomes. -/
def reference? : TagToken → Option Text
  | codeSpan => none
  | tag attributes => tagReference? attributes

theorem isSome_reference? (found : TagToken) : found.reference?.isSome = found.hasSource := by
  cases found with
  | codeSpan => rfl
  | tag attributes => exact Option.isSome_map

theorem exists_of_reference? {found : TagToken} {reference : Text}
    (h : found.reference? = some reference) : ∃ inner, reference = '!' :: (inner ++ [')']) := by
  cases found with
  | codeSpan => cases h
  | tag attributes =>
    obtain ⟨src, -, rfl⟩ := Option.map_eq_some_iff.mp h
    exact ⟨_, rfl⟩

end TagToken

open TagToken

theorem replaceTags_cons_of_none {c : Char} {rest : Text} (h : find (c :: rest) = none) :
    replaceTags (c :: rest) = c :: replaceTags rest := Text.replaceTokens_cons_of_none h

theorem replaceTags_cons_of_some {c : Char} {rest : Text} {found : TagToken} {n : Nat}
    (h : find (c :: rest) = some (found, n)) : replaceTags (c :: rest) =
      found.reference?.getD ((c :: rest).take (n - 1 + 1)) ++ replaceTags (rest.drop (n - 1)) := by
  rw [replaceTags, Text.replaceTokens_cons_of_some h]
  cases found <;> rfl

/-! ## Plain references -/

/-- **A reference with nothing in it for the scan**, when it stands in place of the wording of its
tag: neither a backtick nor the beginning of a tag, and behind a stray backtick it joins no lines,
since the backtick could find another one then. -/
structure IsPlainReference (stray : Bool) (wording reference : Text) : Prop where
  span : backtick ∉ reference
  tag : ¬ "<img".toList <:+: reference
  line : stray = true → '\n' ∉ wording

/-- A piece of a scanned text, behind a stray backtick in its line or not. -/
def IsPlainPiece (stray : Bool) : Piece TagToken → Prop
  | .char _ => True
  | .token wording found => ∀ reference ∈ found.reference?, IsPlainReference stray wording reference

/-- Whether a stray backtick stands in the line in which a piece ends. -/
def strayBehind (stray : Bool) : Piece TagToken → Bool
  | .char c => c != '\n' && (stray || c == backtick)
  | .token wording _ => stray && !wording.contains '\n'

/-- **Pieces that become plain references.** -/
def ArePlain : Bool → List (Piece TagToken) → Prop
  | _, [] => True
  | stray, piece :: more => IsPlainPiece stray piece ∧ ArePlain (strayBehind stray piece) more

/-- **A text whose tags become plain references.** -/
def HasPlainTags (t : Text) : Prop := ArePlain false (Text.scan find t)

instance (stray : Bool) (wording reference : Text) :
    Decidable (IsPlainReference stray wording reference) :=
  decidable_of_iff (backtick ∉ reference ∧ ¬ "<img".toList <:+: reference ∧
      (stray = true → '\n' ∉ wording))
    ⟨fun h => ⟨h.1, h.2.1, h.2.2⟩, fun h => ⟨h.span, h.tag, h.line⟩⟩

instance (stray : Bool) : (piece : Piece TagToken) → Decidable (IsPlainPiece stray piece)
  | .char _ => isTrue trivial
  | .token wording found =>
    inferInstanceAs (Decidable (∀ reference ∈ found.reference?,
      IsPlainReference stray wording reference))

instance decidableArePlain : (stray : Bool) → (pieces : List (Piece TagToken)) →
    Decidable (ArePlain stray pieces)
  | _, [] => isTrue trivial
  | stray, piece :: more =>
    have := decidableArePlain (strayBehind stray piece) more
    inferInstanceAs (Decidable (_ ∧ _))

instance (t : Text) : Decidable (HasPlainTags t) := inferInstanceAs (Decidable (ArePlain _ _))

/-! ## The second scan -/

/-- A character that begins no reference and no token is a character of the text. -/
theorem exists_of_replaceTags_eq_cons {t u : Text} {c : Char} (h : replaceTags t = c :: u)
    (hc : c ∉ ['!', '<', backtick]) :
    ∃ rest, t = c :: rest ∧ u = replaceTags rest := by
  simp only [List.mem_cons, List.not_mem_nil, or_false, not_or] at hc
  cases t with
  | nil => cases h
  | cons d rest =>
    cases hfind : find (d :: rest) with
    | none =>
      rw [replaceTags_cons_of_none hfind] at h
      obtain ⟨rfl, rfl⟩ := List.cons.inj h
      exact ⟨rest, rfl, rfl⟩
    | some token =>
      obtain ⟨found, n⟩ := token
      rw [replaceTags_cons_of_some hfind] at h
      cases hreference : found.reference? with
      | none =>
        rw [hreference, Option.getD_none, List.take_succ_cons, List.cons_append] at h
        obtain ⟨rfl, -⟩ := List.cons.inj h
        rw [find_eq_none_of_ne hc.2.2 hc.2.1] at hfind
        cases hfind
      | some reference =>
        obtain ⟨inner, rfl⟩ := exists_of_reference? hreference
        rw [hreference, Option.getD_some, List.cons_append] at h
        exact absurd (List.cons.inj h).1.symm hc.1

theorem angle_not_mem_replaceTags {t : Text} (h : '>' ∉ t) : '>' ∉ replaceTags t := by
  refine Text.not_mem_replaceTokens h fun s found n hs hfind => ?_
  cases found with
  | codeSpan => exact fun hmem => hs (List.mem_of_mem_take hmem)
  | tag attributes =>
    obtain ⟨-, -, -, -, -, hfound, -⟩ | ⟨inside, behind, -, -, rfl, -, -⟩ := cases_of_find hfind
    · cases hfound
    · exact absurd (by simp) hs

/-- A word that ends when what follows has its tags replaced ends before. -/
theorem wordEnds_of_replaceTags {t : Text} (h : wordEnds (replaceTags t) = true) :
    wordEnds t = true := by
  cases t with
  | nil => rfl
  | cons c rest =>
    cases hfind : find (c :: rest) with
    | none =>
      rw [replaceTags_cons_of_none hfind] at h
      exact h
    | some token =>
      obtain ⟨_, _, -, -, hs, -, -⟩ | ⟨_, _, -, -, hs, -, -⟩ := cases_of_find hfind
      · obtain ⟨rfl, -⟩ := List.cons.inj hs
        rfl
      · obtain ⟨rfl, -⟩ := List.cons.inj hs
        rfl

/-- Where no tag begins none begins when what follows has its tags replaced. -/
theorem find_angle_replaceTags {rest : Text} (h : find ('<' :: rest) = none) :
    find ('<' :: replaceTags rest) = none := by
  refine find_eq_none_of_not_tag fun r hr hname hmem => ?_
  have hname' : '<' :: replaceTags rest = '<' :: 'i' :: 'm' :: 'g' :: r := hr
  obtain ⟨rest, rfl, hi⟩ := exists_of_replaceTags_eq_cons (List.cons.inj hname').2 (by decide)
  obtain ⟨rest, rfl, hm⟩ := exists_of_replaceTags_eq_cons hi.symm (by decide)
  obtain ⟨rest, rfl, rfl⟩ := exists_of_replaceTags_eq_cons hm.symm (by decide)
  have hclosed : '>' ∈ rest := by
    by_contra hopen
    exact angle_not_mem_replaceTags hopen hmem
  have hends : wordEnds rest = true := wordEnds_of_replaceTags hname
  obtain ⟨inside, behind, rfl, hinside⟩ := List.eq_append_cons_of_mem hclosed
  rw [wordEnds_append_cons] at hends
  have htag := find_tag hinside hends behind
  exact absurd (htag.symm.trans h) (by simp)

/-- **A stray backtick stays one.** -/
theorem backtick_not_mem_replaceTags {t : Text} (h : ArePlain true (Text.scan find t))
    (ht : backtick ∉ t.takeWhile (· != '\n')) :
    backtick ∉ (replaceTags t).takeWhile (· != '\n') := by
  induction t using Text.scan_induction find with
  | nil => exact ht
  | char c rest hnone ih =>
    rw [Text.scan_cons_of_none hnone] at h
    rw [replaceTags_cons_of_none hnone, ← List.singleton_append,
      Text.not_mem_takeWhile_append_iff]
    rw [← List.singleton_append, Text.not_mem_takeWhile_append_iff] at ht
    refine ⟨ht.1, fun hc => ih ?_ (ht.2 hc)⟩
    have hstray : strayBehind true (.char c) = true := by
      simp [strayBehind, Ne.symm (List.ne_of_not_mem_cons hc)]
    exact hstray ▸ h.2
  | token c rest found n hsome ih =>
    rw [Text.scan_cons_of_some hsome] at h
    have hsplit := List.take_append_drop (n - 1 + 1) (c :: rest)
    rw [List.drop_succ_cons] at hsplit
    rw [← hsplit, Text.not_mem_takeWhile_append_iff] at ht
    rw [replaceTags_cons_of_some hsome, Text.not_mem_takeWhile_append_iff]
    have hbehind (hline : '\n' ∉ (c :: rest).take (n - 1 + 1)) :
        backtick ∉ (replaceTags (rest.drop (n - 1))).takeWhile (· != '\n') := by
      have hstray : strayBehind true (.token ((c :: rest).take (n - 1 + 1)) found) = true := by
        simpa [strayBehind] using hline
      exact ih (hstray ▸ h.2) (ht.2 hline)
    cases hreference : found.reference? with
    | none => exact ⟨ht.1, hbehind⟩
    | some reference =>
      have hplain := h.1 reference hreference
      exact ⟨fun hmem => hplain.span (List.takeWhile_subset _ hmem),
        fun _ => hbehind (hplain.line rfl)⟩

/-- Nothing is found in a plain reference. -/
theorem tagsIn_append_paren {t : Text} (hspan : backtick ∉ t) (htag : ¬ "<img".toList <:+: t)
    (more : Text) : tagsIn (t ++ ')' :: more) = tagsIn more := by
  induction t with
  | nil => exact tagsIn_cons_of_none (find_eq_none_of_ne (by decide) (by decide) more)
  | cons c t ih =>
    rw [List.mem_cons, not_or] at hspan
    have hrest := ih hspan.2 fun hin => htag (hin.trans (List.suffix_cons c t).isInfix)
    by_cases hc : c = '<'
    · subst hc
      have hnone : find ('<' :: (t ++ ')' :: more)) = none := by
        refine find_eq_none_of_not_tag fun r hr => ?_
        have hstart : Text.startsWith ('<' :: t ++ ')' :: more) "<img".toList = true :=
          List.isPrefixOf_iff_prefix.mpr ⟨r, hr.symm⟩
        rw [Text.startsWith_append_cons (by decide), Text.startsWith,
          List.isPrefixOf_iff_prefix] at hstart
        exact absurd hstart.isInfix htag
      rw [List.cons_append, tagsIn_cons_of_none hnone, hrest]
    · rw [List.cons_append, tagsIn_cons_of_none (find_eq_none_of_ne (Ne.symm hspan.1) hc _), hrest]

/-- **A plain reference** is passed over. -/
theorem tagsIn_append_reference {stray : Bool} {wording reference : Text} {found : TagToken}
    (hreference : found.reference? = some reference)
    (hplain : IsPlainReference stray wording reference) (more : Text) :
    tagsIn (reference ++ more) = tagsIn more := by
  obtain ⟨inner, rfl⟩ := exists_of_reference? hreference
  have hspan : backtick ∉ '!' :: inner := fun hmem =>
    hplain.span (List.mem_append_left [')'] hmem)
  have htag : ¬ "<img".toList <:+: '!' :: inner := fun hin =>
    hplain.tag (hin.trans ⟨[], [')'], rfl⟩)
  rw [← tagsIn_append_paren hspan htag more]
  simp

/-- **A character that is passed over** is passed over in the second scan. -/
theorem find_cons_replaceTags {stray : Bool} {c : Char} {rest : Text}
    (hnone : find (c :: rest) = none)
    (hplain : ArePlain (strayBehind stray (.char c)) (Text.scan find rest)) :
    find (c :: replaceTags rest) = none := by
  by_cases hspan : c = backtick
  · subst hspan
    -- the backtick stays a stray one, so what follows it has to be plain behind one
    have hstray : strayBehind stray (.char backtick) = true := by cases stray <;> rfl
    rw [hstray] at hplain
    rw [find_backtick_eq_none_iff] at hnone ⊢
    exact backtick_not_mem_replaceTags hplain hnone
  by_cases htag : c = '<'
  · subst htag
    exact find_angle_replaceTags hnone
  · exact find_eq_none_of_ne hspan htag _

/-- **The second scan** finds the tokens that have stayed. -/
theorem tagsIn_replaceTags {t : Text} {stray : Bool} (h : ArePlain stray (Text.scan find t)) :
    tagsIn (replaceTags t) = (tagsIn t).filter (!·.hasSource) := by
  induction t using Text.scan_induction find generalizing stray with
  | nil => rfl
  | char c rest hnone ih =>
    rw [Text.scan_cons_of_none hnone] at h
    rw [replaceTags_cons_of_none hnone, tagsIn_cons_of_none (find_cons_replaceTags hnone h.2),
      tagsIn_cons_of_none hnone, ih h.2]
  | token c rest found n hsome ih =>
    rw [Text.scan_cons_of_some hsome] at h
    rw [replaceTags_cons_of_some hsome, tagsIn_cons_of_some hsome]
    have hrest := ih h.2
    have hsource := isSome_reference? found
    generalize hmore : replaceTags (rest.drop (n - 1)) = more at hrest ⊢
    cases hreference : found.reference? with
    | none =>
      rw [hreference, Option.isSome_none] at hsource
      obtain ⟨d, w, hwording, hlength, hagain⟩ := find_take_append hsome more
      rw [Option.getD_none, hwording, List.cons_append, tagsIn_cons_of_some hagain, ← hlength,
        List.drop_left, hrest, List.filter_cons_of_pos (by simp [← hsource]), hlength]
    | some reference =>
      rw [hreference, Option.isSome_some] at hsource
      rw [Option.getD_some, tagsIn_append_reference hreference (h.1 reference hreference), hrest,
        List.filter_cons_of_neg (by simp [← hsource])]

end BookSite.Image
