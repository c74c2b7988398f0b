import BookSite.Proofs.Markdown.AttributeEdits

/-!
# Proofs/Markdown/ProseScan — where a line of prose is cut

A line of prose is read from left to right.  Where a **span** begins, a comment, a code span or
inline math, the longest one is passed over; where none begins and a group in braces stands, the
line is cut if the group is one of attributes (`CutsTo`).  The scan cuts every line in this way
(`cutsTo_ofText`) and in no other (`CutsTo.eq_ofText`).
-/

namespace BookSite

/-! ## The first end -/

/-- **A text ends where a mark first stands in it.** -/
structure EndsAtFirst (mark t : Text) : Prop where
  isSuffix : mark <:+ t
  behind_eq_nil : ∀ before behind, t = before ++ mark ++ behind → behind = []

namespace Text

variable {mark t : Text}

/-- The text around the first mark, with no mark that begins earlier. -/
theorem splitAround?_eq_some {before behind : Text} (hne : mark ≠ [])
    (h : t.splitAround? mark = some (before, behind)) :
    t = before ++ mark ++ behind ∧
      ∀ before' behind', t = before' ++ mark ++ behind' → before.length ≤ before'.length := by
  induction t generalizing before with
  | nil => simp [splitAround?, hne] at h
  | cons c rest ih =>
    rw [splitAround?] at h
    split at h
    · rename_i behind' hfront
      cases h
      exact ⟨behind?_eq_some_iff.mp hfront, fun _ _ _ => Nat.zero_le _⟩
    · rename_i hfront
      obtain ⟨⟨before', behind'⟩, hrest, heq⟩ := Option.map_eq_some_iff.mp h
      cases heq
      obtain ⟨rfl, hfirst⟩ := ih hrest
      refine ⟨rfl, fun before'' behind'' heq => ?_⟩
      cases before'' with
      | nil =>
        have hsome : behind? (c :: (before' ++ mark ++ behind)) mark = some behind'' :=
          behind?_eq_some_iff.mpr heq
        rw [hfront] at hsome
        cases hsome
      | cons d before'' =>
        exact Nat.succ_le_succ (hfirst before'' behind'' (List.cons.inj heq).2)

/-- Where a mark stands, it stands a first time. -/
theorem exists_splitAround? (hne : mark ≠ []) (h : mark <:+: t) :
    ∃ before behind, t.splitAround? mark = some (before, behind) := by
  induction t with
  | nil => exact absurd (List.infix_nil.mp h) hne
  | cons c rest ih =>
    rw [splitAround?]
    cases hfront : behind? (c :: rest) mark with
    | some behind => exact ⟨[], behind, rfl⟩
    | none =>
      have hrest : mark <:+: rest := (List.infix_cons_iff.mp h).resolve_left fun hahead => by
        obtain ⟨behind, heq⟩ := hahead
        simp [behind?_eq_some_iff.mpr heq.symm] at hfront
      obtain ⟨before, behind, hsplit⟩ := ih hrest
      exact ⟨c :: before, behind, by rw [hsplit]; rfl⟩

/-- **The text up to the first mark** ends there, and there is no other such cut. -/
theorem splitAround?_eq_some_iff {before behind : Text} (hne : mark ≠ []) :
    t.splitAround? mark = some (before, behind) ↔
      t = before ++ mark ++ behind ∧ EndsAtFirst mark (before ++ mark) := by
  constructor
  · intro h
    obtain ⟨rfl, hfirst⟩ := splitAround?_eq_some hne h
    refine ⟨rfl, List.suffix_append before mark, fun before' behind' heq => ?_⟩
    have hlength := congrArg List.length heq
    have hle := hfirst before' (behind' ++ behind) (by rw [heq, List.append_assoc])
    simp only [List.length_append] at hlength
    exact List.length_eq_zero_iff.mp (by omega)
  · rintro ⟨rfl, hends⟩
    obtain ⟨before', behind', hsplit⟩ :=
      exists_splitAround? hne (t := before ++ mark ++ behind) ⟨before, behind, rfl⟩
    obtain ⟨heq, hfirst⟩ := splitAround?_eq_some hne hsplit
    -- The first mark is not behind the one at the end, so with it the front ends.
    have hle := hfirst before behind rfl
    have hfront : before' ++ mark <+: before ++ mark :=
      List.prefix_of_prefix_length_le ⟨behind', heq.symm⟩ ⟨behind, rfl⟩ (by simpa using hle)
    obtain ⟨more, hmore⟩ := hfront
    obtain rfl := hends.behind_eq_nil before' more hmore.symm
    rw [List.append_nil, List.append_left_inj] at hmore
    subst hmore
    rw [List.append_cancel_left_eq] at heq
    rw [hsplit, heq]

end Text

/-! ## Spans -/

/-- **A span**: a comment, which ends where its end first stands, a code span, or inline math
between pairs of dollars or single ones. -/
inductive IsSpan : Text → Prop
  | comment {inner : Text} (h : EndsAtFirst "-->".toList (inner ++ "-->".toList)) :
    IsSpan ("<!--".toList ++ (inner ++ "-->".toList))
  | code {inner : Text} (h : backtick ∉ inner) : IsSpan (backtick :: (inner ++ [backtick]))
  | displayed {inner : Text} (h : '$' ∉ inner) : IsSpan ('$' :: '$' :: (inner ++ ['$', '$']))
  | inline {inner : Text} (h : '$' ∉ inner) : IsSpan ('$' :: (inner ++ ['$']))

/-- **The span at the front of a text**: the longest one that stands there. -/
structure IsSpanAhead (w t : Text) : Prop where
  isSpan : IsSpan w
  isPrefix : w <+: t
  longest : ∀ w', IsSpan w' → w' <+: t → w'.length ≤ w.length

theorem IsSpan.ne_nil {w : Text} (h : IsSpan w) : w ≠ [] := by
  cases h <;> exact List.cons_ne_nil _ _

namespace ProseToken

variable {t : Text} {n : Nat}

theorem commentLength?_eq_some_iff : commentLength? t = some n ↔
    ∃ inner, EndsAtFirst "-->".toList (inner ++ "-->".toList) ∧
      "<!--".toList ++ (inner ++ "-->".toList) <+: t ∧ n = 4 + inner.length + 3 := by
  simp only [commentLength?, Option.bind_eq_bind, Option.bind_eq_some_iff,
    Text.behind?_eq_some_iff, Option.some.injEq]
  constructor
  · rintro ⟨rest, rfl, ⟨inner, behind⟩, hsplit, rfl⟩
    obtain ⟨rfl, hends⟩ := (Text.splitAround?_eq_some_iff (by decide)).mp hsplit
    exact ⟨inner, hends, ⟨behind, by simp⟩, rfl⟩
  · rintro ⟨inner, hends, ⟨behind, rfl⟩, rfl⟩
    refine ⟨inner ++ "-->".toList ++ behind, by simp, (inner, behind), ?_, rfl⟩
    exact (Text.splitAround?_eq_some_iff (by decide)).mpr ⟨rfl, hends⟩

theorem length_comment (inner : Text) :
    ("<!--".toList ++ (inner ++ "-->".toList)).length = 4 + inner.length + 3 := by
  rw [List.length_append, List.length_append, Nat.add_assoc]
  rfl

theorem spanLength?_eq_some_iff {start more : Text} {stop : Char} :
    spanLength? start (· == stop) (stop :: more) t = some n ↔
      ∃ inner, stop ∉ inner ∧ start ++ (inner ++ stop :: more) <+: t ∧
        n = start.length + inner.length + (more.length + 1) := by
  have hlength : (stop :: more).length = more.length + 1 := rfl
  simp only [spanLength?, Option.bind_eq_bind, Option.bind_eq_some_iff, Text.behind?_eq_some_iff,
    Option.ite_none_right_eq_some, Option.some.injEq, List.isPrefixOf_iff_prefix, hlength]
  constructor
  · rintro ⟨rest, rfl, ⟨behind, hstop⟩, rfl⟩
    refine ⟨rest.takeWhile (· != stop), Text.not_mem_takeWhile_bne stop rest, ⟨behind, ?_⟩, rfl⟩
    have hparts : rest.takeWhile (· != stop) ++ rest.dropWhile (· != stop) = rest :=
      List.takeWhile_append_dropWhile
    rw [List.append_assoc, List.append_assoc, hstop]
    exact congrArg (start ++ ·) hparts
  · rintro ⟨inner, hinner, ⟨behind, rfl⟩, rfl⟩
    have htake := Text.takeWhile_bne_append hinner (more ++ behind)
    have hdrop := Text.dropWhile_bne_append hinner (more ++ behind)
    refine ⟨inner ++ stop :: (more ++ behind), by simp, ?_, ?_⟩
    · exact ⟨behind, hdrop.symm⟩
    · exact congrArg (fun front : Text => start.length + front.length + (more.length + 1)) htake

theorem length_span (start inner more : Text) (stop : Char) :
    (start ++ (inner ++ stop :: more)).length =
      start.length + inner.length + (more.length + 1) := by
  rw [List.length_append, List.length_append, List.length_cons, Nat.add_assoc]

/-- The length of the span at the front of a text: of the forms that stand there, the first one. -/
def spanAhead? (t : Text) : Option Nat :=
  (commentLength? t)
    |>.or (spanLength? [backtick] (· == backtick) [backtick] t)
    |>.or (spanLength? ['$', '$'] (· == '$') ['$', '$'] t)
    |>.or (spanLength? ['$'] (· == '$') ['$'] t)

/-- The first form that stands at the front of a text is a span. -/
theorem exists_isSpan_of_spanAhead? (h : spanAhead? t = some n) :
    ∃ w, IsSpan w ∧ w <+: t ∧ n = w.length := by
  simp only [spanAhead?, Option.or_eq_some_iff, commentLength?_eq_some_iff,
    spanLength?_eq_some_iff] at h
  obtain ((⟨inner, hinner, hahead, rfl⟩ | ⟨-, inner, hinner, hahead, rfl⟩) |
    ⟨-, inner, hinner, hahead, rfl⟩) | ⟨-, inner, hinner, hahead, rfl⟩ := h
  · exact ⟨_, .comment hinner, hahead, (length_comment inner).symm⟩
  · exact ⟨_, .code hinner, hahead, (length_span [backtick] inner [] backtick).symm⟩
  · exact ⟨_, .displayed hinner, hahead, (length_span ['$', '$'] inner ['$'] '$').symm⟩
  · exact ⟨_, .inline hinner, hahead, (length_span ['$'] inner [] '$').symm⟩

/-- **No longer span stands there.**  Only the two forms of math begin alike, and behind two dollars
inline math is no longer than these. -/
theorem exists_spanAhead?_of_isSpan {w : Text} (h : IsSpan w) (hahead : w <+: t) :
    ∃ n, spanAhead? t = some n ∧ w.length ≤ n := by
  cases h with
  | @comment inner hinner =>
    have hcomment := commentLength?_eq_some_iff.mpr ⟨inner, hinner, hahead, rfl⟩
    exact ⟨_, by rw [spanAhead?, hcomment]; rfl, (length_comment inner).le⟩
  | @code inner hinner =>
    have hcode : spanLength? [backtick] (· == backtick) [backtick] t = some _ :=
      spanLength?_eq_some_iff.mpr ⟨inner, hinner, hahead, rfl⟩
    obtain ⟨rest, rfl⟩ := hahead
    exact ⟨_, by rw [spanAhead?, hcode]; rfl, (length_span [backtick] inner [] backtick).le⟩
  | @displayed inner hinner =>
    have hdisplayed : spanLength? ['$', '$'] (· == '$') ['$', '$'] t = some _ :=
      spanLength?_eq_some_iff.mpr ⟨inner, hinner, hahead, rfl⟩
    obtain ⟨rest, rfl⟩ := hahead
    exact ⟨_, by rw [spanAhead?, hdisplayed]; rfl,
      (length_span ['$', '$'] inner ['$'] '$').le⟩
  | @inline inner hinner =>
    have hinline : spanLength? ['$'] (· == '$') ['$'] t = some _ :=
      spanLength?_eq_some_iff.mpr ⟨inner, hinner, hahead, rfl⟩
    obtain ⟨rest, rfl⟩ := hahead
    cases hdisplayed : spanLength? ['$', '$'] (· == '$') ['$', '$']
        ('$' :: (inner ++ ['$']) ++ rest) with
    | none => exact ⟨_, by rw [spanAhead?, hdisplayed, hinline]; rfl,
        (length_span ['$'] inner [] '$').le⟩
    | some n =>
      refine ⟨n, by rw [spanAhead?, hdisplayed]; rfl, ?_⟩
      obtain ⟨inner', -, hahead', rfl⟩ := spanLength?_eq_some_iff.mp hdisplayed
      cases inner with
      | nil => simp
      | cons c inner =>
        obtain ⟨rest', heq⟩ := hahead'
        simp only [List.cons_append, List.cons.injEq, true_and] at heq
        exact absurd (heq.1 ▸ List.mem_cons_self) hinner

/-- **What is passed over** is the longest span. -/
theorem spanAhead?_eq_some_iff : spanAhead? t = some n ↔ ∃ w, IsSpanAhead w t ∧ n = w.length := by
  constructor
  · intro h
    obtain ⟨w, hspan, hahead, rfl⟩ := exists_isSpan_of_spanAhead? h
    refine ⟨w, ⟨hspan, hahead, fun w' hspan' hahead' => ?_⟩, rfl⟩
    obtain ⟨n, hn, hle⟩ := exists_spanAhead?_of_isSpan hspan' hahead'
    rwa [Option.some.inj (h.symm.trans hn)]
  · rintro ⟨w, hw, rfl⟩
    obtain ⟨n, hn, hle⟩ := exists_spanAhead?_of_isSpan hw.isSpan hw.isPrefix
    obtain ⟨w', hspan, hahead, rfl⟩ := exists_isSpan_of_spanAhead? hn
    rw [hn, le_antisymm (hw.longest w' hspan hahead) hle]

theorem spanAhead?_eq_none_iff : spanAhead? t = none ↔ ∀ w, IsSpan w → ¬ w <+: t := by
  constructor
  · intro h w hspan hahead
    obtain ⟨n, hn, -⟩ := exists_spanAhead?_of_isSpan hspan hahead
    rw [h] at hn
    cases hn
  · intro h
    by_contra hsome
    obtain ⟨n, hn⟩ := Option.ne_none_iff_exists'.mp hsome
    obtain ⟨w, hspan, hahead, -⟩ := exists_isSpan_of_spanAhead? hn
    exact h w hspan hahead

end ProseToken

/-! ## Groups -/

/-- What stands in the braces of a group. -/
structure IsGroup (inner : Text) : Prop where
  ne_nil : inner ≠ []
  not_mem_open : '{' ∉ inner
  not_mem_close : '}' ∉ inner

/-- A text in braces. -/
def inBraces (inner : Text) : Text := '{' :: (inner ++ ['}'])

namespace ProseToken

variable {t : Text}

/-- No brace stands in what is read as the inside of a group. -/
theorem isGroup_of_takeWhile {c : Char} {inner rest : Text}
    (h : rest.takeWhile (fun c => c != '{' && c != '}') = c :: inner) : IsGroup (c :: inner) := by
  have hinner : ∀ d ∈ c :: inner, (d != '{' && d != '}') = true := fun d hd =>
    List.mem_takeWhile_imp (p := fun c => c != '{' && c != '}') (h ▸ hd)
  exact ⟨List.cons_ne_nil c inner, fun hmem => by simpa using hinner _ hmem,
    fun hmem => by simpa using hinner _ hmem⟩

theorem groupInner?_eq_some_iff {inner : Text} :
    groupInner? t = some inner ↔ IsGroup inner ∧ inBraces inner <+: t := by
  constructor
  · intro h
    unfold groupInner? at h
    split at h
    · rename_i rest
      split at h
      · rename_i htake hdrop
        cases h
        refine ⟨isGroup_of_takeWhile htake, ?_⟩
        rw [← List.takeWhile_append_dropWhile (p := fun c => c != '{' && c != '}') (l := rest),
          htake, hdrop]
        simp [inBraces]
      · cases h
    · cases h
  · rintro ⟨hinner, behind, rfl⟩
    have hall : ∀ c ∈ inner, (c != '{' && c != '}') = true := fun c hc => by
      rw [Bool.and_eq_true, bne_iff_ne, bne_iff_ne]
      exact ⟨ne_of_mem_of_not_mem hc hinner.not_mem_open,
        ne_of_mem_of_not_mem hc hinner.not_mem_close⟩
    have htake : (inner ++ '}' :: behind).takeWhile (fun c => c != '{' && c != '}') = inner := by
      rw [List.takeWhile_append_of_pos hall]
      simp
    have hdrop : (inner ++ '}' :: behind).dropWhile (fun c => c != '{' && c != '}') =
        '}' :: behind := by
      rw [List.dropWhile_append_of_pos hall]
      simp
    obtain ⟨c, rest, rfl⟩ := List.exists_cons_of_ne_nil hinner.ne_nil
    have hfront : inBraces (c :: rest) ++ behind = '{' :: (c :: rest ++ '}' :: behind) := by
      simp [inBraces]
    rw [hfront, groupInner?]
    simp only [htake, hdrop]

/-! ## What is found -/

theorem find_eq (t : Text) : find t =
    match spanAhead? t with
    | some n => some (.skipped, n)
    | none => (groupInner? t).map fun inner => (.group inner, inner.length + 2) := rfl

/-- **A span is passed over** where one stands. -/
theorem find_of_isSpanAhead {w : Text} (h : IsSpanAhead w t) :
    find t = some (.skipped, w.length) := by
  rw [find_eq, spanAhead?_eq_some_iff.mpr ⟨w, h, rfl⟩]

/-- No span begins with the brace of a group. -/
theorem not_isPrefix_of_inBraces {inner : Text} (h : inBraces inner <+: t) :
    ∀ w, IsSpan w → ¬ w <+: t := by
  obtain ⟨behind, rfl⟩ := h
  rintro w hspan ⟨rest, heq⟩
  cases hspan <;> exact absurd (List.cons.inj heq).1 (by decide)

/-- **A group is found** where one stands. -/
theorem find_of_isGroup {inner : Text} (h : IsGroup inner) (hahead : inBraces inner <+: t) :
    find t = some (.group inner, (inBraces inner).length) := by
  rw [find_eq, spanAhead?_eq_none_iff.mpr (not_isPrefix_of_inBraces hahead),
    groupInner?_eq_some_iff.mpr ⟨h, hahead⟩]
  simp [inBraces]

/-- **Nothing is found** where neither stands. -/
theorem find_eq_none (hspan : ∀ w, IsSpan w → ¬ w <+: t)
    (hgroup : ∀ inner, IsGroup inner → ¬ inBraces inner <+: t) : find t = none := by
  rw [find_eq, spanAhead?_eq_none_iff.mpr hspan, Option.map_eq_none_iff]
  by_contra hsome
  obtain ⟨inner, hinner⟩ := Option.ne_none_iff_exists'.mp hsome
  obtain ⟨h, hahead⟩ := groupInner?_eq_some_iff.mp hinner
  exact hgroup inner h hahead

/-- **The three cases of the scan**: a span, a group, or neither. -/
theorem find_cases (t : Text) :
    (∃ w, IsSpanAhead w t ∧ find t = some (.skipped, w.length)) ∨
      (∃ inner, IsGroup inner ∧ inBraces inner <+: t ∧
        find t = some (.group inner, (inBraces inner).length)) ∨
      ((∀ w, IsSpan w → ¬ w <+: t) ∧ (∀ inner, IsGroup inner → ¬ inBraces inner <+: t) ∧
        find t = none) := by
  cases hspan : spanAhead? t with
  | some n =>
    obtain ⟨w, hw, -⟩ := spanAhead?_eq_some_iff.mp hspan
    exact .inl ⟨w, hw, find_of_isSpanAhead hw⟩
  | none =>
    rw [spanAhead?_eq_none_iff] at hspan
    cases hgroup : groupInner? t with
    | some inner =>
      obtain ⟨hinner, hahead⟩ := groupInner?_eq_some_iff.mp hgroup
      exact .inr (.inl ⟨inner, hinner, hahead, find_of_isGroup hinner hahead⟩)
    | none =>
      have hnone : ∀ inner, IsGroup inner → ¬ inBraces inner <+: t := fun inner h hahead => by
        rw [groupInner?_eq_some_iff.mpr ⟨h, hahead⟩] at hgroup
        cases hgroup
      exact .inr (.inr ⟨hspan, hnone, find_eq_none hspan hnone⟩)

end ProseToken

/-! ## Cutting a line -/

/-- **How a line is cut** at its attribute groups, from left to right: spans are passed over, and so
are groups that are not of attributes. -/
inductive CutsTo : Text → AttributedLine → Prop
  | nil : CutsTo [] ⟨[], []⟩
  | span {w rest first : Text} {parts : List (AttributeGroup × Text)}
    (h : IsSpanAhead w (w ++ rest)) (hrest : CutsTo rest ⟨first, parts⟩) :
    CutsTo (w ++ rest) ⟨w ++ first, parts⟩
  | attributes {inner rest first : Text} {parts : List (AttributeGroup × Text)}
    {a : AttributeGroup} (h : IsGroup inner) (ha : AttributeGroup.parse? inner = some a)
    (hrest : CutsTo rest ⟨first, parts⟩) :
    CutsTo (inBraces inner ++ rest) ⟨[], (a, first) :: parts⟩
  | braces {inner rest first : Text} {parts : List (AttributeGroup × Text)}
    (h : IsGroup inner) (ha : AttributeGroup.parse? inner = none)
    (hrest : CutsTo rest ⟨first, parts⟩) :
    CutsTo (inBraces inner ++ rest) ⟨inBraces inner ++ first, parts⟩
  | char {c : Char} {rest first : Text} {parts : List (AttributeGroup × Text)}
    (hspan : ∀ w, IsSpan w → ¬ w <+: c :: rest)
    (hgroup : ∀ inner, IsGroup inner → ¬ inBraces inner <+: c :: rest)
    (hrest : CutsTo rest ⟨first, parts⟩) : CutsTo (c :: rest) ⟨c :: first, parts⟩

namespace AttributedLine

theorem cons_group_of_none {w inner : Text} (h : AttributeGroup.parse? inner = none)
    (line : AttributedLine) :
    cons (.token w (.group inner)) line = { line with first := w ++ line.first } := by
  simp [cons, pieceAttributes?, ProseToken.attributes?, h, Text.Piece.wording]

theorem cons_group_of_some {w inner : Text} {a : AttributeGroup}
    (h : AttributeGroup.parse? inner = some a) (line : AttributedLine) :
    cons (.token w (.group inner)) line = ⟨[], (a, line.first) :: line.rest⟩ := by
  simp [cons, pieceAttributes?, ProseToken.attributes?, h]

/-- A token at the front of a line is put before the cut of what follows. -/
theorem ofText_append {w rest : Text} {found : ProseToken} (hne : w ≠ [])
    (h : ProseToken.find (w ++ rest) = some (found, w.length)) :
    ofText (w ++ rest) = cons (.token w found) (ofText rest) := by
  obtain ⟨c, w, rfl⟩ := List.exists_cons_of_ne_nil hne
  rw [List.cons_append] at h
  rw [ofText, List.cons_append, Text.scan_cons_of_some h, List.foldr_cons, List.length_cons,
    Nat.add_sub_cancel, List.drop_left, ← List.cons_append, ← List.length_cons, List.take_left]
  rfl

theorem ofText_cons_of_none {c : Char} {rest : Text} (h : ProseToken.find (c :: rest) = none) :
    ofText (c :: rest) = cons (.char c) (ofText rest) := by
  rw [ofText, Text.scan_cons_of_none h]
  rfl

end AttributedLine

theorem inBraces_ne_nil (inner : Text) : inBraces inner ≠ [] := List.cons_ne_nil _ _

/-- **The scan cuts a line so.** -/
theorem cutsTo_ofText (line : Text) : CutsTo line (AttributedLine.ofText line) := by
  induction h : line.length using Nat.strongRecOn generalizing line with
  | ind k ih =>
    have hshorter : ∀ {w rest : Text}, w ≠ [] → line = w ++ rest → rest.length < k := by
      rintro w rest hne rfl
      rw [← h, List.length_append]
      exact Nat.lt_add_of_pos_left (List.length_pos_of_ne_nil hne)
    obtain ⟨w, hw, hfind⟩ | ⟨inner, hinner, ⟨rest, rfl⟩, hfind⟩ | ⟨hspan, hgroup, hfind⟩ :=
      ProseToken.find_cases line
    · obtain ⟨rest, rfl⟩ := hw.isPrefix
      rw [AttributedLine.ofText_append hw.isSpan.ne_nil hfind]
      exact .span hw (ih _ (hshorter hw.isSpan.ne_nil rfl) rest rfl)
    · have hrest := ih _ (hshorter (inBraces_ne_nil inner) rfl) rest rfl
      rw [AttributedLine.ofText_append (inBraces_ne_nil inner) hfind]
      cases ha : AttributeGroup.parse? inner with
      | none =>
        rw [AttributedLine.cons_group_of_none ha]
        exact .braces hinner ha hrest
      | some a =>
        rw [AttributedLine.cons_group_of_some ha]
        exact .attributes hinner ha hrest
    · cases line with
      | nil => exact .nil
      | cons c rest =>
        rw [AttributedLine.ofText_cons_of_none hfind]
        exact .char hspan hgroup (ih _ (hshorter (List.cons_ne_nil c []) rfl) rest rfl)

/-- **It is cut in no other way.** -/
theorem CutsTo.eq_ofText {line : Text} {cut : AttributedLine} (h : CutsTo line cut) :
    cut = AttributedLine.ofText line := by
  induction h with
  | nil => rfl
  | span hw _ ih =>
    rw [AttributedLine.ofText_append hw.isSpan.ne_nil (ProseToken.find_of_isSpanAhead hw), ← ih]
    rfl
  | attributes hinner ha _ ih =>
    rw [AttributedLine.ofText_append (inBraces_ne_nil _)
      (ProseToken.find_of_isGroup hinner (List.prefix_append _ _)), ← ih,
      AttributedLine.cons_group_of_some ha]
  | braces hinner ha _ ih =>
    rw [AttributedLine.ofText_append (inBraces_ne_nil _)
      (ProseToken.find_of_isGroup hinner (List.prefix_append _ _)), ← ih,
      AttributedLine.cons_group_of_none ha]
  | char hspan hgroup _ ih =>
    rw [AttributedLine.ofText_cons_of_none (ProseToken.find_eq_none hspan hgroup), ← ih]
    rfl

/-- An attribute group as it is written. -/
theorem AttributeGroup.raw_of_parse? {inner : Text} {a : AttributeGroup}
    (h : AttributeGroup.parse? inner = some a) : a.raw = inBraces inner := by
  rw [eq_of_parse? h]
  rfl

namespace CutsTo

variable {line : Text} {cut : AttributedLine} (h : CutsTo line cut)

include h

/-- **Nothing is lost**: a line is its texts with the groups between them. -/
theorem eq_append : line = cut.first ++ cut.rest.flatMap fun part => part.1.raw ++ part.2 := by
  induction h with
  | nil => rfl
  | span _ _ ih => rw [ih, List.append_assoc]
  | attributes _ ha _ ih => rw [ih, ← AttributeGroup.raw_of_parse? ha]; simp
  | braces _ _ _ ih => rw [ih, List.append_assoc]
  | char _ _ _ ih => rw [ih]; rfl

/-- A line that is cut nowhere is one text. -/
theorem eq_of_rest_eq_nil (hrest : cut.rest = []) : cut = ⟨line, []⟩ := by
  obtain ⟨first, parts⟩ := cut
  obtain rfl : parts = [] := hrest
  have hline := h.eq_append
  rw [List.flatMap_nil, List.append_nil] at hline
  rw [hline]

/-- The groups that a line is cut at are read from what stands in their braces. -/
theorem exists_parse? {part : AttributeGroup × Text} (hpart : part ∈ cut.rest) :
    ∃ inner, IsGroup inner ∧ AttributeGroup.parse? inner = some part.1 := by
  induction h with
  | nil => cases hpart
  | span _ _ ih => exact ih hpart
  | attributes hinner ha _ ih =>
    rcases List.mem_cons.mp hpart with rfl | hpart
    · exact ⟨_, hinner, ha⟩
    · exact ih hpart
  | braces _ _ _ ih => exact ih hpart
  | char _ _ _ ih => exact ih hpart

end CutsTo

end BookSite
