import BookSite.Proofs.Markdown.FoundTags
import BookSite.Proofs.Markdown.ProseRuns
import BookSite.Proofs.Markdown.RootedPaths

/-!
# Proofs/Markdown/TagSources — which tags have a source

Rooting a path changes what stands between `](` and the path.  Nothing that the scan for tags or for
attributes looks at is there, so it sees the same whichever of these texts it is (`SeenAlike`), and
tags with and without source are found as before.
-/

namespace BookSite.Image

/-! ## Values -/

/-- What follows the quote that opens the value of an attribute. -/
def valueStart? (name t : Text) : Option Text := do
  let (c, rest) ← t.head?.map fun c => (c, t.tail)
  if !isBlank c then none
  let rest ← Text.behind? rest name
  let rest ← rest.trimStart.behind? ['=']
  match rest.trimStart with
  | q :: rest => if isQuote q then some rest else none
  | [] => none

/-- **Whether a value that is not empty stands** in front of a quote. -/
def HasValue (t : Text) : Prop :=
  (∃ c ∈ t.head?, isQuote c = false) ∧ ∃ q ∈ t, isQuote q = true

theorem length_takeWhile_lt_iff {rest : Text} :
    (rest.takeWhile (!isQuote ·)).length < rest.length ↔ ∃ q ∈ rest, isQuote q = true := by
  constructor
  · intro h
    obtain ⟨q, behind, hq, hrest⟩ := Text.exists_stop_of_length_takeWhile_lt h
    refine ⟨q, ?_, by simpa using hq⟩
    rw [hrest]
    simp
  · rintro ⟨q, hmem, hq⟩
    refine lt_of_le_of_ne (List.takeWhile_prefix _).length_le fun hlength => ?_
    have hall := List.takeWhile_eq_self_iff.mp ((List.takeWhile_prefix _).eq_of_length hlength)
    simpa [hq] using hall q hmem

theorem valueHere?_eq (name t : Text) : valueHere? name t = (valueStart? name t).bind fun rest =>
    if (rest.takeWhile (!isQuote ·)).length < rest.length then some (rest.takeWhile (!isQuote ·))
    else none := by
  unfold valueHere? valueStart?
  cases t with
  | nil => rfl
  | cons c rest =>
    simp only [List.head?_cons, List.tail_cons, Option.map_some, Option.bind_eq_bind,
      Option.bind_some]
    split
    · rfl
    · simp only [Option.bind_assoc]
      refine congrArg _ (funext fun behindName => congrArg _ (funext fun behindSign => ?_))
      cases behindSign.trimStart with
      | nil => rfl
      | cons q rest =>
        simp only
        cases hq : isQuote q with
        | false => simp
        | true => simp

theorem isSome_filter_valueHere?_iff {name t : Text} :
    ((valueHere? name t).filter (!·.isEmpty)).isSome ↔
      ∃ rest ∈ valueStart? name t, HasValue rest := by
  rw [valueHere?_eq]
  cases valueStart? name t with
  | none => simp
  | some rest =>
    cases rest with
    | nil => simp [HasValue]
    | cons c rest =>
      cases hc : isQuote c with
      | true => simp [HasValue, hc]
      | false =>
        rw [Option.bind_some]
        by_cases hclosed : ∃ q ∈ c :: rest, isQuote q = true
        · rw [if_pos (length_takeWhile_lt_iff.mpr hclosed)]
          simpa [HasValue, hc] using hclosed
        · rw [if_neg (mt length_takeWhile_lt_iff.mp hclosed)]
          simpa [HasValue, hc] using hclosed

/-- A stop that neither a name nor a sign nor the blanks around them hold. -/
structure EndsAttribute (name : Text) (stop : Char) : Prop where
  blank : isBlank stop = false
  quote : isQuote stop = false
  sign : stop ≠ '='
  name : stop ∉ name

theorem valueStart?_append_cons {name : Text} {stop : Char} (h : EndsAttribute name stop)
    (t more : Text) :
    valueStart? name (t ++ stop :: more) = (valueStart? name t).map (· ++ stop :: more) := by
  have hsign : stop ∉ ['='] := by simpa using h.sign
  unfold valueStart?
  cases t with
  | nil => simp [h.blank]
  | cons c rest =>
    simp only [List.cons_append, List.head?_cons, List.tail_cons, Option.map_some,
      Option.bind_eq_bind, Option.bind_some]
    split
    · rfl
    · rw [Text.behind?_append_cons h.name]
      cases Text.behind? rest name with
      | none => rfl
      | some behindName =>
        simp only [Option.map_some, Option.bind_some]
        rw [Text.trimStart_append_cons h.blank, Text.behind?_append_cons hsign]
        cases Text.behind? behindName.trimStart ['='] with
        | none => rfl
        | some behindSign =>
          simp only [Option.map_some, Option.bind_some]
          rw [Text.trimStart_append_cons h.blank]
          cases behindSign.trimStart with
          | nil => simp [h.quote]
          | cons q rest =>
            cases hq : isQuote q <;> simp [hq]

/-- Whether a value stands at the front of a text does not hang on how it goes on behind a stop. -/
theorem isSome_filter_valueHere?_append_cons {name : Text} {stop : Char}
    (h : EndsAttribute name stop) (t more : Text) :
    ((valueHere? name (t ++ stop :: more)).filter (!·.isEmpty)).isSome ↔
      ∃ rest ∈ valueStart? name t, HasValue (rest ++ stop :: more) := by
  rw [isSome_filter_valueHere?_iff, valueStart?_append_cons h]
  simp

/-! ## Sources -/

/-- **A text that takes no part in tags**: it begins with a bracket and holds no character that the
scan for tags or for their attributes looks for. -/
structure IsInert (middle : Text) : Prop where
  head? : middle.head? = some ']'
  plain : ∀ c ∈ middle, isBlank c = false ∧ isQuote c = false ∧ c ∉ [backtick, '<', '>']

instance (middle : Text) : Decidable (IsInert middle) :=
  have := List.decidableBAll
    (fun c => isBlank c = false ∧ isQuote c = false ∧ c ∉ [backtick, '<', '>']) middle
  decidable_of_iff (middle.head? = some ']' ∧
      ∀ c ∈ middle, isBlank c = false ∧ isQuote c = false ∧ c ∉ [backtick, '<', '>'])
    ⟨fun h => ⟨h.1, h.2⟩, fun h => ⟨h.head?, h.plain⟩⟩

theorem isSome_tagSource?_cons (c : Char) (rest : Text) : (tagSource? (c :: rest)).isSome =
    (((valueHere? "src".toList (c :: rest)).filter (!·.isEmpty)).isSome ||
      (tagSource? rest).isSome) := by
  rw [tagSource?, value?, Option.isSome_or, tagSource?]

/-- A slash at the end is no part of a source. -/
theorem isSome_tagSource?_append_slash (t : Text) :
    (tagSource? (t ++ ['/'])).isSome = (tagSource? t).isSome := by
  have hslash : EndsAttribute "src".toList '/' := ⟨by decide, by decide, by decide, by decide⟩
  induction t with
  | nil => rfl
  | cons c rest ih =>
    have hvalue : ∀ r, HasValue (r ++ ['/']) ↔ HasValue r := by
      intro r
      cases r <;> simp [HasValue, isQuote]
    have hhere : ((valueHere? "src".toList (c :: rest ++ ['/'])).filter (!·.isEmpty)).isSome =
        ((valueHere? "src".toList (c :: rest)).filter (!·.isEmpty)).isSome := by
      rw [Bool.eq_iff_iff, isSome_filter_valueHere?_append_cons hslash,
        isSome_filter_valueHere?_iff]
      simp only [hvalue]
    rw [List.cons_append, isSome_tagSource?_cons, isSome_tagSource?_cons, ← List.cons_append, hhere,
      ih]

namespace IsInert

variable {middle : Text} (h : IsInert middle)

include h

/-- No attribute begins in such a text. -/
theorem isSome_tagSource?_append (rest : Text) :
    (tagSource? (middle ++ rest)).isSome = (tagSource? rest).isSome := by
  have hplain := h.plain
  clear h
  induction middle with
  | nil => rfl
  | cons c middle ih =>
    obtain ⟨⟨hblank, -⟩, hmiddle⟩ := List.forall_mem_cons.mp hplain
    have hhere : valueHere? "src".toList (c :: (middle ++ rest)) = none := by
      simp [valueHere?, hblank]
    rw [List.cons_append, isSome_tagSource?_cons, hhere, ih hmiddle]
    rfl

theorem not_mem : backtick ∉ middle ∧ '\n' ∉ middle ∧ '>' ∉ middle :=
  ⟨fun hmem => (h.plain _ hmem).2.2 (by decide), fun hmem => absurd (h.plain _ hmem).1 (by decide),
    fun hmem => (h.plain _ hmem).2.2 (by decide)⟩

theorem hasValue_append_iff (front rest : Text) : HasValue (front ++ (middle ++ rest)) ↔
    (∀ c ∈ front.head?, isQuote c = false) ∧ ∃ q ∈ front ++ rest, isQuote q = true := by
  have hnone : ∀ q ∈ middle, isQuote q = false := fun q hq => (h.plain q hq).2.1
  obtain ⟨m, rfl⟩ := List.head?_eq_some_iff.mp h.head?
  have hbracket := hnone ']' List.mem_cons_self
  refine and_congr ?_ ?_
  · cases front <;> simp [hbracket]
  · simp only [List.mem_append]
    grind

/-- A value stands here or not, whichever such text is in it. -/
theorem isSome_filter_valueHere?_append_iff (front rest : Text) :
    ((valueHere? "src".toList (front ++ (middle ++ rest))).filter (!·.isEmpty)).isSome ↔
      ∃ start ∈ valueStart? "src".toList front,
        (∀ c ∈ start.head?, isQuote c = false) ∧ ∃ q ∈ start ++ rest, isQuote q = true := by
  have hstop : EndsAttribute "src".toList ']' := ⟨by decide, by decide, by decide, by decide⟩
  have hvalue := h.hasValue_append_iff
  obtain ⟨m, rfl⟩ := List.head?_eq_some_iff.mp h.head?
  rw [List.cons_append, isSome_filter_valueHere?_append_cons hstop]
  exact exists_congr fun start => and_congr_right fun _ => hvalue start rest

end IsInert

/-- **Whether a tag has a source** does not depend on which such text stands in it. -/
theorem isSome_tagSource?_append_inert {middle middle' : Text} (h : IsInert middle)
    (h' : IsInert middle') (front rest : Text) :
    (tagSource? (front ++ (middle ++ rest))).isSome =
      (tagSource? (front ++ (middle' ++ rest))).isSome := by
  induction front with
  | nil => rw [List.nil_append, h.isSome_tagSource?_append, List.nil_append,
      h'.isSome_tagSource?_append]
  | cons c front ih =>
    have hhere := (h.isSome_filter_valueHere?_append_iff (c :: front) rest).trans
      (h'.isSome_filter_valueHere?_append_iff (c :: front) rest).symm
    rw [List.cons_append, isSome_tagSource?_cons, List.cons_append, isSome_tagSource?_cons, ih,
      ← List.cons_append, ← List.cons_append, Bool.eq_iff_iff.mpr hhere]

/-! ## Tags -/

namespace TagToken

/-- Whether a token is a tag with a source. -/
def hasSource : TagToken → Bool
  | codeSpan => false
  | tag attributes => (tagSource? attributes).isSome

theorem hasSource_tag_attributesOf (inside : Text) :
    (tag (attributesOf inside)).hasSource = (tagSource? inside).isSome := by
  unfold attributesOf
  cases hslash : inside.dropTrailing? ['/'] with
  | none => rfl
  | some start =>
    rw [Text.eq_append_of_dropTrailing? hslash, isSome_tagSource?_append_slash]
    rfl

end TagToken

open TagToken

/-- A name that goes on to an inert text ends there. -/
theorem IsInert.wordEnds_append {m : Text} (h : IsInert m) (t more : Text) :
    wordEnds (t ++ (m ++ more)) = wordEnds (t ++ [']']) := by
  obtain ⟨m, rfl⟩ := List.head?_eq_some_iff.mp h.head?
  rw [List.cons_append, wordEnds_append_cons]

/-- **What the scan sees** at the front of a text that goes on with an inert text and then with
`rest`: whichever the inert text is, nothing, or a token in front of it, or a token that reaches
beyond it. -/
inductive SeenAlike (front rest : Text) : Prop where
  | nothing : (∀ m, IsInert m → find (front ++ (m ++ rest)) = none) → SeenAlike front rest
  | before (found : TagToken) (n : Nat) : n - 1 + 1 ≤ front.length →
      (∀ m, IsInert m → find (front ++ (m ++ rest)) = some (found, n)) → SeenAlike front rest
  | across (behind : Text) (sourced : Bool) :
      (∀ m, IsInert m → ∃ found n, find (front ++ (m ++ rest)) = some (found, n) ∧
        found.hasSource = sourced ∧ (front ++ (m ++ rest)).drop (n - 1 + 1) = behind) →
      SeenAlike front rest

/-- A backtick that is still open where the inert text begins. -/
theorem seenAlike_backtick_open {front : Text} (hspan : backtick ∉ front) (hend : '\n' ∉ front)
    (rest : Text) : SeenAlike (backtick :: front) rest := by
  by_cases hcloses : backtick ∈ rest.takeWhile (· != '\n')
  · obtain ⟨inner, behind, hinner, hline, rfl⟩ := exists_codeSpan hcloses
    refine .across behind false fun m hm => ?_
    have hsplit : backtick :: front ++ (m ++ (inner ++ backtick :: behind)) =
        backtick :: (front ++ m ++ inner ++ backtick :: behind) := by simp
    have hspan : backtick ∉ front ++ m ++ inner := by simp [hspan, hm.not_mem.1, hinner]
    have hnewline : '\n' ∉ front ++ m ++ inner := by simp [hend, hm.not_mem.2.1, hline]
    refine ⟨.codeSpan, (front ++ m ++ inner).length + 2, ?_, rfl, ?_⟩
    · rw [hsplit]
      exact find_codeSpan hspan hnewline behind
    · rw [hsplit, List.append_cons, ← List.cons_append]
      exact List.drop_left' (by simp; omega)
  · refine .nothing fun m hm => ?_
    have hline : '\n' ∉ front ++ m := by simp [hend, hm.not_mem.2.1]
    rw [List.cons_append, ← List.append_assoc, find_backtick_eq_none_iff,
      Text.takeWhile_bne_append_of_not_mem hline]
    simp [hspan, hm.not_mem.1, hcloses]

theorem seenAlike_backtick (front rest : Text) : SeenAlike (backtick :: front) rest := by
  by_cases hclosed : backtick ∈ front.takeWhile (· != '\n')
  · obtain ⟨inner, behind, hinner, hline, rfl⟩ := exists_codeSpan hclosed
    refine .before .codeSpan (inner.length + 2) (by simp) fun m _ => ?_
    rw [List.cons_append, List.append_assoc]
    exact find_codeSpan hinner hline _
  · by_cases hend : '\n' ∈ front
    · obtain ⟨line, below, rfl, hline⟩ := List.eq_append_cons_of_mem hend
      rw [Text.takeWhile_bne_append hline] at hclosed
      refine .nothing fun m _ => ?_
      rw [List.cons_append, List.append_assoc, find_backtick_eq_none_iff, List.cons_append,
        Text.takeWhile_bne_append hline]
      exact hclosed
    · rw [Text.takeWhile_bne hend] at hclosed
      exact seenAlike_backtick_open hclosed hend rest

/-- A tag that ends before the inert text. -/
theorem seenAlike_img_closed {inside : Text} (hclose : '>' ∉ inside) (more rest : Text) :
    SeenAlike ("<img".toList ++ (inside ++ '>' :: more)) rest := by
  cases hname : wordEnds (inside ++ ['>']) with
  | true =>
    refine .before (.tag (attributesOf inside)) (inside.length + 5) (by simp) fun m _ => ?_
    rw [List.append_assoc, List.append_assoc]
    exact find_tag hclose hname _
  | false =>
    refine .nothing fun m _ => ?_
    rw [List.append_assoc, List.append_assoc]
    refine find_img_eq_none fun hends => ?_
    rw [List.cons_append, wordEnds_append_cons, hname] at hends
    cases hends

/-- A tag that is still open where the inert text begins. -/
theorem seenAlike_img_open {inside : Text} (hopen : '>' ∉ inside) (rest : Text) :
    SeenAlike ("<img".toList ++ inside) rest := by
  by_cases hcloses : '>' ∈ rest ∧ wordEnds (inside ++ [']']) = true
  · obtain ⟨hcloses, hname⟩ := hcloses
    obtain ⟨more, behind, rfl, hmore⟩ := List.eq_append_cons_of_mem hcloses
    refine .across behind (tagSource? (inside ++ ("](".toList ++ more))).isSome fun m hm => ?_
    have hsplit : "<img".toList ++ inside ++ (m ++ (more ++ '>' :: behind)) =
        "<img".toList ++ (inside ++ (m ++ more) ++ '>' :: behind) := by simp
    have hclose : '>' ∉ inside ++ (m ++ more) := by simp [hopen, hm.not_mem.2.2, hmore]
    have hends : wordEnds (inside ++ (m ++ more) ++ ['>']) = true := by
      rw [List.append_assoc, List.append_assoc, hm.wordEnds_append, hname]
    rw [hsplit]
    refine ⟨_, _, find_tag hclose hends behind, ?_, ?_⟩
    · rw [hasSource_tag_attributesOf]
      exact isSome_tagSource?_append_inert hm (by decide) inside more
    · have hwording : "<img".toList ++ (inside ++ (m ++ more) ++ '>' :: behind) =
          "<img".toList ++ (inside ++ (m ++ more) ++ ['>']) ++ behind := by simp
      rw [hwording]
      refine List.drop_left' ?_
      simp only [List.length_append, List.length_singleton, String.length_toList]
      have hlength : "<img".length = 4 := rfl
      omega
  · refine .nothing fun m hm => ?_
    rw [List.append_assoc]
    refine find_img_eq_none fun hends hmem => hcloses ⟨?_, ?_⟩
    · simpa [hopen, hm.not_mem.2.2] using hmem
    · rwa [hm.wordEnds_append] at hends

theorem seenAlike_angle (front rest : Text) : SeenAlike ('<' :: front) rest := by
  by_cases hmark : ∃ inside, '<' :: front = "<img".toList ++ inside
  · obtain ⟨inside, hinside⟩ := hmark
    rw [hinside]
    by_cases hclosed : '>' ∈ inside
    · obtain ⟨inside, more, rfl, hclose⟩ := List.eq_append_cons_of_mem hclosed
      exact seenAlike_img_closed hclose more rest
    · exact seenAlike_img_open hclosed rest
  · -- the mark of a tag cannot reach into the inert text, which begins with a bracket
    refine .nothing fun m hm => find_eq_none_of_not_tag fun r hr => ?_
    obtain ⟨m, rfl⟩ := List.head?_eq_some_iff.mp hm.head?
    have hbehind : Text.behind? ('<' :: front ++ ']' :: (m ++ rest)) "<img".toList = some r :=
      Text.behind?_eq_some_iff.mpr hr
    rw [Text.behind?_append_cons (by decide)] at hbehind
    obtain ⟨inside, hinside, -⟩ := Option.map_eq_some_iff.mp hbehind
    exact absurd ⟨inside, Text.behind?_eq_some_iff.mp hinside⟩ hmark

/-- At every place the scan sees the same. -/
theorem seenAlike_cons (c : Char) (front rest : Text) : SeenAlike (c :: front) rest := by
  by_cases hspan : c = backtick
  · subst hspan
    exact seenAlike_backtick front rest
  · by_cases htag : c = '<'
    · subst htag
      exact seenAlike_angle front rest
    · exact .nothing fun m _ => find_eq_none_of_ne hspan htag _

/-- No tag begins in an inert text. -/
theorem IsInert.tagsIn_append {m : Text} (h : IsInert m) (rest : Text) :
    tagsIn (m ++ rest) = tagsIn rest := by
  have hplain := h.plain
  clear h
  induction m with
  | nil => rfl
  | cons c m ih =>
    obtain ⟨⟨-, -, hc⟩, hm⟩ := List.forall_mem_cons.mp hplain
    simp only [List.mem_cons, List.not_mem_nil, or_false, not_or] at hc
    rw [List.cons_append, tagsIn_cons_of_none (find_eq_none_of_ne hc.1 hc.2.1 _), ih hm]

/-- **The tags with a source** do not depend on which inert text stands somewhere. -/
theorem map_hasSource_tagsIn_append {m m' : Text} (h : IsInert m) (h' : IsInert m')
    (front rest : Text) : (tagsIn (front ++ (m ++ rest))).map hasSource =
      (tagsIn (front ++ (m' ++ rest))).map hasSource := by
  -- on the length, since the scan goes on behind a token and not at the next character
  induction hlength : front.length using Nat.strongRecOn generalizing front with
  | ind k ih =>
    subst hlength
    cases front with
    | nil => rw [List.nil_append, h.tagsIn_append, List.nil_append, h'.tagsIn_append]
    | cons c front =>
      cases seenAlike_cons c front rest with
      | nothing hnone =>
        have hrest := ih front.length (by simp) front rfl
        have hskip : ∀ m, IsInert m →
            tagsIn (c :: front ++ (m ++ rest)) = tagsIn (front ++ (m ++ rest)) := fun m h =>
          tagsIn_cons_of_none (hnone m h)
        rw [hskip m h, hskip m' h', hrest]
      | before found n hn hsome =>
        rw [List.length_cons] at hn
        have hrest := ih (front.drop (n - 1)).length
          (by rw [List.length_drop, List.length_cons]; omega) _ rfl
        have htoken : ∀ m, IsInert m → tagsIn (c :: front ++ (m ++ rest)) =
            found :: tagsIn (front.drop (n - 1) ++ (m ++ rest)) := fun m h => by
          rw [← List.drop_append_of_le_length (by omega)]
          exact tagsIn_cons_of_some (hsome m h)
        rw [htoken m h, htoken m' h', List.map_cons, List.map_cons, hrest]
      | across behind sourced hsome =>
        have htoken : ∀ m, IsInert m → (tagsIn (c :: front ++ (m ++ rest))).map hasSource =
            sourced :: (tagsIn behind).map hasSource := fun m h => by
          obtain ⟨found, n, hfind, rfl, rfl⟩ := hsome m h
          exact congrArg (List.map hasSource) (tagsIn_cons_of_some hfind)
        rw [htoken m h, htoken m' h']

/-- **Rooting a path** leaves tags with and without source as they are. -/
theorem RootsOne.map_hasSource_eq {t u : Text} (h : RootsOne t u) :
    (tagsIn u).map hasSource = (tagsIn t).map hasSource := by
  have hlink : IsInert "](".toList := by decide
  have hrooted : IsInert "](/".toList := by decide
  have hdotted : IsInert "](./".toList := by decide
  cases h with
  | @slash front rest c => exact map_hasSource_tagsIn_append hrooted hlink front (c :: rest)
  | dot front rest => exact map_hasSource_tagsIn_append hrooted hdotted front rest

end BookSite.Image
