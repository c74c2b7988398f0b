import BookSite.Proofs.Markdown.AttributeComments
import BookSite.Proofs.Markdown.PlainPage

/-!
# Proofs/Markdown/CutLines — the lines that are cut, and what is put in their place

A page stays as it is just when none of its lines is cut (`moveAllAttributes_eq_self_iff`): a line
that is cut becomes three lines or more.  Of the lines that are put in its place the comments are
**still**: in the prose no fence is among them, none is cut, and where they begin in display math
they end in it.  So it is only what is kept of the line that a second reading may see otherwise.
-/

namespace BookSite

open AttributedLine

/-! ## Lines that are cut -/

/-- Whether a text has attribute groups. -/
def HasGroups (t : Text) : Prop := (ofText t).rest ≠ []

instance (t : Text) : Decidable (HasGroups t) := inferInstanceAs (Decidable (¬ _))

/-- **A line is cut** when it has attribute groups and they are moved. -/
def IsCut (inMath : Bool) (line : Line) : Prop := IsAttributed inMath line ∧ HasGroups line.text

instance (inMath : Bool) (line : Line) : Decidable (IsCut inMath line) :=
  inferInstanceAs (Decidable (_ ∧ _))

/-- The lines that are cut; `inMath` says whether the first one starts in display math. -/
def cutLinesFrom (inMath : Bool) : List Line → List Text
  | [] => []
  | line :: rest =>
    (if IsCut inMath line then [line.text] else []) ++ cutLinesFrom (mathAfter inMath line) rest

/-- **The lines of a page that are cut.** -/
def cutLines (page : Text) : List Text := cutLinesFrom false (classify page)

theorem cutLinesFrom_append (inMath : Bool) (xs ys : List Line) :
    cutLinesFrom inMath (xs ++ ys) =
      cutLinesFrom inMath xs ++ cutLinesFrom (mathBehind inMath xs) ys := by
  induction xs generalizing inMath with
  | nil => rfl
  | cons line xs ih =>
    rw [List.cons_append, cutLinesFrom, cutLinesFrom, ih, List.append_assoc]
    rfl

variable {inMath : Bool} {line : Line}

theorem mathAfter_of_not_togglesMath (h : togglesMath line.text = false) :
    mathAfter inMath line = inMath :=
  if_neg fun htoggles => by
    rw [h] at htoggles
    cases htoggles.2

theorem attributeStep_of_not_isCut (h : ¬ IsCut inMath line) :
    attributeStep inMath line = [line.text] := by
  unfold attributeStep
  split
  · rename_i hattributed
    exact if_pos (List.isEmpty_iff.mpr (not_not.mp fun hgroups => h ⟨hattributed, hgroups⟩))
  · rfl

theorem attributeStep_of_isCut (h : IsCut inMath line) :
    attributeStep inMath line = (ofText line.text).outputLines := by
  rw [attributeStep, if_pos h.1, moveAttributes]
  exact if_neg fun hempty => h.2 (List.isEmpty_iff.mp hempty)

/-- A line that is cut becomes more lines than one. -/
theorem two_le_length_of_isCut (h : IsCut inMath line) :
    2 ≤ (attributeStep inMath line).length := by
  rw [attributeStep_of_isCut h, outputLines, List.length_append]
  obtain ⟨part, parts, hparts⟩ := List.exists_cons_of_ne_nil h.2
  have hcomments : part.1.commentLines.length = 3 := rfl
  rw [hparts, List.flatMap_cons, List.length_append, hcomments]
  omega

theorem length_le_moveAttributesFrom (inMath : Bool) (lines : List Line) :
    lines.length ≤ (moveAttributesFrom inMath lines).length := by
  induction lines generalizing inMath with
  | nil => exact Nat.zero_le _
  | cons line rest ih =>
    have hstep := List.length_pos_of_ne_nil (attributeStep_ne_nil inMath line)
    have hrest := ih (mathAfter inMath line)
    rw [moveAttributesFrom_cons, List.length_cons, List.length_append]
    omega

/-- **Lines stay** just when none of them is cut. -/
theorem moveAttributesFrom_eq_iff (inMath : Bool) (lines : List Line) :
    moveAttributesFrom inMath lines = lines.map Line.text ↔ cutLinesFrom inMath lines = [] := by
  induction lines generalizing inMath with
  | nil => exact iff_of_true rfl rfl
  | cons line rest ih =>
    rw [moveAttributesFrom_cons, cutLinesFrom, List.map_cons]
    by_cases hcut : IsCut inMath line
    · refine iff_of_false (fun heq => ?_) (by simp [hcut])
      have hlength := congrArg List.length heq
      have hstep := two_le_length_of_isCut hcut
      have hrest := length_le_moveAttributesFrom (mathAfter inMath line) rest
      rw [List.length_append, List.length_cons, List.length_map] at hlength
      omega
    · rw [attributeStep_of_not_isCut hcut, if_neg hcut, List.nil_append, ← ih,
        List.singleton_append, List.cons.injEq]
      exact and_iff_right rfl

theorem moveAllAttributes_eq_self_iff {page : Text} :
    moveAllAttributes page = page ↔ cutLines page = [] := by
  rw [cutLines, ← moveAttributesFrom_eq_iff, classify, map_text_classifyFrom]
  constructor
  · intro h
    rw [← attributeLines, ← segments_moveAllAttributes, h]
  · intro h
    rw [moveAllAttributes, classify, h, Text.unlines_segments]

/-! ## Still lines -/

/-- **Still lines**: put into the prose they leave it as it is, and they stay as they are. -/
structure IsStill (lines : List Text) : Prop where
  not_isFence : ∀ l ∈ lines, isFence l = false
  rest_eq_nil : ∀ l ∈ lines, (ofText l).rest = []
  mathBehind_eq : ∀ inMath, mathBehind inMath (lines.map (⟨·, .text⟩)) = inMath

namespace IsStill

theorem nil : IsStill [] := ⟨by simp, by simp, fun _ => rfl⟩

theorem append {xs ys : List Text} (hxs : IsStill xs) (hys : IsStill ys) : IsStill (xs ++ ys) where
  not_isFence := List.forall_mem_append.mpr ⟨hxs.not_isFence, hys.not_isFence⟩
  rest_eq_nil := List.forall_mem_append.mpr ⟨hxs.rest_eq_nil, hys.rest_eq_nil⟩
  mathBehind_eq inMath := by
    have hys := hys.mathBehind_eq inMath
    have hxs := hxs.mathBehind_eq inMath
    rw [mathBehind] at hxs hys ⊢
    rw [List.map_append, List.foldl_append, hxs, hys]

theorem flatMap {α : Type} {xs : List α} {f : α → List Text} (h : ∀ x ∈ xs, IsStill (f x)) :
    IsStill (xs.flatMap f) := by
  induction xs with
  | nil => exact nil
  | cons x xs ih =>
    obtain ⟨hx, hxs⟩ := List.forall_mem_cons.mp h
    exact hx.append (ih hxs)

/-- One line is still when it neither toggles anything nor is cut. -/
theorem singleton {l : Text} (hfence : isFence l = false) (htoggles : togglesMath l = false)
    (hrest : (ofText l).rest = []) : IsStill [l] :=
  ⟨by simpa, by simpa, fun _ => mathAfter_of_not_togglesMath htoggles⟩

variable {lines : List Text} (h : IsStill lines)

include h

/-- **No still line is cut**, in display math or outside. -/
theorem cutLinesFrom_eq (inMath : Bool) :
    cutLinesFrom inMath (classifyFrom .prose lines) = [] := by
  have hnone : ∀ (inMath : Bool) (ls : List Line), (∀ l ∈ ls, (ofText l.text).rest = []) →
      cutLinesFrom inMath ls = [] := by
    intro inMath ls hls
    induction ls generalizing inMath with
    | nil => rfl
    | cons l ls ih =>
      obtain ⟨hl, hls⟩ := List.forall_mem_cons.mp hls
      rw [cutLinesFrom, if_neg fun hcut => hcut.2 hl, ih _ hls, List.nil_append]
  rw [classifyFrom_of_forall_not_isFence .prose h.not_isFence]
  refine hnone inMath _ (List.forall_mem_map.mpr h.rest_eq_nil)

theorem mathBehind_classifyFrom (inMath : Bool) :
    mathBehind inMath (classifyFrom .prose lines) = inMath := by
  rw [classifyFrom_of_forall_not_isFence .prose h.not_isFence]
  exact h.mathBehind_eq inMath

end IsStill

/-! ## The comments of a group -/

/-- Where some span stands, there is a longest one. -/
theorem IsSpan.exists_isSpanAhead {w t : Text} (h : IsSpan w) (hahead : w <+: t) :
    ∃ w', IsSpanAhead w' t := by
  obtain ⟨n, hn, -⟩ := ProseToken.exists_spanAhead?_of_isSpan h hahead
  obtain ⟨w', hw', -⟩ := ProseToken.spanAhead?_eq_some_iff.mp hn
  exact ⟨w', hw'⟩

/-- A span that begins with an angle is a comment, and ends with one. -/
theorem IsSpan.angle_mem {w more rest : Text} (h : IsSpan w) (hstart : w ++ more = '<' :: rest) :
    '>' ∈ w := by
  cases h with
  | comment _ => simp
  | code _ => exact absurd (List.cons.inj hstart).1 (by decide)
  | displayed _ => exact absurd (List.cons.inj hstart).1 (by decide)
  | inline _ => exact absurd (List.cons.inj hstart).1 (by decide)

/-- **A comment is passed over**: where a line begins as one and ends it, and has no brace behind a
front without an angle, it is not cut. -/
theorem rest_ofText_comment {front inner rest : Text} (hfront : '>' ∉ front) (hrest : '{' ∉ rest)
    (hline : front ++ rest = "<!--".toList ++ inner) (hend : "-->".toList <:+: inner) :
    (ofText (front ++ rest)).rest = [] := by
  obtain ⟨before, behind, hsplit⟩ := Text.exists_splitAround? (by decide) hend
  obtain ⟨rfl, hends⟩ := (Text.splitAround?_eq_some_iff (by decide)).mp hsplit
  obtain ⟨w, hw⟩ := (IsSpan.comment hends).exists_isSpanAhead (t := front ++ rest)
    ⟨behind, by rw [hline, List.append_assoc]⟩
  obtain ⟨more, hmore⟩ := hw.isPrefix
  have hangle : '>' ∈ w := hw.isSpan.angle_mem (hmore.trans hline)
  -- So the span ends behind the front, and what follows it has no brace.
  have hbehind : '{' ∉ more := by
    rcases List.append_eq_append_iff.mp hmore with ⟨front', rfl, -⟩ | ⟨w', -, rfl⟩
    · exact absurd (List.mem_append_left _ hangle) hfront
    · exact fun hmem => hrest (List.mem_append_right _ hmem)
  rw [← hmore] at hw ⊢
  rw [ofText_append hw.isSpan.ne_nil (ProseToken.find_of_isSpanAhead hw)]
  exact rest_ofText hbehind

/-- A group is counted apart from what stands around it. -/
theorem countPairs_inBraces_append (front inner behind : Text) :
    Text.countPairs '$' '$' (front ++ (inBraces inner ++ behind)) =
      Text.countPairs '$' '$' front + (inner.countPairs '$' '$' + behind.countPairs '$' '$') := by
  have hline : front ++ (inBraces inner ++ behind) = front ++ '{' :: (inner ++ '}' :: behind) := by
    simp [inBraces]
  rw [hline, Text.countPairs_append_cons (by decide), Text.countPairs_append_cons (by decide)]

namespace AttributeGroup

variable {inner : Text} {a : AttributeGroup}

theorem not_mem_open_attributes (hinner : '{' ∉ inner) (h : parse? inner = some a) :
    '{' ∉ a.attributes := by
  rw [attributes_eq]
  intro hmem
  rcases Text.mem_joinWith hmem with hmem | ⟨p, hp, hmem⟩
  · exact absurd hmem (by decide)
  · rcases List.mem_append.mp hp with hp | hp
    · exact not_mem_classAttribute h (by decide) (by decide) p hp hmem
    · exact hinner ((isInfix_of_mem_others h hp).subset hmem)

/-- The echo of a group is not cut: the comment that begins there ends behind the open brace. -/
theorem rest_ofText_echo (hinner : '{' ∉ inner) :
    (ofText ("<!-- mdBook attributes: ".toList ++ inBraces inner ++ " -->".toList)).rest = [] := by
  have hline : "<!-- mdBook attributes: ".toList ++ inBraces inner ++ " -->".toList =
      "<!-- mdBook attributes: \x7b".toList ++ (inner ++ "\x7d -->".toList) := by simp [inBraces]
  have hend : "-->".toList <:+: " mdBook attributes: \x7b".toList ++ inner ++ "\x7d -->".toList :=
    ⟨" mdBook attributes: \x7b".toList ++ inner ++ "\x7d ".toList, [], by simp⟩
  rw [hline]
  refine rest_ofText_comment (by decide) ?_ (by simp) hend
  rw [List.mem_append, not_or]
  exact ⟨hinner, by decide⟩

/-- **No comment of a group is cut.** -/
theorem rest_ofText_commentLines (hinner : '{' ∉ inner) (h : parse? inner = some a) :
    ∀ l ∈ a.commentLines, (ofText l).rest = [] := by
  have hattributes := not_mem_open_attributes hinner h
  rw [commentLines, raw_of_parse? h, List.forall_mem_cons, List.forall_mem_cons,
    List.forall_mem_singleton]
  refine ⟨rest_ofText_echo hinner, rest_ofText (by decide), rest_ofText ?_⟩
  rw [List.mem_append, List.mem_append, not_or, not_or]
  exact ⟨⟨by decide, hattributes⟩, by decide⟩

/-- No comment is a fence. -/
theorem isFence_commentLines (a : AttributeGroup) : ∀ l ∈ a.commentLines, isFence l = false := by
  rw [commentLines, List.forall_mem_cons, List.forall_mem_cons, List.forall_mem_singleton]
  exact ⟨not_isFence_of_trimStart rfl (by decide), not_isFence_of_trimStart rfl (by decide),
    not_isFence_of_trimStart rfl (by decide)⟩

/-! ### Dollars in the comments -/

theorem countPairs_of_isClass {w : Text} (h : isClass w = true) : w.countPairs '$' '$' = 0 := by
  refine Text.countPairs_eq_zero fun hmem => ?_
  cases w with
  | nil => cases hmem
  | cons c name =>
    simp only [isClass, isMarked, Bool.and_eq_true, beq_iff_eq] at h
    rcases List.mem_cons.mp hmem with rfl | hmem
    · exact absurd h.1.1 (by decide)
    · exact absurd (List.all_eq_true.mp h.2 _ hmem) (by decide)

/-- The pairs of dollars of words are those of the words that are no classes. -/
theorem sum_countPairs_others (words : List Text) :
    ((words.filter (!isClass ·)).map (Text.countPairs '$' '$')).sum =
      (words.map (Text.countPairs '$' '$')).sum := by
  induction words with
  | nil => rfl
  | cons w words ih =>
    cases hw : isClass w with
    | true => simp [hw, ih, countPairs_of_isClass hw]
    | false => simp [hw, ih]

/-- **The attributes hold the pairs of dollars that the group holds**: no class holds any. -/
theorem countPairs_attributes (h : parse? inner = some a) :
    a.attributes.countPairs '$' '$' = inner.countPairs '$' '$' := by
  have hclasses : (a.classAttribute.map (Text.countPairs '$' '$')).sum = 0 := by
    refine List.sum_eq_zero_iff_forall_eq_nat.mpr (List.forall_mem_map.mpr fun p hp => ?_)
    exact Text.countPairs_eq_zero (not_mem_classAttribute h (by decide) (by decide) p hp)
  rw [attributes_eq, Text.countPairs_joinWith (by decide), List.map_append, List.sum_append,
    hclasses, Nat.zero_add, others_eq h, sum_countPairs_others,
    ← Text.countPairs_eq_sum_words (by decide)]

theorem countPairs_echo (inner : Text) :
    Text.countPairs '$' '$' ("<!-- mdBook attributes: ".toList ++ inBraces inner ++ " -->".toList) =
      inner.countPairs '$' '$' := by
  have hfront : Text.countPairs '$' '$' "<!-- mdBook attributes: ".toList = 0 :=
    Text.countPairs_eq_zero (by decide)
  have hback : Text.countPairs '$' '$' " -->".toList = 0 := Text.countPairs_eq_zero (by decide)
  rw [List.append_assoc, countPairs_inBraces_append, hfront, hback, Nat.zero_add, Nat.add_zero]

theorem countPairs_suggestion (attributes : Text) :
    Text.countPairs '$' '$'
        ("<!-- e.g. <div ".toList ++ attributes ++ ">content</div> -->".toList) =
      attributes.countPairs '$' '$' := by
  have htag : "<!-- e.g. <div ".toList ++ attributes ++ ">content</div> -->".toList =
      "<!-- e.g. <div".toList ++ ' ' :: (attributes ++ '>' :: "content</div> -->".toList) := by
    simp
  have hfront : Text.countPairs '$' '$' "<!-- e.g. <div".toList = 0 :=
    Text.countPairs_eq_zero (by decide)
  have hback : Text.countPairs '$' '$' "content</div> -->".toList = 0 :=
    Text.countPairs_eq_zero (by decide)
  rw [htag, Text.countPairs_append_cons (by decide), Text.countPairs_append_cons (by decide),
    hfront, hback, Nat.zero_add, Nat.add_zero]

/-- **Dollars come twice**: what the echo of a group toggles the suggestion toggles again. -/
theorem togglesMath_echo_eq_suggestion (h : parse? inner = some a) :
    togglesMath ("<!-- mdBook attributes: ".toList ++ a.raw ++ " -->".toList) =
      togglesMath ("<!-- e.g. <div ".toList ++ a.attributes ++ ">content</div> -->".toList) := by
  rw [togglesMath, togglesMath, raw_of_parse? h, countPairs_echo, countPairs_suggestion,
    countPairs_attributes h]

/-- **The comments of a group are still.** -/
theorem isStill_commentLines (hinner : '{' ∉ inner) (h : parse? inner = some a) :
    IsStill a.commentLines where
  not_isFence := isFence_commentLines a
  rest_eq_nil := rest_ofText_commentLines hinner h
  mathBehind_eq inMath := by
    have hnote : togglesMath ("<!-- VitePress does not fully support this syntax, " ++
        "wrap the content in HTML instead -->").toList = false := by decide
    have htwice := togglesMath_echo_eq_suggestion h
    rw [commentLines]
    simp only [mathBehind, List.map_cons, List.map_nil, List.foldl_cons, List.foldl_nil, mathAfter,
      true_and, hnote, htwice]
    split <;> simp

end AttributeGroup

end BookSite
