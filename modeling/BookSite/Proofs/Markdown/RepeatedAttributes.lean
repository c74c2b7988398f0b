import BookSite.Proofs.Markdown.CutLines
import BookSite.Proofs.Markdown.MovedAttributes

/-!
# Proofs/Markdown/RepeatedAttributes — moving attributes a second time

What is kept of a line may be seen otherwise when it is read again: its texts have come together, so
a group may have come about, a fence, or an edge of display math.  Where no fence and no edge has
come about, the lines that are cut again are those of which a group has
(`cutLines_moveAllAttributes`).  Nothing comes about where groups stand at the end of their line.
-/

namespace BookSite

open AttributedLine

/-! ## What is kept of the lines -/

/-- What is kept of a line. -/
def keptOf (line : Text) : Text := (ofText line).kept

/-- **What is kept of a line stays in the prose**: it is no fence, and no edge of display math. -/
structure StaysInProse (line : Text) : Prop where
  isFence_eq : isFence (keptOf line) = false
  togglesMath_eq : togglesMath (keptOf line) = false

theorem isStill_flatMap_commentLines (line : Text) :
    IsStill ((ofText line).rest.flatMap fun part => part.1.commentLines) :=
  .flatMap fun _ hpart => by
    obtain ⟨inner, hinner, hparse⟩ := (cutsTo_ofText line).exists_parse? hpart
    exact AttributeGroup.isStill_commentLines hinner.not_mem_open hparse

theorem kept_eq_nil_of_allBlank {cut : AttributedLine} (h : cut.kept.allBlank = true) :
    cut.kept = [] := by
  by_contra hne
  have hlast := Text.not_isBlank_of_mem_getLast?_trimEnd (List.getLast?_eq_some_getLast hne)
  have hblank : isBlank (cut.kept.getLast hne) = true :=
    List.all_eq_true.mp h _ (List.getLast_mem hne)
  exact absurd (hblank.symm.trans hlast) (by decide)

section OutputLines

variable {line : Text} (h : StaysInProse line)

include h

/-- **What is put in place of a cut line**: the kept line, if groups have come about in it, or still
lines only. -/
theorem outputLines_cases :
    (¬ HasGroups (keptOf line) ∧ IsStill (ofText line).outputLines) ∨
      (HasGroups (keptOf line) ∧ ∃ comments, IsStill comments ∧
        (ofText line).outputLines = keptOf line :: comments) := by
  have hcomments := isStill_flatMap_commentLines line
  by_cases hblank : (ofText line).kept.allBlank = true
  · refine .inl ⟨?_, ?_⟩
    · rw [keptOf, kept_eq_nil_of_allBlank hblank]
      exact fun hne => hne rfl
    · rwa [outputLines, if_pos hblank, List.nil_append]
  · rw [outputLines, if_neg hblank]
    by_cases hgroups : HasGroups (keptOf line)
    · exact .inr ⟨hgroups, _, hcomments, rfl⟩
    · exact .inl ⟨hgroups,
        (IsStill.singleton h.isFence_eq h.togglesMath_eq (not_not.mp hgroups)).append hcomments⟩

/-- The lines that are put in place of a cut line are prose that leaves display math as it is. -/
theorem leavesProse_outputLines :
    Region.afterAll .prose (ofText line).outputLines = .prose ∧
      mathBehind false (classifyFrom .prose (ofText line).outputLines) = false := by
  rcases outputLines_cases h with ⟨-, hstill⟩ | ⟨-, comments, hstill, heq⟩
  · exact ⟨Region.afterAll_of_forall_not_isFence hstill.not_isFence,
      hstill.mathBehind_classifyFrom false⟩
  · have hafter : Region.after .prose (keptOf line) = .prose :=
      Region.after_of_not_isFence h.isFence_eq
    have hmath : mathAfter false ⟨keptOf line, Region.kindOf .prose (keptOf line)⟩ = false :=
      mathAfter_of_not_togglesMath h.togglesMath_eq
    rw [heq, Region.afterAll_cons, hafter, classifyFrom, hafter, mathBehind, List.foldl_cons, hmath]
    exact ⟨Region.afterAll_of_forall_not_isFence hstill.not_isFence,
      hstill.mathBehind_classifyFrom false⟩

/-- **Of the lines put in place of a cut line** only the kept one may be cut again. -/
theorem cutLinesFrom_outputLines :
    cutLinesFrom false (classifyFrom .prose (ofText line).outputLines) =
      [keptOf line].filter (HasGroups ·) := by
  rcases outputLines_cases h with ⟨hgroups, hstill⟩ | ⟨hgroups, comments, hstill, heq⟩
  · rw [hstill.cutLinesFrom_eq, List.filter_cons_of_neg (by simpa using hgroups), List.filter_nil]
  · have hafter : Region.after .prose (keptOf line) = .prose :=
      Region.after_of_not_isFence h.isFence_eq
    have hkind : Region.kindOf .prose (keptOf line) = .text :=
      Region.kindOf_prose_of_not_isFence h.isFence_eq
    rw [heq, classifyFrom, cutLinesFrom, if_pos ⟨⟨hkind, h.togglesMath_eq, rfl⟩, hgroups⟩, hafter,
      hstill.cutLinesFrom_eq, List.append_nil,
      List.filter_cons_of_pos (by simpa using hgroups), List.filter_nil]

end OutputLines

/-- **The lines that are cut again**, where what is kept stays in the prose: of which a group has
come about. -/
theorem cutLinesFrom_moveAttributesFrom {inMath : Bool} {r : Region} {lines : List Text}
    (h : ∀ line ∈ cutLinesFrom inMath (classifyFrom r lines), StaysInProse line) :
    cutLinesFrom inMath (classifyFrom r (moveAttributesFrom inMath (classifyFrom r lines))) =
      ((cutLinesFrom inMath (classifyFrom r lines)).map keptOf).filter (HasGroups ·) := by
  induction lines generalizing inMath r with
  | nil => rfl
  | cons line lines ih =>
    rw [classifyFrom, cutLinesFrom, List.forall_mem_append] at h
    rw [classifyFrom, moveAttributesFrom_cons, classifyFrom_append, cutLinesFrom_append,
      cutLinesFrom, List.map_append, List.filter_append, ← ih h.2]
    by_cases hcut : IsCut inMath ⟨line, r.kindOf line⟩
    · obtain ⟨⟨hkind, htoggles, rfl⟩, -⟩ := id hcut
      obtain ⟨rfl, hfence⟩ := Region.kindOf_eq_text_iff.mp hkind
      have hmath : mathAfter false ⟨line, Region.kindOf .prose line⟩ = false :=
        mathAfter_of_not_togglesMath htoggles
      have hstays := h.1 line (by simp [hcut])
      obtain ⟨hregion, hbehind⟩ := leavesProse_outputLines hstays
      rw [attributeStep_of_isCut hcut, if_pos hcut, hregion, hbehind, hmath,
        cutLinesFrom_outputLines hstays, Region.after_of_not_isFence hfence]
      rfl
    · rw [attributeStep_of_not_isCut hcut, if_neg hcut]
      simp only [classifyFrom, cutLinesFrom, if_neg hcut]
      rfl

theorem cutLines_moveAllAttributes {page : Text} (h : ∀ line ∈ cutLines page, StaysInProse line) :
    cutLines (moveAllAttributes page) = ((cutLines page).map keptOf).filter (HasGroups ·) := by
  rw [cutLines, classify, segments_moveAllAttributes]
  exact cutLinesFrom_moveAttributesFrom h

/-! ## Groups at the end of their line -/

/-- **The groups of a line stand at its end**: only blanks are behind them, and none of them holds
an odd number of pairs of dollars. -/
def HasGroupsAtEnd (line : Text) : Prop :=
  ∀ part ∈ (ofText line).rest, part.2.allBlank = true ∧ togglesMath part.1.raw = false

instance (line : Text) : Decidable (HasGroupsAtEnd line) :=
  inferInstanceAs (Decidable (∀ part ∈ (ofText line).rest, _))

/-! ### The front of a line -/

/-- No blank ends a span. -/
theorem IsSpan.not_isBlank_of_mem_getLast? {w : Text} (h : IsSpan w) :
    ∀ c ∈ w.getLast?, isBlank c = false := by
  have hend : ∃ front c, w = front ++ [c] ∧ isBlank c = false := by
    cases h with
    | @comment inner _ =>
      exact ⟨"<!--".toList ++ (inner ++ "--".toList), '>', by simp, by decide⟩
    | @code inner _ => exact ⟨backtick :: inner, backtick, rfl, by decide⟩
    | @displayed inner _ => exact ⟨'$' :: '$' :: (inner ++ ['$']), '$', by simp, by decide⟩
    | @inline inner _ => exact ⟨'$' :: inner, '$', rfl, by decide⟩
  obtain ⟨front, c, rfl, hc⟩ := hend
  simpa using hc

/-- A span that stands at the front of a text stands at the front of each front that holds it. -/
theorem IsSpanAhead.of_isPrefix {w t t' : Text} (h : IsSpanAhead w t) (hw : w <+: t')
    (ht : t' <+: t) : IsSpanAhead w t' :=
  ⟨h.isSpan, hw, fun w' hspan hahead => h.longest w' hspan (hahead.trans ht)⟩

/-- Where blanks are taken from the end of a text, its front stays if no blank ends it. -/
theorem exists_front_of_append_eq {w first front blanks : Text}
    (hlast : ∀ c ∈ w.getLast?, isBlank c = false) (hblanks : ∀ c ∈ blanks, isBlank c = true)
    (heq : w ++ first = front ++ blanks) :
    ∃ front', front = w ++ front' ∧ first = front' ++ blanks := by
  rcases List.append_eq_append_iff.mp heq with ⟨front', rfl, rfl⟩ | ⟨more, rfl, rfl⟩
  · exact ⟨front', rfl, rfl⟩
  · rcases List.eq_nil_or_concat more with rfl | ⟨init, c, rfl⟩
    · exact ⟨[], by simp, by simp⟩
    · have hblank := hblanks c (by simp)
      rw [hlast c (by simp)] at hblank
      cases hblank

/-- **The text before the first group** is cut nowhere, with or without blanks at its end. -/
theorem CutsTo.front {line : Text} {cut : AttributedLine} (h : CutsTo line cut)
    {front blanks : Text} (hfirst : cut.first = front ++ blanks)
    (hblanks : ∀ c ∈ blanks, isBlank c = true) : CutsTo front ⟨front, []⟩ := by
  have hfront : ∀ {rest first front : Text} {parts : List (AttributeGroup × Text)},
      CutsTo rest ⟨first, parts⟩ → first = front ++ blanks → front <+: rest := by
    rintro rest first front parts hrest rfl
    have hline := hrest.eq_append
    rw [List.append_assoc] at hline
    exact ⟨_, hline.symm⟩
  induction h generalizing front with
  | nil =>
    rw [(List.append_eq_nil_iff.mp hfirst.symm).1]
    exact .nil
  | span hw hrest ih =>
    obtain ⟨front', rfl, hfirst'⟩ := exists_front_of_append_eq
      hw.isSpan.not_isBlank_of_mem_getLast? hblanks hfirst
    refine .span (hw.of_isPrefix (List.prefix_append _ _) ?_) (ih hfirst')
    exact (List.prefix_append_right_inj _).mpr (hfront hrest hfirst')
  | attributes _ _ _ _ =>
    rw [(List.append_eq_nil_iff.mp hfirst.symm).1]
    exact .nil
  | @braces inner _ _ _ hinner ha hrest ih =>
    have hlast : ∀ c ∈ (inBraces inner).getLast?, isBlank c = false := by
      intro c hc
      rw [inBraces, ← List.cons_append, List.getLast?_concat, Option.mem_some_iff] at hc
      rw [← hc]
      decide
    obtain ⟨front', rfl, hfirst'⟩ := exists_front_of_append_eq hlast hblanks hfirst
    exact .braces hinner ha (ih hfirst')
  | @char c _ _ _ hspan hgroup hrest ih =>
    cases front with
    | nil => exact .nil
    | cons d front' =>
      obtain ⟨rfl, hfirst'⟩ := List.cons.inj hfirst
      have hahead : c :: front' <+: c :: _ :=
        (List.prefix_append_right_inj [c]).mpr (hfront hrest hfirst')
      exact .char (fun w hw hwahead => hspan w hw (hwahead.trans hahead))
        (fun inner hinner hinnerahead => hgroup inner hinner (hinnerahead.trans hahead))
        (ih hfirst')

namespace AttributedLine

theorem trimEnd_dropSpace (t : Text) : (dropSpace t).trimEnd = t.trimEnd := by
  unfold dropSpace
  cases h : t.dropTrailing? [' '] with
  | none => rfl
  | some start =>
    have hspace : ∀ c ∈ [' '], isBlank c = true := List.forall_mem_singleton.mpr (by decide)
    rw [Text.dropTrailing?_eq_some_iff.mp h, Text.trimEnd_append hspace]
    rfl

theorem trimEnd_keptFrom {parts : List (AttributeGroup × Text)} (first : Text)
    (h : ∀ part ∈ parts, part.2.allBlank = true) :
    (keptFrom first parts).trimEnd = first.trimEnd := by
  induction parts generalizing first with
  | nil => rfl
  | cons part parts ih =>
    obtain ⟨hpart, hparts⟩ := List.forall_mem_cons.mp h
    -- Behind the first group there are only blanks, since nothing is left when they are trimmed.
    have htrimmed : (keptFrom part.2 parts).trimEnd = [] :=
      (ih part.2 hparts).trans (Text.trimEnd_append (List.all_eq_true.mp hpart) [])
    obtain ⟨blanks, hjoined, hblanks⟩ := Text.exists_trimEnd_append (keptFrom part.2 parts)
    rw [htrimmed, List.nil_append] at hjoined
    rw [keptFrom, hjoined, Text.trimEnd_append hblanks, trimEnd_dropSpace]

end AttributedLine

/-! ### Dollars at the end of a line -/

/-- Groups and blanks behind a text bring no edge of display math into it. -/
theorem togglesMath_append_parts {parts : List (AttributeGroup × Text)}
    (hend : ∀ part ∈ parts, part.2.allBlank = true ∧ togglesMath part.1.raw = false)
    (hgroups : ∀ part ∈ parts, ∃ inner, part.1.raw = inBraces inner) (first : Text) :
    togglesMath (first ++ parts.flatMap fun part => part.1.raw ++ part.2) = togglesMath first := by
  induction parts generalizing first with
  | nil => rw [List.flatMap_nil, List.append_nil]
  | cons part parts ih =>
    obtain ⟨⟨hblank, heven⟩, hend⟩ := List.forall_mem_cons.mp hend
    obtain ⟨⟨inner, hraw⟩, hgroups⟩ := List.forall_mem_cons.mp hgroups
    have hbehind := ih hend hgroups part.2
    have hnone : part.2.countPairs '$' '$' = 0 :=
      Text.countPairs_append_of_blank (by decide) (List.all_eq_true.mp hblank) []
    have hinner : (inBraces inner).countPairs '$' '$' = inner.countPairs '$' '$' := by
      have hcount := countPairs_inBraces_append [] inner []
      rwa [List.append_nil, List.nil_append, Text.countPairs_nil, Nat.zero_add] at hcount
    rw [togglesMath, togglesMath, hnone] at hbehind
    rw [togglesMath, hraw, hinner] at heven
    have hrest := beq_eq_false_iff_ne.mp (hbehind.trans rfl)
    have hodd := beq_eq_false_iff_ne.mp heven
    rw [List.flatMap_cons, hraw, List.append_assoc, togglesMath, countPairs_inBraces_append]
    exact congrArg (· == 1) (by omega)

/-- **The dollars of a line with groups at its end** are those before them. -/
theorem CutsTo.togglesMath_first {line : Text} {cut : AttributedLine} (h : CutsTo line cut)
    (hend : ∀ part ∈ cut.rest, part.2.allBlank = true ∧ togglesMath part.1.raw = false) :
    togglesMath cut.first = togglesMath line := by
  have hgroups : ∀ part ∈ cut.rest, ∃ inner, part.1.raw = inBraces inner := fun part hpart => by
    obtain ⟨inner, -, hparse⟩ := h.exists_parse? hpart
    exact ⟨inner, AttributeGroup.raw_of_parse? hparse⟩
  rw [← togglesMath_append_parts hend hgroups, ← h.eq_append]

/-- **Groups at the end of a line** leave its front: nothing comes about in what is kept. -/
theorem HasGroupsAtEnd.stays {line : Text} (h : HasGroupsAtEnd line) (hfence : isFence line = false)
    (htoggles : togglesMath line = false) : StaysInProse line ∧ ¬ HasGroups (keptOf line) := by
  have hcut := cutsTo_ofText line
  have hkept : keptOf line = (ofText line).first.trimEnd :=
    trimEnd_keptFrom _ fun part hpart => (h part hpart).1
  obtain ⟨blanks, hfirst, hblanks⟩ := Text.exists_trimEnd_append (ofText line).first
  rw [← hkept] at hfirst
  refine ⟨⟨?_, ?_⟩, ?_⟩
  · by_contra hopens
    rw [Bool.not_eq_false] at hopens
    have hopens := isFence_append (isFence_append hopens blanks)
      ((ofText line).rest.flatMap fun part => part.1.raw ++ part.2)
    rw [← hfirst, ← hcut.eq_append, hfence] at hopens
    cases hopens
  · rw [← htoggles, ← hcut.togglesMath_first h, hfirst, togglesMath, togglesMath,
      Text.countPairs_append_of_blank (by decide) hblanks]
  · rw [HasGroups, ← (hcut.front hfirst hblanks).eq_ofText]
    exact fun hne => hne rfl

/-! ## The page -/

/-- A line that is cut is prose, and at no edge of display math. -/
theorem not_isFence_of_mem_cutLinesFrom {inMath : Bool} {r : Region} {lines : List Text}
    {line : Text} (h : line ∈ cutLinesFrom inMath (classifyFrom r lines)) :
    isFence line = false ∧ togglesMath line = false := by
  induction lines generalizing inMath r with
  | nil => cases h
  | cons l lines ih =>
    rw [classifyFrom, cutLinesFrom] at h
    rcases List.mem_append.mp h with h | h
    · split at h
      · rename_i hcut
        rw [List.mem_singleton.mp h]
        exact ⟨(Region.kindOf_eq_text_iff.mp hcut.1.1).2, hcut.1.2.1⟩
      · cases h
    · exact ih h

/-- **A page whose attributes have been moved stays** when they are moved again just when no line of
it is cut.  Where what is kept of each line stays in the prose, that is when no groups have come
about in it, and none come about where groups stand at the end of their line. -/
theorem moved_attributes_stay (fs : FileSystem) (path? : Option Path) (page : Text) :
    ∃ out, Stage.attributes.apply fs path? page = .ok out ∧
      (Stage.attributes.apply fs path? out = .ok out ↔ cutLines out = []) ∧
      ((∀ line ∈ cutLines page, StaysInProse line) →
        (Stage.attributes.apply fs path? out = .ok out ↔
          ∀ line ∈ cutLines page, ¬ HasGroups (keptOf line))) ∧
      ((∀ line ∈ cutLines page, HasGroupsAtEnd line) →
        Stage.attributes.apply fs path? out = .ok out) := by
  have hstays : Stage.attributes.apply fs path? (moveAllAttributes page) =
      .ok (moveAllAttributes page) ↔ cutLines (moveAllAttributes page) = [] := by
    rw [← moveAllAttributes_eq_self_iff]
    exact ⟨Except.ok.inj, congrArg Except.ok⟩
  have hgroups (h : ∀ line ∈ cutLines page, StaysInProse line) :
      Stage.attributes.apply fs path? (moveAllAttributes page) = .ok (moveAllAttributes page) ↔
        ∀ line ∈ cutLines page, ¬ HasGroups (keptOf line) := by
    rw [hstays, cutLines_moveAllAttributes h, List.filter_eq_nil_iff, List.forall_mem_map]
    simp only [decide_eq_true_eq]
  refine ⟨moveAllAttributes page, rfl, hstays, hgroups, fun hend => ?_⟩
  have hkept : ∀ line ∈ cutLines page, StaysInProse line ∧ ¬ HasGroups (keptOf line) :=
    fun line hline => by
      obtain ⟨hfence, htoggles⟩ := not_isFence_of_mem_cutLinesFrom hline
      exact (hend line hline).stays hfence htoggles
  exact (hgroups fun line hline => (hkept line hline).1).mpr fun line hline => (hkept line hline).2

/-- A heading and an image with groups at their end, a group in a code span and one in display math.
-/
def pageWithGroupsAtEnd : Text :=
  ("# Notes \x7b.wide #notes\x7d\n![a](b.png){width=3} {.x} \n\x60{.y}\x60 $a${.z}\n" ++
    "$$\n{.w}\n$$").toList

theorem moved_attributes_stay_pageWithGroupsAtEnd :
    (cutLines pageWithGroupsAtEnd).length = 3 ∧
      (∀ line ∈ cutLines pageWithGroupsAtEnd, HasGroupsAtEnd line) ∧
      ∃ out, Stage.attributes.apply .empty none pageWithGroupsAtEnd = .ok out ∧
        Stage.attributes.apply .empty none out = .ok out := by
  have hend : ∀ line ∈ cutLines pageWithGroupsAtEnd, HasGroupsAtEnd line := by decide +kernel
  obtain ⟨out, hout, -, -, hstays⟩ := moved_attributes_stay .empty none pageWithGroupsAtEnd
  exact ⟨by decide +kernel, hend, out, hout, hstays hend⟩

/-- **A page whose attributes have been moved changes**: where a group in the braces of another one
is taken out, the braces are left with the attributes behind it. -/
theorem moved_attributes_change_nestedGroup :
    ∃ out, Stage.attributes.apply .empty none "a \x7b\x7b.x\x7d.y\x7d b".toList = .ok out ∧
      out = ("a {.y} b\n<!-- mdBook attributes: {.x} -->\n" ++
        "<!-- VitePress does not fully support this syntax, " ++
        "wrap the content in HTML instead -->\n" ++
        "<!-- e.g. <div class=\"x\">content</div> -->").toList ∧
      Stage.attributes.apply .empty none out ≠ .ok out := by
  refine ⟨_, rfl, by decide +kernel, fun h => ?_⟩
  exact absurd (moveAllAttributes_eq_self_iff.mp (Except.ok.inj h)) (by decide +kernel)

end BookSite
