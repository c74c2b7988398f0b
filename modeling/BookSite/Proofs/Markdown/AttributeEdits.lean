import BookSite.Markdown.AttributedLine
import BookSite.Proofs.Markdown.LineEdits
import BookSite.Proofs.Text.Scanning

/-!
# Proofs/Markdown/AttributeEdits — moving attribute groups as an edit of lines

The edit goes through a page with one bit of memory, whether it is in display math, and looks at
prose only.  So it keeps every line of code.  What it puts in place of a line of prose are lines
again: no group runs over a line end, and no comment holds one.
-/

namespace BookSite

/-! ## The edit -/

/-- Whether the next line starts in display math. -/
def mathAfter (inMath : Bool) (line : Line) : Bool :=
  if line.kind = .text ∧ togglesMath line.text = true then !inMath else inMath

/-- Whether the lines behind others start in display math. -/
def mathBehind (inMath : Bool) (lines : List Line) : Bool := lines.foldl mathAfter inMath

/-- Whether the groups of a line are moved: it is prose, and not in or at the edge of math. -/
def IsAttributed (inMath : Bool) (line : Line) : Prop :=
  line.kind = .text ∧ togglesMath line.text = false ∧ inMath = false

instance (inMath : Bool) (line : Line) : Decidable (IsAttributed inMath line) :=
  inferInstanceAs (Decidable (_ ∧ _ ∧ _))

/-- What is put in place of one line. -/
def attributeStep (inMath : Bool) (line : Line) : List Text :=
  if IsAttributed inMath line then moveAttributes line.text else [line.text]

/-- **One step**: what becomes of the first line, and of the others. -/
theorem moveAttributesFrom_cons (inMath : Bool) (line : Line) (rest : List Line) :
    moveAttributesFrom inMath (line :: rest) =
      attributeStep inMath line ++ moveAttributesFrom (mathAfter inMath line) rest := by
  rw [moveAttributesFrom, attributeStep, mathAfter]
  by_cases htext : line.kind = .text
  · by_cases htoggles : togglesMath line.text = true
    · simp [IsAttributed, htext, htoggles]
    · cases inMath <;> simp [IsAttributed, htext, htoggles]
  · simp [IsAttributed, htext]

theorem moveAttributesFrom_append (inMath : Bool) (xs ys : List Line) :
    moveAttributesFrom inMath (xs ++ ys) =
      moveAttributesFrom inMath xs ++ moveAttributesFrom (mathBehind inMath xs) ys := by
  induction xs generalizing inMath with
  | nil => rfl
  | cons line xs ih =>
    rw [List.cons_append, moveAttributesFrom_cons, moveAttributesFrom_cons, ih, List.append_assoc]
    rfl

/-- **Each edited line** is put in place of one line, behind what is put in place of those above. -/
theorem atEachPlace_moveAttributesFrom {P : List Text → Text → Prop} {inMath : Bool}
    {lines : List Line} :
    AtEachPlace P (moveAttributesFrom inMath lines) ↔
      AtEachPlace (fun above line =>
        AtEachPlace (fun front => P (moveAttributesFrom inMath above ++ front))
          (attributeStep (mathBehind inMath above) line)) lines := by
  induction lines generalizing inMath P with
  | nil => simp [moveAttributesFrom]
  | cons line rest ih =>
    rw [moveAttributesFrom_cons, atEachPlace_append, atEachPlace_cons, ih]
    simp only [moveAttributesFrom_cons, List.append_assoc]
    rfl

/-- **The lines of a page** with the attribute groups moved out of its prose. -/
def attributeLines (lines : List Text) : List Text :=
  moveAttributesFrom false (classifyFrom .prose lines)

theorem keepsLine_attributeLines {above below : List Text} {line : Text}
    (hregion : regionBehind above = .block) (hfence : isFence line = false) :
    KeepsLine attributeLines above line below := by
  have hkind := Region.kindOf_block_of_not_isFence hfence
  refine ⟨moveAttributesFrom (mathBehind false (classifyFrom .prose above))
    (classifyFrom .block below), ?_, by rintro rfl; rfl⟩
  have hbehind : Region.afterAll .prose above = .block := hregion
  have hstep : ∀ inMath, attributeStep inMath ⟨line, .code⟩ = [line] := fun _ =>
    if_neg fun h => by cases h.1
  have hmath : ∀ inMath, mathAfter inMath ⟨line, .code⟩ = inMath := fun _ =>
    if_neg fun h => by cases h.1
  rw [attributeLines, classifyFrom_append, moveAttributesFrom_append, hbehind, classifyFrom, hkind,
    Region.after_of_not_isFence hfence, moveAttributesFrom_cons, hstep, hmath]
  rfl

/-! ## The lines of a line -/

namespace AttributeGroup

theorem newline_not_mem_of_mem_words {t w : Text} (h : w ∈ t.words) : '\n' ∉ w := fun hmem =>
  absurd (Text.not_isBlank_of_mem_words h _ hmem) (by decide)

/-- What a group is read as. -/
theorem eq_of_parse? {inner : Text} {a : AttributeGroup} (h : parse? inner = some a) :
    a = ⟨'{' :: inner ++ ['}'], (inner.words.filter isClass).map List.tail,
      inner.words.filter (!isClass ·)⟩ := by
  rw [parse?] at h
  simp only [Option.ite_none_left_eq_some, Option.some.injEq] at h
  exact h.2.symm

theorem newline_not_mem_attributes {inner : Text} {a : AttributeGroup} (h : parse? inner = some a) :
    '\n' ∉ a.attributes := by
  obtain rfl := eq_of_parse? h
  intro hmem
  obtain hmem | ⟨part, hpart, hmem⟩ := Text.mem_joinWith hmem
  · simp at hmem
  · rcases List.mem_append.mp hpart with hpart | hpart
    · split at hpart
      · simp at hpart
      · rw [List.mem_singleton.mp hpart] at hmem
        simp only [List.mem_append] at hmem
        rcases hmem with (hmem | hmem) | hmem
        · revert hmem
          decide
        · obtain hmem | ⟨c, hc, hmem⟩ := Text.mem_joinWith hmem
          · simp at hmem
          · obtain ⟨w, hw, rfl⟩ := List.mem_map.mp hc
            exact newline_not_mem_of_mem_words (List.mem_filter.mp hw).1 (List.mem_of_mem_tail hmem)
        · simp at hmem
    · exact newline_not_mem_of_mem_words (List.mem_filter.mp hpart).1 hmem

theorem newline_not_mem_raw {inner : Text} {a : AttributeGroup} (h : parse? inner = some a)
    (hinner : '\n' ∉ inner) : '\n' ∉ a.raw := by
  obtain rfl := eq_of_parse? h
  simp [hinner]

theorem newline_not_mem_commentLines {inner : Text} {a : AttributeGroup} (h : parse? inner = some a)
    (hinner : '\n' ∉ inner) : ∀ l ∈ a.commentLines, '\n' ∉ l := by
  have hraw := newline_not_mem_raw h hinner
  have hattributes := newline_not_mem_attributes h
  intro l hl
  unfold commentLines at hl
  simp only [List.mem_cons, List.not_mem_nil, or_false] at hl
  obtain hl | hl | hl := hl
  · simp [hl, hraw]
  · rw [hl]
    decide
  · simp [hl, hattributes]

end AttributeGroup

namespace AttributedLine

/-- No part of the line, and no comment of its groups, holds a line feed. -/
structure HoldsNoNewline (line : AttributedLine) : Prop where
  first : '\n' ∉ line.first
  comments : ∀ part ∈ line.rest, ∀ l ∈ part.1.commentLines, '\n' ∉ l
  behind : ∀ part ∈ line.rest, '\n' ∉ part.2

/-- The inside of a group that the scan finds. -/
theorem inner_subset_of_find {s inner : Text} {n : Nat}
    (h : ProseToken.find s = some (.group inner, n)) : inner ⊆ s := by
  unfold ProseToken.find at h
  simp only at h
  split at h
  · cases h
  · obtain ⟨inner', hinner, heq⟩ := Option.map_eq_some_iff.mp h
    cases heq
    unfold ProseToken.groupInner? at hinner
    split at hinner
    · split at hinner
      · rename_i htake _
        cases hinner
        rw [← htake]
        exact fun c hc => List.mem_cons_of_mem _ ((List.takeWhile_sublist _).mem hc)
      · cases hinner
    · cases hinner

theorem holdsNoNewline_cons {piece : Text.Piece ProseToken} {line : AttributedLine}
    (hwording : '\n' ∉ piece.wording)
    (hcomments : ∀ a, pieceAttributes? piece = some a → ∀ l ∈ a.commentLines, '\n' ∉ l)
    (h : line.HoldsNoNewline) : (cons piece line).HoldsNoNewline := by
  unfold cons
  split
  · rename_i a ha
    refine ⟨by simp, fun part hpart => ?_, fun part hpart => ?_⟩
    · rcases List.mem_cons.mp hpart with rfl | hpart
      · exact hcomments _ ha
      · exact h.comments part hpart
    · rcases List.mem_cons.mp hpart with rfl | hpart
      · exact h.first
      · exact h.behind part hpart
  · exact ⟨by simp [hwording, h.first], h.comments, h.behind⟩

theorem holdsNoNewline_ofText {line : Text} (h : '\n' ∉ line) :
    (ofText line).HoldsNoNewline := by
  have hpieces : ∀ piece ∈ line.scan ProseToken.find, '\n' ∉ piece.wording ∧
      ∀ a, pieceAttributes? piece = some a → ∀ l ∈ a.commentLines, '\n' ∉ l := by
    intro piece hpiece
    obtain ⟨c, hc, rfl⟩ | ⟨s, found, n, hs, hfind, rfl⟩ := Text.mem_scan hpiece
    · refine ⟨?_, fun a ha => by cases ha⟩
      rintro hmem
      rw [List.mem_singleton.mp hmem] at h
      exact h hc
    · refine ⟨fun hmem => h (hs.mem (List.mem_of_mem_take hmem)), fun a ha => ?_⟩
      cases found with
      | skipped => cases ha
      | group inner =>
        exact AttributeGroup.newline_not_mem_commentLines ha fun hmem =>
          h (hs.mem (inner_subset_of_find hfind hmem))
  rw [ofText]
  generalize line.scan ProseToken.find = pieces at hpieces
  induction pieces with
  | nil => exact ⟨by simp, by simp, by simp⟩
  | cons piece pieces ih =>
    obtain ⟨hwording, hcomments⟩ := hpieces piece (by simp)
    exact holdsNoNewline_cons hwording hcomments (ih fun q hq => hpieces q (by simp [hq]))

theorem dropSpace_subset (t : Text) : dropSpace t ⊆ t := by
  unfold dropSpace
  cases h : t.dropTrailing? [' '] with
  | none => simp
  | some start =>
    rw [Text.eq_append_of_dropTrailing? h]
    simp

theorem newline_not_mem_keptFrom {first : Text} {rest : List (AttributeGroup × Text)}
    (hfirst : '\n' ∉ first) (hrest : ∀ part ∈ rest, '\n' ∉ part.2) :
    '\n' ∉ keptFrom first rest := by
  induction rest generalizing first with
  | nil => exact hfirst
  | cons part rest ih =>
    rw [keptFrom, List.mem_append, not_or]
    exact ⟨fun hmem => hfirst (dropSpace_subset first hmem),
      ih (hrest part (by simp)) fun q hq => hrest q (by simp [hq])⟩

/-- **The lines of a cut line** hold no line feed. -/
theorem HoldsNoNewline.outputLines {line : AttributedLine} (h : line.HoldsNoNewline) :
    ∀ l ∈ line.outputLines, '\n' ∉ l := by
  intro l hl
  rcases List.mem_append.mp hl with hl | hl
  · split at hl
    · simp at hl
    · rw [List.mem_singleton.mp hl]
      exact fun hmem => newline_not_mem_keptFrom h.first h.behind
        ((Text.dropWhileEnd_isPrefix _ _).mem hmem)
  · obtain ⟨part, hpart, hl⟩ := List.mem_flatMap.mp hl
    exact h.comments part hpart l hl

end AttributedLine

theorem newline_not_mem_moveAttributes {line : Text} (h : '\n' ∉ line) :
    ∀ l ∈ moveAttributes line, '\n' ∉ l := by
  unfold moveAttributes
  simp only
  split
  · simpa using h
  · exact (AttributedLine.holdsNoNewline_ofText h).outputLines

theorem moveAttributes_ne_nil (line : Text) : moveAttributes line ≠ [] := by
  unfold moveAttributes
  simp only
  split
  · simp
  · rename_i hrest
    unfold AttributedLine.outputLines
    cases hparts : (AttributedLine.ofText line).rest with
    | nil => simp [hparts] at hrest
    | cons part parts =>
      refine List.append_ne_nil_of_right_ne_nil _ ?_
      rw [List.flatMap_cons]
      exact List.append_ne_nil_of_left_ne_nil (List.cons_ne_nil _ _) _

theorem attributeStep_ne_nil (inMath : Bool) (line : Line) : attributeStep inMath line ≠ [] := by
  unfold attributeStep
  split
  · exact moveAttributes_ne_nil _
  · simp

theorem newline_not_mem_attributeStep (inMath : Bool) {line : Line} (h : '\n' ∉ line.text) :
    ∀ l ∈ attributeStep inMath line, '\n' ∉ l := by
  unfold attributeStep
  split
  · exact newline_not_mem_moveAttributes h
  · simpa using h

theorem newline_not_mem_moveAttributesFrom (inMath : Bool) {lines : List Line}
    (h : ∀ line ∈ lines, '\n' ∉ line.text) : ∀ l ∈ moveAttributesFrom inMath lines, '\n' ∉ l := by
  induction lines generalizing inMath with
  | nil => simp [moveAttributesFrom]
  | cons line rest ih =>
    intro l hl
    rw [moveAttributesFrom_cons] at hl
    rcases List.mem_append.mp hl with hl | hl
    · exact newline_not_mem_attributeStep inMath (h line (by simp)) l hl
    · exact ih _ (fun q hq => h q (by simp [hq])) l hl

/-- **The edited lines are lines of a page.** -/
theorem arePageLines_attributeLines {lines : List Text} (h : Text.ArePageLines lines) :
    Text.ArePageLines (attributeLines lines) where
  ne_nil := by
    obtain ⟨line, rest, rfl⟩ := List.exists_cons_of_ne_nil h.ne_nil
    rw [attributeLines, classifyFrom, moveAttributesFrom_cons]
    exact List.append_ne_nil_of_left_ne_nil (attributeStep_ne_nil _ _) _
  newline_not_mem := newline_not_mem_moveAttributesFrom false fun _ => h.newline_not_mem_text

theorem segments_moveAllAttributes (page : Text) :
    (moveAllAttributes page).segments = attributeLines page.segments :=
  (arePageLines_attributeLines (Text.arePageLines_segments page)).segments_unlines

end BookSite
