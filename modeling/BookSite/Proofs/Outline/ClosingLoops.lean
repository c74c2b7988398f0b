import BookSite.Proofs.Outline.OpenChapters

/-!
# Proofs/Outline/ClosingLoops — open chapters are closed one by one

Both the closing before an entry and the closing at the end are **loops**: the innermost chapter is
closed as long as a condition on the open chapters holds.  A loop ends because the root lies at
level 0, below all entries, and so is never in its way (`Sound.closesWhile_closeTo`).  The open
chapters stay **rooted** throughout, and nothing that was read is lost
(`open_chapters_stay_rooted`).
-/

namespace BookSite.Outline

/-! ## Loops -/

/-- **The closing loop**: it closes the innermost chapter as long as the condition holds.  A round
needs a chapter and the one it was opened in, so the loop leads nowhere if it meets the root alone
while the condition holds, or if it never ends. -/
inductive ClosesWhile (goesOn : OpenChapters → Bool) : OpenChapters → OpenChapters → Prop
  | done {stack : OpenChapters} (hstop : goesOn stack = false) : ClosesWhile goesOn stack stack
  | round {inner outer : Chapter} {rest closed : OpenChapters}
    (hgo : goesOn (inner :: outer :: rest) = true)
    (hmore : ClosesWhile goesOn (outer.addChild inner :: rest) closed) :
    ClosesWhile goesOn (inner :: outer :: rest) closed

/-- Whether the innermost chapter has to be closed before an entry of the given level. -/
def isClosedBy (level : Nat) (stack : OpenChapters) : Bool := stack.head?.any (level ≤ ·.level)

/-- **The loop before an entry** ends, and does not close the root. -/
theorem Sound.closesWhile_closeTo {stack : OpenChapters} (h : Sound stack) {level : Nat}
    (hlevel : 0 < level) : ClosesWhile (isClosedBy level) stack (closeTo level stack) := by
  cases stack with
  | nil => cases h
  | cons inner outers =>
    rw [closeTo]
    induction outers generalizing inner with
    | nil =>
      -- The root is less deep than any entry, so the condition fails before it.
      have hroot : inner.level = 0 := by cases h; assumption
      exact .done (by simp [isClosedBy, hroot, Nat.ne_of_gt hlevel])
    | cons outer rest ih =>
      rw [Outline.closeFrom]
      split
      · next hclose => exact .round (by simp [isClosedBy, hclose]) (ih _ h.close)
      · next hstay => exact .done (by simp [isClosedBy, hstay])

/-- **The loop at the end** leaves one chapter. -/
theorem closesWhile_closeAll {stack : OpenChapters} {root : Chapter}
    (h : closeAll stack = some root) : ClosesWhile (1 < ·.length) stack [root] := by
  cases stack with
  | nil => cases h
  | cons inner outers =>
    induction outers generalizing inner with
    | nil =>
      cases h
      exact .done rfl
    | cons outer rest ih => exact .round (by simp) (ih _ h)

/-! ## Rooted stacks -/

/-- **Rooted open chapters**: the root lies below all others, at level 0, and every chapter is
deeper than the one it was opened in. -/
structure Rooted (stack : OpenChapters) : Prop where
  root : ∃ above children, stack = above ++ [.node [] [] 0 children]
  levels : stack.Pairwise fun inner outer => outer.level < inner.level

/-- The levels of a sound stack decrease from the innermost chapter to the root. -/
theorem Sound.pairwise_level {stack : OpenChapters} (h : Sound stack) :
    stack.Pairwise fun inner outer => outer.level < inner.level := by
  induction h with
  | root => exact List.pairwise_singleton _ _
  | @opened inner outer rest hlt _ _ _ ih =>
    refine List.pairwise_cons.mpr ⟨fun c hc => ?_, ih⟩
    rcases List.mem_cons.mp hc with rfl | hc
    · exact hlt
    · exact Nat.lt_trans ((List.pairwise_cons.mp ih).1 c hc) hlt

/-- What a stack records begins with its lowest chapter. -/
theorem exists_root_of_recorded {stack : OpenChapters} {e : Entry} {es : List Entry}
    (h : recorded stack = e :: es) :
    ∃ above children, stack = above ++ [.node e.title e.link e.level children] := by
  induction stack generalizing es with
  | nil => cases h
  | cons c outers ih =>
    -- The outer chapters are recorded first, so `c` is the lowest one when they record nothing.
    rw [recorded, entriesOf_singleton] at h
    cases hrecorded : recorded outers with
    | cons d ds =>
      rw [hrecorded] at h
      obtain ⟨above, children, rfl⟩ := ih (hrecorded.trans (by rw [(List.cons.inj h).1]))
      exact ⟨c :: above, children, rfl⟩
    | nil =>
      cases outers with
      | cons d ds => simp [recorded, entriesOf_singleton] at hrecorded
      | nil =>
        rw [hrecorded, List.nil_append] at h
        rw [← (List.cons.inj h).1]
        obtain ⟨title, link, level, children⟩ := c
        exact ⟨[], children, rfl⟩

/-- A sound stack that records the root first is rooted. -/
theorem Sound.rooted {stack : OpenChapters} (h : Sound stack) {es : List Entry}
    (hrecorded : recorded stack = rootEntry :: es) : Rooted stack :=
  ⟨exists_root_of_recorded hrecorded, h.pairwise_level⟩

theorem Ready.sound {stack : OpenChapters} (h : Ready stack) : Sound stack := by
  obtain ⟨_, _, _, _, hsound⟩ := h
  exact hsound

/-- Closing before an entry leaves a sound stack. -/
theorem Ready.sound_closeTo {stack : OpenChapters} (h : Ready stack) {level : Nat}
    (hlevel : 0 < level) : Sound (closeTo level stack) := by
  obtain ⟨inner, outers, rfl, hempty, hsound⟩ := h
  obtain ⟨_, _, hclosed, hsound, -, -⟩ := hsound.closeFrom hlevel (by simp [hempty])
  rwa [closeTo, hclosed]

/-! ## The lines of an outline -/

/-- **The open chapters behind some lines.** -/
def openBehind (lines : List Text) : OpenChapters := (lines.filterMap Entry.parse?).foldl step start

theorem recorded_openBehind (lines : List Text) :
    recorded (openBehind lines) = rootEntry :: lines.filterMap Entry.parse? := by
  rw [openBehind, recorded_foldl_step, recorded_start]
  rfl

theorem ready_openBehind (lines : List Text) : Ready (openBehind lines) := by
  refine ready_start.foldl_step fun e he => ?_
  obtain ⟨_, _, hparse⟩ := List.mem_filterMap.mp he
  exact Entry.level_pos_of_parse? hparse

/-- **The open chapters stay rooted.**  Behind any lines the root lies below all others and levels
increase towards the innermost chapter, and the stack records the root and all entries so far.  So
the loop before an entry ends, whatever its level, and leaves the root open; and the levels of
entries are such levels.  The loop at the end leaves the root alone, whose children are the outline
with every entry. -/
theorem open_chapters_stay_rooted (t : Text) :
    (∀ k, let stack := openBehind (t.lines.take k)
      Rooted stack ∧ recorded stack = rootEntry :: (t.lines.take k).filterMap Entry.parse? ∧
        ∀ level, 0 < level →
          ClosesWhile (isClosedBy level) stack (closeTo level stack) ∧
            Rooted (closeTo level stack)) ∧
    (∀ e ∈ entries t, 0 < e.level) ∧
    ∃ root, ClosesWhile (1 < ·.length) (openBehind t.lines) [root] ∧
      parse t = root.children ∧ entriesOf (parse t) = entries t := by
  refine ⟨fun k => ?_, fun e he => level_pos_of_mem_entries he, ?_⟩
  · intro stack
    have hready : Ready stack := ready_openBehind _
    have hrecorded := recorded_openBehind (t.lines.take k)
    refine ⟨hready.sound.rooted hrecorded, hrecorded, fun level hlevel => ?_⟩
    have hclosed := (recorded_closeTo level stack).trans hrecorded
    exact ⟨hready.sound.closesWhile_closeTo hlevel, (hready.sound_closeTo hlevel).rooted hclosed⟩
  · obtain ⟨root, hroot, -, -⟩ := (ready_openBehind t.lines).sound.closeAll
    have hparse : parse t = root.children := by
      rw [parse, forestOf, entries]
      exact congrArg (fun root? => (root?.map Chapter.children).getD []) hroot
    exact ⟨root, closesWhile_closeAll hroot, hparse, entriesOf_parse t⟩

/-- Two chapters have to be closed before an entry at the margin. -/
theorem open_chapters_stay_rooted_smallOutline :
    ClosesWhile (isClosedBy 1) (openBehind (smallOutline.lines.take 2))
        (closeTo 1 (openBehind (smallOutline.lines.take 2))) ∧
      Entry.mk "Install".toList "install.md".toList 2 ∈ entries smallOutline ∧
      0 < (Entry.mk "Install".toList "install.md".toList 2).level := by
  have hmem : Entry.mk "Install".toList "install.md".toList 2 ∈ entries smallOutline := by
    decide +kernel
  have hrooted := open_chapters_stay_rooted smallOutline
  exact ⟨((hrooted.1 2).2.2 1 (by decide)).1, hmem, hrooted.2.1 _ hmem⟩

end BookSite.Outline
