import BookSite.Proofs.Outline.Nesting

/-!
# Proofs/Outline/OpenChapters — the stack keeps what it has read

Closing a chapter moves it and loses nothing: the stack **records** the same entries before and
after, in the order they were read in.  Every chapter on the stack is deeper than the one it was
opened in, and could be its last child; so the forest that remains is nested.
-/

namespace BookSite.Outline

open Branching

@[simp] theorem children_addChild (outer inner : Chapter) :
    (outer.addChild inner).children = outer.children ++ [inner] := rfl

theorem entriesOf_singleton (c : Chapter) :
    entriesOf [c] = .ofChapter c :: entriesOf c.children := by simp [entriesOf_cons]

theorem entriesOf_addChild (outer inner : Chapter) :
    entriesOf [outer.addChild inner] = entriesOf [outer] ++ entriesOf [inner] := by
  rw [entriesOf_singleton, entriesOf_singleton outer, children_addChild, entriesOf_append]
  rfl

/-! ## What is recorded -/

/-- **The entries a stack has read**, in their order: those of the outer chapters come first. -/
def recorded : OpenChapters → List Entry
  | [] => []
  | c :: outers => recorded outers ++ entriesOf [c]

theorem recorded_close (inner outer : Chapter) (rest : OpenChapters) :
    recorded (outer.addChild inner :: rest) = recorded (inner :: outer :: rest) := by
  simp [recorded, entriesOf_addChild]

theorem recorded_closeFrom (level : Nat) (inner : Chapter) (outers : OpenChapters) :
    recorded (closeFrom level inner outers) = recorded (inner :: outers) := by
  induction outers generalizing inner with
  | nil => rfl
  | cons outer rest ih =>
    rw [closeFrom]
    split
    · rw [ih, recorded_close]
    · rfl

theorem recorded_closeTo (level : Nat) (stack : OpenChapters) :
    recorded (closeTo level stack) = recorded stack := by
  cases stack with
  | nil => rfl
  | cons inner outers => exact recorded_closeFrom level inner outers

/-- **An entry is recorded behind the others.** -/
theorem recorded_step (stack : OpenChapters) (e : Entry) :
    recorded (step stack e) = recorded stack ++ [e] := by
  rw [step, recorded, recorded_closeTo, entriesOf_singleton]
  simp [Chapter.leaf, Chapter.children, Entry.ofChapter, Chapter.title, Chapter.link, Chapter.level]

/-- A run over entries records them all. -/
theorem recorded_foldl_step (stack : OpenChapters) (es : List Entry) :
    recorded (es.foldl step stack) = recorded stack ++ es := by
  induction es generalizing stack with
  | nil => simp
  | cons e es ih => rw [List.foldl_cons, ih, recorded_step, List.append_assoc]; rfl

/-- The root, as it is recorded. -/
def rootEntry : Entry := ⟨[], [], 0⟩

theorem recorded_start : recorded start = [rootEntry] := by
  rw [start, recorded, recorded, List.nil_append, entriesOf_singleton]
  exact congrArg (rootEntry :: ·) entriesOf_nil

/-! ## Sound stacks -/

/-- **A sound stack**: a root at level 0, and on it chapters that are deeper than the one they were
opened in and no deeper than its children so far.  What is below each of them is nested. -/
inductive Sound : OpenChapters → Prop
  | root {c : Chapter} : c.level = 0 → Nested 0 c.children → Sound [c]
  | opened {inner outer : Chapter} {rest : OpenChapters} :
      outer.level < inner.level → (∀ d ∈ outer.children, inner.level ≤ d.level) →
        Nested inner.level inner.children → Sound (outer :: rest) → Sound (inner :: outer :: rest)

/-- Closing the innermost chapter keeps a stack sound. -/
theorem Sound.close {inner outer : Chapter} {rest : OpenChapters}
    (h : Sound (inner :: outer :: rest)) : Sound (outer.addChild inner :: rest) := by
  cases h with
  | opened hlt hle hinner hrest =>
    cases hrest with
    | root hroot houter => exact .root hroot (Nested.concat_iff.mpr ⟨houter, by omega, hle, hinner⟩)
    | opened hlt' hle' houter hrest =>
      exact .opened hlt' hle' (Nested.concat_iff.mpr ⟨houter, hlt, hle, hinner⟩) hrest

/-- Behind the closing, the innermost chapter is less deep than `level` and its children are not. -/
theorem Sound.closeFrom {level : Nat} {inner : Chapter} {outers : OpenChapters}
    (h : Sound (inner :: outers)) (hlevel : 0 < level)
    (hchildren : ∀ d ∈ inner.children, level ≤ d.level) :
    ∃ top rest, Outline.closeFrom level inner outers = top :: rest ∧ Sound (top :: rest) ∧
      top.level < level ∧ ∀ d ∈ top.children, level ≤ d.level := by
  induction outers generalizing inner with
  | nil =>
    have hinner : inner.level = 0 := by cases h; assumption
    exact ⟨inner, [], rfl, h, by omega, hchildren⟩
  | cons outer rest ih =>
    rw [Outline.closeFrom]
    split
    · next hclose =>
      refine ih h.close fun d hd => ?_
      rw [children_addChild, List.mem_append, List.mem_singleton] at hd
      cases h with
      | opened _ hle _ _ =>
        rcases hd with hd | rfl
        · exact Nat.le_trans hclose (hle d hd)
        · exact hclose
    · next hstay => exact ⟨inner, outer :: rest, rfl, h, by omega, hchildren⟩

/-- **A sound stack whose innermost chapter is still empty**, as it is between two entries. -/
def Ready (stack : OpenChapters) : Prop :=
  ∃ top rest, stack = top :: rest ∧ top.children = [] ∧ Sound stack

theorem ready_start : Ready start := ⟨_, _, rfl, rfl, .root rfl (.nil 0)⟩

/-- **Taking in an entry** keeps a stack ready. -/
theorem Ready.step {stack : OpenChapters} (h : Ready stack) {e : Entry} (he : 0 < e.level) :
    Ready (step stack e) := by
  obtain ⟨inner, outers, rfl, hempty, hsound⟩ := h
  obtain ⟨top, rest, hclosed, hsound, hlt, hle⟩ := hsound.closeFrom he (by simp [hempty])
  refine ⟨.leaf e.title e.link e.level, top :: rest, ?_, rfl, ?_⟩
  · rw [Outline.step, closeTo, hclosed]
  · rw [Outline.step, closeTo, hclosed]
    exact .opened hlt hle (.nil _) hsound

theorem Ready.foldl_step {stack : OpenChapters} (h : Ready stack) {es : List Entry}
    (hes : ∀ e ∈ es, 0 < e.level) : Ready (es.foldl Outline.step stack) := by
  induction es generalizing stack with
  | nil => exact h
  | cons e es ih =>
    exact ih (h.step (hes e (by simp))) fun d hd => hes d (by simp [hd])

/-! ## The forest -/

/-- Closing all chapters leaves the root, with everything that was recorded. -/
theorem Sound.closeAll {stack : OpenChapters} (h : Sound stack) :
    ∃ root, Outline.closeAll stack = some root ∧ Nested 0 root.children ∧
      recorded stack = entriesOf [root] := by
  cases stack with
  | nil => cases h
  | cons inner outers =>
    rw [Outline.closeAll]
    induction outers generalizing inner with
    | nil =>
      refine ⟨inner, rfl, ?_, by simp [recorded]⟩
      cases h; assumption
    | cons outer rest ih =>
      obtain ⟨root, hroot, hnested, hrecorded⟩ := ih _ h.close
      exact ⟨root, hroot, hnested, by rw [← hrecorded, recorded_close]⟩

section Forest

variable {es : List Entry} (hes : ∀ e ∈ es, 0 < e.level)

include hes

/-- The forest of some entries is the rest of a root that records them behind itself. -/
theorem forestOf_spec : entriesOf (forestOf es) = es ∧ Nested 0 (forestOf es) := by
  obtain ⟨_, _, _, _, hsound⟩ := ready_start.foldl_step hes
  obtain ⟨root, hroot, hnested, hrecorded⟩ := hsound.closeAll
  have hforest : forestOf es = root.children := by rw [forestOf, hroot]; rfl
  rw [recorded_foldl_step, recorded_start, entriesOf_singleton] at hrecorded
  exact ⟨hforest ▸ (List.cons.inj hrecorded).2.symm, hforest ▸ hnested⟩

/-- **No entry is lost, doubled or moved.** -/
theorem entriesOf_forestOf : entriesOf (forestOf es) = es := (forestOf_spec hes).1

/-- **The forest of entries is nested.** -/
theorem nested_forestOf : Nested 0 (forestOf es) := (forestOf_spec hes).2

end Forest

/-! ## The outline of a text -/

/-- An entry that was read is one level deep at least. -/
theorem Entry.level_pos_of_parse? {line : Text} {e : Entry} (h : Entry.parse? line = some e) :
    0 < e.level := by
  simp only [Entry.parse?, Option.bind_eq_bind, Option.bind_eq_some_iff] at h
  obtain ⟨_, _, _, _, ⟨_, _⟩, _, _, _, ⟨_, _⟩, _, h⟩ := h
  split at h
  · cases h
    simp [levelOf]
  · cases h

theorem level_pos_of_mem_entries {t : Text} {e : Entry} (h : e ∈ entries t) : 0 < e.level := by
  obtain ⟨_, _, hparse⟩ := List.mem_filterMap.mp h
  exact Entry.level_pos_of_parse? hparse

theorem entriesOf_parse (t : Text) : entriesOf (parse t) = entries t :=
  entriesOf_forestOf fun _ he => level_pos_of_mem_entries he

theorem nested_parse (t : Text) : Nested 0 (parse t) :=
  nested_forestOf fun _ he => level_pos_of_mem_entries he

/-- **The outline is what the levels say.**  Its chapters, one after another with all below them,
are the entries of the text in their order, and the parent of each is the last entry before it with
a smaller level; an entry without one is at the top. -/
theorem parse_follows_levels (t : Text) :
    ((parse t).flatMap Chapter.preorder).map Entry.ofChapter = entries t ∧
      ∀ before e after, entries t = before ++ e :: after →
        ∃ p, (parents (parse t))[before.length]? = some p ∧
          IsLastBelow (before.map Entry.level) e.level p := by
  have hentries := entriesOf_parse t
  refine ⟨by rw [flatMap_iter]; exact hentries, fun before e after hsplit => ?_⟩
  exact (nested_parse t).isLastBelow_parents (hentries.trans hsplit)

/-- An outline with a chapter below another one. -/
def smallOutline : Text := "- [Guide](guide.md)\n  - [Install](install.md)".toList

theorem parse_follows_levels_smallOutline :
    ∃ p, (parents (parse smallOutline))[1]? = some p ∧ IsLastBelow [1] 2 p := by
  have hentries : entries smallOutline =
      [⟨"Guide".toList, "guide.md".toList, 1⟩] ++
        ⟨"Install".toList, "install.md".toList, 2⟩ :: [] := by
    decide +kernel
  exact (parse_follows_levels smallOutline).2 _ _ _ hentries

end BookSite.Outline
