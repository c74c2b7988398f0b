import BookSite.Outline.Forest
import BookSite.Proofs.Trees

/-!
# Proofs/Outline/Nesting — forests nested by their levels

Chapters are **nested** when the levels say so: a child is deeper than its parent and no sibling is
deeper than the one before it.  A nested forest is determined by its entries alone
(`Nested.eq_of_entriesOf_eq`), and the parent of each chapter is the last one before it that is less
deep (`Nested.isLastBelow_parents`).
-/

namespace BookSite.Outline

open Branching

@[simp] theorem branching_children (c : Chapter) : Branching.children c = c.children := rfl

/-- What a chapter says about itself. -/
def Entry.ofChapter (c : Chapter) : Entry := ⟨c.title, c.link, c.level⟩

/-- What the chapters of a forest say about themselves, each before the ones below it. -/
def entriesOf (cs : List Chapter) : List Entry := (walk cs).map Entry.ofChapter

@[simp] theorem entriesOf_nil : entriesOf [] = [] := by simp [entriesOf]

@[simp] theorem entriesOf_append (cs ds : List Chapter) :
    entriesOf (cs ++ ds) = entriesOf cs ++ entriesOf ds := by simp [entriesOf]

theorem entriesOf_cons (c : Chapter) (rest : List Chapter) :
    entriesOf (c :: rest) = .ofChapter c :: (entriesOf c.children ++ entriesOf rest) := by
  simp [entriesOf, walk_cons]

theorem length_entriesOf (cs : List Chapter) : (entriesOf cs).length = total cs := by
  simp [entriesOf]

@[simp] theorem level_ofChapter (c : Chapter) : (Entry.ofChapter c).level = c.level := rfl

/-! ## Nested forests -/

/-- **Chapters nested by their levels**, all deeper than `above`. -/
inductive Nested : Nat → List Chapter → Prop
  | nil (above : Nat) : Nested above []
  | cons {above : Nat} {c : Chapter} {rest : List Chapter} :
      above < c.level → (∀ d ∈ rest, d.level ≤ c.level) →
        Nested c.level c.children → Nested above rest → Nested above (c :: rest)

namespace Nested

/-- All chapters of a nested forest are deeper than what it is nested in. -/
theorem lt_level {above : Nat} {cs : List Chapter} (h : Nested above cs) :
    ∀ e ∈ entriesOf cs, above < e.level := by
  induction h with
  | nil => simp
  | @cons above c rest hlt hle _ _ ihc ihr =>
    intro e he
    rw [entriesOf_cons, List.mem_cons, List.mem_append] at he
    rcases he with rfl | he | he
    · exact hlt
    · exact Nat.lt_trans hlt (ihc e he)
    · exact ihr e he

theorem level_lt_of_mem {above : Nat} {cs : List Chapter} (h : Nested above cs) {c : Chapter}
    (hc : c ∈ cs) : above < c.level := by
  induction h with
  | nil => simp at hc
  | cons hlt _ _ _ _ ihr =>
    rcases List.mem_cons.mp hc with rfl | hc
    · exact hlt
    · exact ihr hc

/-- The first chapter behind another one of a nested forest, and not below it, is not deeper. -/
theorem head_level_le {above : Nat} {c : Chapter} {rest : List Chapter}
    (h : Nested above (c :: rest)) :
    ∀ e, (entriesOf rest).head? = some e → e.level ≤ c.level := by
  cases h with
  | cons _ hle _ _ =>
    cases rest with
    | nil => simp
    | cons d rest =>
      intro e he
      rw [entriesOf_cons, List.head?_cons, Option.some.injEq] at he
      exact he ▸ hle d (by simp)

/-- One more chapter behind the others. -/
theorem concat_iff {above : Nat} {cs : List Chapter} {c : Chapter} :
    Nested above (cs ++ [c]) ↔
      Nested above cs ∧ above < c.level ∧ (∀ d ∈ cs, c.level ≤ d.level) ∧
        Nested c.level c.children := by
  induction cs with
  | nil =>
    constructor
    · rintro (_ | ⟨hlt, -, hc, -⟩)
      exact ⟨.nil _, hlt, by simp, hc⟩
    · rintro ⟨-, hlt, -, hc⟩
      exact .cons hlt (by simp) hc (.nil _)
  | cons b cs ih =>
    constructor
    · rintro (_ | ⟨hlt, hle, hb, hcs⟩)
      obtain ⟨hcs, hc, hle', hcc⟩ := ih.mp hcs
      refine ⟨.cons hlt (fun d hd => hle d (by simp [hd])) hb hcs, hc, ?_, hcc⟩
      rintro d (_ | ⟨_, hd⟩)
      · exact hle c (by simp)
      · exact hle' d hd
    · rintro ⟨_ | ⟨hlt, hle, hb, hcs⟩, hc, hle', hcc⟩
      refine .cons hlt ?_ hb (ih.mpr ⟨hcs, hc, fun d hd => hle' d (by simp [hd]), hcc⟩)
      intro d hd
      rcases List.mem_append.mp hd with hd | hd
      · exact hle d hd
      · exact List.mem_singleton.mp hd ▸ hle' b (by simp)

end Nested

/-! ## The entries determine the forest

What is below a chapter is the longest stretch of deeper entries behind it: the stretch ends with
the forest or at a sibling, which is not deeper. -/

/-- The deeper entries behind a chapter are those below it. -/
theorem Nested.takeWhile_deeper {above : Nat} {c : Chapter} {rest : List Chapter}
    (h : Nested above (c :: rest)) :
    (entriesOf c.children ++ entriesOf rest).takeWhile (c.level < ·.level) =
      entriesOf c.children := by
  have hhead := h.head_level_le
  cases h with
  | cons _ _ hc _ =>
    rw [List.takeWhile_append_of_pos fun e he => by simpa using hc.lt_level e he]
    cases hrest : entriesOf rest with
    | nil => simp
    | cons e es =>
      have : e.level ≤ c.level := hhead e (by rw [hrest]; rfl)
      simp [Nat.not_lt.mpr this]

/-- **A nested forest is determined by its entries.** -/
theorem Nested.eq_of_entriesOf_eq {above : Nat} {cs ds : List Chapter} (hcs : Nested above cs)
    (hds : Nested above ds) (h : entriesOf cs = entriesOf ds) : cs = ds := by
  induction hcs generalizing ds with
  | nil =>
    cases ds with
    | nil => rfl
    | cons d ds => simp [entriesOf_cons] at h
  | @cons above c rest hlt hle hc hrest ihc ihr =>
    cases ds with
    | nil => simp [entriesOf_cons] at h
    | cons d ds =>
      rw [entriesOf_cons, entriesOf_cons, List.cons.injEq] at h
      obtain ⟨hhead, htail⟩ := h
      have hlevel : c.level = d.level := congrArg Entry.level hhead
      have hbelow : entriesOf c.children = entriesOf d.children := by
        rw [← (Nested.cons hlt hle hc hrest).takeWhile_deeper, ← hds.takeWhile_deeper, htail,
          hlevel]
      have hbehind : entriesOf rest = entriesOf ds := by
        rw [hbelow] at htail
        exact List.append_cancel_left htail
      cases hds with
      | cons _ _ hd hds =>
        have hchildren := ihc (hlevel ▸ hd) hbelow
        have hneighbours := ihr hds hbehind
        obtain ⟨title, link, level, children⟩ := c
        obtain ⟨title', link', level', children'⟩ := d
        obtain ⟨rfl, rfl, rfl⟩ : title = title' ∧ link = link' ∧ level = level' := by
          simpa [Entry.ofChapter, Chapter.title, Chapter.link, Chapter.level] using hhead
        obtain rfl : children = children' := hchildren
        rw [hneighbours]

/-! ## The levels determine the parents

Between a chapter and its parent stand the siblings before it with what is below them, and none of
these is less deep than the chapter. -/

/-- **The place of the last of several levels** that is less than `level`; nothing if none is. -/
def IsLastBelow (earlier : List Nat) (level : Nat) : Option Nat → Prop
  | none => ∀ m ∈ earlier, level ≤ m
  | some p => ∃ before m after, earlier = before ++ m :: after ∧ before.length = p ∧
      m < level ∧ ∀ k ∈ after, level ≤ k

/-- Levels that are not less change nothing. -/
theorem IsLastBelow.append {earlier : List Nat} {level : Nat} {p : Option Nat}
    (h : IsLastBelow earlier level p) {more : List Nat} (hmore : ∀ k ∈ more, level ≤ k) :
    IsLastBelow (earlier ++ more) level p := by
  cases p with
  | none =>
    intro m hm
    exact (List.mem_append.mp hm).elim (h m) (hmore m)
  | some p =>
    obtain ⟨before, m, after, rfl, hp, hm, hafter⟩ := h
    refine ⟨before, m, after ++ more, by simp, hp, hm, fun k hk => ?_⟩
    exact (List.mem_append.mp hk).elim (hafter k) (hmore k)

/-- A level right behind the others is their last one below any greater level. -/
theorem IsLastBelow.concat (earlier : List Nat) {m level : Nat} (h : m < level) :
    IsLastBelow (earlier ++ [m]) level (some earlier.length) :=
  ⟨earlier, m, [], rfl, rfl, h, by simp⟩

/-- Where an element stands in two lists, one behind the other. -/
theorem mem_split_append {α : Type} {xs ys before after : List α} {e : α}
    (h : xs ++ ys = before ++ e :: after) :
    (∃ between, xs = before ++ e :: between) ∨
      ∃ between, before = xs ++ between ∧ ys = between ++ e :: after := by
  rcases List.append_eq_append_iff.mp h with ⟨between, rfl, rfl⟩ | ⟨between, rfl, hbetween⟩
  · exact .inr ⟨between, rfl, rfl⟩
  · cases between with
    | nil => exact .inr ⟨[], by simp, by simpa using hbetween.symm⟩
    | cons d between =>
      obtain ⟨rfl, -⟩ : e = d ∧ after = between ++ ys := by simpa using hbetween
      exact .inl ⟨between, rfl⟩

/-- The parents of chapters that stand behind `earlier` ones. -/
theorem Nested.isLastBelow_parentsFrom {floor : Nat} {cs : List Chapter} (h : Nested floor cs)
    (earlier : List Nat) (above : Option Nat)
    (habove : ∀ c ∈ cs, IsLastBelow earlier c.level above)
    {before after : List Entry} {e : Entry} (hsplit : entriesOf cs = before ++ e :: after) :
    ∃ p, (parentsFrom above earlier.length cs)[before.length]? = some p ∧
      IsLastBelow (earlier ++ before.map Entry.level) e.level p := by
  induction h generalizing earlier above before after with
  | nil => simp at hsplit
  | @cons floor c rest hlt hle hc hrest ihc ihr =>
    rw [entriesOf_cons] at hsplit
    rw [parentsFrom_cons, branching_children]
    cases before with
    | nil =>
      obtain ⟨rfl, -⟩ : Entry.ofChapter c = e ∧ _ := by simpa using hsplit
      exact ⟨above, by simp, by simpa using habove c (by simp)⟩
    | cons b before =>
      obtain ⟨rfl, hbehind⟩ := List.cons.inj hsplit
      rcases mem_split_append hbehind with ⟨between, hbelow⟩ | ⟨between, rfl, hneighbour⟩
      · -- a chapter below the first one
        obtain ⟨p, hp, hlast⟩ := ihc (earlier ++ [c.level]) (some earlier.length)
          (fun d hd => .concat earlier (hc.level_lt_of_mem hd)) hbelow
        rw [List.length_append, List.length_singleton] at hp
        have hlength := (List.getElem?_eq_some_iff.mp hp).1
        refine ⟨p, ?_, by simpa using hlast⟩
        rw [List.length_cons, List.getElem?_cons_succ, List.getElem?_append_left hlength]
        exact hp
      · -- a chapter below a neighbour
        let below := c.level :: (entriesOf c.children).map Entry.level
        have hdeep : ∀ k ∈ below, c.level ≤ k := by
          intro k hk
          rcases List.mem_cons.mp hk with rfl | hk
          · exact Nat.le_refl _
          · obtain ⟨d, hd, rfl⟩ := List.mem_map.mp hk
            exact Nat.le_of_lt (hc.lt_level d hd)
        have hsize : below.length = size c := by
          simp only [below, List.length_cons, List.length_map, length_entriesOf]
          exact (size_eq_total c).symm
        obtain ⟨p, hp, hlast⟩ := ihr (earlier ++ below) above
          (fun d hd => (habove d (by simp [hd])).append
            fun k hk => Nat.le_trans (hle d hd) (hdeep k hk)) hneighbour
        rw [List.length_append, hsize] at hp
        refine ⟨p, ?_, by simpa [below] using hlast⟩
        rw [List.length_cons, List.getElem?_cons_succ, List.length_append, length_entriesOf,
          List.getElem?_append_right (by simp)]
        simpa using hp

/-- **The parent of a chapter** is the last one before it that is less deep. -/
theorem Nested.isLastBelow_parents {floor : Nat} {cs : List Chapter} (h : Nested floor cs)
    {before after : List Entry} {e : Entry} (hsplit : entriesOf cs = before ++ e :: after) :
    ∃ p, (parents cs)[before.length]? = some p ∧
      IsLastBelow (before.map Entry.level) e.level p := by
  have := h.isLastBelow_parentsFrom [] none (fun _ _ => by simp [IsLastBelow]) hsplit
  simpa [parents] using this

end BookSite.Outline
