import BookSite.Walk

/-!
# Proofs/Trees — what a walk meets, and where

A walk meets a tree, then what is below it, then its neighbours (`walk_cons`), and never anything
twice.  So a tree has a **place**, the number of trees met before it, and `parents` lists for every
place the place of the parent.
-/

namespace BookSite.Branching

variable {α : Type} [Branching α]

/-! ## Induction

The children of the first tree are one smaller list of trees and its neighbours another one. -/

/-- **Induction over trees**: through the children of the first tree, then its neighbours. -/
@[elab_as_elim]
theorem trees_induction {P : List α → Prop} (nil : P [])
    (cons : ∀ t rest, P (children t) → P rest → P (t :: rest)) (ts : List α) : P ts := by
  induction h : total ts using Nat.strongRecOn generalizing ts with
  | ind n ih =>
    cases ts with
    | nil => exact nil
    | cons t rest =>
      have hsize := size_eq_total t
      rw [total_cons] at h
      exact cons t rest (ih (total (children t)) (by omega) _ rfl)
        (ih (total rest) (by omega) _ rfl)

/-! ## The walk -/

@[simp] theorem walk_nil : walk ([] : List α) = [] := by
  rw [walk]
  rfl

theorem walk_cons_eq_push (t : α) (rest : List α) :
    walk (t :: rest) = t :: walk (children t ++ rest) := by
  rw [walk]
  rfl

/-- **A walk over two stacks** goes through the first and then through the second. -/
@[simp] theorem walk_append (xs ys : List α) : walk (xs ++ ys) = walk xs ++ walk ys := by
  induction xs using trees_induction generalizing ys with
  | nil => simp
  | cons t rest ihc ihr =>
    calc walk (t :: rest ++ ys)
        = t :: walk (children t ++ (rest ++ ys)) := walk_cons_eq_push t (rest ++ ys)
      _ = t :: (walk (children t) ++ (walk rest ++ walk ys)) := by rw [ihc, ihr]
      _ = walk (t :: rest) ++ walk ys := by rw [walk_cons_eq_push, ihc]; simp

/-- **A tree, all below it, and then its neighbours.** -/
theorem walk_cons (t : α) (rest : List α) :
    walk (t :: rest) = t :: (walk (children t) ++ walk rest) := by
  rw [walk_cons_eq_push, walk_append]

/-- One tree after another is one walk over all of them. -/
@[simp] theorem flatMap_iter (ts : List α) : ts.flatMap iter = walk ts := by
  induction ts with
  | nil => simp
  | cons t rest ih => rw [List.flatMap_cons, ih, iter, ← walk_append]; rfl

@[simp] theorem length_walk (ts : List α) : (walk ts).length = total ts := by
  induction ts using trees_induction with
  | nil => simp
  | cons t rest ihc ihr =>
    rw [walk_cons, List.length_cons, List.length_append, ihc, ihr, total_cons, size_eq_total]
    omega

/-! ## Places -/

/-- The place of the parent for each of the trees a walk meets from place `next` on; `above` is the
parent of the first of them and of its neighbours. -/
def parentsFrom (above : Option Nat) (next : Nat) : List α → List (Option Nat)
  | [] => []
  | t :: rest =>
    above :: (parentsFrom (some next) (next + 1) (children t) ++
      parentsFrom above (next + size t) rest)
termination_by ts => total ts
decreasing_by
  · rw [total_cons, size_eq_total]
    omega
  · rw [total_cons, size_eq_total]
    omega

/-- **The place of the parent** of each tree, in the order of a walk; a tree on the stack itself has
no parent. -/
def parents (ts : List α) : List (Option Nat) := parentsFrom none 0 ts

@[simp] theorem parentsFrom_nil (above : Option Nat) (next : Nat) :
    parentsFrom above next ([] : List α) = [] := by rw [parentsFrom]

theorem parentsFrom_cons (above : Option Nat) (next : Nat) (t : α) (rest : List α) :
    parentsFrom above next (t :: rest) =
      above :: (parentsFrom (some next) (next + 1) (children t) ++
        parentsFrom above (next + size t) rest) := by rw [parentsFrom]

@[simp] theorem length_parentsFrom (above : Option Nat) (next : Nat) (ts : List α) :
    (parentsFrom above next ts).length = total ts := by
  induction ts using trees_induction generalizing above next with
  | nil => simp
  | cons t rest ihc ihr =>
    rw [parentsFrom_cons, List.length_cons, List.length_append, ihc, ihr, total_cons,
      size_eq_total]
    omega

/-! ## Trees of another type

A function that keeps the children where they are keeps the walk and all places. -/

section Map

variable {β : Type} [Branching β] {f : α → β} (hf : ∀ t, children (f t) = (children t).map f)

include hf

theorem total_map (ts : List α) : total (ts.map f) = total ts := by
  induction ts using trees_induction with
  | nil => rw [List.map_nil, total_nil, total_nil]
  | cons t rest ihc ihr =>
    rw [List.map_cons, total_cons, total_cons, size_eq_total, size_eq_total t, hf, ihc, ihr]

theorem walk_map (ts : List α) : walk (ts.map f) = (walk ts).map f := by
  induction ts using trees_induction with
  | nil => simp
  | cons t rest ihc ihr => simp [walk_cons, hf, ihc, ihr]

theorem parentsFrom_map (above : Option Nat) (next : Nat) (ts : List α) :
    parentsFrom above next (ts.map f) = parentsFrom above next ts := by
  induction ts using trees_induction generalizing above next with
  | nil => simp
  | cons t rest ihc ihr =>
    have hsize : size (f t) = size t := by
      rw [size_eq_total, size_eq_total t, hf, total_map hf]
    rw [List.map_cons, parentsFrom_cons, parentsFrom_cons, hf, ihc, hsize, ihr]

theorem parents_map (ts : List α) : parents (ts.map f) = parents ts := parentsFrom_map hf none 0 ts

end Map

end BookSite.Branching
