/-!
# Walk — going through trees with a stack

Chapters and items of a sidebar are **trees**: each holds smaller ones, its children.  A walk keeps
a stack of the trees it has still to go through, the next one first.  It takes one off and puts its
children in its place, so every tree comes before its children and these before its neighbours.
-/

namespace BookSite

/-- A type of trees, with the number of trees on a stack, at all depths. -/
class Branching (α : Type) where
  children : α → List α
  total : List α → Nat
  total_nil : total [] = 0
  total_push (t : α) (rest : List α) : total (t :: rest) = total (children t) + 1 + total rest

namespace Branching

variable {α : Type} [Branching α]

attribute [simp] total_nil

/-- The number of trees that a tree is made of. -/
def size (t : α) : Nat := total (children t) + 1

@[simp] theorem total_cons (t : α) (rest : List α) : total (t :: rest) = size t + total rest :=
  total_push t rest

@[simp] theorem total_append (xs ys : List α) : total (xs ++ ys) = total xs + total ys := by
  induction xs with
  | nil => simp
  | cons t rest ih =>
    rw [List.cons_append, total_cons, total_cons, ih, Nat.add_assoc]

theorem size_eq_total (t : α) : size t = total (children t) + 1 := rfl

/-- One step: the tree on top of the stack, and the stack that is left. -/
def next? : List α → Option (α × List α)
  | [] => none
  | t :: rest => some (t, children t ++ rest)

theorem total_lt_of_next? {stack rest : List α} {t : α} (h : next? stack = some (t, rest)) :
    total rest < total stack := by
  cases stack with
  | nil => simp [next?] at h
  | cons u us =>
    obtain ⟨rfl, rfl⟩ : u = t ∧ children u ++ us = rest := by simpa [next?] using h
    have := size_eq_total u
    simp only [total_append, total_cons]
    omega

/-- **All trees of a stack**, in the order the steps take them off. -/
def walk (stack : List α) : List α :=
  match _h : next? stack with
  | none => []
  | some (t, rest) => t :: walk rest
termination_by total stack
decreasing_by exact total_lt_of_next? _h

/-- A tree and all below it. -/
def iter (t : α) : List α := walk [t]

end Branching

end BookSite
