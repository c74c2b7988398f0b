import BookSite.Text.Basic

/-!
# Markdown/Runs — cutting a list into maximal runs

Quotes and images are edited a **run** at a time: a maximal stretch of consecutive lines of one
sort.  `runs p` cuts a list into its runs of elements that satisfy `p` and the single other ones.
-/

namespace BookSite

/-- A part of a list: a non-empty run, or one element outside all runs. -/
inductive Stretch (α : Type) where
  | run (first : α) (more : List α)
  | single (a : α)
  deriving DecidableEq, Repr

namespace Stretch

variable {α : Type}

/-- The elements of a part. -/
def elements : Stretch α → List α
  | run first more => first :: more
  | single a => [a]

/-- Put an element before the parts of a list, into the first run if it belongs there. -/
def cons (p : α → Bool) (a : α) (parts : List (Stretch α)) : List (Stretch α) :=
  if p a then
    match parts with
    | run first more :: rest => run a (first :: more) :: rest
    | parts => run a [] :: parts
  else single a :: parts

end Stretch

variable {α : Type}

/-- **The runs of a list**, with the elements between them. -/
def runs (p : α → Bool) : List α → List (Stretch α)
  | [] => []
  | a :: rest => Stretch.cons p a (runs p rest)

theorem Stretch.flatMap_elements_cons (p : α → Bool) (a : α) (parts : List (Stretch α)) :
    (Stretch.cons p a parts).flatMap elements = a :: parts.flatMap elements := by
  unfold Stretch.cons
  split
  · split <;> simp [elements]
  · simp [elements]

/-- Nothing is lost, doubled or moved. -/
@[simp] theorem flatMap_elements_runs (p : α → Bool) (xs : List α) :
    (runs p xs).flatMap Stretch.elements = xs := by
  induction xs with
  | nil => rfl
  | cons a rest ih => rw [runs, Stretch.flatMap_elements_cons, ih]

end BookSite
