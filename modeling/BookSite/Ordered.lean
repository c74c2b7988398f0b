import BookSite.Text.Basic

/-!
# Ordered — fields in the order of their first appearance

Objects and tables of packages are lists of named values.  Giving a name a value replaces the value
in place when the name is there and adds it at the end when it is not, so the names keep the order
in which they first came.
-/

namespace BookSite.Ordered

variable {α : Type}

/-- **Give a name a value.** -/
def put (name : Text) (value : α) : List (Text × α) → List (Text × α)
  | [] => [(name, value)]
  | (n, old) :: rest => if n = name then (n, value) :: rest else (n, old) :: put name value rest

/-- Give several names their values, one after another. -/
def putAll (fields more : List (Text × α)) : List (Text × α) :=
  more.foldl (fun acc (name, value) => put name value acc) fields

/-- The names in their order. -/
def names (fields : List (Text × α)) : List Text := fields.map Prod.fst

theorem lookup_put_self (name : Text) (value : α) (fields : List (Text × α)) :
    (put name value fields).lookup name = some value := by
  induction fields with
  | nil => simp [put]
  | cons f rest ih =>
    obtain ⟨n, old⟩ := f
    by_cases h : n = name
    · simp [put, h]
    · have h' : (name == n) = false := by simpa using fun e => h e.symm
      simp [put, h, List.lookup_cons, h', ih]

theorem lookup_put_of_ne {name other : Text} (h : other ≠ name) (value : α)
    (fields : List (Text × α)) : (put name value fields).lookup other = fields.lookup other := by
  induction fields with
  | nil =>
    have h' : (other == name) = false := by simpa using h
    simp [put, List.lookup_cons, h']
  | cons f rest ih =>
    obtain ⟨n, old⟩ := f
    by_cases hn : n = name
    · subst hn
      have h' : (other == n) = false := by simpa using h
      simp [put, List.lookup_cons, h']
    · simp [put, hn, List.lookup_cons, ih]

end BookSite.Ordered
