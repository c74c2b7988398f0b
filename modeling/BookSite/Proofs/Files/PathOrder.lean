import BookSite.Files.Path

/-!
# Proofs/Files/PathOrder — paths are in order

Components are compared by their sort and then as texts, and paths as lists of components.  Both are
lexicographic orders, so a list that is sorted by them is in order.
-/

namespace BookSite

/-- Texts are compared by the codes of their characters. -/
theorem compareTexts_eq (s t : Text) :
    compareTexts s t = compare (s.map Char.toNat) (t.map Char.toNat) := by
  induction s generalizing t with
  | nil => cases t <;> rfl
  | cons c s ih =>
    cases t with
    | nil => rfl
    | cons d t =>
      rw [compareTexts, ih, List.map_cons, List.map_cons, List.compare_cons_cons]

namespace Component

/-- The codes of the name of a component. -/
def codes : Component → List Nat
  | name n => n.map Char.toNat
  | _ => []

/-- **Components are compared** by their sort, and names further by their codes. -/
theorem cmp_eq : cmp = compareLex (compareOn rank) (compareOn codes) := by
  funext a b
  cases a <;> cases b <;> first | rfl | exact compareTexts_eq _ _

theorem cmpAll_eq (as bs : List Component) : cmpAll as bs = List.compareLex cmp as bs := by
  induction as generalizing bs with
  | nil => cases bs <;> rfl
  | cons a as ih =>
    cases bs with
    | nil => rfl
    | cons b bs =>
      rw [cmpAll, ih, List.compareLex_cons_cons]

instance : Std.TransCmp cmp := by
  rw [cmp_eq]
  infer_instance

end Component

namespace Path

theorem le_iff {p q : Path} :
    p.le q = true ↔ (List.compareLex Component.cmp p.components q.components).isLE := by
  rw [le, Component.cmpAll_eq]
  rcases List.compareLex Component.cmp p.components q.components <;> decide

theorem le_trans (p q r : Path) (hpq : p.le q = true) (hqr : q.le r = true) : p.le r = true :=
  le_iff.mpr (Std.TransCmp.isLE_trans (le_iff.mp hpq) (le_iff.mp hqr))

theorem le_total (p q : Path) : (p.le q || q.le p) = true := by
  have hswap : List.compareLex Component.cmp q.components p.components =
      (List.compareLex Component.cmp p.components q.components).swap := Std.OrientedCmp.eq_swap
  rw [Bool.or_eq_true, le_iff, le_iff, hswap]
  rcases List.compareLex Component.cmp p.components q.components <;> decide

/-- **Sorted paths** are in order. -/
theorem pairwise_mergeSort (paths : List Path) :
    (paths.mergeSort Path.le).Pairwise fun p q => p.le q = true :=
  List.pairwise_mergeSort le_trans le_total paths

end Path

end BookSite
