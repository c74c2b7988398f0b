import Mathlib.Data.List.Basic

/-!
# Proofs/Places — the places of a list

What a line of a page means depends on the lines above it.  So properties of lines are stated **at
each place**: of the line that stands there and of all lines before it.  When a list is made from
another one, its places come from the places of that one.
-/

namespace BookSite

variable {α β : Type} {P : List α → α → Prop}

/-- **At each place of a list**: a property of the elements before it and of the one that stands
there. -/
def AtEachPlace (P : List α → α → Prop) (xs : List α) : Prop :=
  ∀ before a behind, xs = before ++ a :: behind → P before a

theorem AtEachPlace.imp {Q : List α → α → Prop} {xs : List α} (h : AtEachPlace P xs)
    (hPQ : ∀ before a, P before a → Q before a) : AtEachPlace Q xs :=
  fun before a behind hxs => hPQ before a (h before a behind hxs)

theorem atEachPlace_congr {Q : List α → α → Prop} {xs : List α}
    (h : ∀ before a behind, xs = before ++ a :: behind → (P before a ↔ Q before a)) :
    AtEachPlace P xs ↔ AtEachPlace Q xs :=
  ⟨fun hP before a behind hxs => (h before a behind hxs).mp (hP before a behind hxs),
    fun hQ before a behind hxs => (h before a behind hxs).mpr (hQ before a behind hxs)⟩

theorem atEachPlace_and {Q : List α → α → Prop} {xs : List α} :
    AtEachPlace (fun before a => P before a ∧ Q before a) xs ↔
      AtEachPlace P xs ∧ AtEachPlace Q xs :=
  ⟨fun h => ⟨h.imp fun _ _ => And.left, h.imp fun _ _ => And.right⟩,
    fun h before a behind hxs => ⟨h.1 before a behind hxs, h.2 before a behind hxs⟩⟩

@[simp] theorem atEachPlace_nil : AtEachPlace P [] := by
  intro before a behind h
  simp at h

theorem forall_mem_iff_atEachPlace {Q : α → Prop} {xs : List α} :
    (∀ a ∈ xs, Q a) ↔ AtEachPlace (fun _ a => Q a) xs := by
  constructor
  · rintro h before a behind rfl
    exact h a (by simp)
  · intro h a ha
    obtain ⟨before, behind, hxs⟩ := List.append_of_mem ha
    exact h before a behind hxs

/-- **Two lists one after the other**: the first one stands before all places of the second. -/
theorem atEachPlace_append {xs ys : List α} :
    AtEachPlace P (xs ++ ys) ↔
      AtEachPlace P xs ∧ AtEachPlace (fun before => P (xs ++ before)) ys := by
  constructor
  · intro h
    refine ⟨fun before a behind hxs => ?_, fun before a behind hys => ?_⟩
    · exact h before a (behind ++ ys) (by rw [hxs, List.append_assoc, List.cons_append])
    · exact h (xs ++ before) a behind (by rw [hys, List.append_assoc])
  · rintro ⟨hxs, hys⟩ before a behind h
    obtain ⟨front, rfl, hfront⟩ | ⟨more, hmore, hrest⟩ := List.append_eq_append_iff.mp h
    · exact hys front a behind hfront
    · cases more with
      | nil =>
        rw [List.append_nil] at hmore
        rw [← hmore]
        simpa using hys [] a behind hrest.symm
      | cons b more =>
        obtain ⟨rfl, -⟩ := List.cons.inj hrest
        exact hxs before a more hmore

@[simp] theorem atEachPlace_singleton {a : α} : AtEachPlace P [a] ↔ P [] a := by
  constructor
  · exact fun h => h [] a [] rfl
  · intro h before b behind hb
    cases before with
    | nil => rwa [← (List.cons.inj hb).1]
    | cons c before => simp at hb

theorem atEachPlace_cons {a : α} {xs : List α} :
    AtEachPlace P (a :: xs) ↔ P [] a ∧ AtEachPlace (fun before => P (a :: before)) xs := by
  rw [← List.singleton_append, atEachPlace_append, atEachPlace_singleton]
  rfl

/-- **Lists put in place of elements**: each place lies in the list of one element, behind the lists
of those before it. -/
theorem atEachPlace_flatMap {f : β → List α} {xs : List β} :
    AtEachPlace P (xs.flatMap f) ↔
      AtEachPlace (fun before x => AtEachPlace (fun front => P (before.flatMap f ++ front)) (f x))
        xs := by
  induction xs generalizing P with
  | nil => simp
  | cons x xs ih =>
    rw [List.flatMap_cons, atEachPlace_append, atEachPlace_cons, ih]
    simp only [List.flatMap_nil, List.nil_append, List.flatMap_cons, List.append_assoc]

/-- **Each element is replaced on its own**: by a list that its place allows, and the lists follow
one another as the elements do.  The places are behind `before`. -/
inductive ReplacesEach (R : List α → α → List β → Prop) : List α → List α → List β → Prop
  | nil {before : List α} : ReplacesEach R before [] []
  | cons {before behind : List α} {a : α} {out more : List β} (h : R before a out)
    (hmore : ReplacesEach R (before ++ [a]) behind more) :
    ReplacesEach R before (a :: behind) (out ++ more)

end BookSite
