import BookSite.Proofs.Files.Place

/-!
# Proofs/Files/Descent — paths that stay below a place

Without `..` a path leads down its names (`placeFrom_of_up_not_mem`).  A path that climbs no higher
than some place can be followed below that place alone (`descend?`), and where it leaves a directory
of that place the name of that directory does not matter (`descend?_cons_of_ne`).
-/

namespace BookSite

/-- **The place that a path leads to** from a directory, by its spelling. -/
def resolveFrom (dir : List Text) (path : Path) : List Text :=
  placeFrom (if path.isAbsolute then [] else dir) path.segments

/-! ## Going down only -/

/-- The names along segments without `..`. -/
def namesAlong (segments : List Text) : List Text :=
  segments.filter fun segment => !(segment.isEmpty || segment == ['.'])

theorem namesAlong_cons (segment : Text) (rest : List Text) :
    namesAlong (segment :: rest) =
      if segment.isEmpty || segment == ['.'] then namesAlong rest
      else segment :: namesAlong rest := by
  rw [namesAlong, List.filter_cons]
  cases segment.isEmpty || segment == ['.'] <;> rfl

/-- **Without `..`** segments lead down their names. -/
theorem placeFrom_of_up_not_mem {segments : List Text} (h : ['.', '.'] ∉ segments)
    (place : List Text) : placeFrom place segments = place ++ namesAlong segments := by
  induction segments generalizing place with
  | nil => rw [placeFrom_nil, namesAlong, List.filter_nil, List.append_nil]
  | cons segment rest ih =>
    rw [List.mem_cons, not_or] at h
    have hup : (segment == ['.', '.']) = false := beq_false_of_ne (Ne.symm h.1)
    rw [placeFrom_cons, ih h.2, stepTo, hup, namesAlong_cons]
    split
    · rfl
    · rw [if_neg (by simp), List.append_assoc, List.singleton_append]

theorem filterMap_component? {segments : List Text} (h : ['.', '.'] ∉ segments) :
    segments.filterMap Path.component? = (namesAlong segments).map Component.name := by
  induction segments with
  | nil => rfl
  | cons segment rest ih =>
    rw [List.mem_cons, not_or] at h
    have hup : (segment == ['.', '.']) = false := beq_false_of_ne (Ne.symm h.1)
    rw [List.filterMap_cons, Path.component?, hup, ih h.2, namesAlong_cons]
    cases segment.isEmpty || segment == ['.'] <;> rfl

/-- The name of a path without `..` is the last of the names along it. -/
theorem Path.namesAlong_of_fileName? {p : Path} {name : Text} (h : ['.', '.'] ∉ p.segments)
    (hname : p.fileName? = some name) : ∃ front, namesAlong p.segments = front ++ [name] := by
  have hlast : p.components.getLast? = some (.name name) := by
    unfold fileName? at hname
    split at hname
    · rename_i n hlast
      cases hname
      exact hlast
    · cases hname
  -- What stands in front of the names is no name, so the last component comes from them.
  have hcomponents : ∃ first : List Component, (∀ c ∈ first, ∀ n, c ≠ .name n) ∧
      p.components = first ++ (namesAlong p.segments).map Component.name := by
    unfold components
    split
    · exact ⟨[.root], by simp, by rw [filterMap_component? h]; rfl⟩
    · rename_i segments _ hsplit
      rw [hsplit, List.mem_cons, not_or] at h
      refine ⟨[.here], by simp, ?_⟩
      rw [filterMap_component? h.2, hsplit, namesAlong_cons]
      rfl
    · exact ⟨[], by simp, by rw [filterMap_component? h]; rfl⟩
  obtain ⟨first, hfirst, hsplit⟩ := hcomponents
  rw [hsplit] at hlast
  rcases List.eq_nil_or_concat (namesAlong p.segments) with hnil | ⟨front, last, hconcat⟩
  · rw [hnil, List.map_nil, List.append_nil] at hlast
    exact absurd rfl (hfirst _ (List.mem_of_getLast? hlast) name)
  · rw [hconcat, List.concat_eq_append, List.map_append, ← List.append_assoc, List.map_singleton,
      List.getLast?_concat] at hlast
    cases hlast
    exact ⟨front, by rw [hconcat, List.concat_eq_append]⟩

/-! ## Paths that climb no higher -/

/-- **Follow segments below a place**: nothing if they lead above it. -/
def descend? (below : List Text) : List Text → Option (List Text)
  | [] => some below
  | segment :: rest =>
    if segment.isEmpty || segment == ['.'] then descend? below rest
    else if segment == ['.', '.'] then
      if below = [] then none else descend? below.dropLast rest
    else descend? (below ++ [segment]) rest

/-- What stands above does not matter to a path that stays below. -/
theorem placeFrom_of_descend? {below segments found : List Text}
    (h : descend? below segments = some found) (above : List Text) :
    placeFrom (above ++ below) segments = above ++ found := by
  induction segments generalizing below with
  | nil =>
    cases h
    rfl
  | cons segment rest ih =>
    rw [descend?] at h
    rw [placeFrom_cons, stepTo]
    split at h
    · rename_i hskip
      rw [if_pos hskip]
      exact ih h
    · rename_i hskip
      rw [if_neg hskip]
      split at h
      · rename_i hup
        rw [if_pos hup]
        split at h
        · cases h
        · rename_i hne
          rw [List.dropLast_append_of_ne_nil hne]
          exact ih h
      · rename_i hup
        rw [if_neg hup, List.append_assoc]
        exact ih h

/-- **A path that leaves a directory** leads to the same place from any other directory. -/
theorem descend?_cons_of_ne {first other : Text} {below segments : List Text} {name : Text}
    {more : List Text} (h : descend? (first :: below) segments = some (name :: more))
    (hne : first ≠ name) : descend? (other :: below) segments = some (name :: more) := by
  induction segments generalizing below with
  | nil =>
    cases h
    exact absurd rfl hne
  | cons segment rest ih =>
    rw [descend?] at h ⊢
    split at h
    · rename_i hskip
      rw [if_pos hskip]
      exact ih h
    · rename_i hskip
      rw [if_neg hskip]
      split at h
      · rename_i hup
        rw [if_pos hup, if_neg (by simp)]
        rw [if_neg (by simp)] at h
        cases below with
        | nil => exact h
        | cons second below => exact ih h
      · rename_i hup
        rw [if_neg hup]
        exact ih h

end BookSite
