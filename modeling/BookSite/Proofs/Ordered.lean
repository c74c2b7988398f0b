import BookSite.Ordered
import Mathlib.Data.List.Nodup

/-!
# Proofs/Ordered — fields told by their names

A list of fields is read by name.  Giving a name a value keeps the names that are there, in their
order (`names_put_of_mem`), and a new name comes behind them (`put_of_not_mem`).  So of several
values given, the first one of a name decides where it stands (`names_putAll`) and the last one what
it holds (`lookup_putAll`).
-/

namespace BookSite.Ordered

variable {α : Type} {name : Text} {value : α} {fields : List (Text × α)}

@[simp] theorem names_nil : names ([] : List (Text × α)) = [] := rfl

@[simp] theorem names_cons (name : Text) (value : α) (fields : List (Text × α)) :
    names ((name, value) :: fields) = name :: names fields := rfl

@[simp] theorem names_append (fields more : List (Text × α)) :
    names (fields ++ more) = names fields ++ names more := List.map_append

/-! ## Reading a field -/

theorem lookup_eq_none_iff : fields.lookup name = none ↔ name ∉ names fields := by
  rw [List.lookup_eq_none_iff, names, List.mem_map]
  constructor
  · rintro h ⟨field, hfield, rfl⟩
    simpa using h field hfield
  · rintro h field hfield
    rw [bne_iff_ne]
    rintro rfl
    exact h ⟨field, hfield, rfl⟩

/-- **A field is read by its name** where no other one has that name. -/
theorem lookup_of_mem (hnodup : (names fields).Nodup) (h : (name, value) ∈ fields) :
    fields.lookup name = some value := by
  obtain ⟨before, behind, rfl⟩ := List.append_of_mem h
  rw [names_append, names_cons, List.nodup_middle, List.nodup_cons, List.mem_append, not_or]
    at hnodup
  rw [List.lookup_append, lookup_eq_none_iff.mpr hnodup.1.1, List.lookup_cons, beq_self_eq_true]
  rfl

theorem mem_of_lookup (h : fields.lookup name = some value) : (name, value) ∈ fields := by
  obtain ⟨before, behind, rfl, -⟩ := List.lookup_eq_some_iff.mp h
  exact List.mem_append_right before List.mem_cons_self

/-- **Fields are told by their names and by what each name holds.** -/
theorem eq_of_lookup {fields' : List (Text × α)} (hnames : names fields = names fields')
    (hnodup : (names fields).Nodup) (h : ∀ name, fields.lookup name = fields'.lookup name) :
    fields = fields' := by
  induction fields generalizing fields' with
  | nil => exact (List.map_eq_nil_iff.mp hnames.symm).symm
  | cons field rest ih =>
    obtain ⟨name, value⟩ := field
    obtain ⟨⟨name', value'⟩, rest', rfl, rfl, hrest⟩ := List.map_eq_cons_iff.mp hnames.symm
    obtain ⟨hnew, hnodup⟩ := List.nodup_cons.mp hnodup
    have hvalue := h name'
    rw [List.lookup_cons, List.lookup_cons, beq_self_eq_true] at hvalue
    have hlater : rest = rest' := by
      refine ih hrest.symm hnodup fun n => ?_
      by_cases hn : n = name'
      · have hnew' : name' ∉ names rest' := by rwa [names, hrest]
        rw [hn, lookup_eq_none_iff.mpr hnew, lookup_eq_none_iff.mpr hnew']
      · have hsame := h n
        rwa [List.lookup_cons, List.lookup_cons, beq_false_of_ne hn] at hsame
    rw [Option.some.inj hvalue, hlater]

/-! ## Giving a name a value -/

theorem names_put_of_mem (h : name ∈ names fields) :
    names (put name value fields) = names fields := by
  induction fields with
  | nil => cases h
  | cons field fields ih =>
    obtain ⟨n, old⟩ := field
    rw [put]
    split
    · rfl
    · rename_i hne
      rw [names_cons, names_cons, ih ((List.mem_cons.mp h).resolve_left (Ne.symm hne))]

theorem put_of_not_mem (h : name ∉ names fields) :
    put name value fields = fields ++ [(name, value)] := by
  induction fields with
  | nil => rfl
  | cons field fields ih =>
    obtain ⟨n, old⟩ := field
    rw [names_cons, List.mem_cons, not_or] at h
    rw [put, if_neg (Ne.symm h.1), ih h.2, List.cons_append]

/-- Giving a name the value it has changes nothing. -/
theorem put_eq_self (h : fields.lookup name = some value) : put name value fields = fields := by
  induction fields with
  | nil => cases h
  | cons field fields ih =>
    obtain ⟨n, old⟩ := field
    rw [put]
    split
    · rename_i heq
      rw [heq, List.lookup_cons, beq_self_eq_true] at h
      rw [Option.some.inj h]
    · rename_i hne
      rw [List.lookup_cons, beq_false_of_ne (Ne.symm hne)] at h
      rw [ih h]

theorem mem_names_put {other : Text} :
    other ∈ names (put name value fields) ↔ other = name ∨ other ∈ names fields := by
  by_cases hname : name ∈ names fields
  · rw [names_put_of_mem hname]
    exact ⟨.inr, fun h => h.elim (fun heq => heq ▸ hname) id⟩
  · rw [put_of_not_mem hname, names_append, List.mem_append, or_comm]
    simp

theorem nodup_names_put (h : (names fields).Nodup) : (names (put name value fields)).Nodup := by
  by_cases hname : name ∈ names fields
  · rwa [names_put_of_mem hname]
  · rw [put_of_not_mem hname, names_append]
    refine List.nodup_append.mpr ⟨h, List.nodup_singleton name, fun n hn m hm heq => ?_⟩
    obtain rfl : m = name := List.mem_singleton.mp hm
    exact hname (heq ▸ hn)

/-- Of two values given to a name the second one stays. -/
theorem put_put_self (old : α) : put name value (put name old fields) = put name value fields := by
  induction fields with
  | nil => simp [put]
  | cons field fields ih =>
    obtain ⟨n, held⟩ := field
    by_cases hn : n = name
    · simp [put, hn]
    · simp [put, hn, ih]

/-- Where a name is there, its value may be given before that of another name or after it. -/
theorem put_comm_of_mem {other : Text} (h : name ∈ names fields) (hne : other ≠ name)
    (value more : α) : put other more (put name value fields) =
      put name value (put other more fields) := by
  induction fields with
  | nil => cases h
  | cons field fields ih =>
    obtain ⟨n, held⟩ := field
    by_cases hn : n = name
    · subst hn
      simp [put, Ne.symm hne]
    · have hrest := ih ((List.mem_cons.mp h).resolve_left (Ne.symm hn))
      by_cases hother : n = other
      · simp [put, hother, hne]
      · simp [put, hn, hother, hrest]

/-! ## Giving several names their values -/

@[simp] theorem putAll_nil (fields : List (Text × α)) : putAll fields [] = fields := rfl

@[simp] theorem putAll_cons (fields : List (Text × α)) (name : Text) (value : α)
    (more : List (Text × α)) :
    putAll fields ((name, value) :: more) = putAll (put name value fields) more := rfl

theorem putAll_append (fields more later : List (Text × α)) :
    putAll fields (more ++ later) = putAll (putAll fields more) later := List.foldl_append

/-- **Names stand in the order of their first appearance.** -/
theorem names_putAll (fields more : List (Text × α)) : names (putAll fields more) =
    names fields ++ ((names more).filter fun name => name ∉ names fields).eraseDups := by
  induction more generalizing fields with
  | nil => simp
  | cons field more ih =>
    obtain ⟨name, value⟩ := field
    rw [putAll_cons, ih, names_cons]
    by_cases hname : name ∈ names fields
    · rw [names_put_of_mem hname, List.filter_cons_of_neg (by simpa using hname)]
    · have hothers : (fun other => decide (other ∉ names fields ++ [name])) =
          fun other => !other == name && decide (other ∉ names fields) := by
        funext other
        by_cases hother : other = name <;> simp [hother]
      rw [put_of_not_mem hname, names_append, names_cons, names_nil, hothers,
        List.filter_cons_of_pos (by simpa using hname), List.eraseDups_cons, List.filter_filter,
        List.append_assoc, List.singleton_append]

/-- **A name holds the last value given to it.** -/
theorem lookup_putAll (fields more : List (Text × α)) (name : Text) :
    (putAll fields more).lookup name = (more.reverse.lookup name).or (fields.lookup name) := by
  induction more generalizing fields with
  | nil => rfl
  | cons field more ih =>
    obtain ⟨n, value⟩ := field
    rw [putAll_cons, ih, List.reverse_cons, List.lookup_append, Option.or_assoc]
    congr 1
    by_cases hn : name = n
    · rw [hn, lookup_put_self, List.lookup_cons, beq_self_eq_true]
      rfl
    · rw [lookup_put_of_ne hn, List.lookup_cons, beq_false_of_ne hn]
      rfl

section Single

variable (name : Text) (value : α) (more : List (Text × α))

/-- Behind a field that is there, the others stand in the order of their first appearance. -/
theorem names_putAll_singleton : names (putAll [(name, value)] more) =
    name :: ((names more).filter fun other => other ≠ name).eraseDups := by
  simp only [names_putAll, names_cons, names_nil, List.mem_singleton, List.singleton_append]

theorem lookup_putAll_singleton (other : Text) : (putAll [(name, value)] more).lookup other =
    (more.reverse.lookup other).or (if other = name then some value else none) := by
  rw [lookup_putAll, List.lookup_cons, beq_eq_decide]
  by_cases hother : other = name <;> simp [hother]

end Single

theorem put_putAll {more : List (Text × α)} (h : name ∈ names fields) (hnew : name ∉ names more) :
    put name value (putAll fields more) = putAll (put name value fields) more := by
  induction more generalizing fields with
  | nil => rfl
  | cons field more ih =>
    obtain ⟨n, held⟩ := field
    rw [names_cons, List.mem_cons, not_or] at hnew
    rw [putAll_cons, putAll_cons, ih (mem_names_put.mpr (.inr h)) hnew.2,
      put_comm_of_mem h (Ne.symm hnew.1)]

theorem putAll_put {more : List (Text × α)} (hnodup : (names more).Nodup) (name : Text) (value : α)
    (fields : List (Text × α)) :
    putAll fields (put name value more) = put name value (putAll fields more) := by
  induction more generalizing fields with
  | nil => rfl
  | cons field more ih =>
    obtain ⟨n, held⟩ := field
    obtain ⟨hnew, hnodup⟩ := List.nodup_cons.mp hnodup
    rw [put, putAll_cons]
    split
    · rename_i heq
      subst heq
      rw [putAll_cons, put_putAll (mem_names_put.mpr (.inl rfl)) hnew, put_put_self]
    · rw [putAll_cons, ih hnodup]

/-- **Values may be collected before they are given**, as long as no name is collected twice. -/
theorem putAll_putAll (fields : List (Text × α)) {collected : List (Text × α)}
    (hnodup : (names collected).Nodup) (more : List (Text × α)) :
    putAll fields (putAll collected more) = putAll (putAll fields collected) more := by
  induction more generalizing collected with
  | nil => rfl
  | cons field more ih =>
    obtain ⟨name, value⟩ := field
    rw [putAll_cons, putAll_cons, ih (nodup_names_put hnodup), putAll_put hnodup]

end BookSite.Ordered
