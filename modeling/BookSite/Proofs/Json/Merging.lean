import BookSite.Json.Merge
import BookSite.Proofs.Ordered

/-!
# Proofs/Json/Merging — what a merged object holds

The fields of one object are merged into those of another one after the other, but what becomes of
a name depends on the two values of this name alone (`lookup_mergeFields`).  A value that has been
merged in is there, at every depth, and merging it once more changes nothing.
-/

namespace BookSite.Json

open Ordered

/-! ## Objects with different names -/

/-- **A value with different names** in each of its objects, at all depths. -/
inductive NamesDiffer : Json → Prop
  | null : NamesDiffer .null
  | bool (b : Bool) : NamesDiffer (.bool b)
  | integer (n : Int) : NamesDiffer (.integer n)
  | float (x : Binary64) : NamesDiffer (.float x)
  | string (s : Text) : NamesDiffer (.string s)
  | array {items : List Json} (h : ∀ v ∈ items, NamesDiffer v) : NamesDiffer (.array items)
  | object {fields : List (Text × Json)} (hnodup : (names fields).Nodup)
    (h : ∀ field ∈ fields, NamesDiffer field.2) : NamesDiffer (.object fields)

variable {target source : List (Text × Json)}

theorem NamesDiffer.nodup (h : NamesDiffer (.object source)) : (names source).Nodup := by
  cases h with
  | object hnodup _ => exact hnodup

theorem NamesDiffer.field (h : NamesDiffer (.object source)) :
    ∀ field ∈ source, NamesDiffer field.2 := by
  cases h with
  | object _ hfields => exact hfields

/-! ## One value after another -/

@[simp] theorem mergeFields_nil (target : List (Text × Json)) : mergeFields target [] = target := by
  rw [mergeFields]

theorem mergeFields_cons (target : List (Text × Json)) (name : Text) (value : Json)
    (rest : List (Text × Json)) :
    mergeFields target ((name, value) :: rest) =
      mergeFields (put name (mergeValue (target.lookup name) value) target) rest := by
  rw [mergeFields]

@[simp] theorem mergeValue_none (value : Json) : mergeValue none value = value := by
  cases value <;> simp [mergeValue]

@[simp] theorem mergeValue_objects (fields more : List (Text × Json)) :
    mergeValue (some (.object fields)) (.object more) = .object (mergeFields fields more) := by
  rw [mergeValue]

/-- **Only objects are merged**: any other value takes the place of what was there. -/
theorem mergeValue_of_not_object {value : Json} (h : ∀ more, value ≠ .object more)
    (old : Option Json) : mergeValue old value = value := by
  cases value with
  | object more => exact absurd rfl (h more)
  | _ => simp [mergeValue]

theorem mergeValue_of_not_objects {old value : Json}
    (h : ∀ fields more, old = .object fields → value ≠ .object more) :
    mergeValue (some old) value = value := by
  cases value with
  | object more =>
    cases old with
    | object fields => exact absurd rfl (h fields more rfl)
    | _ => simp [mergeValue]
  | _ => simp [mergeValue]

/-! ## The merged object -/

/-- **The names of a merged object**: those of the target, and behind them the new ones. -/
theorem names_mergeFields (hnodup : (names source).Nodup) (target : List (Text × Json)) :
    names (mergeFields target source) =
      names target ++ (names source).filter fun name => name ∉ names target := by
  induction source generalizing target with
  | nil => simp
  | cons field rest ih =>
    obtain ⟨name, value⟩ := field
    obtain ⟨hnew, hrest⟩ := List.nodup_cons.mp hnodup
    rw [mergeFields_cons, ih hrest, names_cons]
    by_cases hname : name ∈ names target
    · rw [names_put_of_mem hname, List.filter_cons_of_neg (by simpa using hname)]
    · have hlater : (names rest).filter (fun n => n ∉ names target ++ [name]) =
          (names rest).filter fun n => n ∉ names target := by
        refine List.filter_congr fun n hn => ?_
        have hne : n ≠ name := fun heq => hnew (heq ▸ hn)
        simp [hne]
      rw [put_of_not_mem hname, names_append, names_cons, names_nil, hlater,
        List.filter_cons_of_pos (by simpa using hname), List.append_assoc, List.singleton_append]

/-- What a name holds after a merge, by what it holds in the target and in the source. -/
def mergeHeld (old? : Option Json) : Option Json → Option Json
  | none => old?
  | some value => some (mergeValue old? value)

/-- **What a name holds in a merged object** depends on what it holds in the two. -/
theorem lookup_mergeFields (hnodup : (names source).Nodup) (target : List (Text × Json))
    (name : Text) :
    (mergeFields target source).lookup name =
      mergeHeld (target.lookup name) (source.lookup name) := by
  induction source generalizing target with
  | nil => rw [mergeFields_nil, List.lookup_nil, mergeHeld]
  | cons field rest ih =>
    obtain ⟨first, value⟩ := field
    obtain ⟨hnew, hrest⟩ := List.nodup_cons.mp hnodup
    rw [mergeFields_cons, ih hrest, List.lookup_cons]
    by_cases heq : name = first
    · rw [heq, lookup_eq_none_iff.mpr hnew, lookup_put_self, beq_self_eq_true]
      rfl
    · rw [lookup_put_of_ne heq, beq_false_of_ne heq]

/-- New names come with what they hold. -/
theorem mergeFields_of_disjoint (hnodup : (names source).Nodup)
    (hnew : ∀ name ∈ names source, name ∉ names target) :
    mergeFields target source = target ++ source := by
  induction source generalizing target with
  | nil => simp
  | cons field rest ih =>
    obtain ⟨name, value⟩ := field
    obtain ⟨hname, hrest⟩ := List.nodup_cons.mp hnodup
    have hput : put name (mergeValue (target.lookup name) value) target =
        target ++ [(name, value)] := by
      rw [lookup_eq_none_iff.mpr (hnew name List.mem_cons_self), mergeValue_none,
        put_of_not_mem (hnew name List.mem_cons_self)]
    rw [mergeFields_cons, hput, ih hrest, List.append_assoc, List.singleton_append]
    intro n hn hmem
    rw [names_append, List.mem_append] at hmem
    obtain hold | hfirst := hmem
    · exact hnew n (List.mem_cons_of_mem _ hn) hold
    · exact hname (List.mem_singleton.mp hfirst ▸ hn)

theorem mergeFields_empty (hnodup : (names source).Nodup) : mergeFields [] source = source :=
  mergeFields_of_disjoint hnodup fun _ _ => List.not_mem_nil

/-! ## Merging once more -/

/-- **Fields that are there already** change nothing. -/
theorem mergeFields_eq_self
    (h : ∀ name value, (name, value) ∈ source →
      ∃ old, target.lookup name = some old ∧ mergeValue (some old) value = old) :
    mergeFields target source = target := by
  induction source with
  | nil => simp
  | cons field rest ih =>
    obtain ⟨name, value⟩ := field
    obtain ⟨old, hold, hsame⟩ := h name value List.mem_cons_self
    rw [mergeFields_cons, hold, hsame, put_eq_self hold]
    exact ih fun n v hmem => h n v (List.mem_cons_of_mem _ hmem)

/-- An object is merged into the fields that were there, or into none. -/
theorem exists_mergeValue_object (hnodup : (names source).Nodup) (old? : Option Json) :
    ∃ fields, mergeValue old? (.object source) = .object (mergeFields fields source) ∧
      (fields = [] ∨ old? = some (.object fields)) := by
  cases old? with
  | none => exact ⟨[], by rw [mergeValue_none, mergeFields_empty hnodup], .inl rfl⟩
  | some old =>
    by_cases hobject : ∃ fields, old = .object fields
    · obtain ⟨fields, rfl⟩ := hobject
      exact ⟨fields, mergeValue_objects fields source, .inr rfl⟩
    · refine ⟨[], ?_, .inl rfl⟩
      rw [mergeFields_empty hnodup,
        mergeValue_of_not_objects fun fields _ heq => absurd ⟨fields, heq⟩ hobject]

/-- **A value that is merged in once more** changes nothing, whatever it was merged into. -/
theorem mergeValue_mergeValue {value : Json} (h : NamesDiffer value) (old? : Option Json) :
    mergeValue (some (mergeValue old? value)) value = mergeValue old? value := by
  induction h generalizing old? with
  | @object more hnodup _ ih =>
    obtain ⟨fields, hfields, -⟩ := exists_mergeValue_object hnodup old?
    rw [hfields, mergeValue_objects]
    refine congrArg Json.object (mergeFields_eq_self fun name value hmem => ?_)
    refine ⟨mergeValue (fields.lookup name) value, ?_, ih _ hmem _⟩
    rw [lookup_mergeFields hnodup, lookup_of_mem hnodup hmem, mergeHeld]
  | _ => simp [mergeValue]

theorem mergeFields_mergeFields (h : NamesDiffer (.object source)) (target : List (Text × Json)) :
    mergeFields (mergeFields target source) source = mergeFields target source := by
  have htwice := mergeValue_mergeValue h (some (.object target))
  rw [mergeValue_objects, mergeValue_objects] at htwice
  exact Json.object.inj htwice

theorem mergeFields_self (h : NamesDiffer (.object source)) :
    mergeFields source source = source := by
  have htwice := mergeFields_mergeFields h []
  rwa [mergeFields_empty h.nodup] at htwice

/-! ## Merging keeps names different -/

theorem nodup_names_mergeFields (htarget : (names target).Nodup) (hsource : (names source).Nodup) :
    (names (mergeFields target source)).Nodup := by
  rw [names_mergeFields hsource, List.nodup_append']
  refine ⟨htarget, hsource.filter _, fun name hname hnew => ?_⟩
  simpa [hname] using (List.mem_filter.mp hnew).2

/-- What a merged object holds came with one of the two, or is merged from both. -/
theorem namesDiffer_mergeFields (htarget : NamesDiffer (.object target))
    (hnodup : (names source).Nodup)
    (hvalues : ∀ field ∈ source, ∀ old?, (∀ v ∈ old?, NamesDiffer v) →
      NamesDiffer (mergeValue old? field.2)) :
    NamesDiffer (.object (mergeFields target source)) := by
  have hmerged := nodup_names_mergeFields htarget.nodup hnodup
  refine .object hmerged fun field hfield => ?_
  obtain ⟨name, value⟩ := field
  have hvalue := lookup_of_mem hmerged hfield
  rw [lookup_mergeFields hnodup] at hvalue
  have hold : ∀ v ∈ target.lookup name, NamesDiffer v := fun v hv =>
    htarget.field _ (mem_of_lookup hv)
  cases hnew : source.lookup name with
  | none =>
    rw [hnew] at hvalue
    exact hold value hvalue
  | some new =>
    rw [hnew] at hvalue
    cases hvalue
    exact hvalues _ (mem_of_lookup hnew) _ hold

theorem namesDiffer_mergeValue {value : Json} (h : NamesDiffer value) {old? : Option Json}
    (hold : ∀ v ∈ old?, NamesDiffer v) : NamesDiffer (mergeValue old? value) := by
  induction h generalizing old? with
  | @object more hnodup _ ih =>
    obtain ⟨fields, hfields, hempty | hsome⟩ := exists_mergeValue_object hnodup old?
    · rw [hfields, hempty]
      exact namesDiffer_mergeFields (.object List.nodup_nil (List.forall_mem_nil _)) hnodup
        fun field hfield _ => ih field hfield
    · rw [hfields]
      exact namesDiffer_mergeFields (hold _ hsome) hnodup fun field hfield _ => ih field hfield
  | array hitems => rw [mergeValue_of_not_object (by simp)]; exact .array hitems
  | _ => rw [mergeValue_of_not_object (by simp)]; constructor

/-! ## Right-biased merges -/

mutual

/-- **A merge of two objects**: the names of the target, then the new ones of the source, and for
each name what becomes of its two values. -/
inductive IsMerge : List (Text × Json) → List (Text × Json) → List (Text × Json) → Prop
  | intro {target source merged : List (Text × Json)}
    (hnames : names merged =
      names target ++ (names source).filter fun name => name ∉ names target)
    (hvalues : ∀ name,
      HoldsMerge (target.lookup name) (source.lookup name) (merged.lookup name)) :
    IsMerge target source merged

/-- **What becomes of the values of a name**: two objects are merged, and otherwise the value of the
source comes before that of the target. -/
inductive HoldsMerge : Option Json → Option Json → Option Json → Prop
  | neither : HoldsMerge none none none
  | target (old : Json) : HoldsMerge (some old) none (some old)
  | source (value : Json) : HoldsMerge none (some value) (some value)
  | objects {fields more merged : List (Text × Json)} (h : IsMerge fields more merged) :
    HoldsMerge (some (.object fields)) (some (.object more)) (some (.object merged))
  | replaced {old value : Json}
    (h : ∀ fields more, old = .object fields → value ≠ .object more) :
    HoldsMerge (some old) (some value) (some value)

end

/-- One name at a time, where the objects that it holds are merged so. -/
theorem holdsMerge_iff {old? value? held? : Option Json}
    (h : ∀ fields more, old? = some (.object fields) → value? = some (.object more) →
      ∀ merged, IsMerge fields more merged ↔ merged = mergeFields fields more) :
    HoldsMerge old? value? held? ↔ held? = mergeHeld old? value? := by
  constructor
  · intro hheld
    cases hheld with
    | neither => rfl
    | target old => rfl
    | source value => rw [mergeHeld, mergeValue_none]
    | objects hmerge => rw [mergeHeld, mergeValue_objects, ← (h _ _ rfl rfl _).mp hmerge]
    | replaced hother => rw [mergeHeld, mergeValue_of_not_objects hother]
  · rintro rfl
    cases value? with
    | none =>
      cases old? with
      | none => exact .neither
      | some old => exact .target old
    | some value =>
      cases old? with
      | none =>
        rw [mergeHeld, mergeValue_none]
        exact .source value
      | some old =>
        by_cases hobjects : ∃ fields more, old = .object fields ∧ value = .object more
        · obtain ⟨fields, more, rfl, rfl⟩ := hobjects
          rw [mergeHeld, mergeValue_objects]
          exact .objects ((h fields more rfl rfl _).mpr rfl)
        · have hother : ∀ fields more, old = .object fields → value ≠ .object more :=
            fun fields more hold hvalue => hobjects ⟨fields, more, hold, hvalue⟩
          rw [mergeHeld, mergeValue_of_not_objects hother]
          exact .replaced hother

/-- **Merging fields is the merge of two objects**, and there is no other one. -/
theorem isMerge_iff (hsource : NamesDiffer (.object source))
    (htarget : NamesDiffer (.object target)) {merged : List (Text × Json)} :
    IsMerge target source merged ↔ merged = mergeFields target source := by
  generalize hobject : Json.object source = value at hsource
  induction hsource generalizing source target merged with
  | @object fields hnodup hfields ih =>
    cases hobject
    have hname : ∀ name held?, HoldsMerge (target.lookup name) (fields.lookup name) held? ↔
        held? = (mergeFields target fields).lookup name := by
      intro name held?
      rw [lookup_mergeFields hnodup]
      exact holdsMerge_iff fun fields more hold hvalue merged =>
        ih _ (mem_of_lookup hvalue) (htarget.field _ (mem_of_lookup hold)) rfl
    constructor
    · rintro ⟨hnames, hvalues⟩
      rw [← names_mergeFields hnodup] at hnames
      refine eq_of_lookup hnames ?_ fun name => (hname name _).mp (hvalues name)
      rw [hnames]
      exact nodup_names_mergeFields htarget.nodup hnodup
    · rintro rfl
      exact .intro (names_mergeFields hnodup target) fun name => (hname name _).mpr rfl
  | _ => cases hobject

/-- **Merging is right-biased**, at every depth.  What it gives is the one merge of the two objects,
again with different names.  An empty object changes nothing on either side, and neither does an
object that has been merged in before, or that is merged into itself. -/
theorem fields_merge_right_biased (htarget : NamesDiffer (.object target))
    (hsource : NamesDiffer (.object source)) :
    (∀ merged, IsMerge target source merged ↔ merged = mergeFields target source) ∧
      NamesDiffer (.object (mergeFields target source)) ∧
      mergeFields [] source = source ∧ mergeFields target [] = target ∧
      mergeFields (mergeFields target source) source = mergeFields target source ∧
      mergeFields target target = target :=
  ⟨fun _ => isMerge_iff hsource htarget,
    namesDiffer_mergeFields htarget hsource.nodup fun field hfield _ =>
      namesDiffer_mergeValue (hsource.field field hfield),
    mergeFields_empty hsource.nodup, mergeFields_nil target, mergeFields_mergeFields hsource target,
    mergeFields_self htarget⟩

/-- Options of a site: an object, and a text. -/
def siteOptions : List (Text × Json) :=
  [("markdown".toList, .ofFields [("lineNumbers", .bool true)]), ("base".toList, .ofString "/")]

/-- Options to be merged into these: a new one, more of the object, and an object for the text. -/
def furtherOptions : List (Text × Json) :=
  [("head".toList, .array []),
    ("markdown".toList, .ofFields [("math", .bool true), ("lineNumbers", .null)]),
    ("base".toList, .ofFields [])]

/-- The two together. -/
def mergedOptions : List (Text × Json) :=
  [("markdown".toList, .ofFields [("lineNumbers", .null), ("math", .bool true)]),
    ("base".toList, .ofFields []), ("head".toList, .array [])]

theorem fields_merge_right_biased_siteOptions :
    NamesDiffer (.object siteOptions) ∧ NamesDiffer (.object furtherOptions) ∧
      IsMerge siteOptions furtherOptions mergedOptions ∧
      mergeFields mergedOptions furtherOptions = mergedOptions ∧
      mergeFields siteOptions siteOptions = siteOptions := by
  have hsite : NamesDiffer (.object siteOptions) := by
    refine .object (by decide) ?_
    simp only [siteOptions, List.forall_mem_cons]
    exact ⟨.object (by decide) (by simp [NamesDiffer.bool]), .string _, by simp⟩
  have hfurther : NamesDiffer (.object furtherOptions) := by
    refine .object (by decide) ?_
    simp only [furtherOptions, List.forall_mem_cons]
    exact ⟨.array (by simp), .object (by decide) (by simp [NamesDiffer.bool, NamesDiffer.null]),
      .object (by decide) (by simp), by simp⟩
  have hmerged : mergedOptions = mergeFields siteOptions furtherOptions := by rfl
  obtain ⟨hmerge, -, -, -, htwice, hself⟩ := fields_merge_right_biased hsite hfurther
  exact ⟨hsite, hfurther, (hmerge _).mpr hmerged, by rw [hmerged, htwice], hself⟩

end BookSite.Json
