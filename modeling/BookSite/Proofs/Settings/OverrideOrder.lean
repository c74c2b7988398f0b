import BookSite.Proofs.Settings.Precedence

/-!
# Proofs/Settings/OverrideOrder — overrides act key by key

An override is refused or not whatever the settings are.  Of overrides that are not refused only the
last one of each setting counts: those of different settings can change places, and one that is
followed by another one of its setting can be left out.  The first override that is refused is
reported, and what stands before it has been applied.
-/

namespace BookSite

/-! ## What an override names -/

namespace SettingKey

theorem ofName?_name (key : SettingKey) : ofName? key.name = some key := by
  cases key <;> decide

/-- **The setting that an override names**: its name stands before the first equals sign. -/
def namedBy? (override : Text) : Option SettingKey :=
  (override.splitOnce '=').bind fun (name, _) => ofName? name.trim

/-- Whether an override names a setting. -/
def isNamedBy (key : SettingKey) (override : Text) : Bool := namedBy? override == some key

theorem isNamedBy_iff {key : SettingKey} {override : Text} :
    key.isNamedBy override = true ↔ namedBy? override = some key := beq_iff_eq

/-- An override gives a value to no other setting than the one that it names. -/
theorem namedBy?_of_givenBy? {key : SettingKey} {override : Text}
    (h : (key.givenBy? override).isSome = true) : namedBy? override = some key := by
  unfold givenBy? at h
  unfold namedBy?
  split at h
  · rename_i name t hsplit
    split at h
    · rename_i hname
      rw [hsplit]
      exact (congrArg ofName? hname).trans (ofName?_name key)
    · cases h
  · cases h

end SettingKey

/-! ## What is refused -/

namespace Assignment

theorem isOk_map {α β : Type} (f : α → β) (read : Except SettingsError α) :
    (read.map f).isOk = read.isOk := by
  cases read <;> rfl

theorem isOk_readBool (key : SettingKey) (t : Text) :
    (readBool key t).isOk = (bool? t).isSome := by
  unfold readBool
  cases bool? t <;> rfl

theorem isOk_readMode (t : Text) : (readMode t).isOk = (IncludeMode.parse? t).isSome := by
  unfold readMode
  cases IncludeMode.parse? t <;> rfl

theorem isOk_readJobs (t : Text) :
    (readJobs t).isOk = (SettingKey.jobsOfText? t).isSome := by
  unfold readJobs SettingKey.jobsOfText?
  cases t with
  | nil => rfl
  | cons c t =>
    rw [if_neg (List.cons_ne_nil c t)]
    rcases Text.toCount? (c :: t) with _ | _ | n <;> rfl

/-- **A text is read for a setting** exactly when it stands for a value of this setting. -/
theorem isOk_read (key : SettingKey) (t : Text) : (read key t).isOk = (key.ofText? t).isSome := by
  cases key with
  | sourceDir | targetDir | includingFilesDir | basePath | siteBase => rfl
  | filesOnly | generateNav | overwriteHomePage => exact (isOk_map _ _).trans (isOk_readBool _ t)
  | includeMode => exact (isOk_map _ _).trans (isOk_readMode t)
  | jobs => exact (isOk_map _ _).trans (isOk_readJobs t)

/-- **An override is read** exactly when the setting that it names gets a value from it. -/
theorem isOk_parse {override : Text} :
    (parse override).isOk = true ↔ ∃ key : SettingKey, (key.givenBy? override).isSome = true := by
  constructor
  · intro h
    rcases hparse : parse override with e | a
    · rw [hparse] at h
      cases h
    · refine ⟨a.key, ?_⟩
      rw [← get?_of_parse hparse]
      cases a <;> rfl
  · rintro ⟨key, h⟩
    unfold SettingKey.givenBy? at h
    unfold parse
    split at h
    · rename_i name t hsplit
      split at h
      · rename_i hname
        rw [hsplit]
        simpa [ofPair, hname, SettingKey.ofName?_name, isOk_read] using h
      · cases h
    · cases h

end Assignment

namespace Settings

/-- **Why an override is refused**, if it stands alone and is put over the defaults. -/
def refusal? (override : Text) : Option SettingsError := (Settings.override {} [override]).2

theorem refusal?_eq_none_iff {o : Text} :
    refusal? o = none ↔ (Assignment.parse o).isOk = true := by
  unfold refusal? override
  cases Assignment.parse o with
  | error e => exact iff_of_false (Option.some_ne_none e) Bool.false_ne_true
  | ok a => exact iff_of_true rfl rfl

/-- **An override that is refused** leaves the settings and ends it all. -/
theorem override_cons_of_refused {o : Text} {e : SettingsError} (h : refusal? o = some e)
    (s : Settings) (rest : List Text) : s.override (o :: rest) = (s, some e) := by
  unfold refusal? override at h
  rw [override]
  cases hparse : Assignment.parse o with
  | error e' =>
    simp only [hparse, Option.some.injEq] at h
    rw [h]
  | ok a =>
    simp only [hparse] at h
    cases h

/-- **An override that is not refused** is applied, and then the others. -/
theorem override_cons_of_valid {o : Text} (h : refusal? o = none) (s : Settings)
    (rest : List Text) : s.override (o :: rest) = (s.override [o]).1.override rest := by
  have hok := refusal?_eq_none_iff.mp h
  rw [override, override]
  cases hparse : Assignment.parse o with
  | error e =>
    rw [hparse] at hok
    cases hok
  | ok a => rfl

/-- **The first override that is refused** is reported. -/
theorem snd_override_eq (s : Settings) (overrides : List Text) :
    (s.override overrides).2 = overrides.findSome? refusal? := by
  induction overrides generalizing s with
  | nil => rfl
  | cons o rest ih =>
    cases h : refusal? o with
    | some e => rw [override_cons_of_refused h, List.findSome?_cons, h]
    | none => rw [override_cons_of_valid h, ih, List.findSome?_cons, h]

/-! ## The last override of a setting -/

/-- The last override that names a setting. -/
def lastFor? (key : SettingKey) (overrides : List Text) : Option Text :=
  overrides.reverse.find? key.isNamedBy

theorem isSome_givenBy? {o : Text} (h : refusal? o = none) (key : SettingKey) :
    (key.givenBy? o).isSome = key.isNamedBy o := by
  obtain ⟨named, hnamed⟩ := Assignment.isOk_parse.mp (refusal?_eq_none_iff.mp h)
  rw [Bool.eq_iff_iff, SettingKey.isNamedBy_iff]
  refine ⟨SettingKey.namedBy?_of_givenBy?, fun hkey => ?_⟩
  rw [SettingKey.namedBy?_of_givenBy? hnamed, Option.some.injEq] at hkey
  exact hkey ▸ hnamed

/-- A search for a value is a search for what has a value. -/
theorem findSome?_eq_bind_find? {α β : Type} {f : α → Option β} {p : α → Bool} {items : List α}
    (h : ∀ a ∈ items, (f a).isSome = p a) : items.findSome? f = (items.find? p).bind f := by
  induction items with
  | nil => rfl
  | cons a rest ih =>
    obtain ⟨ha, hrest⟩ := List.forall_mem_cons.mp h
    rw [List.findSome?_cons, List.find?_cons, ← ha, ih hrest]
    cases hf : f a with
    | none => rfl
    | some b => exact hf.symm

/-- **Settings are the same** when they have the same values. -/
theorem ext_get {s s' : Settings} (h : ∀ key, s.get key = s'.get key) : s = s' := by
  cases s
  cases s'
  simp only [Settings.mk.injEq]
  exact ⟨h .sourceDir, h .targetDir, h .includeMode, h .filesOnly, h .generateNav,
    h .includingFilesDir, h .basePath, h .siteBase, h .jobs, h .overwriteHomePage⟩

section Valid

variable {overrides : List Text} (h : ∀ o ∈ overrides, refusal? o = none)

include h

theorem snd_override (s : Settings) : (s.override overrides).2 = none := by
  rw [snd_override_eq]
  exact List.findSome?_eq_none_iff.mpr h

/-- **The value of a setting** is the one that its last override gives. -/
theorem get_override_eq (s : Settings) (key : SettingKey) :
    (s.override overrides).1.get key =
      ((lastFor? key overrides).bind key.givenBy?).getD (s.get key) := by
  have hok : ∀ o ∈ overrides, (Assignment.parse o).isOk = true := fun o ho =>
    refusal?_eq_none_iff.mp (h o ho)
  have hlast : overrides.reverse.findSome? key.givenBy? =
      (lastFor? key overrides).bind key.givenBy? :=
    findSome?_eq_bind_find? fun o ho => isSome_givenBy? (h o (List.mem_reverse.mp ho)) key
  rw [override_eq hok, get_foldl (fun o ho s key => get_override (hok o ho) s key), hlast]

/-- **Overrides with the same last ones** do the same. -/
theorem override_eq_of_lastFor? {others : List Text} (hothers : ∀ o ∈ others, refusal? o = none)
    (hlast : ∀ key, lastFor? key others = lastFor? key overrides) (s : Settings) :
    s.override others = s.override overrides := by
  refine Prod.ext (ext_get fun key => ?_) ?_
  · rw [get_override_eq h, get_override_eq hothers, hlast]
  · rw [snd_override h, snd_override hothers]

end Valid

/-- The last override of a setting is told by the overrides of this setting alone. -/
theorem lastFor?_congr {key : SettingKey} {overrides others : List Text}
    (h : others.filter key.isNamedBy = overrides.filter key.isNamedBy) :
    lastFor? key others = lastFor? key overrides := by
  unfold lastFor?
  rw [← List.head?_filter, ← List.head?_filter, List.filter_reverse, List.filter_reverse, h]

/-- An override that is followed by another one of its setting is no last one. -/
theorem lastFor?_drop {before after : List Text} {o : Text}
    (h : ∃ later ∈ after, SettingKey.namedBy? later = SettingKey.namedBy? o) (key : SettingKey) :
    lastFor? key (before ++ after) = lastFor? key (before ++ o :: after) := by
  obtain ⟨later, hlater, hsame⟩ := h
  unfold lastFor?
  simp only [List.reverse_append, List.reverse_cons, List.append_assoc, List.find?_append,
    List.find?_singleton]
  by_cases hkey : key.isNamedBy o = true
  · have hfound : (after.reverse.find? key.isNamedBy).isSome = true := by
      rw [List.find?_isSome]
      refine ⟨later, List.mem_reverse.mpr hlater, ?_⟩
      rw [SettingKey.isNamedBy_iff, hsame]
      exact SettingKey.isNamedBy_iff.mp hkey
    obtain ⟨found, hfound⟩ := Option.isSome_iff_exists.mp hfound
    rw [hfound]
    rfl
  · rw [if_neg hkey, Option.none_or]

/-! ## All overrides -/

/-- **Only the last override of each setting counts**, if none of them is refused. -/
structure LastCounts (s : Settings) (overrides : List Text) : Prop where
  /-- each setting has the value that its last override gives -/
  get_eq : ∀ key, (s.override overrides).1.get key =
    ((lastFor? key overrides).bind key.givenBy?).getD (s.get key)
  /-- overrides with the same last ones do the same -/
  of_last : ∀ others, (∀ o ∈ others, refusal? o = none) →
    (∀ key, lastFor? key others = lastFor? key overrides) →
    s.override others = s.override overrides
  /-- overrides of different settings can change places -/
  of_perm : ∀ others, others.Perm overrides →
    (∀ key : SettingKey, others.filter key.isNamedBy = overrides.filter key.isNamedBy) →
    s.override others = s.override overrides
  /-- one that is followed by another one of its setting can be left out -/
  of_drop : ∀ before o after, overrides = before ++ o :: after →
    (∃ later ∈ after, SettingKey.namedBy? later = SettingKey.namedBy? o) →
    s.override (before ++ after) = s.override overrides

theorem lastCounts {overrides : List Text} (h : ∀ o ∈ overrides, refusal? o = none)
    (s : Settings) : LastCounts s overrides where
  get_eq := get_override_eq h s
  of_last _ hothers hlast := override_eq_of_lastFor? h hothers hlast s
  of_perm others hperm hfilter :=
    override_eq_of_lastFor? h (fun o ho => h o (hperm.subset ho))
      (fun key => lastFor?_congr (hfilter key)) s
  of_drop before o after hsplit hlater := by
    subst hsplit
    refine override_eq_of_lastFor? h (fun p hp => h p ?_) (lastFor?_drop hlater) s
    exact ((List.sublist_cons_self o after).append_left before).subset hp

/-- Behind overrides that are not refused, one that is refused ends it all. -/
theorem override_append_of_refused {before : List Text} (h : ∀ p ∈ before, refusal? p = none)
    {o : Text} {e : SettingsError} (ho : refusal? o = some e) (s : Settings) (after : List Text) :
    s.override (before ++ o :: after) = ((s.override before).1, some e) := by
  induction before generalizing s with
  | nil => exact override_cons_of_refused ho s after
  | cons p before ih =>
    obtain ⟨hp, hbefore⟩ := List.forall_mem_cons.mp h
    rw [List.cons_append, override_cons_of_valid hp, ih hbefore, override_cons_of_valid hp s before]

/-- **Overrides act key by key.**  Whether one is refused, and why, is the same for all settings: it
is not when the setting that it names gets a value from it.  All of them are applied exactly when
none is refused, and then only the last one of each setting counts.  The first one that is refused
is reported, and only what stands before it is applied. -/
theorem overrides_act_key_by_key (overrides : List Text) :
    (∀ s o, (Settings.override s [o]).2 = refusal? o) ∧
    (∀ o, refusal? o = none ↔ ∃ key : SettingKey, (key.givenBy? o).isSome = true) ∧
    (∀ s, (Settings.override s overrides).2 = none ↔ ∀ o ∈ overrides, refusal? o = none) ∧
    ((∀ o ∈ overrides, refusal? o = none) → ∀ s, LastCounts s overrides) ∧
    ∀ before o after e, overrides = before ++ o :: after →
      (∀ p ∈ before, refusal? p = none) → refusal? o = some e →
      ∀ s, Settings.override s overrides = ((s.override before).1, some e) := by
  refine ⟨fun s o => ?_, fun o => ?_, fun s => ?_, lastCounts, ?_⟩
  · rw [snd_override_eq, List.findSome?_singleton]
  · rw [refusal?_eq_none_iff, Assignment.isOk_parse]
  · rw [snd_override_eq, List.findSome?_eq_none_iff]
  · rintro before o after e rfl hbefore ho s
    exact override_append_of_refused hbefore ho s after

/-- The overrides of the number of workers and of the base path change places, and the first number
is left out; a truth value that cannot be read ends it. -/
theorem overrides_act_key_by_key_threeOverrides :
    Settings.override {} ["base_path=/zh".toList, "jobs = 4".toList] =
        Settings.override {} ["jobs=3".toList, "jobs = 4".toList, "base_path=/zh".toList] ∧
      Settings.override {} ["jobs=3".toList, "files_only=maybe".toList, "jobs = 4".toList] =
        ((Settings.override {} ["jobs=3".toList]).1,
          some (.badBoolean "files_only".toList "maybe".toList)) := by
  constructor
  · obtain ⟨-, -, -, hvalid, -⟩ :=
      overrides_act_key_by_key ["jobs=3".toList, "jobs = 4".toList, "base_path=/zh".toList]
    refine (hvalid (by decide +kernel) {}).of_last _ (by decide +kernel) fun key => ?_
    cases key <;> decide +kernel
  · obtain ⟨-, -, -, -, hrefused⟩ :=
      overrides_act_key_by_key ["jobs=3".toList, "files_only=maybe".toList, "jobs = 4".toList]
    exact hrefused ["jobs=3".toList] "files_only=maybe".toList ["jobs = 4".toList] _ rfl
      (by decide +kernel) (by decide +kernel) {}

end Settings

end BookSite
