import BookSite.CommandLine.Command
import BookSite.Proofs.Files.Place
import BookSite.Settings.Load

/-!
# Proofs/Settings/Precedence — which value a setting has in the end

A setting is given a value by settings files, by overrides and on the command line.  The command
line goes before the overrides and these before the files; among overrides and among files the last
one that gives a value decides.  What is given nowhere has its default.
-/

namespace BookSite

/-! ## The values of settings -/

namespace SettingKey

/-- The values that a setting can have. -/
def Value : SettingKey → Type
  | sourceDir | targetDir | includingFilesDir => Option Path
  | basePath | siteBase => Option Text
  | jobs => Option Nat
  | includeMode => IncludeMode
  | filesOnly | generateNav | overwriteHomePage => Bool

/-- The number of workers that a text stands for: at least one, or none given. -/
def jobsOfText? (t : Text) : Option (Option Nat) :=
  if t = [] then some none
  else match t.toCount? with
    | some (n + 1) => some (some (n + 1))
    | _ => none

/-- **The value that a text stands for.**  The empty text takes an optional setting back; some texts
stand for no value of a setting. -/
def ofText? : (key : SettingKey) → Text → Option key.Value
  | sourceDir, t | targetDir, t | includingFilesDir, t => some (if t = [] then none else some ⟨t⟩)
  | basePath, t | siteBase, t => some (if t = [] then none else some t)
  | jobs, t => jobsOfText? t
  | includeMode, t => IncludeMode.parse? t
  | filesOnly, t | generateNav, t | overwriteHomePage, t => Assignment.bool? t

theorem name_of_ofName? {t : Text} {key : SettingKey} (h : ofName? t = some key) :
    t = key.name := by
  have hname := List.find?_some h
  exact (beq_iff_eq.mp hname).symm

/-- The names of settings differ. -/
theorem name_injective : Function.Injective name := by
  intro key other h
  have hfound : ∀ key : SettingKey, ofName? key.name = some key := by
    intro key
    cases key <;> decide
  exact Option.some.inj ((hfound key).symm.trans (h ▸ hfound other))

/-- **The value that an override gives** to a setting: what stands behind the first equals sign, if
the name of the setting stands before it. -/
def givenBy? (key : SettingKey) (override : Text) : Option key.Value :=
  match override.splitOnce '=' with
  | some (name, t) => if name.trim = key.name then key.ofText? t.trim else none
  | none => none

end SettingKey

/-- The value of a setting. -/
def Settings.get (s : Settings) : (key : SettingKey) → key.Value
  | .sourceDir => s.sourceDir
  | .targetDir => s.targetDir
  | .includeMode => s.includeMode
  | .filesOnly => s.filesOnly
  | .generateNav => s.generateNav
  | .includingFilesDir => s.includingFilesDir
  | .basePath => s.basePath
  | .siteBase => s.siteBase
  | .jobs => s.jobs
  | .overwriteHomePage => s.overwriteHomePage

/-- **The value that a file gives** to a setting. -/
def Layer.get? (layer : Layer) : (key : SettingKey) → Option key.Value
  | .sourceDir => layer.sourceDir.map some
  | .targetDir => layer.targetDir.map some
  | .includeMode => layer.includeMode
  | .filesOnly => layer.filesOnly
  | .generateNav => layer.generateNav
  | .includingFilesDir => layer.includingFilesDir.map some
  | .basePath => layer.basePath.map some
  | .siteBase => layer.siteBase.map some
  | .jobs => layer.jobs.map some
  | .overwriteHomePage => layer.overwriteHomePage

/-- The value that an assignment gives to a setting. -/
def Assignment.get? : Assignment → (key : SettingKey) → Option key.Value
  | sourceDir v, .sourceDir => some v
  | targetDir v, .targetDir => some v
  | includeMode v, .includeMode => some v
  | filesOnly v, .filesOnly => some v
  | generateNav v, .generateNav => some v
  | includingFilesDir v, .includingFilesDir => some v
  | basePath v, .basePath => some v
  | siteBase v, .siteBase => some v
  | jobs v, .jobs => some v
  | overwriteHomePage v, .overwriteHomePage => some v
  | _, _ => none

/-- **The value that the command line gives** to a setting.  The flags can only switch files-only on
and the navigation bar off, and two settings cannot be given. -/
def MigrateOptions.get? (o : MigrateOptions) : (key : SettingKey) → Option key.Value
  | .sourceDir => o.source.map some
  | .targetDir => o.target.map some
  | .includeMode => o.includeMode
  | .filesOnly => if o.filesOnly then some true else none
  | .generateNav => if o.noNav then some false else none
  | .includingFilesDir => o.includingFilesDir.map some
  | .basePath => o.basePath.map some
  | .jobs => o.jobs.map some
  | .siteBase | .overwriteHomePage => none

/-! ## One step -/

/-- An optional value that is put over another one. -/
theorem or_eq_getD {α : Type} (v w : Option α) : v.or w = (v.map some).getD w := by
  cases v <;> rfl

/-- **A layer** gives the settings that it sets and leaves the others. -/
theorem Settings.get_apply (s : Settings) (layer : Layer) (key : SettingKey) :
    (s.apply layer).get key = (layer.get? key).getD (s.get key) := by
  cases key with
  | includeMode | filesOnly | generateNav | overwriteHomePage => rfl
  | sourceDir | targetDir | includingFilesDir | basePath | siteBase | jobs => exact or_eq_getD _ _

/-- **An assignment** gives one setting and leaves the others. -/
theorem Settings.get_assign (s : Settings) (a : Assignment) (key : SettingKey) :
    (s.assign a).get key = (a.get? key).getD (s.get key) := by
  cases a <;> cases key <;> rfl

/-- **The command line** gives what was given on it and leaves the rest. -/
theorem MigrateOptions.get_applyTo (o : MigrateOptions) (s : Settings) (key : SettingKey) :
    (o.applyTo s).get key = (o.get? key).getD (s.get key) := by
  cases key with
  | includeMode | siteBase | overwriteHomePage => rfl
  | sourceDir | targetDir | includingFilesDir | basePath | jobs => exact or_eq_getD _ _
  | filesOnly =>
    change (o.filesOnly || s.filesOnly) = (if o.filesOnly then some true else none).getD s.filesOnly
    cases o.filesOnly <;> rfl
  | generateNav =>
    change (!o.noNav && s.generateNav) = (if o.noNav then some false else none).getD s.generateNav
    cases o.noNav <;> rfl

/-! ## Overrides -/

namespace Assignment

/-- An assignment gives no other setting than its own. -/
theorem get?_of_ne {a : Assignment} {key : SettingKey} (h : a.key ≠ key) : a.get? key = none := by
  cases a <;> cases key <;> first | rfl | exact absurd rfl h

theorem map_optional {α : Type} (make : Text → α) (t : Text) :
    (optional t).map make = if t = [] then none else some (make t) := by
  cases t <;> rfl

theorem readBool_eq_ok {key : SettingKey} {t : Text} {b : Bool} (h : readBool key t = .ok b) :
    bool? t = some b := by
  unfold readBool at h
  split at h
  · rename_i read hread
    rw [hread, Except.ok.inj h]
  · cases h

theorem readMode_eq_ok {t : Text} {mode : IncludeMode} (h : readMode t = .ok mode) :
    IncludeMode.parse? t = some mode := by
  unfold readMode at h
  split at h
  · rename_i read hread
    rw [hread, Except.ok.inj h]
  · cases h

theorem readJobs_eq_ok {t : Text} {jobs? : Option Nat} (h : readJobs t = .ok jobs?) :
    SettingKey.jobsOfText? t = some jobs? := by
  unfold readJobs at h
  unfold SettingKey.jobsOfText?
  cases t with
  | nil =>
    cases h
    rfl
  | cons c t =>
    simp only [List.isEmpty_cons, Bool.false_eq_true, if_false] at h
    rw [if_neg (List.cons_ne_nil c t)]
    rcases hcount : Text.toCount? (c :: t) with _ | _ | n <;> simp only [hcount] at h ⊢
    · cases h
    · cases h
    · rw [Except.ok.inj h]

/-- **A text that is read for a setting** assigns to that setting what it stands for. -/
theorem of_read {key : SettingKey} {t : Text} {a : Assignment} (h : read key t = .ok a) :
    a.key = key ∧ a.get? key = key.ofText? t := by
  cases key with
  | sourceDir | targetDir | includingFilesDir =>
    cases h
    exact ⟨rfl, congrArg some (map_optional Path.mk t)⟩
  | basePath | siteBase =>
    cases h
    refine ⟨rfl, congrArg some ?_⟩
    cases t <;> rfl
  | filesOnly | generateNav | overwriteHomePage =>
    obtain ⟨b, hread, rfl⟩ := map_eq_ok h
    exact ⟨rfl, (readBool_eq_ok hread).symm⟩
  | includeMode =>
    obtain ⟨mode, hread, rfl⟩ := map_eq_ok h
    exact ⟨rfl, (readMode_eq_ok hread).symm⟩
  | jobs =>
    obtain ⟨jobs?, hread, rfl⟩ := map_eq_ok h
    exact ⟨rfl, (readJobs_eq_ok hread).symm⟩

/-- **An override** assigns the value that it gives. -/
theorem get?_of_parse {override : Text} {a : Assignment} (h : parse override = .ok a)
    (key : SettingKey) : a.get? key = key.givenBy? override := by
  unfold parse at h
  unfold SettingKey.givenBy?
  split at h
  · cases h
  · rename_i name t hsplit
    unfold ofPair at h
    split at h
    · rename_i named hnamed
      rw [hsplit]
      obtain ⟨hkey, hvalue⟩ := of_read h
      have hname := SettingKey.name_of_ofName? hnamed
      dsimp only
      by_cases hsame : named = key
      · subst hsame
        rw [if_pos hname, hvalue]
      · rw [get?_of_ne (hkey ▸ hsame), if_neg]
        exact fun heq => hsame (SettingKey.name_injective (hname.symm.trans heq))
    · cases h

end Assignment

/-! ## All steps -/

namespace Settings

/-- **Values put over settings**, one after another: the last one that is given decides. -/
theorem get_foldl {α : Type} {put : Settings → α → Settings}
    {given : α → (key : SettingKey) → Option key.Value} {items : List α}
    (hput : ∀ a ∈ items, ∀ s key, (put s a).get key = (given a key).getD (s.get key))
    (s : Settings) (key : SettingKey) :
    (items.foldl put s).get key = (items.reverse.findSome? (given · key)).getD (s.get key) := by
  induction items generalizing s with
  | nil => rfl
  | cons a rest ih =>
    obtain ⟨ha, hrest⟩ := List.forall_mem_cons.mp hput
    rw [List.foldl_cons, ih hrest, ha, List.reverse_cons, List.findSome?_append,
      List.findSome?_singleton]
    cases rest.reverse.findSome? (given · key) <;> rfl

/-- Files that can be read are put over settings in their order. -/
theorem applyFiles_eq {fs : FileSystem} {files : List Path} {layers : List Layer}
    (h : files.mapM (Layer.ofFile fs) = .ok layers) (s : Settings) :
    applyFiles fs s files = .ok (layers.foldl apply s) := by
  induction files generalizing s layers with
  | nil =>
    cases h
    rfl
  | cons file rest ih =>
    rw [List.mapM_cons] at h
    obtain ⟨layer, hfile, h⟩ := bind_eq_ok.mp h
    obtain ⟨others, hrest, h⟩ := bind_eq_ok.mp h
    cases h
    rw [applyFiles, hfile]
    exact ih hrest _

/-- Overrides that are valid are applied in their order. -/
theorem override_eq {overrides : List Text}
    (h : ∀ o ∈ overrides, (Assignment.parse o).isOk = true) (s : Settings) :
    s.override overrides = (overrides.foldl (fun s o => (s.override [o]).1) s, none) := by
  induction overrides generalizing s with
  | nil => rfl
  | cons o rest ih =>
    obtain ⟨ho, hrest⟩ := List.forall_mem_cons.mp h
    rcases hparse : Assignment.parse o with e | a
    · rw [hparse] at ho
      cases ho
    · rw [override, hparse, List.foldl_cons, override, hparse]
      exact ih hrest _

/-- **A valid override** gives the setting that it names and leaves the others. -/
theorem get_override {o : Text} (h : (Assignment.parse o).isOk = true) (s : Settings)
    (key : SettingKey) : (s.override [o]).1.get key = (key.givenBy? o).getD (s.get key) := by
  rcases hparse : Assignment.parse o with e | a
  · rw [hparse] at h
    cases h
  · rw [override, hparse, ← Assignment.get?_of_parse hparse]
    exact s.get_assign a key

/-- **Settings follow one precedence**: each has the value that the command line gives it, or else
the one that the last override naming it gives, or else the one that the last file setting it gives,
or else its default. -/
theorem get_of_load {fs : FileSystem} {files : List Path} {layers : List Layer}
    {overrides : List Text} (hfiles : files ≠ [])
    (hlayers : files.mapM (Layer.ofFile fs) = .ok layers)
    (hvalid : ∀ o ∈ overrides, (Assignment.parse o).isOk = true) (places : Places)
    (options : MigrateOptions) :
    ∃ s, load fs places files overrides = .ok s ∧ ∀ key, (options.applyTo s).get key =
      (((options.get? key).or (overrides.reverse.findSome? key.givenBy?)).or
        (layers.reverse.findSome? fun layer => layer.get? key)).getD (get {} key) := by
  obtain ⟨file, rest, rfl⟩ := List.exists_cons_of_ne_nil hfiles
  refine ⟨overrides.foldl (fun s o => (s.override [o]).1) (layers.foldl apply {}), ?_,
    fun key => ?_⟩
  · rw [load]
    refine bind_eq_ok.mpr ⟨_, applyFiles_eq hlayers _, ?_⟩
    simp only [override_eq hvalid]
  · rw [options.get_applyTo, get_foldl (fun o ho s key => get_override (hvalid o ho) s key),
      get_foldl (fun layer _ s key => s.get_apply layer key)]
    rcases options.get? key with _ | v
    · rcases overrides.reverse.findSome? key.givenBy? with _ | v <;> rfl
    · rfl

/-! ### Two files -/

/-- Two settings files that both give the base path. -/
def twoFiles : FileSystem where
  root := .directory [("conf".toList, .directory
    [("a.toml".toList, .file (.text
        "source_dir = \"book\"\nbase_path = \"/en\"\ngenerate_nav = true\n".toList)),
      ("b.toml".toList, .file (.text "base_path = \"/zh\"\njobs = 2\n".toList))])]
  workDir := ["conf".toList]

/-- What they set. -/
def twoLayers : List Layer :=
  [ { sourceDir := some (.ofString "book"), basePath := some "/en".toList
      generateNav := some true },
    { basePath := some "/zh".toList, jobs := some 2 } ]

theorem layers_twoFiles :
    [.ofString "a.toml", .ofString "b.toml"].mapM (Layer.ofFile twoFiles) = .ok twoLayers := by
  have hread : ([.ofString "a.toml", .ofString "b.toml"].mapM (Layer.ofFile twoFiles)).toOption =
      some twoLayers := by decide +kernel
  generalize [.ofString "a.toml", .ofString "b.toml"].mapM (Layer.ofFile twoFiles) = read at hread ⊢
  cases read with
  | error e => cases hread
  | ok layers => exact congrArg Except.ok (Option.some.inj hread)

/-- Two overrides give the number of workers, one takes the base path back, and the command line
switches the navigation bar off. -/
theorem get_of_load_twoFiles :
    ∃ s, load twoFiles { workDir := .ofString "", userDir := none }
        [.ofString "a.toml", .ofString "b.toml"]
        ["jobs=3".toList, "base_path=".toList, "jobs = 4".toList] = .ok s ∧
      ∀ key, (({ noNav := true } : MigrateOptions).applyTo s).get key =
        (((({ noNav := true } : MigrateOptions).get? key).or
          (["jobs=3".toList, "base_path=".toList, "jobs = 4".toList].reverse.findSome?
            key.givenBy?)).or
          (twoLayers.reverse.findSome? fun layer => layer.get? key)).getD (get {} key) :=
  get_of_load (List.cons_ne_nil _ _) layers_twoFiles (by decide +kernel) _ _

end Settings

end BookSite
