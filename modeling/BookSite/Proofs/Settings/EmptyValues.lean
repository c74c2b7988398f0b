import BookSite.Proofs.CommandLine.Collected
import BookSite.Proofs.Settings.Precedence

/-!
# Proofs/Settings/EmptyValues — where empty values come from

An override takes an optional setting back when its text is empty, and refuses to ask for no
workers.  A settings file does neither of these, and a command line does not with the base path and
the workers.  So settings hold an empty value exactly when the last source that gives it is such a
file or command line.
-/

namespace BookSite

/-! ## Empty values -/

/-- **An empty value**: an empty path or text, or no workers.  A missing value is not empty. -/
def SettingKey.IsEmptyValue : (key : SettingKey) → key.Value → Prop
  | sourceDir, v | targetDir, v | includingFilesDir, v => v = some (Path.mk [])
  | basePath, v | siteBase, v => v = some ([] : Text)
  | jobs, v => v = some 0
  | includeMode, _ | filesOnly, _ | generateNav, _ | overwriteHomePage, _ => False

/-- The defaults hold no empty value. -/
theorem Settings.not_isEmptyValue_default (key : SettingKey) :
    ¬key.IsEmptyValue (Settings.get {} key) := by
  cases key <;> rintro ⟨⟩

/-! ## Sources of settings -/

namespace Settings

/-- **A source of settings**: the layer of a file, an override, or what a command line gives. -/
inductive Source where
  | file (layer : Layer)
  | override (text : Text)
  | commandLine (options : MigrateOptions)

namespace Source

/-- **A source that can come up**: the layer is read from a file, the override is valid, and the
options are read from a command line. -/
inductive Arises : Source → Prop
  | file {fs : FileSystem} {path : Path} {layer : Layer} (h : Layer.ofFile fs path = .ok layer) :
      Arises (.file layer)
  | override {o : Text} (h : (Assignment.parse o).isOk = true) : Arises (.override o)
  | commandLine {args : List Text} {invocation : Invocation} {options : MigrateOptions}
      (h : CommandLine.parse args = .ok invocation)
      (hmigrate : invocation.command = .migrate options) : Arises (.commandLine options)

/-- Put a source over settings. -/
def putOver (s : Settings) : Source → Settings
  | file layer => s.apply layer
  | override o => (s.override [o]).1
  | commandLine options => options.applyTo s

/-- The value that a source gives to a setting. -/
def given? : Source → (key : SettingKey) → Option key.Value
  | file layer, key => layer.get? key
  | override o, key => key.givenBy? o
  | commandLine options, key => options.get? key

/-- **The sources that give an empty value**: a file may give any, a command line only an empty base
path or no workers, and an override none. -/
def GivesEmpty : Source → SettingKey → Prop
  | file layer, key => ∃ v, layer.get? key = some v ∧ key.IsEmptyValue v
  | commandLine options, .basePath => options.basePath = some []
  | commandLine options, .jobs => options.jobs = some 0
  | _, _ => False

theorem get_putOver {source : Source} (h : source.Arises) (s : Settings) (key : SettingKey) :
    (putOver s source).get key = (source.given? key).getD (s.get key) := by
  cases h with
  | file h => exact s.get_apply _ key
  | override h => exact get_override h s key
  | commandLine h hmigrate => exact MigrateOptions.get_applyTo _ s key

end Source

end Settings

/-! ## One source -/

/-- A text that stands for no value when it is empty stands for no empty value. -/
theorem ite_ne_some_empty {α : Type} {f : Text → α} (hf : Function.Injective f) (t : Text) :
    (if t = [] then none else some (f t)) ≠ some (f []) := by
  by_cases ht : t = []
  · rw [if_pos ht]
    exact (Option.some_ne_none _).symm
  · rw [if_neg ht]
    exact fun hempty => ht (hf (Option.some.inj hempty))

/-- The texts of overrides stand for no empty values. -/
theorem SettingKey.not_isEmptyValue_of_ofText? {key : SettingKey} {t : Text} {v : key.Value}
    (h : key.ofText? t = some v) : ¬key.IsEmptyValue v := by
  cases key with
  | sourceDir | targetDir | includingFilesDir =>
    cases h
    exact ite_ne_some_empty (fun _ _ => Path.mk.inj) t
  | basePath | siteBase =>
    cases h
    exact ite_ne_some_empty Function.injective_id t
  | jobs =>
    rintro rfl
    change jobsOfText? t = some (some 0) at h
    unfold jobsOfText? at h
    split at h
    · cases h
    · split at h <;> cases h
  | includeMode | filesOnly | generateNav | overwriteHomePage => exact id

theorem SettingKey.not_isEmptyValue_of_givenBy? {key : SettingKey} {o : Text} {v : key.Value}
    (h : key.givenBy? o = some v) : ¬key.IsEmptyValue v := by
  unfold givenBy? at h
  split at h
  · split at h
    · exact not_isEmptyValue_of_ofText? h
    · cases h
  · cases h

/-- A value that is there is the value of an option that is set. -/
theorem exists_map_some_iff {α : Type} {x : Option α} {a : α} :
    (∃ v, x.map some = some v ∧ v = some a) ↔ x = some a := by
  simp

namespace Settings.Source

/-- **A command line** gives no empty path. -/
theorem givesEmpty_commandLine_iff {options : MigrateOptions}
    (h : CommandLine.NoEmptyPath options) (key : SettingKey) :
    (∃ v, options.get? key = some v ∧ key.IsEmptyValue v) ↔
      (commandLine options).GivesEmpty key := by
  have hpath : ∀ x : Option Path, (∀ p ∈ x, p.text ≠ []) →
      ((∃ v, x.map some = some v ∧ v = some (Path.mk [])) ↔ False) := by
    intro x hx
    rw [exists_map_some_iff, iff_false]
    rintro rfl
    exact hx _ rfl rfl
  cases key with
  | sourceDir => exact hpath options.source h.source
  | targetDir => exact hpath options.target h.target
  | includingFilesDir => exact hpath options.includingFilesDir h.includingFilesDir
  | basePath | jobs => exact exists_map_some_iff
  | siteBase => exact iff_of_false (by rintro ⟨_, ⟨⟩, -⟩) id
  | includeMode | filesOnly | generateNav | overwriteHomePage =>
    exact iff_of_false (fun ⟨_, _, hempty⟩ => hempty) id

/-- **One source** gives an empty value exactly when it is one of those that do. -/
theorem givesEmpty_iff {source : Source} (h : source.Arises) (key : SettingKey) :
    (∃ v, source.given? key = some v ∧ key.IsEmptyValue v) ↔ source.GivesEmpty key := by
  cases h with
  | file h => exact Iff.rfl
  | override h =>
    refine iff_of_false ?_ id
    rintro ⟨v, hgiven, hempty⟩
    exact SettingKey.not_isEmptyValue_of_givenBy? hgiven hempty
  | @commandLine _ _ options h hmigrate =>
    exact givesEmpty_commandLine_iff (CommandLine.noEmptyPath_of_parse h hmigrate) key

end Settings.Source

/-! ## All sources -/

namespace Settings

/-- The last value that is found stands behind the others. -/
theorem findSome?_reverse_eq_some_iff {α β : Type} {f : α → Option β} {xs : List α} {b : β} :
    xs.reverse.findSome? f = some b ↔
      ∃ before a after, xs = before ++ a :: after ∧ f a = some b ∧ ∀ x ∈ after, f x = none := by
  rw [List.findSome?_eq_some_iff]
  constructor
  · rintro ⟨after, a, before, hsplit, ha, hafter⟩
    refine ⟨before.reverse, a, after.reverse, ?_, ha, fun x hx => hafter x (List.mem_reverse.mp hx)⟩
    rw [← List.reverse_reverse xs, hsplit]
    simp
  · rintro ⟨before, a, after, rfl, ha, hafter⟩
    exact ⟨after.reverse, a, before.reverse, by simp, ha,
      fun x hx => hafter x (List.mem_reverse.mp hx)⟩

/-- **Where empty values come from**: whatever sources are put over the defaults, a setting holds an
empty value exactly when the last source that gives it a value gives an empty one, and that is a
settings file, or a command line with an empty base path or no workers. -/
theorem holds_empty_value_iff {sources : List Source} (h : ∀ source ∈ sources, source.Arises)
    (key : SettingKey) :
    key.IsEmptyValue ((sources.foldl Source.putOver {}).get key) ↔
      ∃ before source after, sources = before ++ source :: after ∧ source.GivesEmpty key ∧
        ∀ later ∈ after, later.given? key = none := by
  -- The defaults hold no empty value, so some source has given it, and the last one counts.
  have hlast : key.IsEmptyValue ((sources.foldl Source.putOver {}).get key) ↔
      ∃ v, sources.reverse.findSome? (Source.given? · key) = some v ∧ key.IsEmptyValue v := by
    rw [get_foldl (fun source hs s key => Source.get_putOver (h source hs) s key)]
    cases sources.reverse.findSome? (Source.given? · key) with
    | none => exact iff_of_false (not_isEmptyValue_default key) (by rintro ⟨_, ⟨⟩, -⟩)
    | some v => exact ⟨fun hv => ⟨v, rfl, hv⟩, by rintro ⟨_, ⟨⟩, hv⟩; exact hv⟩
  simp only [hlast, findSome?_reverse_eq_some_iff]
  constructor
  · rintro ⟨v, ⟨before, source, after, rfl, hgiven, hafter⟩, hv⟩
    have hsource := h source (by simp)
    exact ⟨before, source, after, rfl, (Source.givesEmpty_iff hsource key).mp ⟨v, hgiven, hv⟩,
      hafter⟩
  · rintro ⟨before, source, after, rfl, hempty, hafter⟩
    have hsource := h source (by simp)
    obtain ⟨v, hgiven, hv⟩ := (Source.givesEmpty_iff hsource key).mpr hempty
    exact ⟨v, ⟨before, source, after, rfl, hgiven, hafter⟩, hv⟩

/-! ### A file and a command line -/

/-- A settings file with an empty directory of included files. -/
def emptyDirFile : FileSystem where
  root := .directory [("a.toml".toList, .file (.text "including_files_dir = \"\"\n".toList))]
  workDir := []

/-- What it sets. -/
def emptyDirLayer : Layer := { includingFilesDir := some ⟨[]⟩ }

theorem ofFile_emptyDirFile :
    Layer.ofFile emptyDirFile (.ofString "a.toml") = .ok emptyDirLayer := by
  have hread : (Layer.ofFile emptyDirFile (.ofString "a.toml")).toOption =
      some emptyDirLayer := by decide +kernel
  generalize Layer.ofFile emptyDirFile (.ofString "a.toml") = read at hread ⊢
  cases read with
  | error e => cases hread
  | ok layer => exact congrArg Except.ok (Option.some.inj hread)

/-- A command line that asks for no workers. -/
theorem parse_noWorkers :
    CommandLine.parse ["migrate".toList, "--jobs".toList, "0".toList] =
      .ok ⟨.migrate { jobs := some 0 }, false, [], []⟩ := by
  rfl

/-- That file, an override and that command line. -/
def threeSources : List Source :=
  [.file emptyDirLayer, .override "jobs=3".toList, .commandLine { jobs := some 0 }]

theorem arises_threeSources : ∀ source ∈ threeSources, source.Arises := by
  simp only [threeSources, List.forall_mem_cons]
  exact ⟨.file ofFile_emptyDirFile, .override (by decide +kernel), .commandLine parse_noWorkers rfl,
    List.forall_mem_nil _⟩

/-- The empty directory of the file stays, and no workers take the place of the three. -/
theorem holds_empty_value_iff_threeSources :
    (∀ source ∈ threeSources, source.Arises) ∧
      SettingKey.IsEmptyValue .includingFilesDir
        ((threeSources.foldl Source.putOver {}).get .includingFilesDir) ∧
      SettingKey.IsEmptyValue .jobs ((threeSources.foldl Source.putOver {}).get .jobs) := by
  refine ⟨arises_threeSources, (holds_empty_value_iff arises_threeSources _).mpr ?_,
    (holds_empty_value_iff arises_threeSources _).mpr ?_⟩
  · refine ⟨[], _, _, rfl, ⟨_, rfl, rfl⟩, ?_⟩
    simp only [List.forall_mem_cons]
    exact ⟨by decide +kernel, rfl, List.forall_mem_nil _⟩
  · exact ⟨[.file emptyDirLayer, .override "jobs=3".toList], .commandLine { jobs := some 0 }, [],
      rfl, rfl, List.forall_mem_nil _⟩

/-- **Settings can hold an empty value**: that of a file is kept. -/
theorem empty_value_held_emptyDirFile :
    ¬∀ sources : List Source, (∀ source ∈ sources, source.Arises) → ∀ key : SettingKey,
      ¬key.IsEmptyValue ((sources.foldl Source.putOver {}).get key) := by
  intro h
  refine h [.file emptyDirLayer] ?_ .includingFilesDir rfl
  exact List.forall_mem_singleton.mpr (.file ofFile_emptyDirFile)

end Settings

end BookSite
