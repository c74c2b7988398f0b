import BookSite.Settings.Basic
import BookSite.Settings.Error

/-!
# Settings/Override — settings given as `KEY=VALUE`

An override names a setting and gives its value as a text, with blanks around both ignored.  An
empty value takes an optional setting back.  Whether an override is valid depends on nothing but
itself.
-/

namespace BookSite

/-- A setting with a value for it. -/
inductive Assignment where
  | sourceDir (value : Option Path)
  | targetDir (value : Option Path)
  | includeMode (value : IncludeMode)
  | filesOnly (value : Bool)
  | generateNav (value : Bool)
  | includingFilesDir (value : Option Path)
  | basePath (value : Option Text)
  | siteBase (value : Option Text)
  | jobs (value : Option Nat)
  | overwriteHomePage (value : Bool)
  deriving DecidableEq, Repr

namespace Assignment

/-- The setting that is assigned to. -/
def key : Assignment → SettingKey
  | sourceDir _ => .sourceDir
  | targetDir _ => .targetDir
  | includeMode _ => .includeMode
  | filesOnly _ => .filesOnly
  | generateNav _ => .generateNav
  | includingFilesDir _ => .includingFilesDir
  | basePath _ => .basePath
  | siteBase _ => .siteBase
  | jobs _ => .jobs
  | overwriteHomePage _ => .overwriteHomePage

/-- A value that an empty text takes back. -/
def optional (value : Text) : Option Text := if value.isEmpty then none else some value

/-- Read a truth value. -/
def bool? (value : Text) : Option Bool :=
  let v := value.toLower
  if v == "true".toList || v == "yes".toList || v == ['1'] then some true
  else if v == "false".toList || v == "no".toList || v == ['0'] then some false
  else none

/-- Read a truth value for a setting. -/
def readBool (key : SettingKey) (value : Text) : Except SettingsError Bool :=
  match bool? value with
  | some b => .ok b
  | none => .error (.badBoolean key.name value)

/-- Read a number of workers: at least one, or none for an empty text. -/
def readJobs (value : Text) : Except SettingsError (Option Nat) :=
  if value.isEmpty then .ok none
  else match value.toCount? with
    | some (n + 1) => .ok (some (n + 1))
    | _ => .error (.badJobs SettingKey.jobs.name value)

/-- Read an include mode. -/
def readMode (value : Text) : Except SettingsError IncludeMode :=
  match IncludeMode.parse? value with
  | some mode => .ok mode
  | none => .error (.badIncludeMode SettingKey.includeMode.name value)

/-- **Read the value of a setting.** -/
def read (key : SettingKey) (value : Text) : Except SettingsError Assignment :=
  match key with
  | .sourceDir => .ok (sourceDir ((optional value).map Path.mk))
  | .targetDir => .ok (targetDir ((optional value).map Path.mk))
  | .includingFilesDir => .ok (includingFilesDir ((optional value).map Path.mk))
  | .basePath => .ok (basePath (optional value))
  | .siteBase => .ok (siteBase (optional value))
  | .filesOnly => (readBool key value).map filesOnly
  | .generateNav => (readBool key value).map generateNav
  | .overwriteHomePage => (readBool key value).map overwriteHomePage
  | .includeMode => (readMode value).map includeMode
  | .jobs => (readJobs value).map jobs

/-- Read a key and a value. -/
def ofPair (key value : Text) : Except SettingsError Assignment :=
  match SettingKey.ofName? key with
  | some k => read k value
  | none => .error (.unknownKey key)

/-- **Read an override.**  The key ends at the first equals sign. -/
def parse (override : Text) : Except SettingsError Assignment :=
  match override.splitOnce '=' with
  | none => .error (.notAnAssignment override)
  | some (key, value) => ofPair key.trim value.trim

end Assignment

namespace Settings

/-- **Assign a value to a setting.** -/
def assign (s : Settings) : Assignment → Settings
  | .sourceDir v => { s with sourceDir := v }
  | .targetDir v => { s with targetDir := v }
  | .includeMode v => { s with includeMode := v }
  | .filesOnly v => { s with filesOnly := v }
  | .generateNav v => { s with generateNav := v }
  | .includingFilesDir v => { s with includingFilesDir := v }
  | .basePath v => { s with basePath := v }
  | .siteBase v => { s with siteBase := v }
  | .jobs v => { s with jobs := v }
  | .overwriteHomePage v => { s with overwriteHomePage := v }

/-- **Apply overrides in their order.**  The first one that is refused stops the rest; what came
before it stays applied. -/
def override (s : Settings) : List Text → Settings × Option SettingsError
  | [] => (s, none)
  | o :: rest =>
    match Assignment.parse o with
    | .ok a => (s.assign a).override rest
    | .error e => (s, some e)

end Settings

end BookSite
