import BookSite.Json.Reader
import BookSite.Settings.Basic
import BookSite.Settings.Error
import BookSite.Toml.Reader

/-!
# Settings/File — layers from settings files

A settings file is JSON or TOML, as its extension says.  Keys that name no setting are passed over;
a setting must have a value of its sort.  In JSON `null` leaves a setting unset, no key of the
object may come twice if it names a setting, and a list gives the values of the settings in their
order.
-/

namespace BookSite.Layer

/-! ## TOML -/

/-- Read a value if there is one; a value that is refused refuses the whole. -/
def readField {α : Type} (read? : Toml → Option α) : Option Toml → Option (Option α)
  | none => some none
  | some v => (read? v).map some

/-- An include mode: its name, or a table of that name alone with nothing in it. -/
def tomlMode? : Toml → Option IncludeMode
  | .string s => IncludeMode.ofName? s
  | .table [(name, .table [])] | .table [(name, .array [])] => IncludeMode.ofName? name
  | _ => none

/-- A number of workers. -/
def tomlCount? : Toml → Option Nat
  | .integer (.ofNat n) => if n ≤ maxCount then some n else none
  | _ => none

/-- **The layer of a TOML document.** -/
def ofToml? (fields : List (Text × Toml)) : Option Layer := do
  let get (key : SettingKey) : Option Toml := fields.lookup key.name
  if !fields.all fun (_, v) => v.isReadable then none
  some
    { sourceDir := (← readField Toml.text? (get .sourceDir)).map Path.mk
      targetDir := (← readField Toml.text? (get .targetDir)).map Path.mk
      includeMode := ← readField tomlMode? (get .includeMode)
      filesOnly := ← readField Toml.bool? (get .filesOnly)
      generateNav := ← readField Toml.bool? (get .generateNav)
      includingFilesDir := (← readField Toml.text? (get .includingFilesDir)).map Path.mk
      basePath := ← readField Toml.text? (get .basePath)
      siteBase := ← readField Toml.text? (get .siteBase)
      jobs := ← readField tomlCount? (get .jobs)
      overwriteHomePage := ← readField Toml.bool? (get .overwriteHomePage) }

/-! ## JSON -/

/-- Read a value that may be missing or null. -/
def readSource {α : Type} (read? : Json.Source → Option α) :
    Option Json.Source → Option (Option α)
  | none | some .null => some none
  | some v => (read? v).map some

/-- The text of a string. -/
def jsonText? : Json.Source → Option Text
  | .string text => text
  | _ => none

/-- A truth value. -/
def jsonBool? : Json.Source → Option Bool
  | .bool b => some b
  | _ => none

/-- A number of workers. -/
def jsonCount? : Json.Source → Option Nat
  | .number (some (.integer (.ofNat n))) => some n
  | _ => none

/-- An include mode: its name, or an object with that name for `null` alone. -/
def jsonMode? : Json.Source → Option IncludeMode
  | .string (some name) => IncludeMode.ofName? name
  | .object [(some name, .null)] => IncludeMode.ofName? name
  | _ => none

/-- The layer whose settings have the given values. -/
def ofSources? (get : SettingKey → Option Json.Source) : Option Layer := do
  some
    { sourceDir := (← readSource jsonText? (get .sourceDir)).map Path.mk
      targetDir := (← readSource jsonText? (get .targetDir)).map Path.mk
      includeMode := ← readSource jsonMode? (get .includeMode)
      filesOnly := ← readSource jsonBool? (get .filesOnly)
      generateNav := ← readSource jsonBool? (get .generateNav)
      includingFilesDir := (← readSource jsonText? (get .includingFilesDir)).map Path.mk
      basePath := ← readSource jsonText? (get .basePath)
      siteBase := ← readSource jsonText? (get .siteBase)
      jobs := ← readSource jsonCount? (get .jobs)
      overwriteHomePage := ← readSource jsonBool? (get .overwriteHomePage) }

/-- **The layer of a JSON value.** -/
def ofJson? : Json.Source → Option Layer
  | .object fields => do
    let fields ← fields.mapM fun (name, v) => name.map fun n => (n, v)
    let known := (fields.map Prod.fst).filter fun n => (SettingKey.ofName? n).isSome
    if !decide known.Nodup then none
    ofSources? fun key => fields.lookup key.name
  | .array items =>
    if items.length > SettingKey.all.length then none
    else ofSources? fun key => (SettingKey.all.zip items).lookup key
  | _ => none

/-! ## Files -/

/-- The layer of a text in a format. -/
def parse? (format : SettingsFormat) (t : Text) : Option Layer :=
  match format with
  | .json => (Json.Source.parse? t).bind ofJson?
  | .toml => (Toml.parse? t).bind ofToml?

/-- **Read the layer of a file.** -/
def ofFile (fs : FileSystem) (file : Path) : Except SettingsError Layer :=
  match fs.readText file with
  | .error cause => .error (.unreadable file cause)
  | .ok t =>
    match file.extension? with
    | none => .error (.noExtension file)
    | some extension =>
      match SettingsFormat.ofName? extension with
      | none => .error (.unknownFormat file)
      | some format =>
        match parse? format t with
        | none => .error (.malformed format file)
        | some layer => .ok layer

end BookSite.Layer
