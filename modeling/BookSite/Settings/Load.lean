import BookSite.Settings.File
import BookSite.Settings.Override
import BookSite.Site.Template

/-!
# Settings/Load — where settings come from

Settings are the defaults, then the layers of the files that are asked for in their order, then the
overrides.  When no file is asked for, the first settings file found in the usual places counts as
one.
-/

namespace BookSite.Settings

/-- The names under which a settings file is looked for, in the order in which they are tried. -/
def fileNames : List Path :=
  [ .ofString "bookpress.toml", .ofString "bookpress.json", .ofString ".bookpress.toml",
    .ofString ".bookpress.json", .ofString ".config/bookpress.toml",
    .ofString ".config/bookpress.json" ]

/-- **The settings file of a directory.** -/
def findIn? (fs : FileSystem) (dir : Path) : Option Path :=
  (fileNames.map dir.join).find? fs.isFile

/-- The settings file in the configuration directory of the user. -/
def findForUser? (fs : FileSystem) (userDir : Option Path) : Option Path := do
  let dir ← userDir
  [Path.ofString "bookpress.toml", .ofString "bookpress.json"].map dir.join |>.find? fs.pathExists

/-- The directories in which a settings file is looked for. -/
structure Places where
  /-- the working directory, by the path it is shown with -/
  workDir : Path
  /-- the configuration directory of the user -/
  userDir : Option Path
  deriving DecidableEq, Repr

/-- The settings file in the usual places: the working directory, then the user's directory. -/
def discover? (fs : FileSystem) (places : Places) : Option Path :=
  (findIn? fs places.workDir).or (findForUser? fs places.userDir)

/-- Put the layers of files over settings, in their order. -/
def applyFiles (fs : FileSystem) : Settings → List Path → Except SettingsError Settings
  | s, [] => .ok s
  | s, file :: rest => do applyFiles fs (s.apply (← Layer.ofFile fs file)) rest

/-- **Load settings.** -/
def load (fs : FileSystem) (places : Places) (files : List Path) (overrides : List Text) :
    Except SettingsError Settings := do
  let s ← match files with
    | _ :: _ => applyFiles fs {} files
    | [] =>
      match discover? fs places with
      | none => .ok {}
      | some file =>
        match Layer.ofFile fs file with
        | .ok layer => .ok (({} : Settings).apply layer)
        | .error e => .error (.discovered file e)
  match s.override overrides with
  | (s, none) => .ok s
  | (_, some e) => .error e

/-- **Write the default settings** in a format to a file. -/
def writeDefault (fs : FileSystem) (format : Text) (file : Path) :
    Except SettingsError FileSystem :=
  match SettingsFormat.ofName? format with
  | none => .error (.unknownTemplate format)
  | some f =>
    let t := match f with
      | .toml => Site.defaultTomlTemplate
      | .json => Site.defaultJsonTemplate
    match fs.writeFile file (.text t) with
    | .ok fs => .ok fs
    | .error cause => .error (.unwritable file cause)

end BookSite.Settings
