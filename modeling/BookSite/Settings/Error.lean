import BookSite.Files.System
import BookSite.Markdown.Stage

/-!
# Settings/Error — why settings are refused

Every refusal has a cause and a wording.  What exactly is wrong in a file that cannot be parsed is
not told.
-/

namespace BookSite

/-- The formats of settings files. -/
inductive SettingsFormat where
  | json
  | toml
  deriving DecidableEq, Repr

namespace SettingsFormat

/-- The name of a format. -/
def name : SettingsFormat → Text
  | json => "json".toList
  | toml => "toml".toList

/-- The name of a format in messages. -/
def title : SettingsFormat → Text
  | json => "JSON".toList
  | toml => "TOML".toList

/-- The format that an extension or a name stands for; letter case does not matter. -/
def ofName? (t : Text) : Option SettingsFormat :=
  [json, toml].find? (·.name == t.toLower)

end SettingsFormat

/-- Why settings are refused. -/
inductive SettingsError where
  | unreadable (file : Path) (cause : FileError)
  | malformed (format : SettingsFormat) (file : Path)
  | unknownFormat (file : Path)
  | noExtension (file : Path)
  /-- a file that was found and not asked for is refused -/
  | discovered (file : Path) (cause : SettingsError)
  | notAnAssignment (override : Text)
  | unknownKey (key : Text)
  | badBoolean (key value : Text)
  | badIncludeMode (key value : Text)
  | badJobs (key value : Text)
  | unwritable (file : Path) (cause : FileError)
  | unknownTemplate (format : Text)
  deriving DecidableEq, Repr

namespace SettingsError

/-- Whether a refusal is about a template and not about settings. -/
def isTemplate : SettingsError → Bool
  | unknownTemplate _ => true
  | _ => false

/-- A text in single quotes. -/
def quoted (t : Text) : Text := '\'' :: t ++ ['\'']

/-- **The wording of a refusal.** -/
def message : SettingsError → Text
  | unreadable file cause =>
    "Configuration error: Failed to read config file: ".toList ++ file.text ++ ": ".toList
      ++ cause.message
  | malformed format file =>
    "Configuration error: Failed to parse ".toList ++ format.title ++ " config from ".toList
      ++ file.text ++ [':']
  | unknownFormat file =>
    "Configuration error: Unsupported config file format: ".toList ++ file.text
  | noExtension file => "Configuration error: Config file has no extension: ".toList ++ file.text
  | discovered file cause =>
    "Configuration error: Failed to load discovered config from ".toList ++ file.text ++ ": ".toList
      ++ cause.message
  | notAnAssignment override =>
    "Configuration error: Invalid config override format: ".toList ++ quoted override
      ++ ". Expected KEY=VALUE".toList
  | unknownKey key =>
    "Configuration error: Unknown configuration key: ".toList ++ quoted key
      ++ ". See documentation for supported keys.".toList
  | badBoolean key value =>
    "Configuration error: Invalid boolean value for ".toList ++ quoted key ++ ": ".toList
      ++ quoted value ++ ". Expected true/false, yes/no, or 1/0".toList
  | badIncludeMode key value =>
    "Configuration error: Invalid value for ".toList ++ quoted key ++ ": ".toList ++ quoted value
      ++ " - ".toList ++ IncludeMode.unknownMessage value
  | badJobs key value =>
    "Configuration error: Invalid value for ".toList ++ quoted key ++ ": ".toList ++ quoted value
      ++ ". Expected a positive integer".toList
  | unwritable file cause =>
    "Configuration error: Failed to write default config to ".toList ++ file.text ++ ": ".toList
      ++ cause.message
  | unknownTemplate format => "Template error: Unsupported template format: ".toList ++ format

end SettingsError

end BookSite
