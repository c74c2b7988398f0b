import BookSite.Markdown.Stage
import BookSite.Settings.Error

/-!
# Migration/Failure — why the program stops

A failure says what was being done and what went wrong then.  It is reported as a chain of texts,
the widest view first.
-/

namespace BookSite

/-- What was being done when something went wrong. -/
inductive Activity where
  | readPage (page : Path)
  | convertPage (page : Path)
  | createOutputDir (dir : Path)
  | createTargetDir (dir : Path)
  | createDir (dir : Path)
  | writeFile (file : Path)
  | writeHomePage (file : Path)
  | copyDir (source target : Path)
  | readFile (file : Path)
  | writeSettings (file : Path)
  deriving DecidableEq, Repr

/-- What went wrong. -/
inductive Cause where
  | file (e : FileError)
  | stage (e : StageError)
  | copy (e : FileError)
  | settings (e : SettingsError)
  deriving DecidableEq, Repr

/-- Why the program stops. -/
inductive Failure where
  | noTarget
  | sourceMissing (dir : Path)
  | pagesMissing (dir : Path)
  | settingsExist (file : Path)
  | settings (e : SettingsError)
  | during (activity : Activity) (cause : Cause)
  deriving DecidableEq, Repr

namespace Activity

/-- The wording of a failed activity. -/
def message : Activity → Text
  | readPage page => "Failed to read markdown file: ".toList ++ page.text
  | convertPage page => "Failed to convert ".toList ++ page.text
  | createOutputDir dir => "Failed to create output directory: ".toList ++ dir.text
  | createTargetDir dir => "Failed to create target directory: ".toList ++ dir.text
  | createDir dir => "Failed to create directory: ".toList ++ dir.text
  | writeFile file => "Failed to write ".toList ++ file.text
  | writeHomePage file => "Failed to write home page: ".toList ++ file.text
  | copyDir source target =>
    "Failed to copy ".toList ++ source.text ++ " to ".toList ++ target.text
  | readFile file => "Failed to read ".toList ++ file.text
  | writeSettings file => "Failed to generate configuration file: ".toList ++ file.text

end Activity

namespace Cause

/-- The wording of a cause.  When a directory is copied, only two causes are told apart. -/
def message : Cause → Text
  | file e => e.message
  | stage e => e.message
  | copy .notFound => FileError.notFound.message
  | copy .alreadyExists => FileError.alreadyExists.message
  | copy _ => "Io error".toList
  | settings e => e.message

end Cause

namespace Failure

/-- **The wording of a failure**, the widest view first. -/
def chain : Failure → List Text
  | noTarget => ["No target directory given".toList]
  | sourceMissing dir => ["Source directory not found: ".toList ++ dir.text]
  | pagesMissing dir => ["Book source directory not found: ".toList ++ dir.text]
  | settingsExist file =>
    ["Configuration file already exists: ".toList ++ file.text
      ++ ". Use --force to overwrite.".toList]
  | settings e => [e.message]
  | during activity cause => [activity.message, cause.message]

/-- The wording of a failure in one line. -/
def message (f : Failure) : Text := Text.joinWith ": ".toList f.chain

end Failure

end BookSite
