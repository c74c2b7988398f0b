import BookSite.CommandLine.Command
import BookSite.Migration.Run
import BookSite.Settings.Load

/-!
# CommandLine/Program — what the program does with a command line

A run reads the arguments, performs the command on the files and ends with a text for the standard
output or with the reason why it failed.
-/

namespace BookSite

namespace CommandLine

/-- How a run ends. -/
inductive Outcome where
  /-- with a text for the standard output -/
  | done (output : Text)
  /-- the arguments make no command -/
  | refused (why : ArgumentError)
  | failed (why : Failure)
  deriving DecidableEq, Repr

/-- The name and version of the program. -/
def versionLine : Text := "bookpress 0.3.0\n".toList

/-- The commands in a few lines. -/
def usage : Text :=
  ("Usage: bookpress [-v] [-c FILE]... [--config KEY=VALUE]... COMMAND\n\n" ++
    "Commands:\n" ++
    "  migrate [TARGET] [SOURCE]  turn a book into a site\n" ++
    "  convert FILE               convert one page\n" ++
    "  summary FILE               show the outline of a book\n" ++
    "  init                       write the default settings\n").toList

namespace Outcome

/-- The code that a run ends with. -/
def code : Outcome → Nat
  | done _ | refused .helpAsked | refused .versionAsked => 0
  | refused _ => 2
  | failed _ => 1

/-- The text on the standard output. -/
def output : Outcome → Text
  | done t => t
  | refused .versionAsked => versionLine
  | refused .helpAsked => usage
  | refused _ | failed _ => []

/-- The failure as a chain of texts, the widest view first. -/
def errors : Outcome → List Text
  | failed why => why.chain
  | done _ | refused _ => []

end Outcome

/-! ## Commands -/

/-- Load the settings that a command line asks for. -/
def loadSettings (places : Settings.Places) (files : List Path) (overrides : List Text) :
    FileAction Settings :=
  FileAction.inspect fun fs =>
    match Settings.load fs places files overrides with
    | .ok s => .ok s
    | .error e => .error (.settings e)

/-- Write the default settings.  A file that is there is kept unless it is to be replaced. -/
def writeSettings (output : Path) (format : SettingsFormat) (force : Bool) : FileAction Unit := do
  if (← get).pathExists output && !force then throw (.settingsExist output)
  match output.parent? with
  | some dir =>
    if !dir.text.isEmpty && !(← get).pathExists dir then
      FileAction.createDirAll (.createDir dir) dir
  | none => pure ()
  match Settings.writeDefault (← get) format.name output with
  | .ok fs => set fs
  | .error e => throw (.during (.writeSettings output) (.settings e))

/-- The outline in a file, or its sidebar, as indented JSON. -/
def showOutline (file : Path) (sidebar : Bool) (base : Option Text) (fs : FileSystem) :
    Except Failure Text :=
  match fs.readText file with
  | .error e => .error (.during (.readFile file) (.file e))
  | .ok t =>
    let outline := Outline.parse t
    let items := if sidebar then Site.SidebarItem.toJsons (Site.sidebar base outline)
      else Chapter.toJsons outline
    .ok ((Json.array items).pretty 0 ++ ['\n'])

/-- **Perform a command**; the answer is the text for the standard output. -/
def perform (places : Settings.Places) (invocation : Invocation) : FileAction Text := do
  let settings := loadSettings places invocation.settingsFiles invocation.overrides
  match invocation.command with
  | .init output format force =>
    writeSettings output format force
    pure []
  | .summary file sidebar base => FileAction.inspect (showOutline file sidebar base)
  | .convert file output mode =>
    let pipeline := Pipeline.standard (mode.getD (← settings).includeMode)
    match output with
    | none => FileAction.inspect (Migration.convertedPage pipeline file)
    | some dest =>
      Migration.convertPageTo pipeline file dest
      pure []
  | .migrate options =>
    let _ ← Migration.migrate (options.applyTo (← settings))
    pure []

/-- **Run the program** with arguments on files. -/
def run (places : Settings.Places) (args : List Text) (fs : FileSystem) : Outcome × FileSystem :=
  match parse args with
  | .error why => (.refused why, fs)
  | .ok invocation =>
    match (perform places invocation).runOn fs with
    | (.ok t, fs) => (.done t, fs)
    | (.error why, fs) => (.failed why, fs)

end CommandLine

end BookSite
