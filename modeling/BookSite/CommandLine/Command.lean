import BookSite.CommandLine.Grammar
import BookSite.Settings.Basic
import BookSite.Settings.Error

/-!
# CommandLine/Command — the commands of the program

There are four commands: `migrate`, `convert`, `summary` and `init`.  Three switches that concern
all of them stand before the name of the command.
-/

namespace BookSite

/-- The switches and arguments of `migrate`. -/
structure MigrateOptions where
  target : Option Path := none
  source : Option Path := none
  filesOnly : Bool := false
  noNav : Bool := false
  includeMode : Option IncludeMode := none
  includingFilesDir : Option Path := none
  basePath : Option Text := none
  jobs : Option Nat := none
  deriving DecidableEq, Repr

/-- **Put what was given on the command line over settings.**  What was not given leaves them as
they are; the flags can only switch files-only on and the navigation bar off. -/
def MigrateOptions.applyTo (o : MigrateOptions) (s : Settings) : Settings :=
  { s with
    targetDir := o.target.or s.targetDir
    sourceDir := o.source.or s.sourceDir
    filesOnly := o.filesOnly || s.filesOnly
    generateNav := !o.noNav && s.generateNav
    includeMode := o.includeMode.getD s.includeMode
    includingFilesDir := o.includingFilesDir.or s.includingFilesDir
    basePath := o.basePath.or s.basePath
    jobs := o.jobs.or s.jobs }

/-- A command. -/
inductive Command where
  /-- turn a book into a site -/
  | migrate (options : MigrateOptions)
  /-- convert one page -/
  | convert (file : Path) (output : Option Path) (includeMode : Option IncludeMode)
  /-- show the outline or the sidebar of a book -/
  | summary (file : Path) (sidebar : Bool) (basePath : Option Text)
  /-- write the default settings -/
  | init (output : Path) (format : SettingsFormat) (force : Bool)
  deriving DecidableEq, Repr

/-- A command with the switches that concern all commands. -/
structure Invocation where
  command : Command
  verbose : Bool
  /-- the settings files, in their order -/
  settingsFiles : List Path
  overrides : List Text
  deriving DecidableEq, Repr

namespace CommandLine

/-! ## Values -/

/-- A path is not empty. -/
def readPath (t : Text) : Except ArgumentError Path :=
  if t.isEmpty then .error .badValue else .ok ⟨t⟩

/-- Any text. -/
def readAny (t : Text) : Except ArgumentError Text := .ok t

/-- A number of workers. -/
def readCount (t : Text) : Except ArgumentError Nat :=
  match t.toCount? with
  | some n => .ok n
  | none => .error .refusedValue

/-- An include mode. -/
def readMode (t : Text) : Except ArgumentError IncludeMode :=
  match IncludeMode.parse? t with
  | some mode => .ok mode
  | none => .error .refusedValue

/-- One of the two formats of settings files, in small letters. -/
def readFormat (t : Text) : Except ArgumentError SettingsFormat :=
  match [SettingsFormat.toml, .json].find? (·.name == t) with
  | some format => .ok format
  | none => .error .badValue

/-! ## The grammar of each command -/

/-- The grammar of `migrate`. -/
def migrateGrammar : Grammar MigrateOptions where
  switches :=
    [ ⟨"files-only".toList, none,
        flagOnce (·.filesOnly) fun o => { o with filesOnly := true }⟩,
      ⟨"no-nav".toList, none, flagOnce (·.noNav) fun o => { o with noNav := true }⟩,
      ⟨"include-mode".toList, none,
        .value (storeOnce (·.includeMode) (fun o m => { o with includeMode := m }) readMode)⟩,
      ⟨"including-files-dir".toList, some 'i',
        .value (storeOnce (·.includingFilesDir)
          (fun o d => { o with includingFilesDir := d }) readPath)⟩,
      ⟨"base-path".toList, none,
        .value (storeOnce (·.basePath) (fun o b => { o with basePath := b }) readAny)⟩,
      ⟨"jobs".toList, some 'p',
        .value (storeOnce (·.jobs) (fun o n => { o with jobs := n }) readCount)⟩,
      helpSwitch ]
  positionals :=
    [ storeOnce (·.target) (fun o p => { o with target := p }) readPath,
      storeOnce (·.source) (fun o p => { o with source := p }) readPath ]

/-- What is given for `convert`. -/
structure ConvertArguments where
  file : Option Path := none
  output : Option Path := none
  includeMode : Option IncludeMode := none

/-- The grammar of `convert`. -/
def convertGrammar : Grammar ConvertArguments where
  switches :=
    [ ⟨"output".toList, some 'o',
        .value (storeOnce (·.output) (fun a p => { a with output := p }) readPath)⟩,
      ⟨"include-mode".toList, none,
        .value (storeOnce (·.includeMode) (fun a m => { a with includeMode := m }) readMode)⟩,
      helpSwitch ]
  positionals := [storeOnce (·.file) (fun a p => { a with file := p }) readPath]

/-- What is given for `summary`. -/
structure SummaryArguments where
  file : Option Path := none
  sidebar : Bool := false
  basePath : Option Text := none

/-- The grammar of `summary`. -/
def summaryGrammar : Grammar SummaryArguments where
  switches :=
    [ ⟨"sidebar".toList, none, flagOnce (·.sidebar) fun a => { a with sidebar := true }⟩,
      ⟨"base-path".toList, none,
        .value (storeOnce (·.basePath) (fun a b => { a with basePath := b }) readAny)⟩,
      helpSwitch ]
  positionals := [storeOnce (·.file) (fun a p => { a with file := p }) readPath]

/-- What is given for `init`. -/
structure InitArguments where
  output : Option Path := none
  format : Option SettingsFormat := none
  force : Bool := false

/-- The grammar of `init`. -/
def initGrammar : Grammar InitArguments where
  switches :=
    [ ⟨"output".toList, some 'o',
        .value (storeOnce (·.output) (fun a p => { a with output := p }) readPath)⟩,
      ⟨"format".toList, some 'F',
        .value (storeOnce (·.format) (fun a f => { a with format := f }) readFormat)⟩,
      ⟨"force".toList, some 'f', flagOnce (·.force) fun a => { a with force := true }⟩,
      helpSwitch ]
  positionals := []

/-- Where `init` writes to unless told otherwise. -/
def defaultSettingsFile : Path := .ofString "bookpress.toml"

/-! ## Commands by their names -/

/-- The words that name a command. -/
inductive CommandName where
  | migrate
  | convert
  | summary
  | init
  | help
  deriving DecidableEq, Repr

namespace CommandName

/-- The word that names a command. -/
def word : CommandName → Text
  | migrate => "migrate".toList
  | convert => "convert".toList
  | summary => "summary".toList
  | init => "init".toList
  | help => "help".toList

/-- All names. -/
def all : List CommandName := [migrate, convert, summary, init, help]

/-- The command that a word names. -/
def ofWord? (t : Text) : Option CommandName := all.find? (·.word == t)

end CommandName

/-- What asking for help on the named commands leads to: there is help on a single command only. -/
def helpOn : List Text → ArgumentError
  | [] => .helpAsked
  | [name] => if (CommandName.ofWord? name).isSome then .helpAsked else .unknownCommand
  | _ :: _ :: _ => .unknownCommand

/-- Read the arguments of a command. -/
def readCommand (args : List Text) : CommandName → Except ArgumentError Command
  | .migrate => (migrateGrammar.readAll {} args).map .migrate
  | .convert => do
    let a ← convertGrammar.readAll {} args
    match a.file with
    | some file => .ok (.convert file a.output a.includeMode)
    | none => .error .argumentMissing
  | .summary => do
    let a ← summaryGrammar.readAll {} args
    match a.file with
    | some file =>
      if a.basePath.isSome && !a.sidebar then .error .argumentMissing
      else .ok (.summary file a.sidebar a.basePath)
    | none => .error .argumentMissing
  | .init => do
    let a ← initGrammar.readAll {} args
    .ok (.init (a.output.getD defaultSettingsFile) (a.format.getD .toml) a.force)
  | .help => .error (helpOn args)

/-! ## The whole command line -/

/-- The switches that concern all commands. -/
structure CommonArguments where
  verbose : Bool := false
  settingsFiles : List Path := []
  overrides : List Text := []

/-- Whether nothing is given. -/
def CommonArguments.isEmpty (a : CommonArguments) : Bool :=
  !a.verbose && a.settingsFiles.isEmpty && a.overrides.isEmpty

/-- The grammar of what stands before the name of the command. -/
def commonGrammar : Grammar CommonArguments where
  switches :=
    [ ⟨"verbose".toList, some 'v', flagOnce (·.verbose) fun a => { a with verbose := true }⟩,
      ⟨"config-file".toList, some 'c', .value fun t a =>
        (readPath t).map fun p => { a with settingsFiles := a.settingsFiles ++ [p] }⟩,
      ⟨"config".toList, none, .value fun t a =>
        .ok { a with overrides := a.overrides ++ [t] }⟩,
      helpSwitch,
      ⟨"version".toList, some 'V', .stop .versionAsked⟩ ]
  positionals := []
  commands := CommandName.all.map CommandName.word

/-- **Read a command line.**  The arguments of the command are read before the last value in front
of its name is stored. -/
def parse (args : List Text) : Except ArgumentError Invocation := do
  let (p, rest) ← commonGrammar.read {} args
  match rest with
  | [] =>
    let p ← p.settle
    .error (if p.collected.isEmpty then .nothingGiven else .commandMissing)
  | word :: rest =>
    match CommandName.ofWord? word with
    | none => .error .unknownCommand
    | some name =>
      let command ← readCommand rest name
      let common := (← p.settle).collected
      .ok ⟨command, common.verbose, common.settingsFiles, common.overrides⟩

end CommandLine

end BookSite
