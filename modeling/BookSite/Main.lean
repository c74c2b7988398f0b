import BookSite.CommandLine.Program

/-!
# Main — the program on a machine

The files that a command may go through are read into memory, the command runs on them, and what it
has changed is written back.  Read are the working directory and, besides, what the arguments and
the settings name.
-/

namespace BookSite.Machine

/-- The deepest nesting of directories that is read. -/
def maxDepth : Nat := 128

/-- The answer of an action that may be refused. -/
def attempt {α : Type} (action : IO α) : IO (Option α) :=
  try return some (← action) catch _ => return none

/-- Read what a path leads to, if it can be read. -/
def readNode : Nat → String → IO (Option Node)
  | 0, _ => return none
  | depth + 1, path => do
    match ← attempt do (← IO.FS.realPath path).readDir with
    | some listing =>
      let mut entries : List (Text × Node) := []
      for entry in listing do
        if let some node ← readNode depth (path ++ "/" ++ entry.fileName) then
          entries := Node.insert entry.fileName.toList node entries
      return some (.directory entries)
    | none =>
      return (← attempt (IO.FS.readBinFile path)).map fun content => .file (.ofBytes content)

/-- The names that lead to a path from the root. -/
def namesOf (p : Path) : List Text := p.segments.filter (!·.isEmpty)

/-- What was read of the machine's files. -/
structure Reading where
  files : FileSystem
  /-- the names that lead to each of the places that were read -/
  places : List (List Text)

/-- Read what a path leads to, too, unless it lies below a place that was read. -/
def Reading.add (reading : Reading) (path : String) : IO Reading := do
  let some real ← attempt (IO.FS.realPath path) | return reading
  let place : Path := .ofString real.toString
  let names := namesOf place
  if reading.places.any (·.isPrefixOf names) then return reading
  let some node ← readNode maxDepth real.toString | return reading
  let some parent := place.parent? | return reading
  return ⟨(reading.files.createDirAll parent).2.put names node, names :: reading.places⟩

/-- The bytes of a content. -/
def bytes : Content → ByteArray
  | .text t => (String.ofList t).toUTF8
  | .binary bs => ⟨bs.toArray⟩

/-- Write what has changed. -/
def writeChanges (before after : FileSystem) : IO Unit := do
  for (names, node) in after.root.nodes do
    let path := "/" ++ String.ofList (Path.ofNames names).text
    match node, before.root.get? names with
    | .directory _, some (.directory _) => pure ()
    | .directory _, _ => IO.FS.createDirAll path
    | .file content, old =>
      if old.bind Node.content? != some content then IO.FS.writeBinFile path (bytes content)

/-- The paths that settings name. -/
def pathsOf (settings : Settings) : List Path :=
  [settings.sourceDir, settings.targetDir, settings.includingFilesDir].filterMap id

/-- **Run the program.** -/
def run (args : List String) : IO UInt32 := do
  let workDir := (← IO.currentDir).toString
  let userDir ← IO.getEnv "XDG_CONFIG_HOME"
  let places : Settings.Places := ⟨.ofString workDir, userDir.map Path.ofString⟩
  let texts := args.map String.toList
  let mut reading : Reading := ⟨⟨.directory [], namesOf places.workDir⟩, []⟩
  for path in workDir :: userDir.toList ++ args do
    reading ← reading.add path
  if let .ok invocation := CommandLine.parse texts then
    if let .ok settings := Settings.load reading.files places invocation.settingsFiles
        invocation.overrides then
      for path in pathsOf settings do
        reading ← reading.add (String.ofList path.text)
  let (outcome, after) := CommandLine.run places texts reading.files
  writeChanges reading.files after
  IO.print (String.ofList outcome.output)
  match outcome with
  | .refused .helpAsked | .refused .versionAsked | .done _ => pure ()
  | .refused _ => IO.eprint (String.ofList CommandLine.usage)
  | .failed why =>
    IO.eprintln ("Error: " ++ String.ofList (Text.joinWith "\nCaused by: ".toList why.chain))
  return UInt32.ofNat outcome.code

end BookSite.Machine

/-- The entry of the program. -/
def main (args : List String) : IO UInt32 := BookSite.Machine.run args
