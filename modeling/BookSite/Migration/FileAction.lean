import BookSite.Files.System
import BookSite.Migration.Failure

/-!
# Migration/FileAction — steps that change files and may fail

An action runs on a file system and leaves one behind.  When it fails, what it had changed until
then stays changed.
-/

namespace BookSite

/-- A step that changes files and may fail. -/
abbrev FileAction := ExceptT Failure (StateM FileSystem)

namespace FileAction

/-- The outcome of an action and the files it leaves behind. -/
def runOn {α : Type} (action : FileAction α) (fs : FileSystem) : Except Failure α × FileSystem :=
  StateT.run (ExceptT.run action) fs

/-- Change files by a single operation, which changes nothing when it fails. -/
def change (activity : Activity) (operation : FileSystem → Except FileError FileSystem) :
    FileAction Unit := do
  match operation (← get) with
  | .ok fs => set fs
  | .error e => throw (.during activity (.file e))

/-- Write a text to a file. -/
def writeText (activity : Activity) (file : Path) (t : Text) : FileAction Unit :=
  change activity fun fs => fs.writeFile file (.text t)

/-- Create a directory and all that is missing above it. -/
def createDirAll (activity : Activity) (dir : Path) : FileAction Unit := do
  let (outcome, fs) := (← get).createDirAll dir
  set fs
  match outcome with
  | .ok () => pure ()
  | .error e => throw (.during activity (.file e))

/-- Look at the files without changing them. -/
def inspect {α : Type} (look : FileSystem → Except Failure α) : FileAction α := do
  match look (← get) with
  | .ok a => pure a
  | .error e => throw e

end FileAction

end BookSite
