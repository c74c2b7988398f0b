import BookSite.Migration.FileKind
import BookSite.Files.System

/-!
# Migration/BookFiles — copying assets and documents

The files of a book that are no pages are copied while its directory is walked through.  A directory
is looked into when the walk comes to it, so files that were copied into it before are met there.  A
file that cannot be copied is passed over.
-/

namespace BookSite.Migration

/-- From where to where the files of a book are copied. -/
structure CopyPlan where
  src : Path
  assets : Path
  documents : Path
  deriving DecidableEq, Repr

/-- The copies made, in the order of the walk. -/
structure CopiedFiles where
  assets : List Path := []
  documents : List Path := []
  deriving DecidableEq, Repr

/-- Copy a file and create the directories that are missing above the copy.  Directories stay when
the copy fails. -/
def copyTo (source dest : Path) (fs : FileSystem) : Bool × FileSystem :=
  let (ready, fs) := match dest.parent? with
    | some dir => fs.createDirAll dir
    | none => (.ok (), fs)
  match ready with
  | .error _ => (false, fs)
  | .ok () =>
    match fs.copyFile source dest with
    | .error _ => (false, fs)
    | .ok fs => (true, fs)

namespace CopyPlan

/-- The directory that files of a sort are copied to, if they are copied. -/
def dirFor? (plan : CopyPlan) : FileKind → Option Path
  | .asset => some plan.assets
  | .document => some plan.documents
  | .markdown | .other => none

/-- Note a copy. -/
def note (kind : FileKind) (dest : Path) (copied : CopiedFiles) : CopiedFiles :=
  match kind with
  | .asset => { copied with assets := copied.assets ++ [dest] }
  | .document => { copied with documents := copied.documents ++ [dest] }
  | .markdown | .other => copied

/-- Copy the file that names lead to, if it is of a sort that is copied. -/
def copyMet (plan : CopyPlan) (names : List Text) (state : CopiedFiles × FileSystem) :
    CopiedFiles × FileSystem :=
  let source := plan.src.joinNames names
  let kind := FileKind.classify source
  match plan.dirFor? kind with
  | none => state
  | some dir =>
    let dest := dir.join (Path.ofNames names)
    match copyTo source dest state.2 with
    | (true, fs) => (note kind dest state.1, fs)
    | (false, fs) => (state.1, fs)

/-- Walk through what names lead to, at most `depth` directories deep. -/
def walk (plan : CopyPlan) :
    Nat → List Text → CopiedFiles × FileSystem → CopiedFiles × FileSystem
  | 0, _, state => state
  | depth + 1, names, state =>
    match state.2.node (plan.src.joinNames names) with
    | .error _ => state
    | .ok (.file _) => plan.copyMet names state
    | .ok (.directory entries) =>
      entries.foldl (fun state (name, _) => plan.walk depth (names ++ [name]) state) state

/-- **Copy the assets and documents of a book.**  No walk goes deeper than a path can be long. -/
def copyAll (plan : CopyPlan) (fs : FileSystem) : CopiedFiles × FileSystem :=
  plan.walk (FileSystem.maxPathBytes + 1) [] ({}, fs)

end CopyPlan

end BookSite.Migration
