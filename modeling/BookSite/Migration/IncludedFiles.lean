import BookSite.Migration.FileAction

/-!
# Migration/IncludedFiles — copying the directory of included files

Pages may include files that lie outside the directory of the pages.  The directory that holds them
is copied into the target under its own name; files that are there already are replaced.
-/

namespace BookSite.Migration

/-- The text of the last component of a path. -/
def lastComponentText (p : Path) : Text :=
  match p.components.getLast? with
  | some (.name n) => n
  | some .up => ['.', '.']
  | some .here => ['.']
  | some .root => ['/']
  | none => []

/-- Create a directory if nothing is there. -/
def createMissing (activity : Activity) (dir : Path) : FileAction Unit := do
  if (← get).pathExists dir then pure ()
  else
    match (← get).createDir dir with
    | .ok fs => set fs
    | .error e => throw (.during activity (.copy e))

/-- Copy a file over another one. -/
def copyOver (activity : Activity) (source dest : Path) : FileAction Unit := do
  match (← get).copyFile source dest with
  | .ok fs => set fs
  | .error e => throw (.during activity (.copy e))

/-- **Copy a directory** to another path: first its directories are created, then its files are
copied.  What there is to copy is settled before. -/
def copyTree (activity : Activity) (source dest : Path) : FileAction Unit := do
  let nodes := match (← get).node source with
    | .ok node => node.nodes
    | .error _ => []
  for (names, node) in nodes do
    if node.isDirectory then createMissing activity (dest.join (Path.ofNames names))
  for (names, node) in nodes do
    if !node.isDirectory then
      copyOver activity (source.joinNames names) (dest.join (Path.ofNames names))

/-- **Copy the directory of included files** into the target.  It is taken below `root`.  The answer
is its new path; there is none when there is no such directory. -/
def copyIncluded (root dir target : Path) : FileAction (Option Path) := do
  let source := root.join dir
  if !(← get).isDir source then pure none
  else
    FileAction.createDirAll (.createDir target) target
    copyTree (.copyDir source target) source (target.join ⟨lastComponentText source⟩)
    pure (source.fileName?.map fun name => target.join ⟨name⟩)

end BookSite.Migration
