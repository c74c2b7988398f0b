import BookSite.Files.Tree

/-!
# Files/System — reading and writing by paths

A file system is a tree with a working directory, from which relative paths lead.  Each operation
answers as an operating system does: with its result, or with the first cause of failure on the way
along the path.  Operations that change something are functions from one file system to the next.
-/

namespace BookSite

/-- Why an operation on files fails. -/
inductive FileError where
  | notFound
  | alreadyExists
  | notADirectory
  | isADirectory
  | nameTooLong
  | nulInPath
  | notText
  deriving DecidableEq, Repr

namespace FileError

/-- The wording of a failure. -/
def message : FileError → Text
  | notFound => "No such file or directory (os error 2)".toList
  | alreadyExists => "File exists (os error 17)".toList
  | notADirectory => "Not a directory (os error 20)".toList
  | isADirectory => "Is a directory (os error 21)".toList
  | nameTooLong => "File name too long (os error 36)".toList
  | nulInPath => "file name contained an unexpected NUL byte".toList
  | notText => "stream did not contain valid UTF-8".toList

end FileError

/-- A tree of files and the names that lead from its root to the working directory. -/
structure FileSystem where
  root : Node
  workDir : List Text
  deriving Repr, Inhabited

namespace FileSystem

/-- The file system that holds an empty working directory and nothing else. -/
def empty : FileSystem := ⟨.directory [([], .directory [])], [[]]⟩

/-! ## Following a path -/

/-- The longest name that a directory can hold, in bytes. -/
def maxNameBytes : Nat := 255

/-- The longest path, in bytes. -/
def maxPathBytes : Nat := 4095

/-- The bytes a text takes in UTF-8. -/
def byteCount (t : Text) : Nat := t.foldl (fun n c => n + c.utf8Size) 0

/-- Follow segments from the node at `place`; all that is gone through must be a
directory. -/
def follow (fs : FileSystem) (place : List Text) : List Text → Except FileError (List Text)
  | [] => .ok place
  | segment :: rest =>
    match fs.root.get? place with
    | none => .error .notFound
    | some (.file _) => .error .notADirectory
    | some (.directory entries) =>
      if segment.isEmpty || segment == ['.'] then follow fs place rest
      else if segment == ['.', '.'] then follow fs place.dropLast rest
      else if byteCount segment > maxNameBytes then .error .nameTooLong
      else if (entries.lookup segment).isSome then follow fs (place ++ [segment]) rest
      else .error .notFound

/-- Where a path begins: at the root or in the working directory. -/
def origin (fs : FileSystem) (p : Path) : List Text := if p.isAbsolute then [] else fs.workDir

/-- Refuse paths that no file can have. -/
def checkPath (p : Path) : Except FileError Unit :=
  if '\x00' ∈ p.text then .error .nulInPath
  else if p.text.isEmpty then .error .notFound
  else if byteCount p.text > maxPathBytes then .error .nameTooLong
  else .ok ()

/-- **The place of what a path leads to.** -/
def locate (fs : FileSystem) (p : Path) : Except FileError (List Text) := do
  checkPath p
  fs.follow (fs.origin p) p.segments

/-- The node that a path leads to. -/
def node (fs : FileSystem) (p : Path) : Except FileError Node := do
  match fs.root.get? (← fs.locate p) with
  | some node => .ok node
  | none => .error .notFound

/-- Whether a path leads to something. -/
def pathExists (fs : FileSystem) (p : Path) : Bool := (fs.node p).isOk

/-- Whether a path leads to a file. -/
def isFile (fs : FileSystem) (p : Path) : Bool :=
  match fs.node p with
  | .ok (.file _) => true
  | _ => false

/-- Whether a path leads to a directory. -/
def isDir (fs : FileSystem) (p : Path) : Bool :=
  match fs.node p with
  | .ok (.directory _) => true
  | _ => false

/-- **Read a file as text.** -/
def readText (fs : FileSystem) (p : Path) : Except FileError Text := do
  match ← fs.node p with
  | .directory _ => .error .isADirectory
  | .file (.binary _) => .error .notText
  | .file (.text t) => .ok t

/-! ## Changing files -/

/-- The same tree with a node put at a place. -/
def put (fs : FileSystem) (place : List Text) (node : Node) : FileSystem :=
  { fs with root := Node.put node place fs.root }

/-- The last segment of a path with the segments before it and whether slashes follow it. -/
def lastSegment (p : Path) : List Text × Text × Bool :=
  let reversed := p.segments.reverse
  match reversed.dropWhile List.isEmpty with
  | [] => ([], [], true)
  | last :: before => (before.reverse, last, before.length + 1 < reversed.length)

/-- The place of the directory that the segments before the last one lead to, with its entries. -/
def parentPlace (fs : FileSystem) (p : Path) (before : List Text) :
    Except FileError (List Text × List (Text × Node)) := do
  let place ← fs.follow (fs.origin p) before
  match fs.root.get? place with
  | some (.directory entries) => .ok (place, entries)
  | some (.file _) => .error .notADirectory
  | none => .error .notFound

/-- **The place of a file to be written**: that of the file a path leads to, or a free name in a
directory. -/
def filePlace (fs : FileSystem) (p : Path) : Except FileError (List Text) := do
  checkPath p
  let (before, last, slashed) := lastSegment p
  let (place, entries) ← fs.parentPlace p before
  if last.isEmpty || last == ['.'] || last == ['.', '.'] then .error .isADirectory
  else if byteCount last > maxNameBytes then .error .nameTooLong
  else match entries.lookup last with
    | some (.directory _) => .error .isADirectory
    | some (.file _) => if slashed then .error .notADirectory else .ok (place ++ [last])
    | none => if slashed then .error .isADirectory else .ok (place ++ [last])

/-- **Write a file**, in place of the file that the path leads to if there is one. -/
def writeFile (fs : FileSystem) (p : Path) (content : Content) : Except FileError FileSystem := do
  .ok (fs.put (← fs.filePlace p) (.file content))

/-- **Create a directory**; the directory that is to hold it must be there. -/
def createDir (fs : FileSystem) (p : Path) : Except FileError FileSystem := do
  checkPath p
  let (before, last, _) := lastSegment p
  let (place, entries) ← fs.parentPlace p before
  if last.isEmpty || last == ['.'] || last == ['.', '.'] then .error .alreadyExists
  else if byteCount last > maxNameBytes then .error .nameTooLong
  else match entries.lookup last with
    | some _ => .error .alreadyExists
    | none => .ok (fs.put (place ++ [last]) (.directory []))

/-- Create the first of some paths, each of which is the parent of the one before, with those of
them that are missing.  What was created stays when a later step fails. -/
def createDirs (fs : FileSystem) : List Path → Except FileError Unit × FileSystem
  | [] => (.error .notFound, fs)
  | p :: above =>
    if p.text.isEmpty then (.ok (), fs)
    else match fs.createDir p with
      | .ok created => (.ok (), created)
      | .error .notFound =>
        match createDirs fs above with
        | (.error e, created) => (.error e, created)
        | (.ok (), created) =>
          match created.createDir p with
          | .ok done => (.ok (), done)
          | .error e => (if created.isDir p then .ok () else .error e, created)
      | .error e => (if fs.isDir p then .ok () else .error e, fs)

/-- **Create a directory and all that is missing above it.** -/
def createDirAll (fs : FileSystem) (p : Path) : Except FileError Unit × FileSystem :=
  fs.createDirs p.ancestors

/-- **Copy a file.**  The file written is cut to nothing before the source is read, so a file copied
onto itself ends up empty. -/
def copyFile (fs : FileSystem) (source dest : Path) : Except FileError FileSystem := do
  let sourcePlace ← fs.locate source
  let content ← match ← fs.node source with
    | .file content => .ok content
    | .directory _ => .error .isADirectory
  let place ← fs.filePlace dest
  .ok (fs.put place (.file (if place = sourcePlace then .empty else content)))

/-! ## Walks -/

/-- A file met on a walk. -/
structure Found where
  /-- its path, below the path of the walk as that was written -/
  path : Path
  /-- the names that lead to it from where the walk began -/
  names : List Text
  content : Content
  deriving DecidableEq, Repr

/-- **The files below a path**, in the order of a walk by names; a directory below the path is
entered only if `enter` allows its name.  The file at a path that leads to one is the only one below
it. -/
def filesBelow (fs : FileSystem) (enter : Text → Bool) (p : Path) : List Found :=
  match fs.node p with
  | .ok node => (node.files enter).map fun (names, content) => ⟨p.joinNames names, names, content⟩
  | .error _ => []

/-- All files below a path. -/
def allFiles (fs : FileSystem) (p : Path) : List Found := fs.filesBelow (fun _ => true) p

end FileSystem

end BookSite
