import BookSite.Files.Path

/-!
# Files/Tree — files and directories

A **node** is a file or a directory of named nodes.  The names of a directory are kept in order, so
that going through it is always done in the order of the names.
-/

namespace BookSite

/-- What a file holds: a text, or bytes that are no text. -/
inductive Content where
  | text (t : Text)
  | binary (bytes : List UInt8)
  deriving DecidableEq, Repr, Inhabited

namespace Content

/-- The content of a file with the given bytes. -/
def ofBytes (bytes : ByteArray) : Content :=
  match String.fromUTF8? bytes with
  | some s => text s.toList
  | none => binary bytes.toList

/-- The content of an empty file. -/
def empty : Content := text []

end Content

/-- A file, or a directory with its entries. -/
inductive Node where
  | file (content : Content)
  | directory (entries : List (Text × Node))
  deriving Repr, Inhabited

namespace Node

/-- Whether a node is a directory. -/
def isDirectory : Node → Bool
  | file _ => false
  | directory _ => true

/-- The content of a file. -/
def content? : Node → Option Content
  | file content => some content
  | directory _ => none

/-- Give a name of a directory a node, in the place that the name has in the order. -/
def insert (name : Text) (node : Node) : List (Text × Node) → List (Text × Node)
  | [] => [(name, node)]
  | (n, old) :: rest =>
    match compareTexts name n with
    | .lt => (name, node) :: (n, old) :: rest
    | .eq => (name, node) :: rest
    | .gt => (n, old) :: insert name node rest

/-- The node that names lead to. -/
def get? : Node → List Text → Option Node
  | node, [] => some node
  | directory entries, name :: names => (entries.lookup name).bind (get? · names)
  | file _, _ :: _ => none

/-- **Put a node** where the names lead to.  All names but the last must lead to directories;
otherwise nothing changes. -/
def put (new : Node) : List Text → Node → Node
  | [], _ => new
  | [name], directory entries => directory (insert name new entries)
  | name :: names, directory entries =>
    match entries.lookup name with
    | some child => directory (insert name (put new names child) entries)
    | none => directory entries
  | _ :: _, file content => file content

/-! ## Going through a tree -/

mutual

/-- **The files of a node in the order of a walk**, each with the names that lead to it.  A
directory below the node is entered only if `enter` allows its name. -/
def files (enter : Text → Bool) : Node → List (List Text × Content)
  | file content => [([], content)]
  | directory entries => entryFiles enter entries

/-- The files of several entries. -/
def entryFiles (enter : Text → Bool) : List (Text × Node) → List (List Text × Content)
  | [] => []
  | (name, node) :: rest =>
    (if node.isDirectory && !enter name then []
      else (files enter node).map fun (names, content) => (name :: names, content))
      ++ entryFiles enter rest

end

mutual

/-- **All nodes in the order of a walk**, each with the names that lead to it; the node itself comes
first. -/
def nodes : Node → List (List Text × Node)
  | file content => [([], file content)]
  | directory entries => ([], directory entries) :: entryNodes entries

/-- The nodes of several entries. -/
def entryNodes : List (Text × Node) → List (List Text × Node)
  | [] => []
  | (name, node) :: rest =>
    ((nodes node).map fun (names, below) => (name :: names, below)) ++ entryNodes rest

end

end Node

end BookSite
