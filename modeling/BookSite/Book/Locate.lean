import BookSite.Book.Basic
import BookSite.Files.System

/-!
# Book/Locate — finding the book in a directory

The description of a book lies in the given directory itself or somewhere below it.  Directories
that are hidden or hold generated files are not searched.  A book without a readable description is
taken to say nothing.
-/

namespace BookSite.Book

/-- The name of the description. -/
def fileName : Text := "book.toml".toList

/-- The names of directories that are never searched. -/
def generatedDirs : List Text := ["node_modules".toList, "target".toList, "book".toList]

/-- Whether a directory is searched. -/
def isSearched (name : Text) : Bool := !name.startsWith ['.'] && !generatedDirs.contains name

/-- **Find the description of a book**: first in the directory itself, then in the first place of a
walk below it. -/
def find? (fs : FileSystem) (dir : Path) : Option Path :=
  let direct := dir.join ⟨fileName⟩
  if fs.isFile direct then some direct
  else ((fs.filesBelow isSearched dir).find? (·.names.getLast? == some fileName)).map
    FileSystem.Found.path

/-- Why a description cannot be read. -/
inductive ReadError where
  | file (cause : FileError)
  | malformed
  deriving DecidableEq, Repr

/-- Read the description in a file. -/
def ofFile (fs : FileSystem) (file : Path) : Except ReadError Book :=
  match fs.readText file with
  | .error cause => .error (.file cause)
  | .ok t =>
    match parse? t with
    | some b => .ok b
    | none => .error .malformed

/-- **The book in a directory**, and its root: the directory of its description, or the given one
when there is none. -/
def load (fs : FileSystem) (dir : Path) : Book × Path :=
  match find? fs dir with
  | none => ({}, dir)
  | some file =>
    (match ofFile fs file with
      | .ok b => b
      | .error _ => {},
      file.parent?.getD dir)

end BookSite.Book
