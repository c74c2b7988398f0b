import BookSite.Markdown.Fence

/-!
# Markdown/CodeInfo — the info string of a block of code

An info string is a language followed by options, all separated by commas: `rust,editable`.
-/

namespace BookSite

/-- A parsed info string. -/
structure CodeInfo where
  /-- the language, empty when none is named -/
  language : Text
  /-- the options behind the language, empty ones left out -/
  options : List Text
  deriving DecidableEq, Repr

namespace CodeInfo

/-- Read an info string; blanks around language and options do not count. -/
def parse (info : Text) : CodeInfo :=
  match (info.trim.fields ',').map Text.trim with
  | [] => ⟨[], []⟩
  | language :: options => ⟨language, options.filter (!·.isEmpty)⟩

/-- Whether an option is given. -/
def hasOption (info : CodeInfo) (option : Text) : Bool := info.options.contains option

end CodeInfo

end BookSite
