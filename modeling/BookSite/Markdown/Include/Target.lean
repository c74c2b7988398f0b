import BookSite.Markdown.Include.Selection

/-!
# Markdown/Include/Target — the file and the part of it that a directive names

A target is read from the argument of a directive (`./src/main.rs:3:5`) and written as a
snippet import of the site (`<<< src/main.rs{3-5}`).
-/

namespace BookSite.Include

/-- The argument of an include directive. -/
structure Target where
  /-- the path, relative to the page, without a leading `./` -/
  path : Text
  selection : Selection
  deriving DecidableEq, Repr

namespace Target

/-- **Read an argument**: the path ends at the first colon. -/
def parse (argument : Text) : Target :=
  let argument := argument.trim.dropLeading ['.', '/']
  match argument.splitOnce ':' with
  | none => ⟨argument, .all⟩
  | some (path, suffix) => ⟨path, .parse suffix⟩

/-- Text in braces. -/
def braced (inner : Text) : Text := '{' :: inner ++ ['}']

/-- **The snippet import** of the same lines. -/
def toImport (target : Target) : Text :=
  "<<< ".toList ++ target.path ++
    match target.selection with
    | .all => []
    | .starting first => braced (Text.ofNat first ++ ['-'])
    | .range first last => braced (Text.ofNat first ++ '-' :: Text.ofNat last)
    | .ending last => braced ('1' :: '-' :: Text.ofNat last)
    | .anchor name => '#' :: name

end Target

end BookSite.Include
