import BookSite.Json.Printer

/-!
# Site/ScriptLiteral — JSON values as TypeScript literals

The definition of a site is a TypeScript module, so its values are written as TypeScript literals:
names that are identifiers stand bare, all other names and all strings stand in single quotes, and
lists and objects are indented by two spaces for each level.  Control characters are escaped, so a
string never breaks a line.
-/

namespace BookSite.Site

/-- Whether `c` may begin an identifier. -/
def isIdentifierStart (c : Char) : Bool := c.isAlpha || c == '_' || c == '$'

/-- Whether `c` may stand in an identifier. -/
def isIdentifierChar (c : Char) : Bool := c.isAlphanum || c == '_' || c == '$'

/-- Whether a name may stand bare. -/
def isScriptIdentifier : Text → Bool
  | [] => false
  | c :: rest => isIdentifierStart c && rest.all isIdentifierChar

/-- Whether `c` is a control character (the general category `Cc`). -/
def isControl (c : Char) : Bool := c.toNat < 0x20 || (0x7F ≤ c.toNat && c.toNat ≤ 0x9F)

/-- The characters that a character of a string is written as. -/
def scriptEscape (c : Char) : Text :=
  match c with
  | '\\' => ['\\', '\\']
  | '\'' => ['\\', '\'']
  | '\n' => ['\\', 'n']
  | '\r' => ['\\', 'r']
  | '\t' => ['\\', 't']
  | c => if isControl c then "\\u\x7b".toList ++ Nat.toDigits 16 c.toNat ++ ['}'] else [c]

/-- A text in single quotes. -/
def scriptQuote (s : Text) : Text := '\'' :: s.flatMap scriptEscape ++ ['\'']

/-- The name of a field. -/
def scriptName (name : Text) : Text :=
  if isScriptIdentifier name then name else scriptQuote name

mutual

/-- **A value as a literal** at the given level. -/
def scriptLiteral (depth : Nat) : Json → Text
  | .array items => Json.bracketed '[' ']' depth (literalItems (depth + 1) items)
  | .object fields => Json.bracketed '{' '}' depth (literalFields (depth + 1) fields)
  | .string s => scriptQuote s
  | v => v.plain

/-- The items of a list at their level. -/
def literalItems (depth : Nat) : List Json → List Text
  | [] => []
  | v :: rest => scriptLiteral depth v :: literalItems depth rest

/-- The fields of an object at their level. -/
def literalFields (depth : Nat) : List (Text × Json) → List Text
  | [] => []
  | (name, v) :: rest =>
    (scriptName name ++ ':' :: ' ' :: scriptLiteral depth v) :: literalFields depth rest

end

end BookSite.Site
