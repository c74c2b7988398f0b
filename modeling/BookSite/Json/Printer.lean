import BookSite.Decimal.Shortest
import BookSite.Json.Value

/-!
# Json/Printer — JSON values as text

There are two layouts: compact, without any blank, and indented by two spaces for each level, where
empty lists and objects stay on their line.  Strings escape quotes, backslashes and control
characters only.
-/

namespace BookSite.Json

/-- How floating point numbers are laid out: positionally from `0.00001` up to sixteen digits before
the point, with a sign before every other exponent. -/
def floatLayout : FloatLayout := ⟨-5, 15, ['+']⟩

/-- The digit of a value below sixteen. -/
def hexDigit (n : Nat) : Char := Nat.digitChar n

/-- The characters that a character is written as. -/
def escapeChar (c : Char) : Text :=
  match c with
  | '"' => ['\\', '"']
  | '\\' => ['\\', '\\']
  | '\n' => ['\\', 'n']
  | '\r' => ['\\', 'r']
  | '\t' => ['\\', 't']
  | c =>
    if c.toNat = 8 then ['\\', 'b']
    else if c.toNat = 12 then ['\\', 'f']
    else if c.toNat < 0x20 then
      ['\\', 'u', '0', '0', hexDigit (c.toNat / 16), hexDigit (c.toNat % 16)]
    else [c]

/-- A text in quotes. -/
def quote (s : Text) : Text := '"' :: s.flatMap escapeChar ++ ['"']

/-- A value that has no parts, as text. -/
def scalar? : Json → Option Text
  | .null => some "null".toList
  | .bool b => some (if b then "true".toList else "false".toList)
  | .integer n => some (Text.ofInt n)
  | .float x => some (floatLayout.write x)
  | .string s => some (quote s)
  | .array _ | .object _ => none

/-- A number, `null`, `true` or `false` as text; nothing for values of other sorts. -/
def plain (v : Json) : Text := v.scalar?.getD []

mutual

/-- **A value without any blank.** -/
def compact : Json → Text
  | .array items => '[' :: Text.joinWith [','] (compactItems items) ++ [']']
  | .object fields => '{' :: Text.joinWith [','] (compactFields fields) ++ ['}']
  | v => v.plain

/-- The items of a list, each without blanks. -/
def compactItems : List Json → List Text
  | [] => []
  | v :: rest => compact v :: compactItems rest

/-- The fields of an object, each without blanks. -/
def compactFields : List (Text × Json) → List Text
  | [] => []
  | (name, v) :: rest => (quote name ++ ':' :: compact v) :: compactFields rest

end

/-- The indentation of a level. -/
def indent (depth : Nat) : Text := Text.replicate depth [' ', ' ']

/-- Parts between brackets, one on each line. -/
def bracketed (open_ close_ : Char) (depth : Nat) (parts : List Text) : Text :=
  if parts.isEmpty then [open_, close_]
  else open_ :: '\n' ::
    Text.joinWith [',', '\n'] (parts.map (indent (depth + 1) ++ ·)) ++
      '\n' :: indent depth ++ [close_]

mutual

/-- **A value indented** for the given level. -/
def pretty (depth : Nat) : Json → Text
  | .array items => bracketed '[' ']' depth (prettyItems (depth + 1) items)
  | .object fields => bracketed '{' '}' depth (prettyFields (depth + 1) fields)
  | v => v.plain

/-- The items of a list at their level. -/
def prettyItems (depth : Nat) : List Json → List Text
  | [] => []
  | v :: rest => pretty depth v :: prettyItems depth rest

/-- The fields of an object at their level. -/
def prettyFields (depth : Nat) : List (Text × Json) → List Text
  | [] => []
  | (name, v) :: rest => (quote name ++ ':' :: ' ' :: pretty depth v) :: prettyFields depth rest

end

end BookSite.Json
