import BookSite.Json.Reader
import BookSite.Site.ScriptLiteral
import BookSite.Text.Scan

/-!
# Proofs/Site/LiteralReader — reading TypeScript literals

A reader for the literals that stand for plain data: strings in single quotes, integers, `true`,
`false` and `null`, and lists and objects of these.  The names of fields stand bare or in quotes.
Blanks may stand between any two parts, so it does not matter how deep a literal is indented.
-/

namespace BookSite.Site

/-! ## Strings -/

/-- The character that an escape of one letter names. -/
def letterEscape? (c : Char) : Option Char :=
  match c with
  | '\\' | '\'' => some c
  | 'n' => some '\n'
  | 'r' => some '\r'
  | 't' => some '\t'
  | _ => none

/-- The character with a number in hexadecimal digits. -/
def hexChar? (digits : Text) : Option Char :=
  if digits.isEmpty then none
  else (Json.hexNumber? digits).bind fun n =>
    if n.isValidChar then some (Char.ofNat n) else none

/-- The character that an escape names, at the front of what follows a backslash.  What it takes
includes the backslash. -/
def escape? : Text.Finder Char := fun t =>
  match t with
  | 'u' :: '{' :: rest =>
    let digits := rest.takeWhile (· != '}')
    if digits.length < rest.length then (hexChar? digits).map (·, digits.length + 4) else none
  | c :: _ => (letterEscape? c).map (·, 2)
  | [] => none

/-- A character of a string, as itself or as an escape.  Quotes and line ends do not stand for
themselves. -/
def stringChar? : Text.Finder Char := fun t =>
  match t with
  | '\\' :: rest => escape? rest
  | c :: _ => if c = '\'' ∨ c = '\n' ∨ c = '\r' then none else some (c, 1)
  | [] => none

/-- **A string behind its opening quote**, with `skip` characters still belonging to the escape
before: its text, and what follows its closing quote. -/
def readStringFrom? : Nat → Text → Option (Text × Text)
  | _, [] => none
  | skip + 1, _ :: rest => readStringFrom? skip rest
  | 0, c :: rest =>
    if c = '\'' then some ([], rest)
    else match stringChar? (c :: rest) with
      | some (d, n) => (readStringFrom? (n - 1) rest).map fun (s, behind) => (d :: s, behind)
      | none => none

/-! ## Words -/

/-- What a word stands for. -/
def wordValue? (word : Text) : Option Json :=
  match Text.toNat? word with
  | some n => some (.integer n)
  | none =>
    if word = "null".toList then some .null
    else if word = "true".toList then some (.bool true)
    else if word = "false".toList then some (.bool false)
    else none

/-- A word or an integer at the front of a text. -/
def readScalar? (t : Text) : Option (Json × Text) :=
  match t with
  | '-' :: rest =>
    (Text.toNat? (rest.takeWhile isIdentifierChar)).map fun (n : Nat) =>
      (.integer (-n), rest.dropWhile isIdentifierChar)
  | t => (wordValue? (t.takeWhile isIdentifierChar)).map (·, t.dropWhile isIdentifierChar)

/-- The name of a field at the front of a text. -/
def readName? (t : Text) : Option (Text × Text) :=
  match t with
  | '\'' :: rest => readStringFrom? 0 rest
  | t =>
    let name := t.takeWhile isIdentifierChar
    if isScriptIdentifier name then some (name, t.dropWhile isIdentifierChar) else none

/-! ## Literals -/

/-- The parts of a list or an object up to its closing bracket, at most as many as the bound says.
A comma may stand behind the last one. -/
def readParts? {α : Type} (part? : Text → Option (α × Text)) (close_ : Char) :
    Nat → Text → Option (List α × Text)
  | 0, _ => none
  | bound + 1, t =>
    match Json.skipBlanks t with
    | [] => none
    | c :: rest =>
      if c = close_ then some ([], rest)
      else do
        let (part, behind) ← part? (c :: rest)
        match Json.skipBlanks behind with
        | [] => none
        | d :: rest =>
          if d = close_ then some ([part], rest)
          else if d = ',' then
            (readParts? part? close_ bound rest).map fun (parts, rest) => (part :: parts, rest)
          else none

/-- A field at the front of a text. -/
def readField? (value? : Text → Option (Json × Text)) (t : Text) :
    Option ((Text × Json) × Text) := do
  let (name, rest) ← readName? t
  let rest ← Text.behind? (Json.skipBlanks rest) [':']
  let (value, rest) ← value? rest
  some ((name, value), rest)

/-- A literal at the front of a text, with the given bound on how deep values are nested. -/
def readValue? : Nat → Text → Option (Json × Text)
  | 0, _ => none
  | fuel + 1, t =>
    match Json.skipBlanks t with
    | '\'' :: rest => (readStringFrom? 0 rest).map fun (s, behind) => (.string s, behind)
    | '[' :: rest =>
      (readParts? (readValue? fuel) ']' rest.length rest).map fun (items, behind) =>
        (.array items, behind)
    | '{' :: rest =>
      (readParts? (readField? (readValue? fuel)) '}' rest.length rest).map fun (fields, behind) =>
        (.object fields, behind)
    | t => readScalar? t

/-- **Read the literal at the front of a text**: its value, and what follows it.  No literal is
nested deeper than it is long. -/
def readLiteral? (t : Text) : Option (Json × Text) := readValue? t.length t

example : readLiteral? "[1, -2,\n  \x7ba: 'it\\'s', 'b c': []\x7d] rest".toList =
    some (.array [.integer 1, .integer (-2),
      .object [("a".toList, .ofString "it's"), ("b c".toList, .array [])]], " rest".toList) := rfl

example : readLiteral? "'a\nb'".toList = none := rfl

end BookSite.Site
