import BookSite.Json.Reader

/-!
# Toml/Quoted — the four sorts of strings

A string stands in double quotes, where a backslash begins an escape, or in single quotes, where
every character stands for itself; and either in one quote on one line or in three quotes over
several lines.  No control character but the tab may stand in a string.
-/

namespace BookSite.Toml

/-- Whether `c` is a control character that may not stand in a string or a comment. -/
def isBarred (c : Char) : Bool := (c.toNat < 0x20 && c != '\t') || c.toNat == 0x7F

/-- Whether `c` is a space or a tab. -/
def isSpace (c : Char) : Bool := c == ' ' || c == '\t'

/-- What follows a line end at the front of a text. -/
def behindNewline? (t : Text) : Option Text :=
  match t with
  | '\n' :: rest => some rest
  | '\r' :: '\n' :: rest => some rest
  | _ => none

/-- The character that an escape of one letter names. -/
def simpleEscape? (c : Char) : Option Char :=
  match c with
  | '"' | '\\' => some c
  | 'b' => some '\x08'
  | 't' => some '\t'
  | 'n' => some '\n'
  | 'f' => some '\x0c'
  | 'r' => some '\r'
  | 'e' => some '\x1b'
  | _ => none

/-- The number of digits behind a letter that begins the escape of a code point. -/
def codeDigits? (c : Char) : Option Nat :=
  match c with
  | 'x' => some 2
  | 'u' => some 4
  | 'U' => some 8
  | _ => none

/-- The character with a code point, if it has one. -/
def scalarValue? (n : Nat) : Option Char :=
  if n < 0xD800 ∨ (0xDFFF < n ∧ n < 0x110000) then some (Char.ofNat n) else none

/-- The character that an escape names, and how many characters the escape takes behind its
backslash. -/
def escape? (t : Text) : Option (Char × Nat) :=
  match t with
  | [] => none
  | c :: rest =>
    match simpleEscape? c with
    | some d => some (d, 1)
    | none => do
      let n ← codeDigits? c
      let digits := rest.take n
      if digits.length != n then none
      some (← scalarValue? (← Json.hexNumber? digits), n + 1)

/-- The rest of a string in one double quote, and what follows its closing quote; `skip` characters
still belong to an escape. -/
def basicBody? : Nat → Text → Option (Text × Text)
  | _, [] => none
  | skip + 1, _ :: rest => basicBody? skip rest
  | 0, '"' :: rest => some ([], rest)
  | 0, '\\' :: rest => do
    let (c, n) ← escape? rest
    let (body, rest) ← basicBody? n rest
    some (c :: body, rest)
  | 0, c :: rest =>
    if isBarred c then none
    else (basicBody? 0 rest).map fun (body, rest) => (c :: body, rest)

/-- The rest of a string in one single quote, and what follows its closing quote. -/
def literalBody? : Text → Option (Text × Text)
  | [] => none
  | '\'' :: rest => some ([], rest)
  | c :: rest =>
    if isBarred c then none
    else (literalBody? rest).map fun (body, rest) => (c :: body, rest)

/-- How many characters a line end behind a backslash takes, with the blanks before it and all
spaces and line ends behind it; nothing if no line end is there. -/
def foldedLength? (t : Text) : Option Nat := do
  let behind ← behindNewline? (t.dropWhile isSpace)
  let rest := behind.dropWhile fun c => isSpace c || c == '\n' || c == '\r'
  some (t.length - rest.length)

/-- The number of `quote`s at the front of a text. -/
def quoteCount (quote : Char) (t : Text) : Nat := (t.takeWhile (· == quote)).length

/-- The rest of a string in three double quotes, and what follows it.  Up to two quotes may stand
right before the closing ones. -/
def multiBasicBody? : Nat → Text → Option (Text × Text)
  | _, [] => none
  | skip + 1, _ :: rest => multiBasicBody? skip rest
  | 0, '"' :: rest =>
    let n := quoteCount '"' rest + 1
    if n < 3 then (multiBasicBody? 0 rest).map fun (body, rest) => ('"' :: body, rest)
    else some (List.replicate (min n 5 - 3) '"', rest.drop (min n 5 - 1))
  | 0, '\\' :: rest =>
    match foldedLength? rest with
    | some n => multiBasicBody? n rest
    | none => do
      let (c, n) ← escape? rest
      let (body, rest) ← multiBasicBody? n rest
      some (c :: body, rest)
  | 0, c :: rest =>
    if isBarred c && (behindNewline? (c :: rest)).isNone then none
    else (multiBasicBody? 0 rest).map fun (body, rest) => (c :: body, rest)

/-- The rest of a string in three single quotes, and what follows it. -/
def multiLiteralBody? : Text → Option (Text × Text)
  | [] => none
  | '\'' :: rest =>
    let n := quoteCount '\'' rest + 1
    if n < 3 then (multiLiteralBody? rest).map fun (body, rest) => ('\'' :: body, rest)
    else some (List.replicate (min n 5 - 3) '\'', rest.drop (min n 5 - 1))
  | c :: rest =>
    if isBarred c && (behindNewline? (c :: rest)).isNone then none
    else (multiLiteralBody? rest).map fun (body, rest) => (c :: body, rest)

/-- The text without a line end at its front. -/
def dropNewline (t : Text) : Text := (behindNewline? t).getD t

/-- **A string at the front of a text** and what follows it. -/
def quoted? (t : Text) : Option (Text × Text) :=
  match t with
  | '"' :: '"' :: '"' :: rest => multiBasicBody? 0 (dropNewline rest)
  | '"' :: rest => basicBody? 0 rest
  | '\'' :: '\'' :: '\'' :: rest => multiLiteralBody? (dropNewline rest)
  | '\'' :: rest => literalBody? rest
  | _ => none

end BookSite.Toml
