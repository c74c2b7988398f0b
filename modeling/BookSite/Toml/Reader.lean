import BookSite.Toml.Draft
import BookSite.Toml.Quoted
import BookSite.Toml.Scalar

/-!
# Toml/Reader — reading TOML

A document is a sequence of lines: headers, which choose a table, and keys with values for it.
Lists and inline tables may run over several lines, and both may end with a comma.
-/

namespace BookSite.Toml

/-! ## Blanks and comments -/

/-- The text behind spaces, line ends and comments; `inComment` says whether a comment is open. -/
def skipTrivia? (inComment : Bool) : Text → Option Text
  | [] => some []
  | '\n' :: rest => skipTrivia? false rest
  | '\r' :: '\n' :: rest => skipTrivia? false rest
  | c :: rest =>
    if inComment then if isBarred c then none else skipTrivia? true rest
    else if isSpace c then skipTrivia? false rest
    else if c == '#' then skipTrivia? true rest
    else some (c :: rest)

/-- The text behind the end of a line on which nothing but a comment follows. -/
def behindLine? (inComment : Bool) : Text → Option Text
  | [] => some []
  | '\n' :: rest => some rest
  | '\r' :: '\n' :: rest => some rest
  | c :: rest =>
    if inComment then if isBarred c then none else behindLine? true rest
    else if isSpace c then behindLine? false rest
    else if c == '#' then behindLine? true rest
    else none

/-- The text behind spaces and tabs. -/
def skipSpaces (t : Text) : Text := t.dropWhile isSpace

/-! ## Keys -/

/-- Whether `c` may stand in a bare key. -/
def isBareChar (c : Char) : Bool := c.isAlphanum || c == '_' || c == '-'

/-- One name of a key: a string on one line, or a bare one. -/
def name? (t : Text) : Option (Text × Text) :=
  match t with
  | '"' :: rest => basicBody? 0 rest
  | '\'' :: rest => literalBody? rest
  | _ =>
    match t.takeWhile isBareChar with
    | [] => none
    | name => some (name, t.dropWhile isBareChar)

/-- A key: names with dots between them, and spaces around each. -/
def key? : Nat → Text → Option (List Text × Text)
  | 0, _ => none
  | fuel + 1, t => do
    let (name, rest) ← name? (skipSpaces t)
    match skipSpaces rest with
    | '.' :: rest =>
      let (names, rest) ← key? fuel rest
      some (name :: names, rest)
    | rest => some ([name], rest)

/-! ## Values -/

/-- The deepest nesting of lists and inline tables. -/
def maxNesting : Nat := 80

mutual

/-- A value at the front of a text; `depth` is the nesting that is left and `fuel` bounds the
steps. -/
def value? (depth : Nat) : Nat → Text → Option (Toml × Text)
  | 0, _ => none
  | fuel + 1, t =>
    match t with
    | [] => none
    | '[' :: rest =>
      match depth with
      | 0 => none
      | depth + 1 => (items? depth fuel rest).map fun (items, rest) => (.array items, rest)
    | '{' :: rest =>
      match depth with
      | 0 => none
      | depth + 1 =>
        (entries? depth fuel [] rest).map fun (fields, rest) =>
          (.table (Draft.finishFields fields), rest)
    | c :: _ =>
      if c == '"' || c == '\'' then (quoted? t).map fun (s, rest) => (.string s, rest)
      else
        let run := scalarRun t
        (scalar? run).map fun v => (v, t.drop run.length)

/-- The items of a list up to its closing bracket. -/
def items? (depth : Nat) : Nat → Text → Option (List Toml × Text)
  | 0, _ => none
  | fuel + 1, t => do
    match ← skipTrivia? false t with
    | ']' :: rest => some ([], rest)
    | t =>
      let (item, rest) ← value? depth fuel t
      match ← skipTrivia? false rest with
      | ',' :: rest =>
        let (items, rest) ← items? depth fuel rest
        some (item :: items, rest)
      | ']' :: rest => some ([item], rest)
      | _ => none

/-- The fields of an inline table up to its closing brace, added to those read before. -/
def entries? (depth : Nat) : Nat → Draft.Fields → Text → Option (Draft.Fields × Text)
  | 0, _, _ => none
  | fuel + 1, fields, t => do
    match ← skipTrivia? false t with
    | '}' :: rest => some (fields, rest)
    | t =>
      let (key, rest) ← key? fuel t
      let rest ← Text.behind? rest ['=']
      let (v, rest) ← value? depth fuel (skipSpaces rest)
      let fields ← Draft.addKey key v .explicit fields
      match ← skipTrivia? false rest with
      | ',' :: rest => entries? depth fuel fields rest
      | '}' :: rest => some (fields, rest)
      | _ => none

end

/-! ## Documents -/

/-- The state between two lines: all fields, and the names of the table that was opened last. -/
structure Progress where
  fields : Draft.Fields
  header : List Text

/-- A header at the front of a text, behind its first bracket. -/
def header? (state : Progress) (t : Text) : Option (Progress × Text) := do
  let (isList, t) := match t with
    | '[' :: rest => (true, rest)
    | rest => (false, rest)
  let (key, rest) ← key? (t.length + 1) t
  let rest ← Text.behind? rest (if isList then [']', ']'] else [']'])
  let name ← key.getLast?
  let change := if isList then Draft.openTables name else Draft.openTable name
  let fields ← Draft.changeAt false (fun _ => change) key.dropLast .explicit state.fields
  some (⟨fields, key⟩, rest)

/-- A key with its value at the front of a text. -/
def keyValue? (state : Progress) (t : Text) : Option (Progress × Text) := do
  let (key, rest) ← key? (t.length + 1) t
  let rest := skipSpaces (← Text.behind? rest ['='])
  let (v, rest) ← value? maxNesting (rest.length + 1) rest
  let fields ← Draft.changeAt false (Draft.addKey key v) state.header .explicit state.fields
  some ({ state with fields }, rest)

/-- The lines of a document, with a bound on their number. -/
def document? : Nat → Progress → Text → Option Progress
  | 0, _, _ => none
  | fuel + 1, state, t => do
    match ← skipTrivia? false t with
    | [] => some state
    | '[' :: rest =>
      let (state, rest) ← header? state rest
      document? fuel state (← behindLine? false rest)
    | t =>
      let (state, rest) ← keyValue? state t
      document? fuel state (← behindLine? false rest)

/-- **Read a document**: the fields of its top table.  A byte order mark at its front does not
count. -/
def parse? (t : Text) : Option (List (Text × Toml)) :=
  let t := t.dropLeading ['\uFEFF']
  (document? (t.length + 1) ⟨[], []⟩ t).map fun state => Draft.finishFields state.fields

end BookSite.Toml
