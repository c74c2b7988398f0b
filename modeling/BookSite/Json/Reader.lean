import BookSite.Json.Value
import BookSite.Text.Count

/-!
# Json/Reader — reading JSON

A text is first read as a **source**, which says nothing about what its strings and numbers are
worth: a string may hold half of a surrogate pair and a number may be out of range.  That matters
only to those who want the value, and `Source.value?` refuses them then.
-/

namespace BookSite.Json

/-- A JSON value as it is written.  A string is missing its text when it is none, and a number its
value when that is out of range. -/
inductive Source where
  | null
  | bool (b : Bool)
  | number (value? : Option Json)
  | string (text? : Option Text)
  | array (items : List Source)
  | object (fields : List (Option Text × Source))
  deriving Repr, Inhabited

/-! ## Numbers

Digits are collected as long as they fit 64 bits; later digits only count for the exponent.  A float
is the collected whole number, rounded, times or divided by a rounded power of ten. -/

/-- Whether a digit does not fit behind `n` any more. -/
def overflows (n digit : Nat) : Bool := n * 10 + digit > maxCount

/-- The value of a decimal digit. -/
def digitValue (c : Char) : Nat := c.toNat - 48

/-- Collect the digits before the point: the number they make, and how many are left out. -/
def collectWhole : Nat → Text → Nat × Nat
  | n, [] => (n, 0)
  | n, c :: rest =>
    if overflows n (digitValue c) then (n, rest.length + 1)
    else collectWhole (n * 10 + digitValue c) rest

/-- Collect digits behind the point: the number they make, and how many of them are in it. -/
def collectFraction : Nat → Text → Nat × Nat
  | n, [] => (n, 0)
  | n, c :: rest =>
    if overflows n (digitValue c) then (n, 0)
    else
      let (m, k) := collectFraction (n * 10 + digitValue c) rest
      (m, k + 1)

/-- Scale a number by a power of ten.  Exponents below the table of powers are reached by dividing
by the last one several times. -/
def scale : Nat → Binary64 → Int → Option Binary64
  | 0, x, _ => some x
  | fuel + 1, x, e =>
    if e.natAbs ≤ 308 then
      let power := Binary64.ofDecimal false 1 (Int.ofNat e.natAbs)
      if e ≥ 0 then
        let y := x.mulMagnitude power
        if y.isInfinite then none else some y
      else some (x.divMagnitude power)
    else if x.isZero then some x
    else if e ≥ 0 then none
    else scale fuel (x.divMagnitude (Binary64.ofDecimal false 1 308)) (e + 308)

/-- The float with the given sign, collected digits and exponent. -/
def floatOf (negative : Bool) (n : Nat) (e : Int) : Option Json :=
  (scale 5 (Binary64.ofRatio false n 1) e).map fun x => .float (x.withSign negative)

/-- The greatest exponent that is told apart from greater ones. -/
def maxExponentDigits : Nat := 2147483647

/-- The value of a number with the given parts: the digits before the point, those behind it if
there is one, and sign and digits of the exponent if there is one. -/
def numberOf (negative : Bool) (whole : Text) (fraction : Option Text)
    (exponent : Option (Bool × Text)) : Option Json :=
  let (n, dropped) := collectWhole 0 whole
  match fraction, exponent, dropped with
  | none, none, 0 =>
    if !negative then some (.integer n)
    else if n = 0 ∨ n > Nat.pow 2 63 then floatOf true n 0
    else some (.integer (-n))
  | _, _, _ =>
    let (n, taken) := collectFraction n (fraction.getD [])
    let e : Int := Int.ofNat dropped - Int.ofNat taken
    match exponent with
    | none => floatOf negative n e
    | some (down, digits) =>
      let x := Nat.ofDigitChars 10 digits 0
      if x > maxExponentDigits then
        if n ≠ 0 ∧ !down then none else some (.float (.zero negative))
      else floatOf negative n (if down then e - x else e + x)

/-- Some digits at the front of a text, at least one, and what follows them. -/
def digits? (t : Text) : Option (Text × Text) :=
  match t.takeWhile isDecimalDigit with
  | [] => none
  | ds => some (ds, t.dropWhile isDecimalDigit)

/-- The part of a number behind a point, if there is a point. -/
def fraction? (t : Text) : Option (Option Text × Text) :=
  match t with
  | '.' :: rest => (digits? rest).map fun (ds, rest) => (some ds, rest)
  | _ => some (none, t)

/-- The exponent of a number, if there is one. -/
def exponent? (t : Text) : Option (Option (Bool × Text) × Text) :=
  match t with
  | [] => some (none, [])
  | c :: rest =>
    if c == 'e' || c == 'E' then
      let (down, rest) := match rest with
        | '-' :: more => (true, more)
        | '+' :: more => (false, more)
        | more => (false, more)
      (digits? rest).map fun (ds, rest) => (some (down, ds), rest)
    else some (none, t)

/-- **A number at the front of a text.**  No digit follows a zero at its front. -/
def number? (t : Text) : Option (Source × Text) := do
  let (negative, rest) := match t with
    | '-' :: more => (true, more)
    | more => (false, more)
  let (whole, rest) ← digits? rest
  if whole.length > 1 && whole.head? == some '0' then none
  let (fraction, rest) ← fraction? rest
  let (exponent, rest) ← exponent? rest
  some (.number (numberOf negative whole fraction exponent), rest)

/-! ## Strings -/

/-- A character of a string, or a unit of sixteen bits that an escape names. -/
inductive StringUnit where
  | char (c : Char)
  | unit (n : Nat)

/-- The value of a hexadecimal digit. -/
def hexValue? (c : Char) : Option Nat :=
  if isDecimalDigit c then some (c.toNat - 48)
  else if 'a' ≤ c && c ≤ 'f' then some (c.toNat - 87)
  else if 'A' ≤ c && c ≤ 'F' then some (c.toNat - 55)
  else none

/-- The value of several hexadecimal digits. -/
def hexNumber? (t : Text) : Option Nat :=
  t.foldlM (fun n c => (hexValue? c).map (n * 16 + ·)) 0

/-- The character that an escape of one letter names. -/
def simpleEscape? (c : Char) : Option Char :=
  match c with
  | '"' | '\\' | '/' => some c
  | 'b' => some '\x08'
  | 'f' => some '\x0c'
  | 'n' => some '\n'
  | 'r' => some '\r'
  | 't' => some '\t'
  | _ => none

/-- The units of a string up to its closing quote, and what follows it. -/
def stringUnits? : Text → Option (List StringUnit × Text)
  | [] => none
  | '"' :: rest => some ([], rest)
  | '\\' :: 'u' :: a :: b :: c :: d :: rest => do
    let n ← hexNumber? [a, b, c, d]
    let (units, rest) ← stringUnits? rest
    some (.unit n :: units, rest)
  | '\\' :: c :: rest => do
    let c ← simpleEscape? c
    let (units, rest) ← stringUnits? rest
    some (.char c :: units, rest)
  | c :: rest =>
    if c.toNat < 0x20 then none
    else (stringUnits? rest).map fun (units, rest) => (.char c :: units, rest)

/-- The text that units make; the halves of a surrogate pair must come one after the other. -/
def joinUnits? : List StringUnit → Option Text
  | [] => some []
  | .char c :: rest => (joinUnits? rest).map (c :: ·)
  | .unit m :: rest =>
    if m < 0xD800 ∨ 0xE000 ≤ m then (joinUnits? rest).map (Char.ofNat m :: ·)
    else match rest with
      | .unit n :: more =>
        if m < 0xDC00 ∧ 0xDC00 ≤ n ∧ n < 0xE000 then
          (joinUnits? more).map (Char.ofNat (0x10000 + (m - 0xD800) * 0x400 + (n - 0xDC00)) :: ·)
        else none
      | _ => none

/-- **A string behind its opening quote**: its text, if it is one, and what follows. -/
def string? (t : Text) : Option (Option Text × Text) :=
  (stringUnits? t).map fun (units, rest) => (joinUnits? units, rest)

/-! ## Values -/

/-- The text without the blanks of JSON at its front. -/
def skipBlanks (t : Text) : Text :=
  t.dropWhile fun c => c == ' ' || c == '\n' || c == '\t' || c == '\r'

mutual

/-- A value at the front of a text, read with the given bound on the number of nested steps. -/
def source? : Nat → Text → Option (Source × Text)
  | 0, _ => none
  | fuel + 1, t =>
    match skipBlanks t with
    | [] => none
    | '"' :: rest => (string? rest).map fun (s, rest) => (.string s, rest)
    | '[' :: rest =>
      match skipBlanks rest with
      | ']' :: rest => some (.array [], rest)
      | _ => (items? fuel rest).map fun (items, rest) => (.array items, rest)
    | '{' :: rest =>
      match skipBlanks rest with
      | '}' :: rest => some (.object [], rest)
      | _ => (fields? fuel rest).map fun (fields, rest) => (.object fields, rest)
    | t =>
      ((Text.behind? t "null".toList).map fun rest => (Source.null, rest))
        |>.or ((Text.behind? t "true".toList).map fun rest => (Source.bool true, rest))
        |>.or ((Text.behind? t "false".toList).map fun rest => (Source.bool false, rest))
        |>.or (number? t)

/-- The items of a list up to its closing bracket. -/
def items? : Nat → Text → Option (List Source × Text)
  | 0, _ => none
  | fuel + 1, t => do
    let (item, rest) ← source? fuel t
    match skipBlanks rest with
    | ',' :: rest =>
      let (items, rest) ← items? fuel rest
      some (item :: items, rest)
    | ']' :: rest => some ([item], rest)
    | _ => none

/-- The fields of an object up to its closing brace. -/
def fields? : Nat → Text → Option (List (Option Text × Source) × Text)
  | 0, _ => none
  | fuel + 1, t => do
    let rest ← Text.behind? (skipBlanks t) ['"']
    let (name, rest) ← string? rest
    let rest ← Text.behind? (skipBlanks rest) [':']
    let (value, rest) ← source? fuel rest
    match skipBlanks rest with
    | ',' :: rest =>
      let (fields, rest) ← fields? fuel rest
      some ((name, value) :: fields, rest)
    | '}' :: rest => some ([(name, value)], rest)
    | _ => none

end

/-- **Read a text as one value** and nothing else.  Every step takes a character, so the length of
the text bounds the nesting. -/
def Source.parse? (t : Text) : Option Source :=
  match source? (t.length + 1) t with
  | some (source, rest) => if (skipBlanks rest).isEmpty then some source else none
  | none => none

mutual

/-- **What a source is worth.**  A later field of the same name replaces an earlier one. -/
def Source.value? : Source → Option Json
  | .null => some .null
  | .bool b => some (.bool b)
  | .number value => value
  | .string text => text.map .string
  | .array items => (sourceValues? items).map .array
  | .object fields => (sourceFields? fields).map fun fs => .object (Ordered.putAll [] fs)

/-- What the items of a list are worth. -/
def sourceValues? : List Source → Option (List Json)
  | [] => some []
  | s :: rest => do some ((← s.value?) :: (← sourceValues? rest))

/-- What the fields of an object are worth. -/
def sourceFields? : List (Option Text × Source) → Option (List (Text × Json))
  | [] => some []
  | (name, s) :: rest => do some ((← name, ← s.value?) :: (← sourceFields? rest))

end

/-- **Read a text as a JSON value.** -/
def parse? (t : Text) : Option Json := (Source.parse? t).bind Source.value?

end BookSite.Json
