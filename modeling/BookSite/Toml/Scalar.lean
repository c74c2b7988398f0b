import BookSite.Json.Reader
import BookSite.Text.Blank
import BookSite.Toml.Value

/-!
# Toml/Scalar — numbers, dates and times

A scalar is a run of characters that is read as a whole: `true` or `false`, an integer in one of
four bases, a float, a date, a time, or both.  An underscore may stand between two digits.
-/

namespace BookSite.Toml

/-! ## Digits -/

/-- The digits of a run with underscores between them; every underscore has a digit on both
sides. -/
def plainDigits? (p : Char → Bool) (t : Text) : Option Text :=
  let groups := t.fields '_'
  if groups.all fun g => !g.isEmpty && g.all p then some groups.flatten else none

/-- The value of digits in a base up to sixteen. -/
def valueIn (base : Nat) (digits : Text) : Nat :=
  digits.foldl (fun n c => n * base + (Json.hexValue? c).getD 0) 0

/-- An unsigned integer behind one of the marks for bases. -/
def basedInteger? (t : Text) : Option Int :=
  match t with
  | '0' :: 'x' :: digits =>
    (plainDigits? (fun c => (Json.hexValue? c).isSome) digits).map fun ds => (valueIn 16 ds : Int)
  | '0' :: 'o' :: digits =>
    (plainDigits? (fun c => '0' ≤ c && c ≤ '7') digits).map fun ds => (valueIn 8 ds : Int)
  | '0' :: 'b' :: digits =>
    (plainDigits? (fun c => c == '0' || c == '1') digits).map fun ds => (valueIn 2 ds : Int)
  | _ => none

/-- A sign at the front of a text, and what follows it. -/
def splitSign (t : Text) : Bool × Text :=
  match t with
  | '-' :: rest => (true, rest)
  | '+' :: rest => (false, rest)
  | rest => (false, rest)

/-- The digits of a whole number: no zero stands before other digits. -/
def wholeDigits? (t : Text) : Option Text :=
  (plainDigits? isDecimalDigit t).filter fun ds => ds.length == 1 || ds.head? != some '0'

/-- A decimal integer. -/
def decimalInteger? (t : Text) : Option Int :=
  let (negative, rest) := splitSign t
  (wholeDigits? rest).map fun ds =>
    let n : Int := Nat.ofDigitChars 10 ds 0
    if negative then -n else n

/-! ## Floats -/

/-- The text around the exponent mark, if there is one. -/
def splitExponent (t : Text) : Text × Option Text :=
  match t.dropWhile fun c => c != 'e' && c != 'E' with
  | [] => (t, none)
  | _ :: rest => (t.takeWhile fun c => c != 'e' && c != 'E', some rest)

/-- A float: a whole number with a fraction or an exponent or both, `inf` or `nan`.  A float too
great for 64 bits is none. -/
def float? (t : Text) : Option Binary64 := do
  let (negative, rest) := splitSign t
  if rest == "inf".toList then some (.infinity negative)
  else if rest == "nan".toList then some .nan
  else
    let (mantissa, exponent) := splitExponent rest
    let (whole, fraction) := match mantissa.splitOnce '.' with
      | some (whole, fraction) => (whole, some fraction)
      | none => (mantissa, none)
    if fraction.isNone && exponent.isNone then none
    let whole ← wholeDigits? whole
    let fraction ← match fraction with
      | some f => plainDigits? isDecimalDigit f
      | none => some []
    let e : Int ← match exponent with
      | some e => do
        let (down, digits) := splitSign e
        let n : Int := Nat.ofDigitChars 10 (← plainDigits? isDecimalDigit digits) 0
        some (if down then -n else n)
      | none => some 0
    let x := Binary64.ofDecimal negative (Nat.ofDigitChars 10 (whole ++ fraction) 0)
      (e - fraction.length)
    if x.isInfinite then none else some x

/-! ## Dates and times -/

/-- Exactly `n` digits at the front of a text, and what follows them. -/
def number? (n : Nat) (t : Text) : Option (Nat × Text) :=
  let digits := t.take n
  if digits.length == n && digits.all isDecimalDigit then
    some (Nat.ofDigitChars 10 digits 0, t.drop n)
  else none

/-- A number with zeros in front to make the given number of digits. -/
def padded (n value : Nat) : Text :=
  let digits := Text.ofNat value
  List.replicate (n - digits.length) '0' ++ digits

/-- The number of days of a month. -/
def daysIn (year month : Nat) : Nat :=
  if month = 2 then
    if year % 4 = 0 ∧ (year % 100 ≠ 0 ∨ year % 400 = 0) then 29 else 28
  else if month = 4 ∨ month = 6 ∨ month = 9 ∨ month = 11 then 30
  else 31

/-- A date at the front of a text, in its normal spelling, and what follows it. -/
def date? (t : Text) : Option (Text × Text) := do
  let (year, rest) ← number? 4 t
  let (month, rest) ← number? 2 (← rest.behind? ['-'])
  let (day, rest) ← number? 2 (← rest.behind? ['-'])
  if 1 ≤ month ∧ month ≤ 12 ∧ 1 ≤ day ∧ day ≤ daysIn year month then
    some (padded 4 year ++ '-' :: padded 2 month ++ '-' :: padded 2 day, rest)
  else none

/-- The fraction of a second in its normal spelling: nine digits at most, no zeros at the end but
one. -/
def normalFraction (digits : Text) : Text :=
  match Text.dropWhileEnd (digits.take 9) (· == '0') with
  | [] => ['0']
  | ds => ds

/-- The seconds at the front of a text, if there are any. -/
def seconds? (t : Text) : Option (Text × Text) :=
  match t with
  | ':' :: rest => do
    let (second, rest) ← number? 2 rest
    if second > 60 then none
    match rest with
    | '.' :: rest =>
      let (digits, rest) ← Json.digits? rest
      some (':' :: padded 2 second ++ '.' :: normalFraction digits, rest)
    | _ => some (':' :: padded 2 second, rest)
  | _ => some ([], t)

/-- A time at the front of a text, in its normal spelling, and what follows it. -/
def time? (t : Text) : Option (Text × Text) := do
  let (hour, rest) ← number? 2 t
  let (minute, rest) ← number? 2 (← rest.behind? [':'])
  if hour > 23 ∨ minute > 59 then none
  let (seconds, rest) ← seconds? rest
  some (padded 2 hour ++ ':' :: padded 2 minute ++ seconds, rest)

/-- A whole text as an offset from universal time: a `Z`, or hours and minutes of a day at most. -/
def offset? (t : Text) : Option Text :=
  match t with
  | [] => some []
  | ['Z'] | ['z'] => some ['Z']
  | sign :: rest => do
    if sign != '+' && sign != '-' then none
    let (hours, rest) ← number? 2 rest
    let (minutes, rest) ← number? 2 (← rest.behind? [':'])
    let total := hours * 60 + minutes
    if !rest.isEmpty || total > 24 * 60 then none
    let sign := if total = 0 then '+' else sign
    some (sign :: padded 2 (total / 60) ++ ':' :: padded 2 (total % 60))

/-- **A date, a time, or both** with or without an offset, in its normal spelling. -/
def datetime? (t : Text) : Option Text :=
  match date? t with
  | some (date, []) => some date
  | some (date, mark :: rest) => do
    if mark != 'T' && mark != 't' && mark != ' ' then none
    let (time, rest) ← time? rest
    some (date ++ 'T' :: time ++ (← offset? rest))
  | none =>
    match time? t with
    | some (time, []) => some time
    | _ => none

/-! ## Scalars -/

/-- **Read a scalar.** -/
def scalar? (t : Text) : Option Toml :=
  if t == "true".toList then some (.boolean true)
  else if t == "false".toList then some (.boolean false)
  else
    ((basedInteger? t).map .integer)
      |>.or ((decimalInteger? t).map .integer)
      |>.or ((float? t).map .float)
      |>.or ((datetime? t).map .datetime)

/-- Whether `c` ends a scalar. -/
def endsScalar (c : Char) : Bool :=
  isBlank c || c == '#' || c == ',' || c == '=' || c == '[' || c == ']' || c == '{' || c == '}'
    || c == '"' || c == '\''

/-- The characters of the scalar at the front of a text.  A space may stand between a date and a
time. -/
def scalarRun (t : Text) : Text :=
  let run := t.takeWhile (!endsScalar ·)
  match date? run, t.drop run.length with
  | some (_, []), ' ' :: rest =>
    match rest.takeWhile (!endsScalar ·) with
    | more@(c :: _) => if isDecimalDigit c then run ++ ' ' :: more else run
    | [] => run
  | _, _ => run

end BookSite.Toml
