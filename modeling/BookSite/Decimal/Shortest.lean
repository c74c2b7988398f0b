import BookSite.Decimal.Binary64
import BookSite.Text.Count

/-!
# Decimal/Shortest — the shortest decimal that reads back

A floating point number is printed with the **fewest digits** that still read back as the same
number, and among those with the digits nearest to it.  The numbers that read back as a given one
form an interval around it; its ends belong to it when the mantissa is even.  The decimals with the
fewest digits in the interval lie on the coarsest grid of powers of ten that meets it, and one of
the two grid points next to the number is such a decimal.

How a number with given digits is laid out is a matter of the format: see `FloatLayout`.
-/

namespace BookSite

/-- A decimal, `digits * 10 ^ exponent`. -/
structure Decimal where
  digits : Nat
  exponent : Int
  deriving DecidableEq, Repr

namespace Decimal

/-- The quotient that a decimal is. -/
def ratio (d : Decimal) : Nat × Nat :=
  if d.exponent ≥ 0 then (d.digits * Nat.pow 10 d.exponent.toNat, 1)
  else (d.digits, Nat.pow 10 (-d.exponent).toNat)

/-- Whether `mantissa * 2 ^ exponent` is the number that a decimal reads back as: whether it lies in
the interval between the middles to the two neighbours. -/
def readsBackAs (d : Decimal) (mantissa : Nat) (exponent : Int) : Bool :=
  let (num, den) := d.ratio
  -- compare `num / den` with quarters of the mantissa's unit
  let (n, u) := Binary64.scaled (4 * num) den exponent
  let low := 4 * mantissa -
    (if mantissa = Nat.pow 2 52 ∧ exponent > Binary64.minExponent then 1 else 2)
  let high := 4 * mantissa + 2
  if mantissa % 2 = 0 then low * u ≤ n && n ≤ high * u else low * u < n && n < high * u

/-- The best decimal on the grid of `10 ^ k` that reads back, if there is one. -/
def onGrid? (mantissa : Nat) (exponent k : Int) : Option Decimal :=
  let (num, den) := if exponent ≥ 0 then (mantissa * Nat.pow 2 exponent.toNat, 1)
    else (mantissa, Nat.pow 2 (-exponent).toNat)
  let (num, den) := if k ≥ 0 then (num, den * Nat.pow 10 k.toNat)
    else (num * Nat.pow 10 (-k).toNat, den)
  let nearest := roundedQuotient num den
  let other := if nearest = num / den then nearest + 1 else nearest - 1
  [nearest, other].map (Decimal.mk · k) |>.find? (·.readsBackAs mantissa exponent)

/-- Search finer and finer grids. -/
def search (mantissa : Nat) (exponent : Int) : Nat → Int → Decimal
  | 0, k => ⟨0, k⟩
  | fuel + 1, k => (onGrid? mantissa exponent k).getD (search mantissa exponent fuel (k - 1))

/-- **The shortest decimal** of a finite number that is not zero. -/
def shortest (mantissa : Nat) (exponent : Int) : Decimal :=
  search mantissa exponent 22 ((exponent + Int.ofNat mantissa.log2 + 1) * 30103 / 100000 + 1)

end Decimal

/-- **How a format lays out a number**: which decimal exponents it writes without an exponent, and
how it writes the others. -/
structure FloatLayout where
  /-- the least exponent of the first digit that is written positionally -/
  minPositional : Int
  /-- the greatest exponent of the first digit that is written positionally -/
  maxPositional : Int
  /-- what stands before the digits of an exponent that is not negative -/
  exponentPlus : Text

namespace FloatLayout

/-- Digits with a point behind the first `n`. -/
def pointed (n : Nat) (digits : Text) : Text := digits.take n ++ '.' :: digits.drop n

/-- Lay out a decimal whose digits do not end in zeros. -/
def layOut (layout : FloatLayout) (d : Decimal) : Text :=
  let digits := Text.ofNat d.digits
  let first : Int := d.exponent + Int.ofNat digits.length - 1
  if layout.minPositional ≤ first && first ≤ layout.maxPositional then
    if d.exponent ≥ 0 then
      digits ++ Text.replicate d.exponent.toNat ['0'] ++ ['.', '0']
    else if first ≥ 0 then pointed (first.toNat + 1) digits
    else ['0', '.'] ++ Text.replicate ((-first).toNat - 1) ['0'] ++ digits
  else
    (if digits.length = 1 then digits else pointed 1 digits) ++
      (if first ≥ 0 then 'e' :: layout.exponentPlus ++ Text.ofNat first.toNat
        else ['e', '-'] ++ Text.ofNat (-first).toNat)

/-- **Write a number.** -/
def write (layout : FloatLayout) : Binary64 → Text
  | .nan => "NaN".toList
  | .infinity negative => (if negative then ['-'] else []) ++ "inf".toList
  | .finite negative m q =>
    (if negative then ['-'] else []) ++
      (if m = 0 then "0.0".toList else layout.layOut (.shortest m q))

end FloatLayout

end BookSite
