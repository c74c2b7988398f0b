/-!
# Decimal/Binary64 — binary floating point numbers of 64 bits

A finite number is a mantissa below 2^53 times a power of two whose exponent lies between -1074 and
971; the representation is unique because the mantissa is at least 2^52 unless the exponent is the
least one.  All rounding goes to the nearest number and, between two, to the even mantissa.
Everything is computed with whole numbers.
-/

namespace BookSite

/-- A floating point number. -/
inductive Binary64 where
  | nan
  | infinity (negative : Bool)
  /-- the number `mantissa * 2 ^ exponent` with a sign -/
  | finite (negative : Bool) (mantissa : Nat) (exponent : Int)
  deriving DecidableEq, Repr, Inhabited

/-- The quotient of two numbers rounded to the nearest whole number, a half to the even one. -/
def roundedQuotient (num den : Nat) : Nat :=
  let q := num / den
  let twice := 2 * (num % den)
  if twice > den || (twice == den && q % 2 == 1) then q + 1 else q

namespace Binary64

/-- The least exponent. -/
def minExponent : Int := -1074

/-- The greatest exponent. -/
def maxExponent : Int := 971

/-- Zero. -/
def zero (negative : Bool) : Binary64 := finite negative 0 minExponent

/-- Numerator and denominator scaled so that their quotient is that of `num / den` by `2 ^ q`. -/
def scaled (num den : Nat) (q : Int) : Nat × Nat :=
  if q ≥ 0 then (num, den * Nat.pow 2 q.toNat) else (num * Nat.pow 2 (-q).toNat, den)

/-- **The number nearest to a quotient**; a zero denominator counts as a quotient too great. -/
def ofRatio (negative : Bool) (num den : Nat) : Binary64 :=
  if num = 0 then zero negative
  else if den = 0 then infinity negative
  else
    let k : Int := Int.ofNat num.log2 - Int.ofNat den.log2 - 53
    let fits (q : Int) : Bool := let (n, d) := scaled num den q; n / d < Nat.pow 2 53
    let q := max (if fits k then k else k + 1) minExponent
    let (n, d) := scaled num den q
    let m := roundedQuotient n d
    let (m, q) := if m = Nat.pow 2 53 then (Nat.pow 2 52, q + 1) else (m, q)
    if q > maxExponent then infinity negative else finite negative m q

/-- **The number nearest to `digits * 10 ^ exponent`.**  Exponents far outside the range are
answered without computing the power. -/
def ofDecimal (negative : Bool) (digits : Nat) (exponent : Int) : Binary64 :=
  if digits = 0 then zero negative
  else
    let magnitude : Int := Int.ofNat digits.log2 / 4 + exponent
    if magnitude > 400 then infinity negative
    else if Int.ofNat digits.log2 + exponent < -400 then zero negative
    else if exponent ≥ 0 then ofRatio negative (digits * Nat.pow 10 exponent.toNat) 1
    else ofRatio negative digits (Nat.pow 10 (-exponent).toNat)

/-- Whether the number is zero. -/
def isZero : Binary64 → Bool
  | finite _ m _ => m == 0
  | _ => false

/-- Whether the number is an infinity. -/
def isInfinite : Binary64 → Bool
  | infinity _ => true
  | _ => false

/-- The numerator and denominator of a finite number without its sign. -/
def ratio? : Binary64 → Option (Nat × Nat)
  | finite _ m q => some (if q ≥ 0 then (m * Nat.pow 2 q.toNat, 1) else (m, Nat.pow 2 (-q).toNat))
  | _ => none

/-- The product of two numbers that are not negative, rounded. -/
def mulMagnitude (a b : Binary64) : Binary64 :=
  match a.ratio?, b.ratio? with
  | some (n, d), some (n', d') => ofRatio false (n * n') (d * d')
  | _, _ => infinity false

/-- The quotient of two numbers that are not negative, rounded. -/
def divMagnitude (a b : Binary64) : Binary64 :=
  match a.ratio?, b.ratio? with
  | some (n, d), some (n', d') => ofRatio false (n * d') (d * n')
  | _, _ => infinity false

/-- The number with the given sign. -/
def withSign (negative : Bool) : Binary64 → Binary64
  | nan => nan
  | infinity _ => infinity negative
  | finite _ m q => finite negative m q

end Binary64

end BookSite
