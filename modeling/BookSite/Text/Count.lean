import BookSite.Text.Basic

/-!
# Text/Count — counts in decimal digits

A **count** is a natural number below 2^64.  It is written with the fewest decimal digits and read
from one or more decimal digits, with one optional plus sign and any number of leading zeros.
-/

namespace BookSite

/-- The greatest count. -/
def maxCount : Nat := 18446744073709551615

/-- Whether `c` is one of `0` to `9`. -/
def isDecimalDigit (c : Char) : Bool := '0' ≤ c && c ≤ '9'

namespace Text

/-- The decimal digits of a number. -/
def ofNat (n : Nat) : Text := Nat.toDigits 10 n

/-- The decimal digits of an integer, after a minus sign when it is negative. -/
def ofInt : Int → Text
  | .ofNat n => ofNat n
  | .negSucc n => '-' :: ofNat (n + 1)

/-- The number written by a non-empty run of decimal digits. -/
def toNat? (t : Text) : Option Nat :=
  if t.isEmpty || !t.all isDecimalDigit then none else some (Nat.ofDigitChars 10 t 0)

/-- **Read a count.** -/
def toCount? (t : Text) : Option Nat :=
  (t.dropLeading ['+']).toNat?.filter (· ≤ maxCount)

end Text

end BookSite
