import BookSite.Decimal.Binary64
import BookSite.Ordered

/-!
# Toml/Value — TOML values

Integers are kept as large as they are written; how large one may be depends on what it is read for.
Dates and times are kept in their normal spelling.
-/

namespace BookSite

/-- A TOML value. -/
inductive Toml where
  | string (s : Text)
  | integer (n : Int)
  | float (x : Binary64)
  | boolean (b : Bool)
  | datetime (t : Text)
  | array (items : List Toml)
  | table (fields : List (Text × Toml))
  deriving Repr, Inhabited

namespace Toml

mutual

/-- Whether all integers of a value lie between two bounds. -/
def integersWithin (low high : Int) : Toml → Bool
  | integer n => low ≤ n && n ≤ high
  | array items => itemsWithin low high items
  | table fields => fieldsWithin low high fields
  | _ => true

/-- Whether all integers of some values lie between two bounds. -/
def itemsWithin (low high : Int) : List Toml → Bool
  | [] => true
  | v :: rest => integersWithin low high v && itemsWithin low high rest

/-- Whether all integers of some fields lie between two bounds. -/
def fieldsWithin (low high : Int) : List (Text × Toml) → Bool
  | [] => true
  | (_, v) :: rest => integersWithin low high v && fieldsWithin low high rest

end

/-- Whether all integers of a value fit 64 bits with a sign, as those of a kept value must. -/
def isKeepable : Toml → Bool := integersWithin (-Int.pow 2 63) (Int.pow 2 63 - 1)

/-- Whether all integers of a value fit 128 bits, as even those of a value that is passed over
must. -/
def isReadable : Toml → Bool := integersWithin (-Int.pow 2 127) (Int.pow 2 128 - 1)

/-- The fields of a table.  A date or time counts as a table of one field. -/
def fields? : Toml → Option (List (Text × Toml))
  | table fields => some fields
  | datetime t => some [("$__toml_private_datetime".toList, string t)]
  | _ => none

/-- The text of a string. -/
def text? : Toml → Option Text
  | string s => some s
  | _ => none

/-- The truth value of a boolean. -/
def bool? : Toml → Option Bool
  | boolean b => some b
  | _ => none

end Toml

end BookSite
