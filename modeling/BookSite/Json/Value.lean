import BookSite.Decimal.Binary64
import BookSite.Ordered

/-!
# Json/Value — JSON values

A number is an integer when it is written as one and fits 64 bits, and a floating point number
otherwise.  The fields of an object keep their order.
-/

namespace BookSite

/-- A JSON value. -/
inductive Json where
  | null
  | bool (b : Bool)
  | integer (n : Int)
  | float (x : Binary64)
  | string (s : Text)
  | array (items : List Json)
  | object (fields : List (Text × Json))
  deriving Repr, Inhabited

namespace Json

/-- A string with fixed wording. -/
def ofString (s : String) : Json := .string s.toList

/-- An object with fixed names. -/
def ofFields (fields : List (String × Json)) : Json :=
  .object (fields.map fun (name, value) => (name.toList, value))

/-- A list of texts. -/
def ofTexts (ts : List Text) : Json := .array (ts.map .string)

/-- A value that may be missing. -/
def ofOption {α : Type} (write : α → Json) : Option α → Json
  | none => .null
  | some a => write a

/-- The value of a field of an object. -/
def field? (name : String) : Json → Option Json
  | .object fields => fields.lookup name.toList
  | _ => none

end Json

end BookSite
