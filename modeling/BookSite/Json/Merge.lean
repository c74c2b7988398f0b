import BookSite.Json.Value

/-!
# Json/Merge — merging objects

The fields of one object are merged into another: objects of the same name are merged in turn, every
other value replaces the one that was there.  Names keep their places and new ones come at the end.
-/

namespace BookSite.Json

mutual

/-- **Merge fields into others.** -/
def mergeFields (fields : List (Text × Json)) : List (Text × Json) → List (Text × Json)
  | [] => fields
  | (name, value) :: rest =>
    mergeFields (Ordered.put name (mergeValue (fields.lookup name) value) fields) rest

/-- The value of a field after a new one has come for it. -/
def mergeValue (old : Option Json) : Json → Json
  | .object more =>
    match old with
    | some (.object fields) => .object (mergeFields fields more)
    | _ => .object more
  | value => value

end

end BookSite.Json
