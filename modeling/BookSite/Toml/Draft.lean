import BookSite.Toml.Value

/-!
# Toml/Draft — a document under construction

While a document is read, its tables remember how they came about, because that decides what may
still be added to them.  A table that a header or a dotted key merely passes through is **implied**
or **dotted**; one that has a header of its own is **explicit** and cannot be opened again.  A value
on the right of an equals sign is closed: nothing is added to it.
-/

namespace BookSite.Toml

/-- How a table came about. -/
inductive TableOrigin where
  /-- passed through by a header -/
  | implied
  /-- passed through by a dotted key -/
  | dotted
  /-- opened by a header -/
  | explicit
  deriving DecidableEq, Repr

/-- A value of a document under construction. -/
inductive Draft where
  | closed (v : Toml)
  | table (origin : TableOrigin) (fields : List (Text × Draft))
  /-- the tables that headers in double brackets open, the latest first -/
  | tables (latest : List (Text × Draft)) (earlier : List (List (Text × Draft)))
  deriving Repr, Inhabited

namespace Draft

/-- The fields of a table under construction. -/
abbrev Fields := List (Text × Draft)

/-- **Change the table that names lead to.**  Tables that are missing on the way are added with the
given origin.  A dotted key passes through no explicit table and through no list of tables. -/
def changeAt (dotted : Bool) (change : TableOrigin → Fields → Option Fields) :
    List Text → TableOrigin → Fields → Option Fields
  | [], origin, fields => change origin fields
  | name :: names, _, fields =>
    match fields.lookup name with
    | none => do
      let origin := if dotted then .dotted else .implied
      let inner ← changeAt dotted change names origin []
      some (Ordered.put name (table origin inner) fields)
    | some (table origin inner) =>
      if dotted && origin == .explicit then none
      else do
        let inner ← changeAt dotted change names origin inner
        some (Ordered.put name (table origin inner) fields)
    | some (tables latest earlier) =>
      if dotted then none
      else do
        let latest ← changeAt dotted change names .explicit latest
        some (Ordered.put name (tables latest earlier) fields)
    | some (closed _) => none

/-- Open the table of a header. -/
def openTable (name : Text) (fields : Fields) : Option Fields :=
  match fields.lookup name with
  | none => some (Ordered.put name (table .explicit []) fields)
  | some (table .implied inner) => some (Ordered.put name (table .explicit inner) fields)
  | some _ => none

/-- Open one more table of a header in double brackets. -/
def openTables (name : Text) (fields : Fields) : Option Fields :=
  match fields.lookup name with
  | none => some (Ordered.put name (tables [] []) fields)
  | some (tables latest earlier) => some (Ordered.put name (tables [] (latest :: earlier)) fields)
  | some _ => none

/-- Give a new name a value; a table reached by a dotted key must have come about by one. -/
def addField (viaDots : Bool) (name : Text) (v : Toml) (origin : TableOrigin) (fields : Fields) :
    Option Fields :=
  if viaDots != (origin == .dotted) || (fields.lookup name).isSome then none
  else some (Ordered.put name (closed v) fields)

/-- Give the name at the end of a dotted key a value. -/
def addKey (key : List Text) (v : Toml) (origin : TableOrigin) (fields : Fields) : Option Fields :=
  match key.getLast? with
  | none => none
  | some name =>
    changeAt true (addField (key.length > 1) name v) key.dropLast origin fields

mutual

/-- The value of a finished draft. -/
def finish : Draft → Toml
  | closed v => v
  | table _ fields => .table (finishFields fields)
  | tables latest earlier =>
    .array ((finishTables earlier).reverse ++ [.table (finishFields latest)])

/-- The values of finished fields. -/
def finishFields : List (Text × Draft) → List (Text × Toml)
  | [] => []
  | (name, d) :: rest => (name, finish d) :: finishFields rest

/-- The values of finished tables. -/
def finishTables : List (List (Text × Draft)) → List Toml
  | [] => []
  | fields :: rest => .table (finishFields fields) :: finishTables rest

end

end Draft

end BookSite.Toml
