import BookSite.Text.Lines

/-!
# Files/Path — paths as they are written

A path keeps its spelling; what it leads to depends only on its **components**.  Repeated slashes, a
slash at the end and inner `.` segments make no component, a `.` at the front of a relative path
does.
-/

namespace BookSite

/-- A path as written. -/
structure Path where
  text : Text
  deriving DecidableEq, Repr, Inhabited

/-- One step of a path. -/
inductive Component where
  | root
  | here
  | up
  | name (n : Text)
  deriving DecidableEq, Repr

/-- The order of two texts by their first difference, the smaller character first. -/
def compareTexts : Text → Text → Ordering
  | [], [] => .eq
  | [], _ :: _ => .lt
  | _ :: _, [] => .gt
  | c :: s, d :: t => (compare c.toNat d.toNat).then (compareTexts s t)

namespace Component

/-- The rank of the sort of a component. -/
def rank : Component → Nat
  | root => 0
  | here => 1
  | up => 2
  | name _ => 3

/-- Components are ordered by their sort; names by their characters. -/
def cmp : Component → Component → Ordering
  | name m, name n => compareTexts m n
  | a, b => compare a.rank b.rank

/-- Lists of components are ordered by their first difference, a shorter list before its
continuations. -/
def cmpAll : List Component → List Component → Ordering
  | [], [] => .eq
  | [], _ :: _ => .lt
  | _ :: _, [] => .gt
  | a :: as, b :: bs => (a.cmp b).then (cmpAll as bs)

end Component

namespace Path

/-- A path with a fixed spelling. -/
def ofString (s : String) : Path := ⟨s.toList⟩

/-- Whether a path begins at the root. -/
def isAbsolute (p : Path) : Bool := p.text.startsWith ['/']

/-- The texts between the slashes of a path. -/
def segments (p : Path) : List Text := p.text.fields '/'

/-- The component an inner segment makes, if it makes one. -/
def component? (segment : Text) : Option Component :=
  if segment.isEmpty || segment == ['.'] then none
  else if segment == ['.', '.'] then some .up
  else some (.name segment)

/-- **The components of a path.** -/
def components (p : Path) : List Component :=
  match p.isAbsolute, p.segments with
  | true, segments => .root :: segments.filterMap component?
  | false, ['.'] :: segments => .here :: segments.filterMap component?
  | false, segments => segments.filterMap component?

/-- Whether a path does not come after another one in component order. -/
def le (p q : Path) : Bool := Component.cmpAll p.components q.components != .gt

/-- **A path below another one.**  An absolute path stands for itself; a slash is added where the
first path does not end with one. -/
def join (p q : Path) : Path :=
  if q.isAbsolute || p.text.isEmpty then q
  else if p.text.getLast? == some '/' then ⟨p.text ++ q.text⟩
  else ⟨p.text ++ '/' :: q.text⟩

/-- A path with names below it. -/
def joinNames (p : Path) (names : List Text) : Path := names.foldl (fun q n => q.join ⟨n⟩) p

/-- The names as a relative path. -/
def ofNames (names : List Text) : Path := ⟨Text.joinWith ['/'] names⟩

/-- Segments without those at the end that make no component. -/
def trimSegments (segments : List Text) : List Text :=
  (segments.reverse.dropWhile fun s => (component? s).isNone).reverse

/-- A relative path's segments without those at the end that make no component; a `.` at the front
makes one. -/
def trimRelative : List Text → List Text
  | [] => []
  | first :: more => first :: trimSegments more

/-- **The path without its last component**; the root and the empty path have none to drop. -/
def parent? (p : Path) : Option Path :=
  if p.isAbsolute then
    match trimSegments p.segments.tail with
    | [] => none
    | body =>
      match trimSegments body.dropLast with
      | [] => some ⟨['/']⟩
      | body => some ⟨'/' :: Text.joinWith ['/'] body⟩
  else if p.text.isEmpty then none
  else some ⟨Text.joinWith ['/'] (trimRelative (trimRelative p.segments).dropLast)⟩

/-- The path and all that `parent?` leads to from it, at most `n` of them. -/
def ancestorsUpTo : Nat → Path → List Path
  | 0, _ => []
  | n + 1, p =>
    p :: match p.parent? with
      | some q => ancestorsUpTo n q
      | none => []

/-- The path, its parent and so on. -/
def ancestors (p : Path) : List Path := ancestorsUpTo (p.text.length + 1) p

/-- **The last component**, if it is a name. -/
def fileName? (p : Path) : Option Text :=
  match p.components.getLast? with
  | some (.name n) => some n
  | _ => none

/-- **The extension**: what stands behind the last dot of the name, unless that dot begins it. -/
def extension? (p : Path) : Option Text := do
  let name ← p.fileName?
  let tail := (name.reverse.takeWhile (· != '.')).reverse
  if tail.length + 1 < name.length then some tail else none

end Path

end BookSite
