import BookSite.Text.Blank
import BookSite.Text.WordChar

/-!
# Outline/Entry — the lines of an outline

A line of an outline is an **entry** when it is indentation, an optional list marker and one link,
and nothing else.  All other lines of the file (headings, rules, prose, drafts without a target) say
nothing about the order of the chapters.
-/

namespace BookSite.Outline

/-- What an entry says: its title, its link without blanks around it, and its level. -/
structure Entry where
  title : Text
  link : Text
  level : Nat
  deriving DecidableEq, Repr

/-- The columns that an indentation takes. -/
def columns : Text → Nat
  | [] => 0
  | c :: rest => (if c = '\t' then 2 else 1) + columns rest

/-- The level of an entry with the given indentation: every two columns open one more. -/
def levelOf (indentation : Text) : Nat := columns indentation / 2 + 1

/-- Whether a character may stand in an indentation. -/
def isIndentation (c : Char) : Bool := c == ' ' || c == '\t'

/-- What follows a list marker at the front of a text: a bullet, or digits and a dot. -/
def behindMarker? (t : Text) : Option Text :=
  match t with
  | [] => none
  | c :: rest =>
    if c == '-' || c == '*' || c == '+' then some rest
    else if isDigit c then Text.behind? (rest.dropWhile isDigit) ['.']
    else none

/-- The text behind a list marker and the blanks after it, or the text itself without a marker. -/
def behindMarkerBlanks? (t : Text) : Option Text :=
  match behindMarker? t with
  | none => some t
  | some rest => if rest.leadingBlanks.isEmpty then none else some rest.trimStart

/-- The text up to `stop` at the front of a text, if it is not empty, and what follows `stop`. -/
def upTo? (stop : Char) (t : Text) : Option (Text × Text) :=
  match t.takeWhile (· != stop), t.dropWhile (· != stop) with
  | inner@(_ :: _), _ :: rest => some (inner, rest)
  | _, _ => none

/-- **Read a line** of an outline. -/
def Entry.parse? (line : Text) : Option Entry := do
  let indentation := line.takeWhile isIndentation
  let rest ← behindMarkerBlanks? (line.dropWhile isIndentation)
  let rest ← rest.behind? ['[']
  let (title, rest) ← upTo? ']' rest
  let rest ← rest.behind? ['(']
  let (target, rest) ← upTo? ')' rest
  if rest.allBlank then some ⟨title, target.trim, levelOf indentation⟩ else none

end BookSite.Outline
