import BookSite.Markdown.AttributeGroup
import BookSite.Markdown.Fence
import BookSite.Text.Scan

/-!
# Markdown/AttributedLine — taking attribute groups out of the prose

A line of prose is scanned from left to right for HTML comments, code spans, inline math and groups
in braces; what looks like a group inside one of the others is left alone.  The attribute groups of
a line are taken out of it and their comments follow it.  Display math is left alone too: a line
with an odd number of `$$` enters or leaves it.
-/

namespace BookSite

/-- What the scan of a prose line finds. -/
inductive ProseToken where
  /-- a comment, a code span or inline math -/
  | skipped
  /-- the inside of a group in braces -/
  | group (inner : Text)
  deriving DecidableEq, Repr

namespace ProseToken

/-- A span from `start` to the next `stop`, with no character that `barred` holds of between. -/
def spanLength? (start : Text) (barred : Char → Bool) (stop t : Text) : Option Nat := do
  let rest ← t.behind? start
  let inner := rest.takeWhile (!barred ·)
  if Text.startsWith (rest.dropWhile (!barred ·)) stop then
    some (start.length + inner.length + stop.length)
  else none

/-- A comment: it ends at the first `-->`. -/
def commentLength? (t : Text) : Option Nat := do
  let rest ← t.behind? "<!--".toList
  let (inner, _) ← rest.splitAround? "-->".toList
  some (4 + inner.length + 3)

/-- A group in braces: not empty and without inner braces. -/
def groupInner? (t : Text) : Option Text :=
  match t with
  | '{' :: rest =>
    match rest.takeWhile fun c => c != '{' && c != '}',
        rest.dropWhile fun c => c != '{' && c != '}' with
    | inner@(_ :: _), '}' :: _ => some inner
    | _, _ => none
  | _ => none

/-- **The token at the front of a text.** -/
def find : Text.Finder ProseToken := fun t =>
  let span := (commentLength? t)
    |>.or (spanLength? [backtick] (· == backtick) [backtick] t)
    |>.or (spanLength? ['$', '$'] (· == '$') ['$', '$'] t)
    |>.or (spanLength? ['$'] (· == '$') ['$'] t)
  match span with
  | some n => some (.skipped, n)
  | none => (groupInner? t).map fun inner => (.group inner, inner.length + 2)

/-- The attributes of a token, if it is an attribute group. -/
def attributes? : ProseToken → Option AttributeGroup
  | skipped => none
  | group inner => AttributeGroup.parse? inner

end ProseToken

/-! ## One line -/

/-- A line cut at its attribute groups: the text before the first, then each with the text behind.
-/
structure AttributedLine where
  first : Text
  rest : List (AttributeGroup × Text)
  deriving DecidableEq, Repr

namespace AttributedLine

/-- The attributes of a piece of the scan. -/
def pieceAttributes? : Text.Piece ProseToken → Option AttributeGroup
  | .char _ => none
  | .token _ found => found.attributes?

/-- Put a piece before a line. -/
def cons (piece : Text.Piece ProseToken) (line : AttributedLine) : AttributedLine :=
  match pieceAttributes? piece with
  | some a => ⟨[], (a, line.first) :: line.rest⟩
  | none => { line with first := piece.wording ++ line.first }

/-- **Cut a line at its attribute groups.** -/
def ofText (line : Text) : AttributedLine :=
  (line.scan ProseToken.find).foldr cons ⟨[], []⟩

/-- A text without one space at its end. -/
def dropSpace (t : Text) : Text := (t.dropTrailing? [' ']).getD t

/-- The text around the groups; one space before each of them goes with it. -/
def keptFrom (first : Text) : List (AttributeGroup × Text) → Text
  | [] => first
  | (_, next) :: rest => dropSpace first ++ keptFrom next rest

/-- What is left of the line, without blanks at its end. -/
def kept (line : AttributedLine) : Text := (keptFrom line.first line.rest).trimEnd

/-- **The lines a line becomes**: what is left of it, unless that is blank, and the comments. -/
def outputLines (line : AttributedLine) : List Text :=
  (if line.kept.allBlank then [] else [line.kept]) ++
    line.rest.flatMap fun (a, _) => a.commentLines

end AttributedLine

/-- A line of prose with its attribute groups moved out; one without stays as it is. -/
def moveAttributes (line : Text) : List Text :=
  let cut := AttributedLine.ofText line
  if cut.rest.isEmpty then [line] else cut.outputLines

/-! ## The page -/

/-- Whether a line enters or leaves display math. -/
def togglesMath (line : Text) : Bool := line.countPairs '$' '$' % 2 == 1

/-- The edited lines of a page; `inMath` says whether they start in display math. -/
def moveAttributesFrom (inMath : Bool) : List Line → List Text
  | [] => []
  | line :: rest =>
    if line.kind = .text then
      if togglesMath line.text then line.text :: moveAttributesFrom (!inMath) rest
      else if inMath then line.text :: moveAttributesFrom inMath rest
      else moveAttributes line.text ++ moveAttributesFrom inMath rest
    else line.text :: moveAttributesFrom inMath rest

/-- **Turn the attribute groups of a page into comments.** -/
def moveAllAttributes (page : Text) : Text :=
  Text.unlines (moveAttributesFrom false (classify page))

end BookSite
