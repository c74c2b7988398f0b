import BookSite.Text.Lines
import BookSite.Text.Blank

/-!
# Markdown/Fence — which lines of a page are code

Blocks of code stand between **fences**, lines that begin (after blanks) with three backticks.
Fences toggle: each one opens a block outside of a block and closes it inside, whatever its length
or its info string.  The **kind** of a line is fixed by the region it starts in, and every stage
of the conversion goes by the kinds that `classify` gives.
-/

namespace BookSite

/-- The character that code spans and fences are made of. -/
def backtick : Char := '\x60'

/-- Whether a line is a fence. -/
def isFence (line : Text) : Bool := line.trimStart.startsWith [backtick, backtick, backtick]

/-- The info string of a fence: what follows its backticks, without blanks at both ends. -/
def fenceInfo (line : Text) : Text := Text.trim (line.trim.dropWhile (· == backtick))

/-- What a line is with regard to blocks of code. -/
inductive LineKind where
  /-- a fence that opens a block -/
  | fenceOpen
  /-- a fence that closes the block -/
  | fenceClose
  /-- a line between two fences -/
  | code
  /-- a line outside of all blocks -/
  | text
  deriving DecidableEq, Repr

/-- Whether the line is a fence and no content. -/
def LineKind.isFence : LineKind → Bool
  | fenceOpen | fenceClose => true
  | code | text => false

/-- Where a line starts: in the prose or inside a block of code. -/
inductive Region where
  | prose
  | block
  deriving DecidableEq, Repr

namespace Region

/-- The other region. -/
def toggle : Region → Region
  | prose => block
  | block => prose

/-- The kind of a line that starts in this region. -/
def kindOf (r : Region) (line : Text) : LineKind :=
  match r, BookSite.isFence line with
  | prose, true => .fenceOpen
  | block, true => .fenceClose
  | prose, false => .text
  | block, false => .code

/-- The region behind a line: a fence toggles it and nothing else does. -/
def after (r : Region) (line : Text) : Region := if BookSite.isFence line then r.toggle else r

/-- The region behind several lines. -/
def afterAll (r : Region) (lines : List Text) : Region := lines.foldl after r

end Region

/-- A line of a page with its kind. -/
structure Line where
  text : Text
  kind : LineKind
  deriving DecidableEq, Repr

/-- The lines with their kinds when the first one starts in region `r`. -/
def classifyFrom (r : Region) : List Text → List Line
  | [] => []
  | line :: rest => ⟨line, r.kindOf line⟩ :: classifyFrom (r.after line) rest

/-- **The lines of a page with their kinds**; a page starts in the prose. -/
def classify (page : Text) : List Line := classifyFrom .prose page.segments

@[simp] theorem map_text_classifyFrom (r : Region) (lines : List Text) :
    (classifyFrom r lines).map Line.text = lines := by
  induction lines generalizing r with
  | nil => rfl
  | cons line rest ih => simp [classifyFrom, ih]

/-- Classifying loses nothing: the texts of the lines, joined, are the page. -/
@[simp] theorem unlines_classify (page : Text) :
    Text.unlines ((classify page).map Line.text) = page := by
  simp [classify]

/-- Lines that follow others are classified from the region those leave. -/
theorem classifyFrom_append (r : Region) (xs ys : List Text) :
    classifyFrom r (xs ++ ys) = classifyFrom r xs ++ classifyFrom (r.afterAll xs) ys := by
  induction xs generalizing r with
  | nil => rfl
  | cons x xs ih => simp [classifyFrom, Region.afterAll, ih]

/-- **Edit the lines of one kind**, each on its own; a line that `edit?` refuses stays. -/
def editLines (kind : LineKind) (edit? : Text → Option Text) (page : Text) : Text :=
  Text.unlines ((classify page).map fun line =>
    if line.kind = kind then (edit? line.text).getD line.text else line.text)

end BookSite
