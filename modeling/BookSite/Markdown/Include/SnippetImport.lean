import BookSite.Markdown.Include.Directive

/-!
# Markdown/Include/SnippetImport — directives as snippet imports

A site reads included files itself, through **snippet imports**, which bring their own block of
code.  So a block whose body is directives and blank lines only is unwrapped: its imports take its
place.  Everywhere else a directive is replaced where it stands.

The lines of a page are taken in one by one.  A block stays **pending** until its closing fence
shows what becomes of it.
-/

namespace BookSite.Include

/-- A block of code whose closing fence has not come yet. -/
structure PendingBlock where
  opener : Text
  body : List Text
  deriving DecidableEq, Repr

namespace PendingBlock

/-- The lines of the block so far. -/
def lines (block : PendingBlock) : List Text := block.opener :: block.body

/-- Whether the body holds a directive line, and blank lines at most besides such lines. -/
def onlyDirectives (block : PendingBlock) : Bool :=
  block.body.any isDirectiveLine && block.body.all fun line => line.allBlank || isDirectiveLine line

/-- **The lines that a closed block becomes.** -/
def close (block : PendingBlock) (closer : Text) : List Text :=
  if block.onlyDirectives then
    (block.body.filter isDirectiveLine).map fun line => importDirectives line.trim
  else (block.lines ++ [closer]).map importDirectives

/-- The lines of a block that is never closed. -/
def abandon (block : PendingBlock) : List Text := block.lines.map importDirectives

end PendingBlock

/-- The state between two lines: the lines written so far and the pending block. -/
structure ImportedLines where
  written : List Text
  pending : Option PendingBlock
  deriving DecidableEq, Repr

namespace ImportedLines

/-- The state before the first line. -/
def start : ImportedLines := ⟨[], none⟩

/-- Write lines. -/
def write (state : ImportedLines) (lines : List Text) : ImportedLines :=
  { state with written := state.written ++ lines }

/-- **Take in one line.** -/
def step (state : ImportedLines) (line : Line) : ImportedLines :=
  match line.kind, state.pending with
  | .fenceOpen, _ => { state with pending := some ⟨line.text, []⟩ }
  | .code, some block =>
    { state with pending := some { block with body := block.body ++ [line.text] } }
  | .code, none => state.write [importDirectives line.text]
  | .fenceClose, some block => { state.write (block.close line.text) with pending := none }
  | .fenceClose, none => state.write [importDirectives line.text]
  | .text, _ => state.write [importDirectives line.text]

/-- The state behind the given lines. -/
def run (lines : List Line) : ImportedLines := lines.foldl step start

/-- The lines of the whole page once all lines are taken in. -/
def finish (state : ImportedLines) : List Text :=
  state.written ++ (state.pending.map PendingBlock.abandon).getD []

end ImportedLines

/-- **Replace all directives of a page by snippet imports.** -/
def importPage (page : Text) : Text :=
  Text.unlines (ImportedLines.run (classify page)).finish

end BookSite.Include
