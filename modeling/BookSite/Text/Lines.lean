import BookSite.Text.Basic

/-!
# Text/Lines — the two ways of reading a text as lines

A page is cut at every line feed and joined again with line feeds (`segments`, `unlines`), so that
nothing about its last line is lost.  A data file is read as **lines** (`lines`): a carriage return
before a line feed belongs to the line end, and a final line end opens no further line.
-/

namespace BookSite.Text

/-- The pieces between line feeds; a text without line feed is one piece. -/
def segments (t : Text) : List Text := t.fields '\n'

/-- The pieces joined by line feeds. -/
def unlines (parts : List Text) : Text := ['\n'].intercalate parts

@[simp] theorem unlines_segments (t : Text) : unlines t.segments = t :=
  List.intercalate_splitOn '\n'

/-- A terminated line without the carriage return before its line feed. -/
def dropReturn (line : Text) : Text := (line.dropTrailing? ['\r']).getD line

/-- **The lines of a file.**  All pieces but the last are terminated; the last one is a line only
when it is not empty, and keeps a carriage return at its end. -/
def lines (t : Text) : List Text :=
  let parts := t.segments
  parts.dropLast.map dropReturn ++ parts.getLast?.toList.filter (!·.isEmpty)

end BookSite.Text
