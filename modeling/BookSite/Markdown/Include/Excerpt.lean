import BookSite.Markdown.Include.Marker
import BookSite.Markdown.Include.Selection
import BookSite.Text.Lines

/-!
# Markdown/Include/Excerpt — the selected lines of a file

The excerpt of a file is what stands in place of a directive when files are included at once: the
selected lines without those that hold anchor markers.  Lines are counted before markers are left
out.
-/

namespace BookSite.Include

/-- **The lines of an anchor's region**: behind the first line that opens it and before the first
later one that closes it; a region left open runs to the end. -/
def regionLines? (name : Text) : List Text → Option (List Text)
  | [] => none
  | line :: rest =>
    if startMarker.marks name line then some (rest.takeWhile (!endMarker.marks name ·))
    else regionLines? name rest

/-- The selected lines, or nothing when no line opens the anchor. -/
def Selection.lines? (selection : Selection) (lines : List Text) : Option (List Text) :=
  match selection with
  | .all => some lines
  | .starting first => some (lines.drop (first - 1))
  | .ending last => some (lines.take last)
  | .range first last => some ((lines.drop (first - 1)).take (last - (first - 1)))
  | .anchor name => regionLines? name lines

/-- **The excerpt of a text.** -/
def Selection.excerpt? (selection : Selection) (t : Text) : Option Text :=
  (selection.lines? t.lines).map fun lines => Text.unlines (lines.filter (!isMarkerLine ·))

end BookSite.Include
