import BookSite.Text.Blank
import BookSite.Text.WordChar

/-!
# Markdown/Include/Marker — anchor markers in included files

The region of an anchor stands between two **markers**.  Each has two spellings, whose letter case
does not matter: a marker word with a colon (`ANCHOR:`, `ANCHOR_END:`) that no word character
precedes, or a region word (`#region`, `#endregion`) followed by a blank.  The name comes next: word
characters and hyphens.
-/

namespace BookSite.Include

/-- The two spellings of one of the markers. -/
structure MarkerWords where
  /-- the word with a colon -/
  anchorWord : Text
  /-- the region word -/
  regionWord : Text

/-- The marker that opens a region. -/
def startMarker : MarkerWords := ⟨"ANCHOR:".toList, "#region".toList⟩

/-- The marker that closes a region. -/
def endMarker : MarkerWords := ⟨"ANCHOR_END:".toList, "#endregion".toList⟩

/-- What follows a word at the front of a text, letter case ignored. -/
def behindWord? (word t : Text) : Option Text :=
  if Text.sameIgnoringCase (t.take word.length) word then some (t.drop word.length) else none

/-- The name at the front of a text, if there is one. -/
def nameAt? (t : Text) : Option Text :=
  match t.takeWhile fun c => isWord c || c == '-' with
  | [] => none
  | name => some name

namespace MarkerWords

/-- The name of the marker at the front of a text; `inWord` says whether a word character stands
before it. -/
def nameHere? (marker : MarkerWords) (inWord : Bool) (t : Text) : Option Text :=
  let anchored := if inWord then none else
    (behindWord? marker.anchorWord t).bind fun rest => nameAt? rest.trimStart
  let region := (behindWord? marker.regionWord t).bind fun rest =>
    if rest.leadingBlanks.isEmpty then none else nameAt? rest.trimStart
  anchored.or region

/-- The name of the first marker in a text that follows a word character or not. -/
def nameFrom? (marker : MarkerWords) (inWord : Bool) : Text → Option Text
  | [] => none
  | c :: rest => (marker.nameHere? inWord (c :: rest)).or (marker.nameFrom? (isWord c) rest)

/-- **The name of the first marker in a line.** -/
def name? (marker : MarkerWords) (line : Text) : Option Text := marker.nameFrom? false line

/-- Whether the first marker in a line has the given name, letter case ignored. -/
def marks (marker : MarkerWords) (name line : Text) : Bool :=
  match marker.name? line with
  | some found => Text.sameIgnoringCase found name
  | none => false

end MarkerWords

/-- Whether a line holds a marker of any anchor. -/
def isMarkerLine (line : Text) : Bool :=
  (startMarker.name? line).isSome || (endMarker.name? line).isSome

end BookSite.Include
