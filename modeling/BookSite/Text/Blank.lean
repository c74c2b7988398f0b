import BookSite.Text.Basic

/-!
# Text/Blank — blank characters, trimming and words

A character is **blank** when it has the Unicode property `White_Space`: the six control blanks,
the space, and eighteen wider ones.  Trimming and splitting into words go by this class.
-/

namespace BookSite

/-- The property `White_Space`. -/
def isBlank (c : Char) : Bool :=
  let n := c.toNat
  (9 ≤ n && n ≤ 13) || n == 0x20 || n == 0x85 || n == 0xA0 || n == 0x1680
    || (0x2000 ≤ n && n ≤ 0x200A) || n == 0x2028 || n == 0x2029 || n == 0x202F || n == 0x205F
    || n == 0x3000

namespace Text

/-- The text without the blanks at its front. -/
def trimStart (t : Text) : Text := t.dropWhile isBlank

/-- The text without the blanks at its end. -/
def trimEnd (t : Text) : Text := t.dropWhileEnd isBlank

/-- The text without the blanks at both ends. -/
def trim (t : Text) : Text := t.trimStart.trimEnd

/-- Whether the text holds nothing but blanks. -/
def allBlank (t : Text) : Bool := t.all isBlank

/-- The maximal runs of characters that are not blank. -/
def words (t : Text) : List Text := (List.splitOnP isBlank t).filter (!·.isEmpty)

/-- The blanks at the front of a text. -/
def leadingBlanks (t : Text) : Text := t.takeWhile isBlank

theorem leadingBlanks_append_trimStart (t : Text) : t.leadingBlanks ++ t.trimStart = t :=
  List.takeWhile_append_dropWhile

end Text

end BookSite
