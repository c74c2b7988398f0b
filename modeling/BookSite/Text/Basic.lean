/-!
# Text/Basic — texts as lists of characters

Pages, settings and paths are all **texts**: lists of characters, so that every rule below is a
recursion on the list and every law about it an induction.  This module holds the cuts and joins
the rest of the library is written with.
-/

namespace BookSite

/-- A text is the list of its characters. -/
abbrev Text := List Char

namespace Text

/-! ## Cutting -/

/-- **The text around the first `mark`**: what stands before it and what stands after it. -/
def splitOnce (mark : Char) (t : Text) : Option (Text × Text) :=
  match t.dropWhile (· != mark) with
  | [] => none
  | _ :: rest => some (t.takeWhile (· != mark), rest)

/-- The texts between the marks: one more than there are marks. -/
abbrev fields (t : Text) (mark : Char) : List Text := t.splitOn mark

/-- Whether `start` stands at the front of the text. -/
abbrev startsWith (t start : Text) : Bool := start.isPrefixOf t

/-- What follows `start` at the front of the text. -/
abbrev behind? (t start : Text) : Option Text := start.isPrefixOf? t

/-- The text without `start` at its front, or the text itself. -/
def dropLeading (t start : Text) : Text := (t.behind? start).getD t

/-- The text without `tail` at its end, if it ends so. -/
def dropTrailing? (t tail : Text) : Option Text :=
  (behind? t.reverse tail.reverse).map List.reverse

/-- The text without the characters at its end that satisfy `p`. -/
def dropWhileEnd (t : Text) (p : Char → Bool) : Text := (t.reverse.dropWhile p).reverse

/-! ## Searching -/

/-- Whether `part` stands somewhere in the text. -/
def hasPart (t part : Text) : Bool :=
  match t with
  | [] => part.isEmpty
  | c :: rest => startsWith (c :: rest) part || hasPart rest part

/-- How often the two-character mark `a b` is met, reading left to right without overlap. -/
def countPairs (a b : Char) : Text → Nat
  | c :: d :: rest => if c = a ∧ d = b then countPairs a b rest + 1 else countPairs a b (d :: rest)
  | _ => 0

/-- The text around the first place where `part` stands: before it and behind it. -/
def splitAround? (t part : Text) : Option (Text × Text) :=
  match t with
  | [] => if part.isEmpty then some ([], []) else none
  | c :: rest =>
    match behind? (c :: rest) part with
    | some behind => some ([], behind)
    | none => (splitAround? rest part).map fun (before, behind) => (c :: before, behind)

/-! ## Joining -/

/-- The texts one after another with `mark` between neighbours. -/
def joinWith (mark : Text) (parts : List Text) : Text := mark.intercalate parts

/-- `n` copies of a text, one after another. -/
def replicate (n : Nat) (t : Text) : Text := (List.replicate n t).flatten

/-! ## Letter case

Only the letters `A` to `Z` have a small form here.  That is enough wherever it is used: the words
compared with are plain ASCII, and no other character has one of their letters as its small form. -/

/-- The text with `A` to `Z` replaced by their small letters. -/
def toLower (t : Text) : Text := t.map Char.toLower

/-- Whether two texts agree when the case of `A` to `Z` is ignored. -/
def sameIgnoringCase (s t : Text) : Bool := s.toLower == t.toLower

end Text

end BookSite
