import BookSite.Markdown.Image.Tag
import BookSite.Markdown.Runs

/-!
# Markdown/Image/Reference — image references with rooted paths

An image reference is an alternative text in square brackets after an exclamation mark and a path,
with an optional title, in parentheses.  Its path is rooted unless it is an anchor of the page.
-/

namespace BookSite.Image

/-- What the scan for references finds. -/
inductive ReferenceToken where
  | codeSpan
  /-- a reference: alternative text, path, and the title with the blanks before it -/
  | image (alt path title : Text)
  deriving DecidableEq, Repr

namespace ReferenceToken

/-- A code span. -/
def codeSpanLength? (t : Text) : Option Nat :=
  match t with
  | [] => none
  | c :: rest =>
    if c = backtick then
      let inner := rest.takeWhile (· != backtick)
      if inner.length < rest.length then some (inner.length + 2) else none
    else none

/-- The title at the front of a text: blanks and a quoted text, or nothing. -/
def titleHere (t : Text) : Text :=
  match t.leadingBlanks, t.trimStart with
  | blanks@(_ :: _), '"' :: rest =>
    let inner := rest.takeWhile (· != '"')
    if inner.length < rest.length then blanks ++ '"' :: inner ++ ['"'] else []
  | _, _ => []

/-- A reference at the front of a text. -/
def image? (t : Text) : Option ReferenceToken := do
  let rest ← t.behind? "![".toList
  let alt := rest.takeWhile (· != ']')
  let rest ← Text.behind? (rest.drop alt.length) "](".toList
  let path := rest.takeWhile fun c => c != ')' && !isBlank c
  let rest := rest.drop path.length
  let title := titleHere rest
  if !path.isEmpty && Text.startsWith (rest.drop title.length) [')'] then
    some (image alt path title)
  else none

/-- **The token at the front of a text.** -/
def find : Text.Finder ReferenceToken := fun t =>
  match codeSpanLength? t with
  | some n => some (codeSpan, n)
  | none =>
    match image? t with
    | some (image alt path title) =>
      some (image alt path title, (reference alt path title).length)
    | _ => none

end ReferenceToken

/-- The text with the paths of its image references rooted. -/
def rootReferences (t : Text) : Text :=
  t.replaceTokens ReferenceToken.find fun wording found =>
    match found with
    | .codeSpan => wording
    | .image alt path title =>
      if path.startsWith ['#'] then wording else reference alt (rootPath path) title

/-- The lines a run of prose lines becomes: tags are replaced over the whole run, references in
each line of the result. -/
def convertRun (lines : List Text) : List Text :=
  (replaceTags (Text.unlines lines)).segments.map rootReferences

/-- The lines a part of a page becomes. -/
def convertStretch : Stretch Line → List Text
  | .run first more => convertRun ((first :: more).map Line.text)
  | .single line => [line.text]

/-- **Root the images of a page.** -/
def rootImages (page : Text) : Text :=
  Text.unlines ((runs (·.kind == .text) (classify page)).flatMap convertStretch)

end BookSite.Image
