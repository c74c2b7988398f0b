import BookSite.Markdown.Fence
import BookSite.Markdown.Image.Path
import BookSite.Text.Scan
import BookSite.Text.WordChar

/-!
# Markdown/Image/Tag — HTML image tags as image references

An `<img>` tag with a `src` becomes an image reference, so that one rule roots the paths of both.
A tag may run over several lines.  Code spans, which do not, are passed over.
-/

namespace BookSite.Image

/-- What the scan for tags finds. -/
inductive TagToken where
  | codeSpan
  /-- a tag with what stands between its name and its end -/
  | tag (attributes : Text)
  deriving DecidableEq, Repr

namespace TagToken

/-- A code span on one line. -/
def codeSpanLength? (t : Text) : Option Nat :=
  match t with
  | [] => none
  | c :: rest =>
    if c = backtick then
      let inner := rest.takeWhile fun d => d != backtick && d != '\n'
      if Text.startsWith (rest.drop inner.length) [backtick] then some (inner.length + 2) else none
    else none

/-- The inside of an image tag: up to the first `>`, and without one slash before it. -/
def tagInside? (t : Text) : Option Text := do
  let rest ← t.behind? "<img".toList
  let inside := rest.takeWhile (· != '>')
  if wordEnds rest && inside.length < rest.length then some inside else none

/-- **The token at the front of a text.** -/
def find : Text.Finder TagToken := fun t =>
  match codeSpanLength? t with
  | some n => some (codeSpan, n)
  | none => (tagInside? t).map fun inside =>
      (tag ((Text.dropTrailing? inside ['/']).getD inside), inside.length + 5)

end TagToken

/-! ## Attributes -/

/-- Whether `c` is a quote of either sort; any of them closes any of them. -/
def isQuote (c : Char) : Bool := c == '"' || c == '\''

/-- The quoted value of attribute `name` at the front of a text: a blank, the name, an equals sign
and the value, with blanks allowed around the sign. -/
def valueHere? (name t : Text) : Option Text := do
  let (c, rest) ← t.head?.map fun c => (c, t.tail)
  if !isBlank c then none
  let rest ← Text.behind? rest name
  let rest ← rest.trimStart.behind? ['=']
  match rest.trimStart with
  | q :: rest =>
    let value := rest.takeWhile (!isQuote ·)
    if isQuote q && value.length < rest.length then some value else none
  | [] => none

/-- The first value of an attribute that `accept` allows. -/
def value? (accept : Text → Bool) (name : Text) : Text → Option Text
  | [] => none
  | c :: rest => ((valueHere? name (c :: rest)).filter accept).or (value? accept name rest)

/-- An image reference. -/
def reference (alt path title : Text) : Text :=
  "![".toList ++ alt ++ "](".toList ++ path ++ title ++ [')']

/-- **The image reference a tag becomes**; a tag without a `src` that is not empty has none. -/
def tagReference? (attributes : Text) : Option Text :=
  (value? (!·.isEmpty) "src".toList attributes).map fun src =>
    reference ((value? (fun _ => true) "alt".toList attributes).getD []) (rootPath src) []

/-- The text with its image tags replaced by image references. -/
def replaceTags (t : Text) : Text :=
  t.replaceTokens TagToken.find fun wording found =>
    match found with
    | .codeSpan => wording
    | .tag attributes => (tagReference? attributes).getD wording

end BookSite.Image
