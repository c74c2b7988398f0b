import BookSite.Text.Blank

/-!
# Markdown/AttributeGroup — attributes in braces

A book may give its text attributes in braces: classes (`.wide`), an identifier (`#intro`) and pairs
(`width=3`).  A lone identifier means the same on a site and is left alone; every other **attribute
group** becomes three lines of HTML comment that suggest an equivalent element.
-/

namespace BookSite

/-- An attribute group, as written and taken apart. -/
structure AttributeGroup where
  /-- the group as written, braces included -/
  raw : Text
  /-- the classes without their dots -/
  classes : List Text
  /-- all other attributes, in their order -/
  others : List Text
  deriving DecidableEq, Repr

namespace AttributeGroup

/-- Whether `c` may stand in an identifier or a class. -/
def isNameChar (c : Char) : Bool := c.isAlphanum || c == '_' || c == '-'

/-- Whether a word is `mark` and at least one name character, and nothing else. -/
def isMarked (mark : Char) : Text → Bool
  | [] => false
  | c :: name => c == mark && !name.isEmpty && name.all isNameChar

/-- Whether a word is an identifier, `#name`. -/
def isIdentifier : Text → Bool := isMarked '#'

/-- Whether a word is a class, `.name`. -/
def isClass : Text → Bool := isMarked '.'

/-- Whether `c` may begin a key. -/
def isKeyStart (c : Char) : Bool := c.isAlpha || c == '_' || c == ':'

/-- Whether `c` may stand in a key. -/
def isKeyChar (c : Char) : Bool := c.isAlphanum || c == '_' || c == ':' || c == '.' || c == '-'

/-- Whether a word is a pair, `key=value`, with no blank in the value. -/
def isPair : Text → Bool
  | [] => false
  | c :: rest =>
    isKeyStart c &&
      match rest.dropWhile isKeyChar with
      | '=' :: value => !value.isEmpty && value.all (!isBlank ·)
      | _ => false

/-- Whether a word is some attribute. -/
def isAttribute (word : Text) : Bool := isClass word || isIdentifier word || isPair word

/-- **Read what stands between two braces.**  Anything that is not a list of attributes is no
attribute group, and neither is a lone identifier. -/
def parse? (inner : Text) : Option AttributeGroup :=
  let words := inner.words
  if words.isEmpty || isIdentifier inner.trim || !words.all isAttribute then none
  else some
    { raw := '{' :: inner ++ ['}']
      classes := (words.filter isClass).map List.tail
      others := words.filter (!isClass ·) }

/-- The attributes as HTML writes them. -/
def attributes (a : AttributeGroup) : Text :=
  Text.joinWith [' ']
    ((if a.classes.isEmpty then [] else
      ["class=\"".toList ++ Text.joinWith [' '] a.classes ++ ['"']]) ++ a.others)

/-- **The lines of comment** that stand for a group. -/
def commentLines (a : AttributeGroup) : List Text :=
  [ "<!-- mdBook attributes: ".toList ++ a.raw ++ " -->".toList,
    ("<!-- VitePress does not fully support this syntax, " ++
      "wrap the content in HTML instead -->").toList,
    "<!-- e.g. <div ".toList ++ a.attributes ++ ">content</div> -->".toList ]

end AttributeGroup

end BookSite
