import BookSite.Text.Blank

/-!
# Site/Link — links from the outline as links of the site

A link of the outline names a markdown file relative to the book.  Its site link is rooted, carries
the base path of the book in front and has no `.md` at the end of its path.  Links to other sites
stay as they are.
-/

namespace BookSite.Site

/-- **The link without `.md`** at the end of its path; what begins at the first `#` stays. -/
def stripExtension (link : Text) : Text :=
  let drop (path : Text) : Text := (path.dropTrailing? ".md".toList).getD path
  match link.splitOnce '#' with
  | none => drop link
  | some (path, fragment) => drop path ++ '#' :: fragment

/-- Whether `c` is a slash. -/
def isSlash (c : Char) : Bool := c == '/'

/-- The text without the slashes at both ends. -/
def trimSlashes (t : Text) : Text := Text.dropWhileEnd (t.dropWhile isSlash) isSlash

/-- **The base path with one slash before it** and none behind; nothing is left of a base path of
blanks around slashes. -/
def normalBase (base : Option Text) : Text :=
  match trimSlashes (base.getD []).trim with
  | [] => []
  | inner => '/' :: inner

/-- **The site link** of a link of the outline. -/
def siteLink (base : Option Text) (link : Text) : Text :=
  let link := link.trim
  if link.hasPart "://".toList then link
  else
    normalBase base ++ '/' ::
      stripExtension ((link.dropLeading ['.', '/']).dropWhile isSlash)

end BookSite.Site
