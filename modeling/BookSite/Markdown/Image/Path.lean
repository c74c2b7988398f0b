import BookSite.Text.Basic

/-!
# Markdown/Image/Path — image paths rooted at the site

A site serves its static files from its root, so a relative image path becomes an absolute one.
-/

namespace BookSite.Image

/-- Whether a path leads out of the site. -/
def isExternal (path : Text) : Bool :=
  path.startsWith "http".toList || path.hasPart "://".toList || path.startsWith "data:".toList

/-- **Root a path at the site.**  Rooted and external paths stay; a leading `./` is dropped. -/
def rootPath (path : Text) : Text :=
  if path.startsWith ['/'] || isExternal path then path
  else '/' :: path.dropLeading ['.', '/']

end BookSite.Image
