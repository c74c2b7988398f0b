import BookSite.Text.Basic

/-!
# Site/HomePage — the home page of the site

The home page is front matter: the title, the description and a tagline in double quotes, a button
that leads to the first chapter and, for a book with a repository, one that leads there.
-/

namespace BookSite.Site

/-- The values that the home page shows. -/
structure HomePage where
  title : Text
  description : Text
  tagline : Text := "Welcome to the documentation".toList
  firstChapter : Text
  repository : Option Text := none
  deriving DecidableEq, Repr

namespace HomePage

/-- Where the button leads in a book without chapters. -/
def defaultFirstChapter : Text := "/README".toList

/-- The characters that a character between double quotes is written as; a line feed becomes a
space. -/
def escapeChar (c : Char) : Text :=
  match c with
  | '\\' => ['\\', '\\']
  | '"' => ['\\', '"']
  | '\n' => [' ']
  | c => [c]

/-- A field of the front matter in double quotes. -/
def quotedField (name : String) (value : Text) : Text :=
  ("  " ++ name ++ ": \"").toList ++ value.flatMap escapeChar ++ "\"\n".toList

/-- The button that leads to the repository; an empty address makes none. -/
def repositoryButton : Option Text → Text
  | none | some [] => []
  | some url =>
    "    - theme: alt\n      text: View on GitHub\n      link: ".toList ++ url ++ ['\n']

/-- The front matter behind the buttons, the same on every home page. -/
def features : Text :=
  ("\nfeatures:\n" ++
    "  - title: Easy to navigate\n" ++
    "    details: The chapter structure of the book becomes the sidebar.\n" ++
    "  - title: Full-text search\n" ++
    "    details: Search, code highlighting and dark mode come with VitePress.\n" ++
    "  - title: Fast\n" ++
    "    details: Pages are pre-rendered and load instantly.\n" ++
    "---\n").toList

/-- **The page.** -/
def render (page : HomePage) : Text :=
  "---\nlayout: home\n\nhero:\n".toList
    ++ quotedField "name" page.title
    ++ quotedField "text" page.description
    ++ quotedField "tagline" page.tagline
    ++ "  actions:\n    - theme: brand\n      text: Start reading\n      link: ".toList
    ++ page.firstChapter ++ ['\n']
    ++ repositoryButton page.repository
    ++ features

end HomePage

end BookSite.Site
