import BookSite.Outline.Chapter
import BookSite.Outline.Entry
import BookSite.Text.Lines

/-!
# Outline/Forest — the tree that the levels of the entries make

The entries are taken in one by one over a stack of **open chapters**, the innermost first.  An
entry closes all open chapters of its own level or a deeper one and is then opened itself.  Closing
a chapter hangs it below the one it was opened in.  Below all chapters lies a root at level 0, which
stays open to the end; its children are the outline.
-/

namespace BookSite.Outline

/-- The open chapters, the innermost first and the root last. -/
abbrev OpenChapters := List Chapter

/-- The root alone. -/
def start : OpenChapters := [.leaf [] [] 0]

/-- Close `inner`, and then the chapters it was opened in, as long as their level is at least
`level`.  A chapter that was opened in no other one stays open. -/
def closeFrom (level : Nat) (inner : Chapter) : OpenChapters → OpenChapters
  | [] => [inner]
  | outer :: rest =>
    if level ≤ inner.level then closeFrom level (outer.addChild inner) rest
    else inner :: outer :: rest

/-- **Close the open chapters** of the given level and of deeper ones. -/
def closeTo (level : Nat) : OpenChapters → OpenChapters
  | [] => []
  | inner :: outers => closeFrom level inner outers

/-- **Take in an entry.** -/
def step (stack : OpenChapters) (entry : Entry) : OpenChapters :=
  .leaf entry.title entry.link entry.level :: closeTo entry.level stack

/-- Close all chapters; what remains is the root. -/
def closeAll : OpenChapters → Option Chapter
  | [] => none
  | inner :: outers => some (outers.foldl (fun inner outer => outer.addChild inner) inner)

/-- The entries of a text, in the order of its lines. -/
def entries (t : Text) : List Entry := t.lines.filterMap Entry.parse?

/-- The forest of the given entries. -/
def forestOf (es : List Entry) : List Chapter :=
  ((closeAll (es.foldl step start)).map Chapter.children).getD []

/-- **The outline of a book.** -/
def parse (t : Text) : List Chapter := forestOf (entries t)

end BookSite.Outline
