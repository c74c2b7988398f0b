import BookSite.Json.Value
import BookSite.Walk

/-!
# Outline/Chapter — the chapters of a book as a tree

The outline of a book is a forest of **chapters**, each with a title, a link, the level it is
written at and the chapters below it.
-/

namespace BookSite

/-- A chapter with the chapters below it. -/
inductive Chapter where
  | node (title link : Text) (level : Nat) (children : List Chapter)
  deriving Repr, Inhabited

namespace Chapter

/-- The title of a chapter. -/
def title : Chapter → Text | node t _ _ _ => t

/-- The link of a chapter, as written. -/
def link : Chapter → Text | node _ l _ _ => l

/-- The level of a chapter: 1 at the margin, and one more for every two columns. -/
def level : Chapter → Nat | node _ _ n _ => n

/-- The chapters directly below a chapter. -/
def children : Chapter → List Chapter | node _ _ _ cs => cs

/-- A chapter with nothing below it. -/
def leaf (title link : Text) (level : Nat) : Chapter := node title link level []

/-- The chapter with one more child behind the others. -/
def addChild (parent child : Chapter) : Chapter :=
  node parent.title parent.link parent.level (parent.children ++ [child])

mutual

/-- The number of chapters that a chapter is made of. -/
def size : Chapter → Nat
  | node _ _ _ cs => sizeAll cs + 1

/-- The number of chapters at all depths. -/
def sizeAll : List Chapter → Nat
  | [] => 0
  | c :: rest => size c + sizeAll rest

end

instance : Branching Chapter where
  children := children
  total := sizeAll
  total_nil := rfl
  total_push
    | node _ _ _ _, _ => rfl

/-- **A chapter and all below it**, each before its children. -/
abbrev preorder (c : Chapter) : List Chapter := Branching.iter c

/-- Chapters and all below them. -/
abbrev preorderAll (cs : List Chapter) : List Chapter := Branching.walk cs

mutual

/-- A chapter as a JSON value. -/
def toJson : Chapter → Json
  | node t l n cs =>
    .ofFields
      [ ("title", .string t),
        ("link", .string l),
        ("level", .integer n),
        ("children", .array (toJsons cs)) ]

/-- Chapters as JSON values. -/
def toJsons : List Chapter → List Json
  | [] => []
  | c :: rest => toJson c :: toJsons rest

end

end Chapter

end BookSite
