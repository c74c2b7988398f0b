import BookSite.Outline.Chapter
import BookSite.Site.Link

/-!
# Site/Sidebar — the sidebar and the navigation bar

The sidebar shows the outline: an item for each chapter, in the same nesting.  Items with others
below them are shown open.  The navigation bar leads home and to the first chapter.
-/

namespace BookSite.Site

/-- An item of the sidebar with the items below it.  `collapsed` is left out of the output when it
is not set, and so are empty lists of items. -/
inductive SidebarItem where
  | node (text link : Text) (items : List SidebarItem) (collapsed : Option Bool)
  deriving Repr, Inhabited

namespace SidebarItem

/-- What an item shows. -/
def text : SidebarItem → Text | node t _ _ _ => t

/-- Where an item leads. -/
def link : SidebarItem → Text | node _ l _ _ => l

/-- The items directly below an item. -/
def items : SidebarItem → List SidebarItem | node _ _ is _ => is

/-- Whether the items below an item are hidden at first, if that is said. -/
def collapsed : SidebarItem → Option Bool | node _ _ _ c => c

mutual

/-- **The item of a chapter.** -/
def ofChapter (base : Option Text) : Chapter → SidebarItem
  | .node title link _ children =>
    node title (siteLink base link) (ofChapters base children)
      (if children.isEmpty then none else some false)

/-- The items of chapters. -/
def ofChapters (base : Option Text) : List Chapter → List SidebarItem
  | [] => []
  | c :: rest => ofChapter base c :: ofChapters base rest

end

mutual

/-- The number of items that an item is made of. -/
def size : SidebarItem → Nat
  | node _ _ is _ => sizeAll is + 1

/-- The number of items at all depths. -/
def sizeAll : List SidebarItem → Nat
  | [] => 0
  | i :: rest => size i + sizeAll rest

end

instance : Branching SidebarItem where
  children := items
  total := sizeAll
  total_nil := rfl
  total_push
    | node _ _ _ _, _ => rfl

/-- **An item and all below it**, each before those below it. -/
abbrev preorder (item : SidebarItem) : List SidebarItem := Branching.iter item

mutual

/-- An item as a JSON value. -/
def toJson : SidebarItem → Json
  | node t l is c =>
    .ofFields <|
      [("text", .string t), ("link", .string l)]
        ++ (if is.isEmpty then [] else [("items", .array (toJsons is))])
        ++ (match c with | some b => [("collapsed", .bool b)] | none => [])

/-- Items as JSON values. -/
def toJsons : List SidebarItem → List Json
  | [] => []
  | i :: rest => toJson i :: toJsons rest

end

end SidebarItem

/-- **The sidebar of an outline.** -/
def sidebar (base : Option Text) (outline : List Chapter) : List SidebarItem :=
  SidebarItem.ofChapters base outline

/-- The number of items of a sidebar, at all depths. -/
def countItems (items : List SidebarItem) : Nat := (items.flatMap SidebarItem.preorder).length

/-! ## Navigation -/

/-- An entry of the navigation bar. -/
structure NavItem where
  text : Text
  link : Text
  deriving DecidableEq, Repr

/-- An entry as a JSON value. -/
def NavItem.toJson (item : NavItem) : Json :=
  .ofFields [("text", .string item.text), ("link", .string item.link)]

/-- **The link of the first chapter**: the first link of the sidebar that is not empty. -/
def firstLink? (items : List SidebarItem) : Option Text :=
  ((items.flatMap SidebarItem.preorder).map SidebarItem.link).find? (!·.isEmpty)

/-- **The navigation bar**: the home page, and the first chapter of a book that has one. -/
def navigation (base : Option Text) (items : List SidebarItem) : List NavItem :=
  ⟨"Home".toList, normalBase base ++ ['/']⟩ ::
    match firstLink? items with
    | some link => [⟨"Guide".toList, link⟩]
    | none => []

end BookSite.Site
