import BookSite.Json.Merge
import BookSite.Site.ScriptLiteral
import BookSite.Site.Sidebar

/-!
# Site/Definition — the definition of the site

The settings of the site are put together as one object and written as a module that hands it to
VitePress.  Further options, such as those the stages of the conversion require, are merged in last.
-/

namespace BookSite.Site

/-- The settings of a site. -/
structure Definition where
  title : Text := []
  description : Text := []
  lang : Text := []
  /-- the public address below which the site lies -/
  base : Option Text := none
  /-- the navigation bar; a site may have none -/
  nav : Option (List NavItem) := none
  sidebar : List SidebarItem := []
  /-- the repository that the navigation bar links to -/
  repository : Option Text := none
  /-- whether the site has its own search -/
  localSearch : Bool := false
  /-- further options, merged in last -/
  extra : List (Text × Json) := []
  deriving Repr, Inhabited

namespace Definition

/-- Merge further options into those there are. -/
def addExtra (d : Definition) (fields : List (Text × Json)) : Definition :=
  { d with extra := Json.mergeFields d.extra fields }

/-- A field that is left out when there is nothing to say. -/
def optional (name : String) (value : Option Json) : List (String × Json) :=
  match value with
  | some v => [(name, v)]
  | none => []

/-- The settings of the theme. -/
def theme (d : Definition) : Json :=
  .ofFields <|
    optional "nav" (d.nav.map fun items => .array (items.map NavItem.toJson))
      ++ [("sidebar", .array (SidebarItem.toJsons d.sidebar))]
      ++ optional "socialLinks" (d.repository.map fun url =>
          .array [.ofFields [("icon", .ofString "github"), ("link", .string url)]])
      ++ optional "search"
          (if d.localSearch then some (.ofFields [("provider", .ofString "local")]) else none)

/-- The fields before further options are merged in. -/
def ownFields (d : Definition) : List (Text × Json) :=
  ([ ("title", Json.string d.title),
      ("description", .string d.description),
      ("lang", .string d.lang) ]
    ++ optional "base" (d.base.map .string)
    ++ [("themeConfig", d.theme)]).map fun (name, value) => (name.toList, value)

/-- **The object that defines the site.** -/
def toJson (d : Definition) : Json := .object (Json.mergeFields d.ownFields d.extra)

/-- **The module that defines the site.** -/
def render (d : Definition) : Text :=
  "import \x7b defineConfig \x7d from 'vitepress'\n\nexport default defineConfig(".toList ++
    scriptLiteral 0 d.toJson ++ ")\n".toList

end Definition

end BookSite.Site
