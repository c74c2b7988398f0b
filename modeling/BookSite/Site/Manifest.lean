import BookSite.Json.Printer

/-!
# Site/Manifest — the package manifest of the site

The manifest names the scripts that run the site and the packages it is built with.
-/

namespace BookSite.Site

/-- A package manifest; its other fields are the same for every site. -/
structure Manifest where
  description : Text
  /-- the packages with their versions -/
  packages : List (Text × Text)
  deriving DecidableEq, Repr

namespace Manifest

/-- The package that every site is built with. -/
def sitePackage : Text × Text := ("vitepress".toList, "^1.0.0".toList)

/-- The scripts of every site. -/
def scripts : List (String × Json) :=
  [ ("docs:dev", .ofString "vitepress dev docs"),
    ("docs:build", .ofString "vitepress build docs"),
    ("docs:preview", .ofString "vitepress preview docs") ]

/-- A manifest with no further packages. -/
def new (description : Text) : Manifest := ⟨description, [sitePackage]⟩

/-- Add packages; a package that is there gets the new version in its place. -/
def addPackages (m : Manifest) (packages : List (Text × Text)) : Manifest :=
  { m with packages := Ordered.putAll m.packages packages }

/-- The manifest as a JSON value. -/
def toJson (m : Manifest) : Json :=
  .ofFields
    [ ("name", .ofString "vitepress-docs"),
      ("version", .ofString "1.0.0"),
      ("description", .string m.description),
      ("type", .ofString "module"),
      ("scripts", .ofFields scripts),
      ("devDependencies", .object (m.packages.map fun (name, version) => (name, .string version))) ]

/-- **The file of the manifest.** -/
def render (m : Manifest) : Text := m.toJson.pretty 0 ++ ['\n']

end Manifest

end BookSite.Site
