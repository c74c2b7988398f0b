import BookSite.Migration.FileAction
import BookSite.Site.Definition
import BookSite.Site.HomePage
import BookSite.Site.Manifest

/-!
# Migration/SiteFiles — the files around the pages

Beside the pages a site has its definition, its home page and the package manifest.
-/

namespace BookSite.Migration

/-- Where the definition of the site lies below its pages. -/
def definitionPath : Path := .ofString ".vitepress/config.mts"

/-- Where the manifest lies below the target. -/
def manifestPath : Path := .ofString "package.json"

/-- Where the home page lies below the pages. -/
def homePagePath : Path := .ofString "index.md"

/-- **Write the definition of the site**; its path is the answer. -/
def writeDefinition (docs : Path) (definition : Site.Definition) : FileAction Path := do
  let file := docs.join definitionPath
  match file.parent? with
  | some dir => FileAction.createDirAll (.createDir dir) dir
  | none => pure ()
  FileAction.writeText (.writeFile file) file definition.render
  pure file

/-- **Write the manifest**; its path is the answer. -/
def writeManifest (target : Path) (manifest : Site.Manifest) : FileAction Path := do
  let file := target.join manifestPath
  FileAction.writeText (.writeFile file) file manifest.render
  pure file

/-- **Write the home page** and tell whether it was written: a page that is there is kept unless it
is to be replaced. -/
def writeHomePage (docs : Path) (page : Site.HomePage) (overwrite : Bool) : FileAction Bool := do
  let file := docs.join homePagePath
  if (← get).pathExists file && !overwrite then pure false
  else
    FileAction.writeText (.writeHomePage file) file page.render
    pure true

end BookSite.Migration
