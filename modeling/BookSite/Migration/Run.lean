import BookSite.Book.Locate
import BookSite.Migration.BookFiles
import BookSite.Migration.IncludedFiles
import BookSite.Migration.Pages
import BookSite.Migration.SiteFiles
import BookSite.Outline.Forest
import BookSite.Settings.Basic

/-!
# Migration/Run — turning a book into a site

    target/
      package.json
      the directory of included files, if one is set
      docs/
        .vitepress/config.mts
        public/     the assets
        index.md    the home page
        ...         the pages and documents

If only files are wanted, pages, documents and assets go into the target itself and nothing else is
written.
-/

namespace BookSite.Migration

/-- What a migration has done. -/
structure Report where
  /-- where the pages are -/
  pagesDir : Path
  converted : List Path
  failed : List Path
  assets : List Path
  documents : List Path
  /-- the number of items of the sidebar, at all depths -/
  sidebarEntries : Nat := 0
  definitionFile : Option Path := none
  manifestFile : Option Path := none
  /-- whether the home page was written -/
  homePage : Bool := false
  /-- where the directory of included files was copied to -/
  includedFiles : Option Path := none
  deriving DecidableEq, Repr

/-- Where the book is, and what it says about itself. -/
structure Source where
  book : Book
  root : Path
  /-- the directory of the pages -/
  src : Path
  deriving Repr

/-- **Find the book** that settings ask for. -/
def findSource (settings : Settings) (fs : FileSystem) : Except Failure Source :=
  let dir := settings.sourceDir.getD (.ofString ".")
  if !fs.isDir dir then .error (.sourceMissing dir)
  else
    let (book, root) := Book.load fs dir
    let src := root.join book.srcDir
    if !fs.isDir src then .error (.pagesMissing src)
    else .ok ⟨book, root, src⟩

/-- **Convert the pages and copy the assets and documents of a book.** -/
def migrateFiles (pipeline : Pipeline) (src pagesDir assetDir : Path) : FileAction Report := do
  FileAction.createDirAll (.createDir pagesDir) pagesDir
  let (conversion, fs) := convertPages pipeline src pagesDir (← get)
  let (copied, fs) := CopyPlan.copyAll ⟨src, assetDir, pagesDir⟩ fs
  set fs
  pure
    { pagesDir, converted := conversion.converted, failed := conversion.failed,
      assets := copied.assets, documents := copied.documents }

/-- The sidebar of a book; that of a book without a readable outline is empty. -/
def loadSidebar (fs : FileSystem) (src : Path) (base : Option Text) : List Site.SidebarItem :=
  match fs.readText (src.join ⟨outlineName⟩) with
  | .ok t => Site.sidebar base (Outline.parse t)
  | .error _ => []

/-- The definition of the site as far as the book decides it. -/
def bookDefinition (book : Book) : Site.Definition where
  title := book.title
  description := book.description
  lang := book.language
  repository := book.repository?
  localSearch := book.searchEnabled

/-- The definition of the site. -/
def siteDefinition (settings : Settings) (book : Book) (sidebar : List Site.SidebarItem)
    (requirements : Requirements) : Site.Definition :=
  Site.Definition.addExtra
    { bookDefinition book with
      base := settings.siteBase
      nav := if settings.generateNav then some (Site.navigation settings.basePath sidebar) else none
      sidebar }
    requirements.config

/-- The home page of the site. -/
def siteHomePage (book : Book) (sidebar : List Site.SidebarItem) : Site.HomePage where
  title := book.title
  description := book.description
  firstChapter := (Site.firstLink? sidebar).getD Site.HomePage.defaultFirstChapter
  repository := book.repository?

/-- Where the pages of a site lie below the target. -/
def docsDir (target : Path) : Path := target.join (.ofString "docs")

/-- Create the directories of the site, and convert and copy the files of the book into them. -/
def migrateSiteFiles (pipeline : Pipeline) (src target : Path) : FileAction Report := do
  let docs := docsDir target
  FileAction.createDirAll (.createTargetDir docs) (docs.join (.ofString ".vitepress"))
  migrateFiles pipeline src docs (docs.join (.ofString "public"))

/-- Copy the directory of included files that the settings name, if they name one. -/
def copyIncludedOf (settings : Settings) (root target : Path) : FileAction (Option Path) :=
  match settings.includingFilesDir with
  | some dir => copyIncluded root dir target
  | none => pure none

/-- **Build the site** around the converted pages. -/
def migrateSite (settings : Settings) (source : Source) (target : Path) : FileAction Report := do
  let pipeline := Pipeline.standard settings.includeMode
  let docs := docsDir target
  let files ← migrateSiteFiles pipeline source.src target
  let sidebar := loadSidebar (← get) source.src settings.basePath
  let requirements := pipeline.requirements
  let definitionFile ←
    writeDefinition docs (siteDefinition settings source.book sidebar requirements)
  let manifest := (Site.Manifest.new source.book.description).addPackages requirements.packages
  let manifestFile ← writeManifest target manifest
  let homePage ←
    writeHomePage docs (siteHomePage source.book sidebar) settings.overwriteHomePage
  let includedFiles ← copyIncludedOf settings source.root target
  pure
    { files with
      sidebarEntries := Site.countItems sidebar
      definitionFile := some definitionFile
      manifestFile := some manifestFile
      homePage
      includedFiles }

/-- **Migrate a book** as settings say. -/
def migrate (settings : Settings) : FileAction Report := do
  match settings.targetDir with
  | none => throw .noTarget
  | some target =>
    let source ← FileAction.inspect (findSource settings)
    if settings.filesOnly then
      migrateFiles (.standard settings.includeMode) source.src target target
    else migrateSite settings source target

end BookSite.Migration
