import BookSite.Files.System
import BookSite.Markdown.Stage

/-!
# Settings/Basic — the settings of a migration

There are ten settings.  A file sets some of them, which makes a **layer**; later layers go over
earlier ones key by key.
-/

namespace BookSite

/-- The settings of a migration. -/
structure Settings where
  /-- the root of the book; the working directory if none is set -/
  sourceDir : Option Path := none
  /-- where the site is written to -/
  targetDir : Option Path := none
  includeMode : IncludeMode := .translate
  /-- only convert pages and copy files, without a site around them -/
  filesOnly : Bool := false
  generateNav : Bool := true
  /-- a directory of included files that is copied into the target -/
  includingFilesDir : Option Path := none
  /-- what stands before every link of the sidebar -/
  basePath : Option Text := none
  /-- the public address below which the site lies -/
  siteBase : Option Text := none
  /-- the number of workers; it makes no difference to the outcome -/
  jobs : Option Nat := none
  /-- replace a home page that comes from the book -/
  overwriteHomePage : Bool := false
  deriving DecidableEq, Repr, Inhabited

/-- The settings that one file sets. -/
structure Layer where
  sourceDir : Option Path := none
  targetDir : Option Path := none
  includeMode : Option IncludeMode := none
  filesOnly : Option Bool := none
  generateNav : Option Bool := none
  includingFilesDir : Option Path := none
  basePath : Option Text := none
  siteBase : Option Text := none
  jobs : Option Nat := none
  overwriteHomePage : Option Bool := none
  deriving DecidableEq, Repr, Inhabited

namespace Settings

/-- **Put a layer over settings.**  What the layer does not set stays. -/
def apply (s : Settings) (layer : Layer) : Settings where
  sourceDir := layer.sourceDir.or s.sourceDir
  targetDir := layer.targetDir.or s.targetDir
  includeMode := layer.includeMode.getD s.includeMode
  filesOnly := layer.filesOnly.getD s.filesOnly
  generateNav := layer.generateNav.getD s.generateNav
  includingFilesDir := layer.includingFilesDir.or s.includingFilesDir
  basePath := layer.basePath.or s.basePath
  siteBase := layer.siteBase.or s.siteBase
  jobs := layer.jobs.or s.jobs
  overwriteHomePage := layer.overwriteHomePage.getD s.overwriteHomePage

end Settings

/-- The names of the settings, in the order in which a list in a file gives their values. -/
inductive SettingKey where
  | sourceDir
  | targetDir
  | includeMode
  | filesOnly
  | generateNav
  | includingFilesDir
  | basePath
  | siteBase
  | jobs
  | overwriteHomePage
  deriving DecidableEq, Repr

namespace SettingKey

/-- All settings. -/
def all : List SettingKey :=
  [ sourceDir, targetDir, includeMode, filesOnly, generateNav, includingFilesDir, basePath,
    siteBase, jobs, overwriteHomePage ]

/-- The name of a setting. -/
def name : SettingKey → Text
  | sourceDir => "source_dir".toList
  | targetDir => "target_dir".toList
  | includeMode => "include_mode".toList
  | filesOnly => "files_only".toList
  | generateNav => "generate_nav".toList
  | includingFilesDir => "including_files_dir".toList
  | basePath => "base_path".toList
  | siteBase => "site_base".toList
  | jobs => "jobs".toList
  | overwriteHomePage => "overwrite_home_page".toList

/-- The setting with a name. -/
def ofName? (t : Text) : Option SettingKey := all.find? (·.name == t)

end SettingKey

end BookSite
