import BookSite.Markdown.Pipeline
import BookSite.Migration.FileKind
import BookSite.Migration.FileAction

/-!
# Migration/Pages — converting the pages of a book

Every page below the directory of the book is converted to the same place below another directory.
The outline at the top is no page.  Pages are converted one by one; one that fails is reported and
keeps no other from being converted.
-/

namespace BookSite.Migration

/-- The name of the outline. -/
def outlineName : Text := "SUMMARY.md".toList

/-! ## One page -/

/-- **The page at a path, converted.** -/
def convertedPage (pipeline : Pipeline) (page : Path) (fs : FileSystem) : Except Failure Text :=
  match fs.readText page with
  | .error e => .error (.during (.readPage page) (.file e))
  | .ok t =>
    match pipeline.convert fs (some page) t with
    | .error e => .error (.during (.convertPage page) (.stage e))
    | .ok converted => .ok converted

/-- **Convert a page** to a file, and create the directories that are missing above that. -/
def convertPageTo (pipeline : Pipeline) (page dest : Path) : FileAction Unit := do
  let converted ← FileAction.inspect (convertedPage pipeline page)
  match dest.parent? with
  | some dir => FileAction.createDirAll (.createOutputDir dir) dir
  | none => pure ()
  FileAction.writeText (.writeFile dest) dest converted

/-! ## All pages -/

/-- The markdown files below a directory, in the order of a walk, which is that of their paths. -/
def markdownFiles (fs : FileSystem) (dir : Path) : List FileSystem.Found :=
  (fs.allFiles dir).filter fun f => FileKind.classify f.path == .markdown

/-- **The pages of a book**: all markdown files below its directory but the outline at the top. -/
def pages (fs : FileSystem) (src : Path) : List FileSystem.Found :=
  (markdownFiles fs src).filter fun f => f.names != [outlineName]

/-- What became of a page. -/
structure PageOutcome where
  page : Path
  /-- where it was converted to -/
  result : Except Failure Path
  deriving Repr

/-- What became of the pages of a book. -/
structure ConversionReport where
  /-- the files written, in the order of their paths -/
  converted : List Path := []
  /-- the pages that failed -/
  failed : List Path := []
  deriving DecidableEq, Repr

/-- The report of some outcomes. -/
def ConversionReport.ofOutcomes (outcomes : List PageOutcome) : ConversionReport where
  converted := (outcomes.filterMap fun o => o.result.toOption).mergeSort Path.le
  failed := outcomes.filterMap fun o => if o.result.isOk then none else some o.page

/-- Convert a page to its place below another directory. -/
def convertPageBelow (pipeline : Pipeline) (out : Path) (page : FileSystem.Found)
    (fs : FileSystem) : PageOutcome × FileSystem :=
  let dest := out.join (Path.ofNames page.names)
  let (outcome, fs) := (convertPageTo pipeline page.path dest).runOn fs
  (⟨page.path, outcome.map fun () => dest⟩, fs)

/-- Convert several pages, one after another. -/
def convertEach (pipeline : Pipeline) (out : Path) :
    List FileSystem.Found → FileSystem → List PageOutcome × FileSystem
  | [], fs => ([], fs)
  | page :: rest, fs =>
    let (outcome, fs) := convertPageBelow pipeline out page fs
    let (outcomes, fs) := convertEach pipeline out rest fs
    (outcome :: outcomes, fs)

/-- **Convert the pages of a book.**  Which pages there are is settled before the first is
converted. -/
def convertPages (pipeline : Pipeline) (src out : Path) (fs : FileSystem) :
    ConversionReport × FileSystem :=
  let (outcomes, after) := convertEach pipeline out (pages fs src) fs
  (.ofOutcomes outcomes, after)

end BookSite.Migration
