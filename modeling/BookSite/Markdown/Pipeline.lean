import BookSite.Markdown.Stage

/-!
# Markdown/Pipeline — the stages in their order

A pipeline feeds the output of each stage to the next one and stops at the first failure.  The order
of the **standard** pipeline matters: files are included before images are rooted, so that images in
included text are rooted too, and attribute comments are written before quotes are grouped.
-/

namespace BookSite

/-- Stages to be applied one after another. -/
structure Pipeline where
  stages : List Stage
  deriving DecidableEq, Repr

namespace Pipeline

/-- **The standard pipeline.** -/
def standard (mode : IncludeMode) : Pipeline :=
  ⟨[.hiddenLines, .includes mode, .playground, .attributes, .math, .quotes, .images]⟩

/-- **Convert a page** that lies at `path?`. -/
def convert (fs : FileSystem) (path? : Option Path) (pipeline : Pipeline) (page : Text) :
    Except StageError Text :=
  pipeline.stages.foldlM (fun text stage => stage.apply fs path? text) page

/-- The outcome of each stage on the output of the one before, up to the first failure. -/
def trace (fs : FileSystem) (path? : Option Path) :
    List Stage → Text → List (Stage × Except StageError Text)
  | [], _ => []
  | stage :: rest, page =>
    match stage.apply fs path? page with
    | .ok text => (stage, .ok text) :: trace fs path? rest text
    | .error e => [(stage, .error e)]

/-- What all stages require together. -/
def requirements (pipeline : Pipeline) : Requirements :=
  pipeline.stages.foldl (fun all stage => all.merge stage.requirements) .none

/-- The names of the stages. -/
def names (pipeline : Pipeline) : List Text := pipeline.stages.map Stage.name

/-- The pipeline in one line. -/
def summary (pipeline : Pipeline) : Text :=
  "Pipeline \x7b transformers: [".toList ++
    Text.joinWith ", ".toList (pipeline.names.map fun name => '"' :: name ++ ['"']) ++
    "] \x7d".toList

end Pipeline

end BookSite
