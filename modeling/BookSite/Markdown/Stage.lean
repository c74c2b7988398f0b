import BookSite.Json.Merge
import BookSite.Markdown.AttributedLine
import BookSite.Markdown.HiddenLine
import BookSite.Markdown.Image.Reference
import BookSite.Markdown.Include.Inlining
import BookSite.Markdown.Include.SnippetImport
import BookSite.Markdown.Playground
import BookSite.Markdown.Quote

/-!
# Markdown/Stage — the stages of a conversion

Each stage changes a whole page.  Only one of them can fail: including files needs to know where the
page lies.  A stage may also **require** something of the site that shows its output: options of its
definition and packages.
-/

namespace BookSite

/-- What becomes of include directives. -/
inductive IncludeMode where
  /-- they become snippet imports, and the site reads the files -/
  | translate
  /-- the files are read at once -/
  | inline
  deriving DecidableEq, Repr, Inhabited

namespace IncludeMode

/-- The name of a mode. -/
def name : IncludeMode → Text
  | translate => "translate".toList
  | inline => "inline".toList

/-- The mode with exactly this name. -/
def ofName? (t : Text) : Option IncludeMode :=
  [translate, inline].find? fun mode => mode.name == t

/-- Read a mode; the case of its letters does not matter. -/
def parse? (t : Text) : Option IncludeMode := ofName? t.toLower

/-- The wording of a refusal to read a mode. -/
def unknownMessage (t : Text) : Text := "Unknown include mode: ".toList ++ t

end IncludeMode

/-! ## Requirements -/

/-- What the output of a stage requires of the site. -/
structure Requirements where
  /-- fields merged into the definition of the site -/
  config : List (Text × Json)
  /-- packages with their versions -/
  packages : List (Text × Text)
  deriving Repr, Inhabited

namespace Requirements

/-- No requirements. -/
def none : Requirements := ⟨[], []⟩

/-- Whether nothing is required. -/
def isEmpty (r : Requirements) : Bool := r.config.isEmpty && r.packages.isEmpty

/-- Requirements with later ones added: fields are merged, versions of the same package replaced. -/
def merge (r more : Requirements) : Requirements :=
  ⟨Json.mergeFields r.config more.config, Ordered.putAll r.packages more.packages⟩

/-- Requirements as a JSON value. -/
def toJson (r : Requirements) : Json :=
  .ofFields
    [ ("requiredConfig", .object r.config),
      ("requiredDependencies",
        .object (r.packages.map fun (name, version) => (name, .string version))) ]

end Requirements

/-! ## Stages -/

/-- A stage of the conversion. -/
inductive Stage where
  | hiddenLines
  | includes (mode : IncludeMode)
  | playground
  | attributes
  | math
  | quotes
  | images
  deriving DecidableEq, Repr

/-- Why a stage cannot run. -/
inductive StageError where
  /-- files are to be included into a page whose path is not known -/
  | pagePathMissing (stage : Stage)
  deriving DecidableEq, Repr

namespace Stage

/-- The name of a stage. -/
def name : Stage → Text
  | hiddenLines => "hidden-lines".toList
  | includes _ => "include-files".toList
  | playground => "rust-playground".toList
  | attributes => "html-attributes".toList
  | math => "mathjax".toList
  | quotes => "quote-blocks".toList
  | images => "image-references".toList

/-- What a stage does, in one line. -/
def description : Stage → Text
  | hiddenLines => "Converts mdBook hidden code lines (`# `) into line comments".toList
  | includes _ =>
    ("Converts mdBook include directives into VitePress snippet imports or " ++
      "inlines the referenced files").toList
  | playground => "Reduces ```rust,editable style fences to a bare language tag".toList
  | attributes =>
    ("Keeps \x7b#id\x7d heading anchors and turns other attribute annotations into " ++
      "HTML hint comments").toList
  | math => "Keeps $ and $$ math delimiters and enables math rendering".toList
  | quotes => "Turns block quotes into VitePress tip/warning/danger/info containers".toList
  | images => "Converts <img> tags to markdown and roots relative image paths at /".toList

/-- The stage with a given name, including files in the given mode. -/
def ofName? (mode : IncludeMode) (t : Text) : Option Stage :=
  [hiddenLines, includes mode, playground, attributes, math, quotes, images].find? (·.name == t)

/-- What the output of a stage requires: math has to be switched on. -/
def requirements : Stage → Requirements
  | math =>
    { config := [("markdown".toList, .ofFields [("math", .bool true)])]
      packages := [("markdown-it-mathjax3".toList, "^4.3.2".toList)] }
  | _ => .none

/-- The directory that the includes of a page at a path are relative to. -/
def baseDir (page : Path) : Path := page.parent?.getD (.ofString ".")

/-- **Change a page** that lies at `path?`. -/
def apply (fs : FileSystem) (path? : Option Path) (stage : Stage) (page : Text) :
    Except StageError Text :=
  match stage with
  | hiddenLines => .ok (revealHiddenLines page)
  | includes mode =>
    if Include.hasDirective page then
      match mode, path? with
      | .translate, _ => .ok (Include.importPage page)
      | .inline, some path => .ok (Include.inlinePage fs (baseDir path) page)
      | .inline, none => .error (.pagePathMissing stage)
    else .ok page
  | playground => .ok (dropPlaygroundFlags page)
  | attributes => .ok (moveAllAttributes page)
  | math => .ok page
  | quotes => .ok (containQuotes page)
  | images => .ok (Image.rootImages page)

end Stage

/-- The wording of a failed stage. -/
def StageError.message : StageError → Text
  | pagePathMissing stage =>
    stage.name ++ ": inlining includes requires the path of the document being converted".toList

end BookSite
