import BookSite.Files.Path
import BookSite.Toml.Reader

/-!
# Book/Basic — what a book says about itself

The file `book.toml` holds the title and the like, some settings of the build, and free tables for
preprocessors and outputs.  All of it may be missing.  A table may also be written as a list of its
values in their order.
-/

namespace BookSite

/-- The table `book`. -/
structure BookSection where
  title : Option Text := none
  description : Option Text := none
  authors : List Text := []
  language : Option Text := none
  src : Option Path := none
  multilingual : Bool := false
  textDirection : Option Text := none
  deriving DecidableEq, Repr, Inhabited

/-- The table `build`. -/
structure BuildSection where
  buildDir : Option Path := none
  createMissing : Bool := false
  deriving DecidableEq, Repr, Inhabited

/-- A book's description of itself. -/
structure Book where
  book : BookSection := {}
  build : BuildSection := {}
  preprocessor : List (Text × Toml) := []
  output : List (Text × Toml) := []
  deriving Repr, Inhabited

/-! ## Reading -/

namespace Book

/-- The values of named fields of a table, or of the items of a list in the order of the names. -/
def fieldGetter? (names : List String) : Toml → Option (String → Option Toml)
  | .array items => some fun name => (names.zip items).lookup name
  | v => v.fields?.map fun fields name => fields.lookup name.toList

/-- Read a value if there is one. -/
def readOr {α : Type} (read? : Toml → Option α) (default : α) : Option Toml → Option α
  | none => some default
  | some v => read? v

/-- Read a list of texts. -/
def texts? : Toml → Option (List Text)
  | .array items => items.mapM Toml.text?
  | _ => none

/-- Read a text that may be missing. -/
def optionalText? (v : Option Toml) : Option (Option Text) := readOr (·.text?.map some) none v

/-- Read the table `book`. -/
def bookSection? (v : Toml) : Option BookSection := do
  let get ← fieldGetter?
    ["title", "description", "authors", "language", "src", "multilingual", "text-direction"] v
  if !v.isReadable then none
  some
    { title := ← optionalText? (get "title")
      description := ← optionalText? (get "description")
      authors := ← readOr texts? [] (get "authors")
      language := ← optionalText? (get "language")
      src := (← optionalText? (get "src")).map Path.mk
      multilingual := ← readOr Toml.bool? false (get "multilingual")
      textDirection := ← optionalText? (get "text-direction") }

/-- Read the table `build`. -/
def buildSection? (v : Toml) : Option BuildSection := do
  let get ← fieldGetter? ["build-dir", "create-missing"] v
  if !v.isReadable then none
  some
    { buildDir := (← optionalText? (get "build-dir")).map Path.mk
      createMissing := ← readOr Toml.bool? false (get "create-missing") }

/-- Read a free table. -/
def freeTable? (v : Toml) : Option (List (Text × Toml)) := if v.isKeepable then v.fields? else none

/-- **Read a book's description.** -/
def parse? (t : Text) : Option Book := do
  let fields ← Toml.parse? t
  if !fields.all fun (_, v) => v.isReadable then none
  some
    { book := ← readOr bookSection? {} (fields.lookup "book".toList)
      build := ← readOr buildSection? {} (fields.lookup "build".toList)
      preprocessor := ← readOr freeTable? [] (fields.lookup "preprocessor".toList)
      output := ← readOr freeTable? [] (fields.lookup "output".toList) }

/-! ## What is used of it -/

/-- The title. -/
def title (b : Book) : Text := b.book.title.getD "Documentation".toList

/-- The description. -/
def description (b : Book) : Text :=
  b.book.description.getD "Documentation site built with VitePress".toList

/-- The language. -/
def language (b : Book) : Text := b.book.language.getD "en".toList

/-- The directory of the pages, relative to the root of the book. -/
def srcDir (b : Book) : Path := b.book.src.getD (.ofString "src")

/-- The settings of the HTML output. -/
def htmlOutput? (b : Book) : Option (List (Text × Toml)) :=
  match b.output.lookup "html".toList with
  | some (.table fields) => some fields
  | _ => none

/-- The address of the repository. -/
def repository? (b : Book) : Option Text := do
  (← (← b.htmlOutput?).lookup "git-repository-url".toList).text?

/-- Whether the book can be searched; it can unless it says otherwise. -/
def searchEnabled (b : Book) : Bool :=
  match b.htmlOutput?.bind fun html => html.lookup "search".toList with
  | some (.table search) =>
    match search.lookup "enable".toList with
    | some (.boolean enabled) => enabled
    | _ => true
  | _ => true

end Book

end BookSite
