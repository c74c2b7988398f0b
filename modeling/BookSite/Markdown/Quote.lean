import BookSite.Markdown.Fence
import BookSite.Markdown.Runs
import BookSite.Text.Scan

/-!
# Markdown/Quote — block quotes as containers

A run of quoted lines becomes a **container** of the site.  A bold label in its first line
(`**Note:**`, `**警告：**`) chooses the container; a quote without label becomes an `info` container.
Quotes that begin with an alert tag (`[!NOTE]`) are understood by the site and stay.
-/

namespace BookSite

/-- The containers that quotes become. -/
inductive Container where
  | info
  | tip
  | warning
  | danger
  deriving DecidableEq, Repr

namespace Container

/-- The name of a container. -/
def name : Container → Text
  | info => "info".toList
  | tip => "tip".toList
  | warning => "warning".toList
  | danger => "danger".toList

/-- The labels, in two languages, with the container each of them chooses. -/
def labels : List (Text × Container) :=
  [ ("注意".toList, tip), ("Note".toList, tip),
    ("警告".toList, warning), ("Warning".toList, warning),
    ("错误".toList, danger), ("Error".toList, danger) ]

/-- The container that a label chooses. -/
def ofLabel? (label : Text) : Option Container := labels.lookup label

end Container

namespace Quote

/-- **The content of a quoted line**: what follows `> `, or nothing for a bare `>`. -/
def content? (line : Text) : Option Text :=
  match line with
  | '>' :: ' ' :: rest => some rest
  | '>' :: rest => if Text.allBlank rest then some [] else none
  | _ => none

/-- The tags of alerts that a site understands. -/
def alertTags : List Text :=
  ["NOTE".toList, "TIP".toList, "IMPORTANT".toList, "WARNING".toList, "CAUTION".toList]

/-- Whether the first content line of a quote is an alert tag. -/
def isAlert (first : Text) : Bool :=
  alertTags.any fun tag => first.trimStart.startsWith ("[!".toList ++ tag ++ [']'])

/-- A bold label at the front of a text: its name and container, and how many characters it takes
with the blanks behind it. -/
def label : Text.Finder (Text × Container) := fun t =>
  Container.labels.findSome? fun (name, container) =>
    [':', '：'].findSome? fun colon =>
      let bold := "**".toList ++ name ++ colon :: "**".toList
      (t.behind? bold).map fun rest =>
        ((name, container), bold.length + rest.leadingBlanks.length)

/-- The line that opens a container. -/
def opener (container : Container) (title : Text) : Text :=
  "::: ".toList ++ container.name ++ title

/-- The line that closes a container. -/
def closer : Text := ":::".toList

/-- **The container lines of a quote** with the given content lines. -/
def containerLines (first : Text) (more : List Text) : List Text :=
  match first.findFirst label with
  | some (before, (name, container), behind) =>
    let remainder := before ++ behind
    opener container (' ' :: name) ::
      ((if Text.allBlank remainder then [] else [remainder]) ++ more ++ [closer])
  | none => opener .info [] :: first :: more ++ [closer]

/-- The lines a run of quoted lines becomes. -/
def convertRun (raw : List Text) : List Text :=
  match raw.filterMap content? with
  | [] => []
  | first :: more => if isAlert first then raw else containerLines first more

/-- Whether a line is part of a quote. -/
def isQuoted (line : Line) : Bool := line.kind == .text && (content? line.text).isSome

/-- The lines a part of a page becomes. -/
def convertStretch : Stretch Line → List Text
  | .run first more => convertRun ((first :: more).map Line.text)
  | .single line => [line.text]

end Quote

/-- **Turn the quotes of a page into containers.** -/
def containQuotes (page : Text) : Text :=
  Text.unlines ((runs Quote.isQuoted (classify page)).flatMap Quote.convertStretch)

end BookSite
