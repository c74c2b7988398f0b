import BookSite.Proofs.Files.Descent
import BookSite.Proofs.Markdown.Include.FoundDirectives
import BookSite.Proofs.Markdown.Translation
import BookSite.Proofs.Migration.FreshTarget

/-!
# Proofs/Migration/ImportedFiles — whether imported files are found

An import keeps the path of its directive, which leads on from the directory of the page.  A
migration puts the pages into the directory `docs` of the target, and beside it the included files
in a directory that has the last name of theirs.  So a path leads to the same file when the pages
and the included files lay in two directories side by side, too (`imported_files_found`), and not
when the included files lay further down (`imported_file_lost`).
-/

namespace BookSite.Migration

/-- **A path to an included file**: from the directory `dir` of the pages it leads to the file that
`names` lead to among the included ones. -/
structure NamesIncluded (fs : FileSystem) (src included : Path) (dir : List Text) (path : Path)
    (names : List Text) (content : Content) : Prop where
  place : resolveFrom (fs.place src ++ dir) path = fs.place included ++ names
  read : fs.fileAt (fs.place included ++ names) = some content

/-- **Pages and included files side by side**, the latter in a directory `base`, and a path from a
directory of the pages that climbs no higher than to where both are. -/
def StaysBeside (fs : FileSystem) (src included : Path) (base : Text) (dir : List Text)
    (path : Path) : Prop :=
  ∃ above last, fs.place src = above ++ [last] ∧ fs.place included = above ++ [base] ∧
    last ≠ base ∧ path.isAbsolute = false ∧ (descend? (last :: dir) path.segments).isSome

/-- **Side by side again**: where the pages stand in any directory beside that of the included
files, such a path leads to the same one of these. -/
theorem StaysBeside.resolveFrom_eq {fs : FileSystem} {src included : Path} {base : Text}
    {dir names : List Text} {path : Path} (h : StaysBeside fs src included base dir path)
    (hplace : resolveFrom (fs.place src ++ dir) path = fs.place included ++ names)
    (above' : List Text) (other : Text) :
    resolveFrom (above' ++ other :: dir) path = above' ++ base :: names := by
  obtain ⟨above, last, hsrc, hincluded, hne, hrelative, hstays⟩ := h
  obtain ⟨down, hdown⟩ := Option.isSome_iff_exists.mp hstays
  have hresolve : ∀ start, resolveFrom start path = placeFrom start path.segments := fun start => by
    rw [resolveFrom, hrelative]
    rfl
  -- Below the directory of both, the path leaves that of the pages.
  have hnames : down = base :: names := by
    rw [hresolve, hsrc, hincluded, List.append_assoc, List.append_assoc] at hplace
    exact List.append_cancel_left ((placeFrom_of_descend? hdown above).symm.trans hplace)
  rw [hnames] at hdown
  rw [hresolve, placeFrom_of_descend? (descend?_cons_of_ne hdown hne)]

/-- **When imported files are found.**  A page is converted with its imports.  If the path of one of
its directives leads to an included file, then from the converted page it leads

* to a file of the target with the same content just when it leads to where such a file was copied,
  unless it leads to the pages or the manifest, and
* to the copy of the file if pages and included files lay side by side and it climbs no higher. -/
theorem imported_files_found {settings : Settings} {source : Source} {target : Path}
    {fs fs' : FileSystem} {report : Report} (htarget : settings.targetDir = some target)
    (hsite : settings.filesOnly = false) (hmode : settings.includeMode = .translate)
    (hsource : findSource settings fs = .ok source)
    (hrun : (migrate settings).runOn fs = (.ok report, fs'))
    (hfresh : IsFresh fs source.src target (includedDir? settings source.root))
    {included : Path} {base : Text} (hincluded : includedDir? settings source.root = some included)
    (hbase : included.fileName? = some base) (hdir : fs.isDir included = true)
    {dir : List Text} {name t : Text}
    (hpage : IsConverted fs source.src target report dir name t) :
    fs'.fileAt (fs.place (docsDir target) ++ (dir ++ [name])) =
        some (.text (Image.rootImages (readByImages t))) ∧
      ∀ directive ∈ Include.directivesIn t, ∀ names content,
        NamesIncluded fs source.src included dir ⟨directive.2.path⟩ names content →
        ∀ found, found = resolveFrom (fs.place (docsDir target) ++ dir) ⟨directive.2.path⟩ →
          (¬ fs.place included <+: fs.place target → ¬ fs.place (docsDir target) <+: found →
            found ≠ fs.place target ++ ["package.json".toList] →
              ((fs.place target <+: found ∧ fs'.fileAt found = some content) ↔
                ∃ names', found = fs.place target ++ base :: names' ∧
                  fs.fileAt (fs.place included ++ names') = some content)) ∧
          (StaysBeside fs source.src included base dir ⟨directive.2.path⟩ →
            found = fs.place target ++ base :: names ∧ fs'.fileAt found = some content) := by
  have hmigrated : IsMigrated fs settings source target report fs' :=
    isMigrated_of_migrateSite (hfresh.isSetUp hpage.read) (runOn_migrate htarget hsite hsource hrun)
  have hcopied : ∀ names content, fs.fileAt (fs.place included ++ names) = some content →
      fs'.fileAt (fs.place target ++ base :: names) = some content := fun names content hread =>
    hmigrated.fileAt_included hfresh hincluded hbase hdir hread
  refine ⟨?_, fun directive _ names content hnames found hfound => ⟨?_, fun hbeside => ?_⟩⟩
  · obtain ⟨fs₁, converted, -, hconvert, hfile⟩ := hpage.exists_converted hfresh hmigrated
    rw [hmode, convert_translate] at hconvert
    rw [hfile, Except.ok.inj hconvert]
  · intro hleft hdocs hmanifest
    have hapart : Apart (fs.place included) (fs.place target) := ⟨hleft, fun hright => by
      have hnone := hfresh.fresh _ (hright.trans (List.prefix_append _ names))
      rw [hnames.read] at hnone
      cases hnone⟩
    constructor
    · rintro ⟨⟨below, hbelow⟩, hfile⟩
      rw [← hbelow] at hdocs hmanifest hfile ⊢
      obtain ⟨names', rfl, hread⟩ := hmigrated.exists_included hfresh hincluded hbase hapart hdocs
        (fun h => hmanifest (congrArg _ h)) hfile
      exact ⟨names', rfl, hread⟩
    · rintro ⟨names', rfl, hread⟩
      exact ⟨List.prefix_append _ _, hcopied names' content hread⟩
  · have hplace : found = fs.place target ++ base :: names := by
      rw [hfound, place_docsDir, List.append_assoc, List.singleton_append]
      exact hbeside.resolveFrom_eq hnames.place _ _
    exact ⟨hplace, hplace ▸ hcopied names content hnames.read⟩

/-! ## Listings beside the pages, and further down -/

/-- The listings: one file. -/
def listings : Node := .directory [("m.rs".toList, .file (.text "fn main() \x7b\x7d".toList))]

/-- The pages: one page with one directive. -/
def pageImporting (path : Text) : Node :=
  .directory [("a.md".toList, .file (.text ("\x7b\x7b#include ".toList ++ path ++
    "\x7d\x7d".toList)))]

/-- A book with its listings beside the pages. -/
def listingsBeside : FileSystem := filesOfBook
  [("listings".toList, listings), ("src".toList, pageImporting "../listings/m.rs".toList)]

/-- A book with its listings further down. -/
def listingsBelow : FileSystem := filesOfBook
  [("code".toList, .directory [("listings".toList, listings)]),
    ("src".toList, pageImporting "../code/listings/m.rs".toList)]

/-- Settings that name the directory of the listings. -/
def withListings (dir : Path) : Settings := { bookToSite with includingFilesDir := some dir }

theorem imported_files_found_listingsBeside :
    ∃ report fs', (migrate (withListings (.ofString "listings"))).runOn listingsBeside =
        (.ok report, fs') ∧
      IsFresh listingsBeside plainBook.src (.ofString "site")
        (includedDir? (withListings (.ofString "listings")) plainBook.root) ∧
      NamesIncluded listingsBeside plainBook.src (.ofString "book/listings") []
        (.ofString "../listings/m.rs") ["m.rs".toList] (.text "fn main() \x7b\x7d".toList) ∧
      StaysBeside listingsBeside plainBook.src (.ofString "book/listings") "listings".toList []
        (.ofString "../listings/m.rs") ∧
      fs'.fileAt (resolveFrom ["work".toList, "site".toList, "docs".toList]
        (.ofString "../listings/m.rs")) = some (.text "fn main() \x7b\x7d".toList) := by
  obtain ⟨report, hrun, hconverted, -⟩ := exists_report (withListings (.ofString "listings"))
    listingsBeside [.ofString "site/docs/a.md"] [] (by decide +kernel)
  have hfresh : IsFresh listingsBeside plainBook.src (.ofString "site")
      (includedDir? (withListings (.ofString "listings")) plainBook.root) :=
    isFresh_filesOfBook (by decide +kernel) (by decide +kernel) fun dir hdir => by
      cases hdir
      exact ⟨⟨["listings".toList], rfl⟩, "listings".toList, by decide, by decide⟩
  have hpage : IsConverted listingsBeside plainBook.src (.ofString "site") report [] "a.md".toList
      "\x7b\x7b#include ../listings/m.rs\x7d\x7d".toList :=
    { read := rfl
      kind := by decide
      reported := ⟨_, by rw [hconverted]; exact List.mem_singleton_self _, by decide⟩
      kept := fun h => absurd h (by decide) }
  have hnames : NamesIncluded listingsBeside plainBook.src (.ofString "book/listings") []
      (.ofString "../listings/m.rs") ["m.rs".toList] (.text "fn main() \x7b\x7d".toList) :=
    ⟨by decide, rfl⟩
  have hbeside : StaysBeside listingsBeside plainBook.src (.ofString "book/listings")
      "listings".toList [] (.ofString "../listings/m.rs") :=
    ⟨["work".toList, "book".toList], "src".toList, rfl, rfl, by decide, by decide, by decide⟩
  have hsource : findSource (withListings (.ofString "listings")) listingsBeside = .ok plainBook :=
    rfl
  have hincluded : includedDir? (withListings (.ofString "listings")) plainBook.root =
      some (.ofString "book/listings") := rfl
  have hbase : (Path.ofString "book/listings").fileName? = some "listings".toList := by decide
  have hdirective : ("\x7b\x7b#include ../listings/m.rs\x7d\x7d".toList,
      ⟨"../listings/m.rs".toList, .all⟩) ∈ Include.directivesIn
        "\x7b\x7b#include ../listings/m.rs\x7d\x7d".toList := by decide +kernel
  have hfound := (imported_files_found rfl rfl rfl hsource hrun hfresh hincluded hbase
    (by decide) hpage).2 _ hdirective _ _ hnames _ rfl
  exact ⟨report, _, hrun, hfresh, hnames, hbeside, (hfound.2 hbeside).2⟩

/-- **An imported file that is lost**: a directory of included files further down is copied to the
top of the target, and the import still leads down to where it was. -/
theorem imported_file_lost :
    ∃ report fs', (migrate (withListings (.ofString "code/listings"))).runOn listingsBelow =
        (.ok report, fs') ∧
      findSource (withListings (.ofString "code/listings")) listingsBelow = .ok plainBook ∧
      IsFresh listingsBelow plainBook.src (.ofString "site")
        (includedDir? (withListings (.ofString "code/listings")) plainBook.root) ∧
      IsConverted listingsBelow plainBook.src (.ofString "site") report [] "a.md".toList
        "\x7b\x7b#include ../code/listings/m.rs\x7d\x7d".toList ∧
      ("\x7b\x7b#include ../code/listings/m.rs\x7d\x7d".toList,
        ⟨"../code/listings/m.rs".toList, .all⟩) ∈ Include.directivesIn
          "\x7b\x7b#include ../code/listings/m.rs\x7d\x7d".toList ∧
      NamesIncluded listingsBelow plainBook.src (.ofString "book/code/listings") []
        (.ofString "../code/listings/m.rs") ["m.rs".toList]
        (.text "fn main() \x7b\x7d".toList) ∧
      fs'.fileAt ["work".toList, "site".toList, "docs".toList, "a.md".toList] =
        some (.text "<<< ../code/listings/m.rs".toList) ∧
      fs'.fileAt (resolveFrom ["work".toList, "site".toList, "docs".toList]
        (.ofString "../code/listings/m.rs")) = none ∧
      fs'.fileAt ["work".toList, "site".toList, "listings".toList, "m.rs".toList] =
        some (.text "fn main() \x7b\x7d".toList) := by
  obtain ⟨report, hrun, hconverted, -⟩ := exists_report (withListings (.ofString "code/listings"))
    listingsBelow [.ofString "site/docs/a.md"] [] (by decide +kernel)
  refine ⟨report, _, hrun, rfl, ?_, ?_, by decide +kernel, ⟨by decide, rfl⟩, by decide +kernel⟩
  · refine isFresh_filesOfBook (by decide +kernel) (by decide +kernel) fun dir hdir => ?_
    cases hdir
    exact ⟨⟨["code".toList, "listings".toList], rfl⟩, "listings".toList, by decide, by decide⟩
  · exact
      { read := rfl
        kind := by decide
        reported := ⟨_, by rw [hconverted]; exact List.mem_singleton_self _, by decide⟩
        kept := fun h => absurd h (by decide) }

end BookSite.Migration
