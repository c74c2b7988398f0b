import BookSite.Proofs.Files.Descent
import BookSite.Proofs.Markdown.ShownImages
import BookSite.Proofs.Migration.FreshTarget

/-!
# Proofs/Migration/RootedImages — whether rooted image paths resolve

The path of an image leads on from the directory of its page; the rooted path leads on from the
public files of the site.  Assets keep the place that they have below the directory of all pages.
So the two lead to the same bytes just when the path also leads to them from there
(`rooted_images_resolve`), which is always so for the pages at the top, and not for others
(`rooted_image_lost`).
-/

namespace BookSite

/-- A path to a file of a sort that is copied has a name. -/
theorem FileKind.exists_fileName? {p : Path} (h : classify p ≠ .other) :
    ∃ name, p.fileName? = some name := by
  cases hname : p.fileName? with
  | some name => exact ⟨name, rfl⟩
  | none =>
    refine absurd ?_ h
    rw [classify, Path.extension?, hname]
    rfl

namespace Migration

/-- **An image path that names an asset** relative to a directory. -/
structure NamesAsset (fs : FileSystem) (dir : List Text) (path : Text) (content : Content) :
    Prop where
  isRelative : Path.isAbsolute ⟨path⟩ = false
  noAnchor : path.startsWith ['#'] = false
  noUp : ['.', '.'] ∉ Path.segments ⟨path⟩
  kind : FileKind.classify ⟨path⟩ = .asset
  read : fs.fileAt (placeFrom dir (Path.segments ⟨path⟩)) = some content

/-- Such a path leads down some names, the last of which is that of an asset. -/
theorem NamesAsset.exists_names {fs : FileSystem} {dir : List Text} {path : Text}
    {content : Content} (h : NamesAsset fs dir path content) :
    ∃ front name, FileKind.classify ⟨name⟩ = .asset ∧
      ∀ place, placeFrom place (Path.segments ⟨path⟩) = place ++ (front ++ [name]) := by
  obtain ⟨name, hname⟩ := FileKind.exists_fileName? (p := ⟨path⟩) (by rw [h.kind]; decide)
  obtain ⟨front, hfront⟩ := Path.namesAlong_of_fileName? h.noUp hname
  refine ⟨front, name, ?_, fun place => ?_⟩
  · rw [← h.kind]
    have hplain := Path.isPlain_of_fileName? hname
    exact FileKind.classify_congr ((Path.fileName?_of_isPlain hplain).trans hname.symm)
  · rw [placeFrom_of_up_not_mem h.noUp, hfront]

/-- **When rooted image paths resolve.**  In a fresh target a converted page shows each of its
images that names an asset with the path rooted.  That path leads to the bytes of the asset below
the public files just when a copy was made there and the path leads to these bytes from the
directory of all pages, too. -/
theorem rooted_images_resolve {settings : Settings} {source : Source} {target : Path}
    {fs fs' : FileSystem} {report : Report} (htarget : settings.targetDir = some target)
    (hsite : settings.filesOnly = false) (hsource : findSource settings fs = .ok source)
    (hrun : (migrate settings).runOn fs = (.ok report, fs'))
    (hfresh : IsFresh fs source.src target (includedDir? settings source.root))
    {dir : List Text} {name t : Text}
    (hpage : IsConverted fs source.src target report dir name t) :
    ∃ fs₁ shown, SameOutside (fs.place target) fs fs₁ ∧
      (Pipeline.beforeImages settings.includeMode).convert fs₁
        (some (source.src.joinNames (dir ++ [name]))) t = .ok shown ∧
      fs'.fileAt (fs.place (docsDir target) ++ (dir ++ [name])) =
        some (.text (Image.rootImages shown)) ∧
      ∀ alt path title content, .image alt path title ∈ Image.shownTokens shown →
        NamesAsset fs (fs.place source.src ++ dir) path content →
        Image.reference alt (Image.rootPath path) title <:+: Image.rootImages shown ∧
          let assets := fs.place ((docsDir target).join (.ofString "public"))
          (fs'.fileAt (placeFrom assets (Path.segments ⟨Image.rootPath path⟩)) = some content ↔
            (∃ copy ∈ report.assets,
              fs.place copy = placeFrom assets (Path.segments ⟨path⟩)) ∧
            fs.fileAt (placeFrom (fs.place source.src) (Path.segments ⟨path⟩)) =
              some content) := by
  have hmigrated : IsMigrated fs settings source target report fs' :=
    isMigrated_of_migrateSite (hfresh.isSetUp hpage.read) (runOn_migrate htarget hsite hsource hrun)
  obtain ⟨fs₁, converted, hsame, hconvert, hfile⟩ := hpage.exists_converted hfresh hmigrated
  obtain ⟨shown, hshown, rfl⟩ := Pipeline.convert_standard_eq_ok hconvert
  refine ⟨fs₁, shown, hsame, hshown, hfile, fun alt path title content hmem hasset => ?_⟩
  refine ⟨Image.isInfix_rootImages hmem hasset.noAnchor, ?_⟩
  intro assets
  obtain ⟨front, last, hkind, hplace⟩ := hasset.exists_names
  rw [Image.placeFrom_rootPath, hplace, hplace]
  refine ⟨fun hcopied => (hmigrated.exists_asset hfresh hpage.isDirAt hkind hcopied).symm,
    fun ⟨⟨copy, hcopy, hcopyPlace⟩, hread⟩ => ?_⟩
  obtain ⟨content', hcontent'⟩ :=
    Option.isSome_iff_exists.mp (hmigrated.isSome_asset hcopy hcopyPlace)
  obtain ⟨hread', -⟩ := hmigrated.exists_asset hfresh hpage.isDirAt hkind hcontent'
  rw [hread] at hread'
  cases hread'
  exact hcontent'

/-! ## A page at the top, and one further down -/

/-- A page that shows a picture. -/
def pageWithImage : Text := "![x](pic.png)".toList

/-- The page with its picture beside it. -/
def pageAndPicture : List (Text × Node) :=
  [("a.md".toList, .file (.text pageWithImage)), ("pic.png".toList, .file (.text "PNG".toList))]

/-- The page at the top of the book. -/
def pageAtTop : FileSystem := filesOfBook [("src".toList, .directory pageAndPicture)]

/-- The page in a directory of the book. -/
def pageInChapter : FileSystem :=
  filesOfBook [("src".toList, .directory [("ch".toList, .directory pageAndPicture)])]

theorem rooted_images_resolve_pageAtTop :
    ∃ report fs', (migrate bookToSite).runOn pageAtTop = (.ok report, fs') ∧
      IsFresh pageAtTop plainBook.src (.ofString "site")
        (includedDir? bookToSite plainBook.root) ∧
      IsConverted pageAtTop plainBook.src (.ofString "site") report [] "a.md".toList
        pageWithImage ∧
      .image "x".toList "pic.png".toList [] ∈ Image.shownTokens pageWithImage ∧
      fs'.fileAt ["work".toList, "site".toList, "docs".toList, "public".toList,
        "pic.png".toList] = some (.text "PNG".toList) := by
  obtain ⟨report, hrun, hconverted, hassets⟩ := exists_report bookToSite pageAtTop
    [.ofString "site/docs/a.md"] [.ofString "site/docs/public/pic.png"] (by decide +kernel)
  have hfresh : IsFresh pageAtTop plainBook.src (.ofString "site")
      (includedDir? bookToSite plainBook.root) :=
    isFresh_filesOfBook (by decide +kernel) (by decide +kernel) fun _ h => by cases h
  have hpage : IsConverted pageAtTop plainBook.src (.ofString "site") report [] "a.md".toList
      pageWithImage :=
    { read := rfl
      kind := by decide
      reported := ⟨_, by rw [hconverted]; exact List.mem_singleton_self _, by decide⟩
      kept := fun h => absurd h (by decide) }
  have hsource : findSource bookToSite pageAtTop = .ok plainBook := rfl
  obtain ⟨fs₁, shown, -, hshown, -, himages⟩ :=
    rooted_images_resolve rfl rfl hsource hrun hfresh hpage
  have hread : readByImages pageWithImage = pageWithImage := by decide +kernel
  obtain rfl : pageWithImage = shown := hread.symm.trans (Except.ok.inj
    ((Pipeline.convert_beforeImages_translate fs₁ _ pageWithImage).symm.trans hshown))
  have hmem : .image "x".toList "pic.png".toList [] ∈ Image.shownTokens pageWithImage := by
    decide +kernel
  have hresolves := (himages _ _ _ (.text "PNG".toList) hmem
    { isRelative := by decide, noAnchor := by decide, noUp := by decide, kind := by decide
      read := rfl }).2
  exact ⟨report, _, hrun, hfresh, hpage, hmem,
    hresolves.mpr ⟨⟨_, by rw [hassets]; exact List.mem_singleton_self _, by decide⟩, rfl⟩⟩

/-- **A rooted path that leads nowhere**: the picture of a page in a directory is copied below that
directory, and the page asks for it above. -/
theorem rooted_image_lost :
    ∃ report fs', (migrate bookToSite).runOn pageInChapter = (.ok report, fs') ∧
      findSource bookToSite pageInChapter = .ok plainBook ∧
      IsFresh pageInChapter plainBook.src (.ofString "site")
        (includedDir? bookToSite plainBook.root) ∧
      IsConverted pageInChapter plainBook.src (.ofString "site") report ["ch".toList]
        "a.md".toList pageWithImage ∧
      .image "x".toList "pic.png".toList [] ∈ Image.shownTokens (readByImages pageWithImage) ∧
      NamesAsset pageInChapter (pageInChapter.place plainBook.src ++ ["ch".toList])
        "pic.png".toList (.text "PNG".toList) ∧
      fs'.fileAt ["work".toList, "site".toList, "docs".toList, "ch".toList, "a.md".toList] =
        some (.text "![x](/pic.png)".toList) ∧
      fs'.fileAt ["work".toList, "site".toList, "docs".toList, "public".toList,
        "pic.png".toList] = none ∧
      fs'.fileAt ["work".toList, "site".toList, "docs".toList, "public".toList, "ch".toList,
        "pic.png".toList] = some (.text "PNG".toList) := by
  obtain ⟨report, hrun, hconverted, -⟩ := exists_report bookToSite pageInChapter
    [.ofString "site/docs/ch/a.md"] [.ofString "site/docs/public/ch/pic.png"] (by decide +kernel)
  refine ⟨report, _, hrun, rfl,
    isFresh_filesOfBook (by decide +kernel) (by decide +kernel) (fun _ h => by cases h), ?_,
    by decide +kernel, ?_, by decide +kernel⟩
  · exact
      { read := rfl
        kind := by decide
        reported := ⟨_, by rw [hconverted]; exact List.mem_singleton_self _, by decide⟩
        kept := fun h => absurd h (by decide) }
  · exact
      { isRelative := by decide, noAnchor := by decide, noUp := by decide, kind := by decide
        read := rfl }

end Migration

end BookSite
