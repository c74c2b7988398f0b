import BookSite.Proofs.Migration.SiteFiles

/-!
# Proofs/Migration/FreshTarget — where the files of a fresh target come from

In a target that held no file each file is one of the site, so its place and the sort of its name
say what it comes from: an included file (`IsMigrated.exists_included`), a page of the book
(`IsMigrated.exists_page`) or an asset (`IsMigrated.exists_asset`).
-/

namespace BookSite

/-- The sort of a file goes by its own name. -/
theorem FileKind.classify_joinNames (p : Path) (front : List Text) {name : Text}
    (h : IsPlain name) : classify (p.joinNames (front ++ [name])) = classify ⟨name⟩ :=
  classify_congr ((Path.fileName?_joinNames p front h).trans (Path.fileName?_of_isPlain h).symm)

namespace Migration

/-! ## Files of a book by their sort -/

section BookFiles

variable {fs : FileSystem} {base y : List Text} {pipeline : Pipeline} {plan : CopyPlan}
  {copied : CopiedFiles} {name : Text} {content : Content}

/-- A file below a directory has a name there. -/
theorem exists_front {dir names : List Text} {content : Content}
    (hdir : fs.IsDirAt (fs.place plan.src))
    (hread : fs.fileAt (fs.place plan.src ++ names) = some content)
    (hy : y ++ [name] = dir ++ names) : ∃ front, names = front ++ [name] ∧ y = dir ++ front := by
  obtain rfl | ⟨front, last, hconcat⟩ := List.eq_nil_or_concat names
  · rw [List.append_nil, hdir.fileAt_eq_none] at hread
    cases hread
  · rw [hconcat, List.concat_eq_append, ← List.append_assoc] at hy
    obtain ⟨hfront, hlast⟩ := List.append_inj' hy rfl
    rw [hconcat, List.concat_eq_append, List.singleton_inj.mp hlast]
    exact ⟨front, rfl, hfront⟩

variable (hdir : fs.IsDirAt (fs.place plan.src))
  (h : BookFile fs base pipeline plan copied (y ++ [name]) content)

include hdir h

/-- **A page among the files of a book** is a converted page. -/
theorem BookFile.of_markdown (hkind : FileKind.classify ⟨name⟩ = .markdown) :
    ∃ front t converted fs', y = fs.place plan.documents ++ front ∧
      fs.fileAt (fs.place plan.src ++ (front ++ [name])) = some (.text t) ∧
      SameOutside base fs fs' ∧
      pipeline.convert fs' (some (plan.src.joinNames (front ++ [name]))) t = .ok converted ∧
      content = .text converted := by
  cases h with
  | page hy hplain _ hread hsame hconvert =>
    obtain ⟨front, rfl, hfront⟩ := exists_front hdir hread hy
    exact ⟨front, _, _, _, hfront, hread, hsame, hconvert, rfl⟩
  | copy hy hplain hdirFor hread =>
    obtain ⟨front, rfl, -⟩ := exists_front hdir hread hy
    rw [FileKind.classify_joinNames _ _ (hplain name (by simp)), hkind] at hdirFor
    cases hdirFor

/-- **An asset among the files of a book** is a noted copy. -/
theorem BookFile.of_asset (hkind : FileKind.classify ⟨name⟩ = .asset) :
    ∃ front, y = fs.place plan.assets ++ front ∧ (∀ n ∈ front ++ [name], IsPlain n) ∧
      fs.fileAt (fs.place plan.src ++ (front ++ [name])) = some content ∧
      plan.assets.join (.ofNames (front ++ [name])) ∈ copied.assets := by
  cases h with
  | page hy hplain hmarkdown hread =>
    obtain ⟨front, rfl, -⟩ := exists_front hdir hread hy
    rw [FileKind.classify_joinNames _ _ (hplain name (by simp)), hkind] at hmarkdown
    cases hmarkdown
  | copy hy hplain hdirFor hread hnoted =>
    obtain ⟨front, rfl, hfront⟩ := exists_front hdir hread hy
    rw [FileKind.classify_joinNames _ _ (hplain name (by simp)), hkind] at hdirFor hnoted
    cases hdirFor
    exact ⟨front, hfront, hplain, hread, hnoted⟩

end BookFiles

/-- Copies go among the pages, too. -/
theorem place_dirFor? (fs : FileSystem) {src target dir : Path} {kind : FileKind}
    (h : (sitePlan src target).dirFor? kind = some dir) :
    ∃ below, fs.place dir = fs.place (docsDir target) ++ below := by
  cases kind with
  | asset =>
    cases h
    exact ⟨_, place_assets fs src target⟩
  | document =>
    cases h
    exact ⟨[], (List.append_nil _).symm⟩
  | markdown => cases h
  | other => cases h

/-- All files of a book go among the pages. -/
theorem BookFile.below_docs {fs : FileSystem} {base : List Text} {pipeline : Pipeline}
    {src target : Path} {copied : CopiedFiles} {y : List Text} {content : Content}
    (h : BookFile fs base pipeline (sitePlan src target) copied y content) :
    ∃ rest, fs.place target ++ "docs".toList :: rest = y := by
  have hdocs : ∀ rest, fs.place target ++ "docs".toList :: rest =
      fs.place (docsDir target) ++ rest := fun rest => by
    rw [place_docsDir, List.append_assoc]
    rfl
  cases h with
  | page hy => exact ⟨_, (hdocs _).trans hy.symm⟩
  | copy hy hplain hdirFor =>
    obtain ⟨below, hbelow⟩ := place_dirFor? fs hdirFor
    rw [hy, hbelow, List.append_assoc]
    exact ⟨_, hdocs _⟩

/-- The files that a site has of its own lie among the pages, but for the manifest. -/
theorem cases_of_mem_ownFiles {home : Bool} {names : List Text} (h : names ∈ ownFiles home) :
    (∃ rest, names = "docs".toList :: rest) ∨ names = ["package.json".toList] := by
  rw [ownFiles, List.mem_append, List.mem_cons, List.mem_singleton] at h
  rcases h with (rfl | rfl) | h
  · exact .inl ⟨_, rfl⟩
  · exact .inr rfl
  · split at h
    · exact .inl ⟨_, List.mem_singleton.mp h⟩
    · cases h

/-- The files that a site has of its own below its pages are the definition, which is of no sort
that is copied, and the home page. -/
theorem kind_of_mem_ownFiles {home : Bool} {front : List Text} {name : Text}
    (h : "docs".toList :: (front ++ [name]) ∈ ownFiles home) :
    FileKind.classify ⟨name⟩ = .other ∨ (front ++ [name] = ["index.md".toList] ∧ home = true) := by
  rw [ownFiles, List.mem_append, List.mem_cons, List.mem_singleton] at h
  rcases h with (h | h) | h
  · have hconcat : front ++ [name] = [".vitepress".toList] ++ ["config.mts".toList] :=
      (List.cons.inj h).2
    rw [List.singleton_inj.mp (List.append_inj' hconcat rfl).2]
    exact .inl (by decide)
  · exact absurd (List.cons.inj h).2 (by simp)
  · split at h
    · rename_i hhome
      exact .inr ⟨(List.cons.inj (List.mem_singleton.mp h)).2, hhome⟩
    · cases h

/-! ## A fresh target -/

/-- **A fresh target outside of the book**: it holds no file.  The directory of included files, if
there is one, has a name, and one that does not clash with that of the pages. -/
structure IsFresh (fs : FileSystem) (src target : Path) (included? : Option Path) : Prop where
  ordered : fs.root.Ordered
  plain : fs.PlainBelow (fs.place src)
  outside : ¬ fs.place src <+: fs.place target
  fresh : ∀ y, fs.place target <+: y → fs.fileAt y = none
  included : ∀ dir, included? = some dir → fs.PlainBelow (fs.place dir) ∧
    ∃ name, dir.fileName? = some name ∧ name ≠ "docs".toList

/-- A book that has a file lies apart from a fresh target. -/
theorem IsFresh.isSetUp {fs : FileSystem} {src target : Path} {included? : Option Path}
    (h : IsFresh fs src target included?) {names : List Text} {content : Content}
    (hread : fs.fileAt (fs.place src ++ names) = some content) :
    IsSetUp fs src target included? where
  ordered := h.ordered
  plain := h.plain
  apart := ⟨h.outside, fun hbelow => by
    rw [h.fresh _ (hbelow.trans (List.prefix_append _ names))] at hread
    cases hread⟩
  included dir hdir := (h.included dir hdir).imp_right fun ⟨name, hname, _⟩ => ⟨name, hname⟩

/-- **A migration whose book is found** converts its files, or builds the whole site. -/
theorem runOn_migrate_eq {settings : Settings} {source : Source} {target : Path} {fs : FileSystem}
    (htarget : settings.targetDir = some target) (hsource : findSource settings fs = .ok source) :
    (migrate settings).runOn fs =
      (if settings.filesOnly then
        migrateFiles (.standard settings.includeMode) source.src target target
      else migrateSite settings source target).runOn fs := by
  rw [migrate, htarget]
  dsimp only
  rw [FileAction.runOn_bind, FileAction.runOn_inspect, hsource]

/-- **A migration of a whole site** is what `migrateSite` does for the book that is found. -/
theorem runOn_migrate {settings : Settings} {source : Source} {target : Path} {fs fs' : FileSystem}
    {report : Report} (htarget : settings.targetDir = some target)
    (hsite : settings.filesOnly = false) (hsource : findSource settings fs = .ok source)
    (hrun : (migrate settings).runOn fs = (.ok report, fs')) :
    (migrateSite settings source target).runOn fs = (.ok report, fs') := by
  rw [runOn_migrate_eq htarget hsource] at hrun
  simpa [hsite] using hrun

/-- **An asset that the report lists** is there. -/
theorem IsMigrated.isSome_asset {settings : Settings} {source : Source} {target copy : Path}
    {fs fs' : FileSystem} {report : Report} {names : List Text}
    (h : IsMigrated fs settings source target report fs') (hcopy : copy ∈ report.assets)
    (hplace : fs.place copy = fs.place (sitePlan source.src target).assets ++ names) :
    (fs'.fileAt (fs.place (sitePlan source.src target).assets ++ names)).isSome := by
  obtain ⟨names', hplain, rfl, hsome⟩ := h.reported.copied .asset _ rfl copy hcopy
  rw [fs.place_join_ofNames _ hplain] at hplace
  rwa [hplace] at hsome

section Fresh

variable {fs fs' : FileSystem} {settings : Settings} {source : Source} {target : Path}
  {report : Report}
  (hfresh : IsFresh fs source.src target (includedDir? settings source.root))
  (h : IsMigrated fs settings source target report fs')

include hfresh h

/-- Each file of a fresh target is one of the site. -/
theorem IsMigrated.siteFile {names : List Text} {content : Content}
    (hfile : fs'.fileAt (fs.place target ++ names) = some content) :
    SiteFile fs (.standard settings.includeMode) source.src target
      (includedDir? settings source.root) report.copied report.homePage
      (fs.place target ++ names) content :=
  h.changes.written (hfresh.fresh _ (List.prefix_append _ _)) hfile

/-- **Files among the pages** are those of the book and those of the site's own. -/
theorem IsMigrated.bookFile {names : List Text} {content : Content}
    (hfile : fs'.fileAt (fs.place target ++ "docs".toList :: names) = some content) :
    BookFile fs (fs.place target) (.standard settings.includeMode) (sitePlan source.src target)
        report.copied (fs.place target ++ "docs".toList :: names) content ∨
      "docs".toList :: names ∈ ownFiles report.homePage := by
  cases h.siteFile hfresh hfile with
  | book hbook => exact .inl hbook
  | own hy hnames => exact .inr (List.append_cancel_left hy ▸ hnames)
  | included hdir hname hy =>
    obtain ⟨-, name, hname', hne⟩ := hfresh.included _ hdir
    rw [hname] at hname'
    cases hname'
    exact absurd (List.cons.inj (List.append_cancel_left hy)).1.symm hne

/-! ### Included files -/

section Included

variable {included : Path} {base : Text}
  (hincluded : includedDir? settings source.root = some included)
  (hbase : included.fileName? = some base)

include hincluded hbase

/-- **An included file** is copied with its content. -/
theorem IsMigrated.fileAt_included (hdir : fs.isDir included = true) {names : List Text}
    {content : Content} (hread : fs.fileAt (fs.place included ++ names) = some content) :
    fs'.fileAt (fs.place target ++ base :: names) = some content := by
  obtain ⟨-, base', hbase', hne⟩ := hfresh.included _ hincluded
  rw [hbase] at hbase'
  cases hbase'
  obtain ⟨written, hwritten⟩ := Option.isSome_iff_exists.mp
    (h.included included base hincluded hbase hdir names (by rw [hread]; rfl))
  cases h.siteFile hfresh hwritten with
  | book hbook =>
    obtain ⟨rest, hrest⟩ := hbook.below_docs
    exact absurd (List.cons.inj (List.append_cancel_left hrest)).1.symm hne
  | own hy hnames =>
    rw [← List.append_cancel_left hy] at hnames
    obtain ⟨rest, hrest⟩ | hmanifest := cases_of_mem_ownFiles hnames
    · exact absurd (List.cons.inj hrest).1 hne
    · rw [(List.cons.inj hmanifest).2, List.append_nil,
        (FileSystem.isDirAt_of_isDir hdir).fileAt_eq_none] at hread
      cases hread
  | included hdir' hname hy hcopied =>
    rw [hincluded] at hdir'
    cases hdir'
    rw [hbase] at hname
    cases hname
    obtain rfl := (List.cons.inj (List.append_cancel_left hy)).2
    have houtside : ¬ fs.place target <+: fs.place included ++ names := fun hbelow => by
      rw [hfresh.fresh _ hbelow] at hread
      cases hread
    rw [hwritten, ← hcopied houtside, hread]

/-- **A file beside the pages** that is not the manifest is a copy of an included file. -/
theorem IsMigrated.exists_included (hapart : Apart (fs.place included) (fs.place target))
    {names : List Text} {content : Content}
    (hdocs : ¬ fs.place (docsDir target) <+: fs.place target ++ names)
    (hmanifest : names ≠ ["package.json".toList])
    (hfile : fs'.fileAt (fs.place target ++ names) = some content) :
    ∃ names', names = base :: names' ∧ fs.fileAt (fs.place included ++ names') = some content := by
  rw [place_docsDir] at hdocs
  cases h.siteFile hfresh hfile with
  | book hbook =>
    obtain ⟨rest, hrest⟩ := hbook.below_docs
    exact absurd ⟨rest, by simpa using hrest⟩ hdocs
  | own hy hnames =>
    rw [← List.append_cancel_left hy] at hnames
    obtain ⟨rest, rfl⟩ | hmanifest' := cases_of_mem_ownFiles hnames
    · exact absurd ⟨rest, by simp⟩ hdocs
    · exact absurd hmanifest' hmanifest
  | included hdir hname hy hcopied =>
    rw [hincluded] at hdir
    cases hdir
    rw [hbase] at hname
    cases hname
    exact ⟨_, List.append_cancel_left hy, hcopied (hapart.not_prefix_append _)⟩

end Included

/-! ### Pages and assets -/

variable (hdir : fs.IsDirAt (fs.place source.src))

include hdir

/-- **A page of the site** is a converted page of the book. -/
theorem IsMigrated.exists_page {front : List Text} {name : Text} {content : Content}
    (hkind : FileKind.classify ⟨name⟩ = .markdown)
    (hhome : front ++ [name] = ["index.md".toList] → report.homePage = false)
    (hfile : fs'.fileAt (fs.place (docsDir target) ++ (front ++ [name])) = some content) :
    ∃ t converted fs₁, fs.fileAt (fs.place source.src ++ (front ++ [name])) = some (.text t) ∧
      SameOutside (fs.place target) fs fs₁ ∧
      (Pipeline.standard settings.includeMode).convert fs₁
        (some (source.src.joinNames (front ++ [name]))) t = .ok converted ∧
      content = .text converted := by
  have hplace := place_docsDir fs target
  rw [hplace, List.append_assoc, List.singleton_append] at hfile
  obtain hbook | hown := h.bookFile hfresh hfile
  · have hsplit : fs.place target ++ "docs".toList :: (front ++ [name]) =
        fs.place (docsDir target) ++ front ++ [name] := by simp [hplace]
    rw [hsplit] at hbook
    obtain ⟨front', t, converted, fs₁, hfront, hread, hsame, hconvert, rfl⟩ :=
      hbook.of_markdown hdir hkind
    obtain rfl := List.append_cancel_left hfront
    exact ⟨t, converted, fs₁, hread, hsame, hconvert, rfl⟩
  · obtain hother | ⟨hnames, hwritten⟩ := kind_of_mem_ownFiles hown
    · rw [hkind] at hother
      cases hother
    · rw [hhome hnames] at hwritten
      cases hwritten

/-- **An asset of the site** is a copied asset of the book. -/
theorem IsMigrated.exists_asset {front : List Text} {name : Text} {content : Content}
    (hkind : FileKind.classify ⟨name⟩ = .asset)
    (hfile : fs'.fileAt (fs.place (sitePlan source.src target).assets ++ (front ++ [name])) =
      some content) :
    fs.fileAt (fs.place source.src ++ (front ++ [name])) = some content ∧
      ∃ copy ∈ report.assets,
        fs.place copy = fs.place (sitePlan source.src target).assets ++ (front ++ [name]) := by
  have hbelow : fs.place (sitePlan source.src target).assets ++ (front ++ [name]) =
      fs.place target ++ "docs".toList :: ("public".toList :: front ++ [name]) := by
    simp [place_assets, place_docsDir]
  rw [hbelow] at hfile
  obtain hbook | hown := h.bookFile hfresh hfile
  · rw [← hbelow, ← List.append_assoc] at hbook
    obtain ⟨front', hfront, hplain, hread, hnoted⟩ := hbook.of_asset hdir hkind
    obtain rfl := List.append_cancel_left hfront
    exact ⟨hread, _, hnoted, fs.place_join_ofNames _ hplain⟩
  · obtain hother | ⟨hnames, -⟩ := kind_of_mem_ownFiles hown
    · rw [hkind] at hother
      cases hother
    · exact absurd (congrArg List.length hnames) (by simp)

end Fresh

/-! ## Converted pages -/

/-- **A page that was converted** and has not been replaced by the home page: the page `name` in the
directory that `dir` leads to, with the text `t`. -/
structure IsConverted (fs : FileSystem) (src target : Path) (report : Report) (dir : List Text)
    (name t : Text) : Prop where
  read : fs.fileAt (fs.place src ++ (dir ++ [name])) = some (.text t)
  kind : FileKind.classify ⟨name⟩ = .markdown
  reported : ∃ dest ∈ report.converted,
    fs.place dest = fs.place (docsDir target) ++ (dir ++ [name])
  kept : dir ++ [name] = ["index.md".toList] → report.homePage = false

/-- A book with a page has a directory of pages. -/
theorem IsConverted.isDirAt {fs : FileSystem} {src target : Path} {report : Report}
    {dir : List Text} {name t : Text} (h : IsConverted fs src target report dir name t) :
    fs.IsDirAt (fs.place src) :=
  FileSystem.isDirAt_of_has (FileSystem.has_iff.mpr (.inl (by rw [h.read]; rfl))) (by simp)

/-- **The page is there** as the pipeline has converted it. -/
theorem IsConverted.exists_converted {fs fs' : FileSystem} {settings : Settings} {source : Source}
    {target : Path} {report : Report} {dir : List Text} {name t : Text}
    (hpage : IsConverted fs source.src target report dir name t)
    (hfresh : IsFresh fs source.src target (includedDir? settings source.root))
    (h : IsMigrated fs settings source target report fs') :
    ∃ fs₁ converted, SameOutside (fs.place target) fs fs₁ ∧
      (Pipeline.standard settings.includeMode).convert fs₁
        (some (source.src.joinNames (dir ++ [name]))) t = .ok converted ∧
      fs'.fileAt (fs.place (docsDir target) ++ (dir ++ [name])) = some (.text converted) := by
  obtain ⟨dest, hdest, hplace⟩ := hpage.reported
  obtain ⟨names, hplain, rfl, hsome⟩ := h.reported.converted dest hdest
  rw [fs.place_join_ofNames _ hplain] at hplace
  obtain ⟨content, hcontent⟩ := Option.isSome_iff_exists.mp hsome
  have hfile : fs'.fileAt (fs.place (docsDir target) ++ (dir ++ [name])) = some content :=
    hplace ▸ hcontent
  obtain ⟨t', converted, fs₁, hread, hsame, hconvert, rfl⟩ :=
    h.exists_page hfresh hpage.isDirAt hpage.kind hpage.kept hfile
  rw [hpage.read] at hread
  cases hread
  exact ⟨fs₁, converted, hsame, hconvert, hfile⟩

/-! ## A small book -/

/-- A working directory with a book in its directory `book` and nothing else. -/
def filesOfBook (entries : List (Text × Node)) : FileSystem where
  root := .directory [("work".toList, .directory [("book".toList, .directory entries)])]
  workDir := ["work".toList]

/-- The book in that directory, with default properties. -/
def plainBook : Source where
  book := {}
  root := .ofString "book"
  src := (Path.ofString "book").join (.ofString "src")

/-- Settings to migrate it. -/
def bookToSite : Settings where
  sourceDir := some (.ofString "book")
  targetDir := some (.ofString "site")

/-- Beside the book nothing is there yet. -/
theorem isFresh_filesOfBook {entries : List (Text × Node)} {included? : Option Path}
    (hordered : ∀ found ∈ (filesOfBook entries).root.nodes, found.2.HasOrder)
    (hplain : ∀ found ∈ (Node.directory entries).nodes, ∀ n ∈ found.1, IsPlain n)
    (hincluded : ∀ dir, included? = some dir →
      ["work".toList, "book".toList] <+: (filesOfBook entries).place dir ∧
        ∃ name, dir.fileName? = some name ∧ name ≠ "docs".toList) :
    IsFresh (filesOfBook entries) plainBook.src (.ofString "site") included? := by
  have hsrc : (filesOfBook entries).place plainBook.src =
      ["work".toList, "book".toList, "src".toList] := rfl
  have htarget : (filesOfBook entries).place (.ofString "site") =
      ["work".toList, "site".toList] := rfl
  have hbelow : (filesOfBook entries).PlainBelow ["work".toList, "book".toList] :=
    FileSystem.plainBelow_of_nodes rfl hplain
  refine ⟨Node.ordered_of_nodes hordered, ?_, ?_, fun _ => ?_, fun dir hdir => ?_⟩
  · exact hbelow.of_prefix (hsrc ▸ List.prefix_append _ ["src".toList])
  · rw [hsrc, htarget]
    decide
  · rw [htarget]
    exact FileSystem.fileAt_eq_none_of_prefix rfl
  · exact (hincluded dir hdir).imp_left hbelow.of_prefix

/-- A migration with a report in which something is seen. -/
theorem exists_report_of_view {α : Type} (settings : Settings) (fs : FileSystem)
    (view : Report → α) (seen : α)
    (h : ((migrate settings).runOn fs).1.toOption.map view = some seen) :
    ∃ report, (migrate settings).runOn fs = (.ok report, ((migrate settings).runOn fs).2) ∧
      view report = seen := by
  rcases hrun : (migrate settings).runOn fs with ⟨_ | report, fs'⟩
  · rw [hrun] at h
    cases h
  · rw [hrun] at h
    exact ⟨report, rfl, Option.some.inj h⟩

/-- A migration whose report lists some files has that report. -/
theorem exists_report (settings : Settings) (fs : FileSystem) (converted assets : List Path)
    (h : ((migrate settings).runOn fs).1.toOption.map
      (fun report => (report.converted, report.assets)) = some (converted, assets)) :
    ∃ report, (migrate settings).runOn fs = (.ok report, ((migrate settings).runOn fs).2) ∧
      report.converted = converted ∧ report.assets = assets := by
  obtain ⟨report, hrun, hseen⟩ := exists_report_of_view settings fs _ _ h
  exact ⟨report, hrun, Prod.mk.inj hseen⟩

end Migration

end BookSite
