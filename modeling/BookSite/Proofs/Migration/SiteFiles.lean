import BookSite.Proofs.Migration.BookFiles

/-!
# Proofs/Migration/SiteFiles — the files of a site

Beside the files that come from the book a site has three of its own, and the copy of the directory
of included files.  `SiteFile` says where each file of the target comes from; it holds for every run
that succeeds.
-/

namespace BookSite.Migration

/-- Where the files of the book go in a site. -/
def sitePlan (src target : Path) : CopyPlan where
  src
  assets := (docsDir target).join (.ofString "public")
  documents := docsDir target

/-- The places of the files that a site has of its own, below the target; the home page is one if
it was written. -/
def ownFiles (home : Bool) : List (List Text) :=
  [["docs".toList, ".vitepress".toList, "config.mts".toList], ["package.json".toList]] ++
    if home then [["docs".toList, "index.md".toList]] else []

/-- **A file of a site**: one from the book, one of its own, or a copy of an included file. -/
inductive SiteFile (fs : FileSystem) (pipeline : Pipeline) (src target : Path)
    (included? : Option Path) (copied : CopiedFiles) (home : Bool) (y : List Text) : Content → Prop
  | book {content : Content}
      (h : BookFile fs (fs.place target) pipeline (sitePlan src target) copied y content) :
      SiteFile fs pipeline src target included? copied home y content
  | own {names : List Text} {t : Text} (hy : y = fs.place target ++ names)
      (hnames : names ∈ ownFiles home) :
      SiteFile fs pipeline src target included? copied home y (.text t)
  | included {dir : Path} {name : Text} {names : List Text} {content : Content}
      (hdir : included? = some dir) (hname : dir.fileName? = some name)
      (hy : y = fs.place target ++ name :: names)
      (hread : ¬ fs.place target <+: fs.place dir ++ names →
        fs.fileAt (fs.place dir ++ names) = some content) :
      SiteFile fs pipeline src target included? copied home y content

/-- **A target apart from the book**, and an included directory that has a name. -/
structure IsSetUp (fs : FileSystem) (src target : Path) (included? : Option Path) : Prop where
  ordered : fs.root.Ordered
  plain : fs.PlainBelow (fs.place src)
  apart : Apart (fs.place src) (fs.place target)
  included : ∀ dir, included? = some dir →
    fs.PlainBelow (fs.place dir) ∧ ∃ name, dir.fileName? = some name

theorem isPlain_docs : IsPlain "docs".toList := by decide

theorem place_docsDir (fs : FileSystem) (target : Path) :
    fs.place (docsDir target) = fs.place target ++ ["docs".toList] :=
  fs.place_join_of_isPlain target isPlain_docs

theorem place_assets (fs : FileSystem) (src target : Path) :
    fs.place (sitePlan src target).assets = fs.place (docsDir target) ++ ["public".toList] :=
  fs.place_join_of_isPlain (docsDir target) (by decide)

section Setup

variable {fs₀ : FileSystem} {src target : Path} {included? : Option Path} {pipeline : Pipeline}
  {copied : CopiedFiles} {home : Bool} (hsetup : IsSetUp fs₀ src target included?)

include hsetup

theorem IsSetUp.keepsApart : KeepsApart fs₀ (sitePlan src target) (fs₀.place target) where
  ordered := hsetup.ordered
  plain := hsetup.plain
  apart := hsetup.apart
  assets := by
    rw [place_assets, place_docsDir, List.append_assoc]
    exact List.prefix_append _ _
  documents := ⟨_, (place_docsDir fs₀ target).symm⟩

/-- All files of a site lie below the target. -/
theorem SiteFile.isPrefix {y : List Text} {content : Content}
    (h : SiteFile fs₀ pipeline src target included? copied home y content) :
    fs₀.place target <+: y := by
  cases h with
  | book h => exact h.isPrefix hsetup.keepsApart
  | own hy => exact ⟨_, hy.symm⟩
  | included hdir hname hy => exact ⟨_, hy.symm⟩

end Setup

/-! ## Files of the site itself -/

/-- Going down plain names from a joined path. -/
theorem place_join_names (fs : FileSystem) (p : Path) {q : Path} {names : List Text}
    (hq : q.isAbsolute = false) (hsegments : q.segments = names)
    (hplain : ∀ n ∈ names, IsPlain n) : fs.place (p.join q) = fs.place p ++ names := by
  rw [fs.place_join p hq, hsegments, placeFrom_of_isPlain hplain]

/-- Going down plain names from the directory of the documents. -/
theorem place_docsDir_join (fs : FileSystem) (target : Path) {q : Path} {names : List Text}
    (hq : q.isAbsolute = false) (hsegments : q.segments = names)
    (hplain : ∀ n ∈ names, IsPlain n) :
    fs.place ((docsDir target).join q) = fs.place target ++ "docs".toList :: names := by
  rw [place_join_names fs (docsDir target) hq hsegments hplain, place_docsDir,
    List.append_assoc, List.singleton_append]

theorem place_definition (fs : FileSystem) (target : Path) :
    fs.place ((docsDir target).join definitionPath) =
      fs.place target ++ ["docs".toList, ".vitepress".toList, "config.mts".toList] :=
  place_docsDir_join fs target (by decide) (by decide) (by decide)

theorem place_manifest (fs : FileSystem) (target : Path) :
    fs.place (target.join manifestPath) = fs.place target ++ ["package.json".toList] :=
  place_join_names fs target (by decide) (by decide) (by decide)

theorem place_homePage (fs : FileSystem) (target : Path) :
    fs.place ((docsDir target).join homePagePath) =
      fs.place target ++ ["docs".toList, "index.md".toList] :=
  place_docsDir_join fs target (by decide) (by decide) (by decide)

section Own

variable {fs fs' : FileSystem}

/-- The definition is a text written below its directories. -/
theorem writeDefinition_eq (docs : Path) (definition : Site.Definition) :
    writeDefinition docs definition = FileAction.writeBelow .createDir
      (.writeFile (docs.join definitionPath)) (docs.join definitionPath) definition.render >>=
        fun _ => pure (docs.join definitionPath) := by
  unfold writeDefinition FileAction.writeBelow
  simp only
  cases (docs.join definitionPath).parent? with
  | none => rfl
  | some dir => exact (bind_assoc _ _ _).symm

/-- **The definition** is one file. -/
theorem changes_writeDefinition {docs file : Path} {definition : Site.Definition}
    (h : (writeDefinition docs definition).runOn fs = (.ok file, fs')) :
    FileSystem.Changes (fun y content => y = fs.place (docs.join definitionPath) ∧
      content = .text definition.render) fs fs' := by
  have hchanges : FileSystem.Changes (fun y content => y = fs.place (docs.join definitionPath) ∧
      content = .text definition.render) fs ((writeDefinition docs definition).runOn fs).2 := by
    rw [writeDefinition_eq]
    exact FileAction.keeps_bind (FileAction.changes_writeBelow fs) fun _ _ _ h => h
  rwa [h] at hchanges

/-- **The manifest** is one file. -/
theorem changes_writeManifest {target file : Path} {manifest : Site.Manifest}
    (h : (writeManifest target manifest).runOn fs = (.ok file, fs')) :
    FileSystem.Changes (fun y content => y = fs.place (target.join manifestPath) ∧
      content = .text manifest.render) fs fs' := by
  have hchanges : FileSystem.Changes (fun y content => y = fs.place (target.join manifestPath) ∧
      content = .text manifest.render) fs ((writeManifest target manifest).runOn fs).2 :=
    FileAction.keeps_bind (FileAction.changes_writeText _ _ _ fs) fun _ _ _ h => h
  rwa [h] at hchanges

/-- **The home page** is one file, if it is written. -/
theorem changes_writeHomePage {docs : Path} {page : Site.HomePage} {overwrite written : Bool}
    (h : (writeHomePage docs page overwrite).runOn fs = (.ok written, fs')) :
    FileSystem.Changes (fun y content => written = true ∧
      y = fs.place (docs.join homePagePath) ∧ content = .text page.render) fs fs' := by
  rw [writeHomePage, FileAction.runOn_get_bind] at h
  split at h
  · cases h
    exact .refl _ fs
  · obtain ⟨_, fs₁, hwrite, h⟩ := FileAction.runOn_bind_eq_ok.mp h
    cases h
    have hchanges := FileAction.changes_writeText (.writeHomePage (docs.join homePagePath))
      (docs.join homePagePath) page.render fs
    rw [hwrite] at hchanges
    exact hchanges.mono fun _ _ h => ⟨rfl, h⟩

/-- A home page that was written is there. -/
theorem fileAt_of_writeHomePage {docs : Path} {page : Site.HomePage} {overwrite : Bool}
    (h : (writeHomePage docs page overwrite).runOn fs = (.ok true, fs')) :
    fs'.fileAt (fs'.place (docs.join homePagePath)) = some (.text page.render) := by
  rw [(changes_writeHomePage h).place_eq]
  rw [writeHomePage, FileAction.runOn_get_bind] at h
  split at h
  · cases h
  · obtain ⟨_, _, hwrite, h⟩ := FileAction.runOn_bind_eq_ok.mp h
    cases h
    exact FileAction.fileAt_of_writeText hwrite

end Own

/-! ## Included files -/

/-- Creating a directory if nothing is there writes no file. -/
theorem changes_createMissing (activity : Activity) (dir : Path) (fs : FileSystem) :
    FileSystem.Changes (fun _ _ => False) fs ((createMissing activity dir).runOn fs).2 := by
  rw [createMissing, FileAction.runOn_get_bind]
  split
  · exact .refl _ fs
  · rw [FileAction.runOn_get_bind]
    split
    · rename_i created hcreated
      exact FileSystem.changes_createDir hcreated
    · exact .refl _ fs

/-- A file that is copied over another one. -/
theorem changes_copyOver {activity : Activity} {source dest : Path} {fs fs' : FileSystem} {u : Unit}
    (h : (copyOver activity source dest).runOn fs = (.ok u, fs')) :
    ∃ content, fs.fileAt (fs.place source) = some content ∧
      FileSystem.Changes (fun y c => y = fs.place dest ∧
        (fs.place dest ≠ fs.place source → c = content)) fs fs' ∧
      (fs'.fileAt (fs.place dest)).isSome := by
  rw [Migration.copyOver, FileAction.runOn_get_bind] at h
  split at h
  · rename_i copied hcopied
    cases h
    obtain ⟨content, hcontent, hchanges, copy, hcopy, -⟩ := FileSystem.changes_copyFile hcopied
    exact ⟨content, hcontent, hchanges, by rw [hcopy]; rfl⟩
  · cases h

theorem lastComponentText_of_fileName? {p : Path} {name : Text} (h : p.fileName? = some name) :
    lastComponentText p = name := by
  unfold Path.fileName? at h
  split at h
  · rename_i n hlast
    cases h
    rw [lastComponentText, hlast]
  · cases h

/-- **Copying a directory** is creating its directories and then copying its files. -/
theorem runOn_copyTree {activity : Activity} {source dest : Path} {fs : FileSystem} {node : Node}
    (hnode : fs.node source = .ok node) :
    (copyTree activity source dest).runOn fs =
      ((FileAction.forChosen node.nodes (fun x => x.2.isDirectory) fun x =>
          createMissing activity (dest.join (.ofNames x.1))) >>= fun _ =>
        (FileAction.forChosen node.nodes (fun x => !x.2.isDirectory) fun x =>
            copyOver activity (source.joinNames x.1) (dest.join (.ofNames x.1))) >>= fun _ =>
          pure ()).runOn fs := by
  rw [copyTree, FileAction.runOn_get_bind, hnode]
  rfl

section Included

variable {fs₀ fs fs' : FileSystem} {src target dir : Path} {included? : Option Path}
  {pipeline : Pipeline} {copied : CopiedFiles} {home : Bool} {name : Text}
  (hsetup : IsSetUp fs₀ src target included?)
  (hdir : included? = some dir) (hname : dir.fileName? = some name)
  (h : FileSystem.Changes (SiteFile fs₀ pipeline src target included? copied home) fs₀ fs)

include hsetup hdir hname h

/-- **One included file** is copied. -/
theorem IsSetUp.copyOver {activity : Activity} {names : List Text}
    (hplain : ∀ n ∈ names, IsPlain n) {u : Unit}
    (hrun : (Migration.copyOver activity (dir.joinNames names)
      ((target.join ⟨name⟩).join (.ofNames names))).runOn fs = (.ok u, fs')) :
    FileSystem.Changes (SiteFile fs₀ pipeline src target included? copied home) fs fs' ∧
      (fs'.fileAt (fs₀.place target ++ name :: names)).isSome := by
  have hsource : fs.place (dir.joinNames names) = fs₀.place dir ++ names := by
    rw [fs.place_joinNames _ hplain, h.place_eq]
  have hdest : fs.place ((target.join ⟨name⟩).join (.ofNames names)) =
      fs₀.place target ++ name :: names := by
    rw [fs.place_join_ofNames _ hplain,
      fs.place_join_of_isPlain target (Path.isPlain_of_fileName? hname), h.place_eq,
      List.append_assoc, List.singleton_append]
  obtain ⟨content, hcontent, hchanges, hsome⟩ := changes_copyOver hrun
  rw [hsource] at hcontent
  rw [hsource, hdest] at hchanges
  rw [hdest] at hsome
  refine ⟨hchanges.mono ?_, hsome⟩
  rintro y c ⟨rfl, hc⟩
  refine .included hdir hname rfl fun houtside => ?_
  have hne : fs₀.place target ++ name :: names ≠ fs₀.place dir ++ names :=
    fun heq => houtside (heq ▸ List.prefix_append _ _)
  rw [h.fileAt_eq fun _ hw => houtside (hw.isPrefix hsetup)] at hcontent
  rw [hc hne, hcontent]

/-- **The directory of included files** is copied with all files in it. -/
theorem IsSetUp.copyTree {activity : Activity} (hisDir : fs.isDir dir = true) {u : Unit}
    (hrun : (Migration.copyTree activity dir (target.join ⟨name⟩)).runOn fs = (.ok u, fs')) :
    FileSystem.Changes (SiteFile fs₀ pipeline src target included? copied home) fs fs' ∧
      ∀ names, (fs.fileAt (fs₀.place dir ++ names)).isSome →
        (fs'.fileAt (fs₀.place target ++ name :: names)).isSome := by
  obtain ⟨node, hnode, hplain, hfound⟩ := FileSystem.exists_nodes_of_isDir
    (h.ordered hsetup.ordered) (h.place_eq dir ▸ (hsetup.included dir hdir).1.later h) hisDir
  rw [h.place_eq] at hfound
  rw [runOn_copyTree hnode] at hrun
  obtain ⟨_, fs₁, hdirs, hrun⟩ := FileAction.runOn_bind_eq_ok.mp hrun
  obtain ⟨_, fs₂, hfiles, hrun⟩ := FileAction.runOn_bind_eq_ok.mp hrun
  cases hrun
  -- The first loop creates directories, the second one copies files.
  have hmade :
      FileSystem.Changes (SiteFile fs₀ pipeline src target included? copied home) fs fs₁ := by
    refine (FileAction.forChosen_runOn (Q := fun _ _ => True) h ?_ (fun _ _ _ _ _ => trivial) hdirs).1
    intro x _ _ before after _ _ hmake
    have hchanges := changes_createMissing activity
      ((target.join ⟨name⟩).join (.ofNames x.1)) before
    rw [hmake] at hchanges
    exact ⟨hchanges.mono fun _ _ h => h.elim, trivial⟩
  have hcopied :
      FileSystem.Changes (SiteFile fs₀ pipeline src target included? copied home) fs₁ fs' ∧
      ∀ x ∈ node.nodes, (!x.2.isDirectory) = true →
        (fs'.fileAt (fs₀.place target ++ name :: x.1)).isSome := by
    refine FileAction.forChosen_runOn (Q := fun x fs =>
      (fs.fileAt (fs₀.place target ++ name :: x.1)).isSome) (h.trans hmade) ?_ ?_ hfiles
    · exact fun x hx _ _ _ _ hbefore hcopy =>
        hsetup.copyOver hdir hname hbefore (hplain x hx) hcopy
    · exact fun x _ _ hfirst hlater => hlater.isSome_fileAt hfirst
  refine ⟨hmade.trans hcopied.1, fun names hfile => ?_⟩
  obtain ⟨content, hcontent⟩ := Option.isSome_iff_exists.mp hfile
  exact hcopied.2 _ (hfound names content hcontent) rfl

/-- **The directory of included files** is copied if it is there. -/
theorem IsSetUp.copyIncluded {root below : Path} (hbelow : root.join below = dir)
    {copied? : Option Path}
    (hrun : (Migration.copyIncluded root below target).runOn fs = (.ok copied?, fs')) :
    FileSystem.Changes (SiteFile fs₀ pipeline src target included? copied home) fs fs' ∧
      (fs.isDir dir = true → ∀ names, (fs.fileAt (fs₀.place dir ++ names)).isSome →
        (fs'.fileAt (fs₀.place target ++ name :: names)).isSome) := by
  rw [Migration.copyIncluded, FileAction.runOn_get_bind, hbelow] at hrun
  split at hrun
  · rename_i hmissing
    cases hrun
    exact ⟨.refl _ _, fun hisDir => by simp [hisDir] at hmissing⟩
  · rename_i hthere
    obtain ⟨_, fs₁, hmade, hrun⟩ := FileAction.runOn_bind_eq_ok.mp hrun
    obtain ⟨_, fs₂, hcopied, hrun⟩ := FileAction.runOn_bind_eq_ok.mp hrun
    cases hrun
    have hdirs := FileAction.changes_createDirAll (.createDir target) target fs
    rw [hmade] at hdirs
    have hbefore :
        FileSystem.Changes (SiteFile fs₀ pipeline src target included? copied home) fs fs₁ :=
      hdirs.mono fun _ _ h => h.elim
    rw [lastComponentText_of_fileName? hname] at hcopied
    obtain ⟨hchanges, hall⟩ := hsetup.copyTree hdir hname (h.trans hbefore)
      (hdirs.isDir (by simpa using hthere)) hcopied
    exact ⟨hbefore.trans hchanges, fun _ names hsome => hall names (hdirs.isSome_fileAt hsome)⟩

end Included

/-- The directory of included files that settings name, below the root of the book. -/
def includedDir? (settings : Settings) (root : Path) : Option Path :=
  settings.includingFilesDir.map root.join

/-- **All included files** are copied, if there are any. -/
theorem IsSetUp.copyIncludedOf {fs₀ fs fs' : FileSystem} {src target root : Path}
    {settings : Settings} {pipeline : Pipeline} {copied : CopiedFiles} {home : Bool}
    (hsetup : IsSetUp fs₀ src target (includedDir? settings root))
    (h : FileSystem.Changes
      (SiteFile fs₀ pipeline src target (includedDir? settings root) copied home) fs₀ fs)
    {copied? : Option Path}
    (hrun : (Migration.copyIncludedOf settings root target).runOn fs = (.ok copied?, fs')) :
    FileSystem.Changes
        (SiteFile fs₀ pipeline src target (includedDir? settings root) copied home) fs fs' ∧
      ∀ dir name, includedDir? settings root = some dir → dir.fileName? = some name →
        fs.isDir dir = true → ∀ names, (fs.fileAt (fs₀.place dir ++ names)).isSome →
          (fs'.fileAt (fs₀.place target ++ name :: names)).isSome := by
  rw [Migration.copyIncludedOf] at hrun
  cases hsetting : settings.includingFilesDir with
  | none =>
    rw [hsetting] at hrun
    cases hrun
    exact ⟨.refl _ _, fun dir name hdir => by simp [includedDir?, hsetting] at hdir⟩
  | some below =>
    rw [hsetting] at hrun
    have hdir : includedDir? settings root = some (root.join below) := by
      rw [includedDir?, hsetting, Option.map_some]
    obtain ⟨name, hname⟩ := (hsetup.included _ hdir).2
    obtain ⟨hchanges, hall⟩ := hsetup.copyIncluded hdir hname h rfl hrun
    refine ⟨hchanges, fun dir name' hdir' hname' hisDir => ?_⟩
    rw [hdir] at hdir'
    cases hdir'
    rw [hname] at hname'
    cases hname'
    exact hall hisDir

/-! ## The whole site -/

/-- **A run that builds a site**: its steps, with the files that each of them leaves behind. -/
structure SiteRun (settings : Settings) (source : Source) (target : Path) (fs : FileSystem)
    (report : Report) (fs' : FileSystem) where
  /-- what is reported of the book -/
  files : Report
  definitionFile : Path
  manifestFile : Path
  withBook : FileSystem
  withDefinition : FileSystem
  withManifest : FileSystem
  withHomePage : FileSystem
  book : (migrateSiteFiles (.standard settings.includeMode) source.src target).runOn fs =
    (.ok files, withBook)
  definition : (writeDefinition (docsDir target) (siteDefinition settings source.book
      (loadSidebar withBook source.src settings.basePath)
      (Pipeline.standard settings.includeMode).requirements)).runOn withBook =
    (.ok definitionFile, withDefinition)
  manifest : (writeManifest target ((Site.Manifest.new source.book.description).addPackages
      (Pipeline.standard settings.includeMode).requirements.packages)).runOn withDefinition =
    (.ok manifestFile, withManifest)
  homePage : (writeHomePage (docsDir target)
      (siteHomePage source.book (loadSidebar withBook source.src settings.basePath))
      settings.overwriteHomePage).runOn withManifest =
    (.ok report.homePage, withHomePage)
  included : (copyIncludedOf settings source.root target).runOn withHomePage =
    (.ok report.includedFiles, fs')
  report_eq : report =
    { files with
      sidebarEntries := Site.countItems (loadSidebar withBook source.src settings.basePath)
      definitionFile := some definitionFile
      manifestFile := some manifestFile
      homePage := report.homePage
      includedFiles := report.includedFiles }

/-- **A site is built step by step.** -/
theorem exists_siteRun {settings : Settings} {source : Source} {target : Path}
    {fs fs' : FileSystem} {report : Report}
    (hrun : (migrateSite settings source target).runOn fs = (.ok report, fs')) :
    Nonempty (SiteRun settings source target fs report fs') := by
  obtain ⟨files, withBook, hbook, hrun⟩ := FileAction.runOn_bind_eq_ok.mp hrun
  rw [FileAction.runOn_get_bind] at hrun
  obtain ⟨definitionFile, withDefinition, hdefinition, hrun⟩ := FileAction.runOn_bind_eq_ok.mp hrun
  obtain ⟨manifestFile, withManifest, hmanifest, hrun⟩ := FileAction.runOn_bind_eq_ok.mp hrun
  obtain ⟨home, withHomePage, hhome, hrun⟩ := FileAction.runOn_bind_eq_ok.mp hrun
  obtain ⟨included, _, hincluded, hrun⟩ := FileAction.runOn_bind_eq_ok.mp hrun
  cases hrun
  exact ⟨⟨files, definitionFile, manifestFile, withBook, withDefinition, withManifest,
    withHomePage, hbook, hdefinition, hmanifest, hhome, hincluded, rfl⟩⟩

/-- What is reported of the book is reported of the site. -/
theorem SiteRun.reported {settings : Settings} {source : Source} {target : Path}
    {fs fs' : FileSystem} {report : Report} (run : SiteRun settings source target fs report fs') :
    report.converted = run.files.converted ∧ report.failed = run.files.failed ∧
      report.copied = run.files.copied :=
  ⟨(congrArg Report.converted run.report_eq).trans rfl,
    (congrArg Report.failed run.report_eq).trans rfl,
    (congrArg Report.copied run.report_eq).trans rfl⟩

section Site

variable {settings : Settings} {source : Source} {target : Path} {fs₀ fs' : FileSystem}
  {report : Report}
  (hsetup : IsSetUp fs₀ source.src target (includedDir? settings source.root))
  (hrun : (migrateSite settings source target).runOn fs₀ = (.ok report, fs'))

/-- What a run that succeeds has changed. -/
structure IsMigrated (fs₀ : FileSystem) (settings : Settings) (source : Source) (target : Path)
    (report : Report) (fs' : FileSystem) : Prop where
  changes : FileSystem.Changes (SiteFile fs₀ (.standard settings.includeMode) source.src target
    (includedDir? settings source.root) report.copied report.homePage) fs₀ fs'
  reported : AreReported fs₀ (sitePlan source.src target) report fs'
  included : ∀ dir name, includedDir? settings source.root = some dir → dir.fileName? = some name →
    fs₀.isDir dir = true → ∀ names, (fs₀.fileAt (fs₀.place dir ++ names)).isSome →
      (fs'.fileAt (fs₀.place target ++ name :: names)).isSome

/-- A file of the site's own is written. -/
theorem changes_of_own {src target file : Path} {included? : Option Path} {pipeline : Pipeline}
    {copied : CopiedFiles} {home : Bool} {fs₀ fs fs' : FileSystem} {t : Text} {names : List Text}
    (h : FileSystem.Changes (SiteFile fs₀ pipeline src target included? copied home) fs₀ fs)
    (hwrite : FileSystem.Changes (fun y content => names ∈ ownFiles home ∧ y = fs.place file ∧
      content = .text t) fs fs')
    (hplace : fs.place file = fs.place target ++ names) :
    FileSystem.Changes (SiteFile fs₀ pipeline src target included? copied home) fs fs' := by
  rw [hplace, h.place_eq] at hwrite
  refine hwrite.mono ?_
  rintro y c ⟨hnames, rfl, rfl⟩
  exact .own rfl hnames

include hsetup hrun

/-- **Every file of a site** comes from the book, is one of its own, or is a copy of an included
file; what the report lists is there, and so are all included files. -/
theorem isMigrated_of_migrateSite : IsMigrated fs₀ settings source target report fs' := by
  obtain ⟨run⟩ := exists_siteRun hrun
  obtain ⟨hconverted, -, hcopied⟩ := run.reported
  have hbook : FileSystem.Changes (BookFile fs₀ (fs₀.place target) (.standard settings.includeMode)
      (sitePlan source.src target) run.files.copied) fs₀ run.withBook ∧
        AreReported fs₀ (sitePlan source.src target) run.files run.withBook := by
    obtain ⟨_, made, hmade, hfiles⟩ := FileAction.runOn_bind_eq_ok.mp run.book
    have hdirs := FileAction.changes_createDirAll (.createTargetDir (docsDir target))
      ((docsDir target).join (.ofString ".vitepress")) fs₀
    rw [hmade] at hdirs
    exact hsetup.keepsApart.migrateFiles (hdirs.mono fun _ _ h => h.elim) hfiles
  have h₁ : FileSystem.Changes (SiteFile fs₀ (.standard settings.includeMode) source.src target
      (includedDir? settings source.root) run.files.copied report.homePage) fs₀ run.withBook :=
    hbook.1.mono fun _ _ h => .book h
  have h₂ := changes_of_own h₁
    ((changes_writeDefinition run.definition).mono fun _ _ h =>
      ⟨List.mem_append_left _ List.mem_cons_self, h⟩) (place_definition run.withBook target)
  have h₃ := changes_of_own (h₁.trans h₂)
    ((changes_writeManifest run.manifest).mono fun _ _ h =>
      ⟨List.mem_append_left _ (List.mem_cons_of_mem _ List.mem_cons_self), h⟩)
    (place_manifest run.withDefinition target)
  have h₄ := changes_of_own ((h₁.trans h₂).trans h₃)
    ((changes_writeHomePage run.homePage).mono fun _ _ h =>
      ⟨by rw [h.1]; exact List.mem_append_right _ List.mem_cons_self, h.2⟩)
    (place_homePage run.withManifest target)
  have hall := ((h₁.trans h₂).trans h₃).trans h₄
  obtain ⟨h₅, hincluded⟩ := hsetup.copyIncludedOf hall run.included
  have hlater := hbook.2.later (((h₂.trans h₃).trans h₄).trans h₅)
  exact ⟨by rw [hcopied]; exact hall.trans h₅,
    ⟨by rw [hconverted]; exact hlater.converted, by rw [hcopied]; exact hlater.copied⟩,
    fun dir name hdir hname hisDir names hsome =>
      hincluded dir name hdir hname (hall.isDir hisDir) names (hall.isSome_fileAt hsome)⟩

end Site

end BookSite.Migration
