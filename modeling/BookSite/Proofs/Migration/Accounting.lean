import BookSite.Proofs.Migration.Course

/-!
# Proofs/Migration/Accounting — every file of a book is accounted for

Whatever is migrated takes a course (`KeepsApart.exists_course`).  What a site gets beside its book
is written to other places, but for a home page that is to replace one, so the report of a migration
accounts for its book (`accounts_of_migrate`).
-/

namespace BookSite.Migration

/-- Where the files of a book go. -/
def planOf (settings : Settings) (src target : Path) : CopyPlan :=
  if settings.filesOnly then ⟨src, target, target⟩ else sitePlan src target

/-- A page is replaced by the home page. -/
structure IsReplaced (settings : Settings) (fs : FileSystem) (target dest : Path) : Prop where
  site : settings.filesOnly = false
  overwrite : settings.overwriteHomePage = true
  home : fs.place dest = fs.place ((docsDir target).join homePagePath)

/-- **Converting and copying takes a course**, which begins with the directory of the pages. -/
theorem KeepsApart.exists_course {fs fs₁ fs' : FileSystem} {plan : CopyPlan} {base : List Text}
    (hapart : KeepsApart fs plan base) (hsrc : fs.isDir plan.src = true) {pipeline : Pipeline}
    {report : Report} (hbefore : FileSystem.Changes (fun _ _ => False) fs fs₁)
    (hrun : (Migration.migrateFiles pipeline plan.src plan.documents plan.assets).runOn fs₁ =
      (.ok report, fs')) :
    ∃ course : Course, course.pipeline = pipeline ∧ course.plan = plan ∧
      course.LeadsTo fs report ∧ course.copying.2 = fs' ∧
      fs₁.createDirAll plan.documents = (.ok (), course.begun) := by
  obtain ⟨_, begun, hdirs, hrun⟩ := FileAction.runOn_bind_eq_ok.mp hrun
  have hmade := FileAction.changes_createDirAll (.createDir plan.documents) plan.documents fs₁
  rw [hdirs] at hmade
  rw [FileAction.runOn_get_bind] at hrun
  have hbegun := hbefore.trans hmade
  have hstart : FileSystem.Changes (BookFile fs base pipeline plan {}) fs begun :=
    hbegun.mono fun _ _ hno => hno.elim
  have hpages := (hstart.trans (hapart.convertPages hstart).1).mono
    fun _ _ hwritten => hwritten.isPrefix hapart
  obtain ⟨met, hwalk, horder, hmem⟩ := hapart.exists_copyAll_eq hsrc hpages
  refine ⟨⟨pipeline, plan, begun, met⟩, rfl, rfl,
    ⟨hbegun, ?_, hwalk, ?_, Node.nodup_of_comesBefore horder, hmem⟩, ?_,
    FileAction.createDirAll_eq_ok hdirs⟩
  · cases hrun
    rfl
  · cases hrun
    exact congrArg Prod.fst hwalk.symm
  · cases hrun
    exact congrArg Prod.snd hwalk.symm

/-- What the site has of its own among the pages is of no sort that is listed, but for the home
page. -/
theorem kindAt_of_mem_ownFiles {home : Bool} {rest : List Text}
    (h : "docs".toList :: rest ∈ ownFiles home) (before : List Text) :
    kindAt (before ++ "docs".toList :: rest) = .other ∨
      (home = true ∧ rest = ["index.md".toList]) := by
  rw [ownFiles, List.mem_append, List.mem_cons, List.mem_singleton] at h
  rcases h with (h | h) | h
  · rw [h, kindAt, List.getLast?_append_of_ne_nil _ (by simp)]
    exact .inl (by decide)
  · exact absurd (List.cons.inj h).1 (by decide)
  · split at h
    · rename_i hhome
      exact .inr ⟨hhome, (List.cons.inj (List.mem_singleton.mp h)).2⟩
    · cases h

/-- A home page that is there is only written when it is to be replaced. -/
theorem not_pathExists_of_writeHomePage {docs : Path} {page : Site.HomePage}
    {fs fs' : FileSystem} (h : (writeHomePage docs page false).runOn fs = (.ok true, fs')) :
    fs.pathExists (docs.join homePagePath) = false := by
  rw [writeHomePage, FileAction.runOn_get_bind] at h
  by_contra hthere
  rw [if_pos (by simpa using hthere)] at h
  cases h

/-- The directory of a book that is found. -/
theorem isDir_of_findSource {settings : Settings} {fs : FileSystem} {source : Source}
    (h : findSource settings fs = .ok source) : fs.isDir source.src = true := by
  unfold findSource at h
  simp only at h
  split at h
  · cases h
  · split at h
    · cases h
    · rename_i hdir
      cases h
      simpa using hdir

section Site

variable {fs : FileSystem} {source : Source} {target : Path} {report : Report} {course : Course}
  (hsetup : IsSetUp fs source.src target none) (hsrc : fs.isDir source.src = true)
  (hplan : course.plan = sitePlan source.src target) (h : course.LeadsTo fs report)

include hsetup hsrc hplan h

/-- **Files listed** lie among the pages. -/
theorem Course.LeadsTo.below_docs_converted {dest : Path} (hdest : dest ∈ report.converted) :
    ∃ rest, fs.place dest = fs.place target ++ "docs".toList :: rest := by
  have hapart : KeepsApart fs course.plan (fs.place target) := hplan ▸ hsetup.keepsApart
  have hsrc' : fs.isDir course.plan.src = true := hplan ▸ hsrc
  obtain ⟨page, hpage, rfl, -⟩ := (h.mem_converted_iff hapart.ordered).mp hdest
  refine ⟨page.names, ?_⟩
  rw [h.place_pageDest hapart hsrc' hpage, hplan]
  change fs.place (docsDir target) ++ _ = _
  rw [place_docsDir, List.append_assoc, List.singleton_append]

theorem Course.LeadsTo.below_docs_copied {kind : FileKind} {dir dest : Path}
    (hdir : course.plan.dirFor? kind = some dir) (hdest : dest ∈ report.copied.ofKind kind) :
    ∃ rest, fs.place dest = fs.place target ++ "docs".toList :: rest := by
  have hapart : KeepsApart fs course.plan (fs.place target) := hplan ▸ hsetup.keepsApart
  have hsrc' : fs.isDir course.plan.src = true := hplan ▸ hsrc
  obtain ⟨names, hmet, -, rfl, -⟩ := (h.mem_copied_iff hdir).mp hdest
  rw [hplan] at hdir
  obtain ⟨below, hbelow⟩ := place_dirFor? fs hdir
  refine ⟨below ++ names, ?_⟩
  rw [fs.place_join_ofNames _ (h.plain_of_mem_met hapart hsrc' hmet).1, hbelow, place_docsDir]
  simp

/-- **A page in the place of a file of the site's own** is the home page. -/
theorem Course.LeadsTo.place_converted_of_own {home : Bool} {names : List Text} {dest : Path}
    (hdest : dest ∈ report.converted) (hnames : names ∈ ownFiles home)
    (hplace : fs.place dest = fs.place target ++ names) :
    home = true ∧ fs.place dest = fs.place ((docsDir target).join homePagePath) := by
  have hapart : KeepsApart fs course.plan (fs.place target) := hplan ▸ hsetup.keepsApart
  have hkind := h.kindAt_converted hapart (hplan ▸ hsrc) hdest
  obtain ⟨rest, hrest⟩ := h.below_docs_converted hsetup hsrc hplan hdest
  obtain rfl := List.append_cancel_left (hrest.symm.trans hplace)
  obtain hother | ⟨hhome, rfl⟩ := kindAt_of_mem_ownFiles hnames (fs.place target)
  · rw [hplace, hother] at hkind
    cases hkind
  · exact ⟨hhome, hplace.trans (place_homePage fs target).symm⟩

/-- No copy is in the place of a file of the site's own. -/
theorem Course.LeadsTo.place_copied_ne_own {home : Bool} {names : List Text} {kind : FileKind}
    {dir dest : Path} (hdir : course.plan.dirFor? kind = some dir)
    (hdest : dest ∈ report.copied.ofKind kind) (hnames : names ∈ ownFiles home) :
    fs.place dest ≠ fs.place target ++ names := by
  intro hplace
  have hapart : KeepsApart fs course.plan (fs.place target) := hplan ▸ hsetup.keepsApart
  have hkind := h.kindAt_copied hapart (hplan ▸ hsrc) hdir hdest
  obtain ⟨rest, hrest⟩ := h.below_docs_copied hsetup hsrc hplan hdir hdest
  obtain rfl := List.append_cancel_left (hrest.symm.trans hplace)
  obtain hother | ⟨-, rfl⟩ := kindAt_of_mem_ownFiles hnames (fs.place target)
  · rw [hplace, hother] at hkind
    subst hkind
    cases hdir
  · have hmarkdown : kindAt (fs.place dest) = .markdown := by
      rw [hplace, kindAt, List.getLast?_append_of_ne_nil _ (by simp)]
      decide
    rw [hmarkdown] at hkind
    subst hkind
    cases hdir

/-- **A home page** that comes from the book is there before the site's own is written. -/
theorem Course.LeadsTo.pathExists_homePage {dest : Path} (hdest : dest ∈ report.converted)
    (hplace : fs.place dest = fs.place ((docsDir target).join homePagePath)) :
    course.copying.2.pathExists ((docsDir target).join homePagePath) = true := by
  have hapart : KeepsApart fs course.plan (fs.place target) := hplan ▸ hsetup.keepsApart
  have hsrc' : fs.isDir course.plan.src = true := hplan ▸ hsrc
  obtain ⟨page, hpage, rfl, hconverts⟩ := (h.mem_converted_iff hapart.ordered).mp hdest
  obtain ⟨hplain, hne⟩ := h.plain_of_mem_pages hapart hsrc' hpage
  have hdocuments : course.plan.documents = docsDir target := by rw [hplan]; rfl
  have hnames : page.names = ["index.md".toList] := by
    rw [h.place_pageDest hapart hsrc' hpage, hdocuments, place_homePage, place_docsDir,
      List.append_assoc] at hplace
    exact (List.cons.inj (List.append_cancel_left hplace)).2
  have hfile : pageDest course.plan.documents page = (docsDir target).join homePagePath := by
    rw [pageDest, hnames, hdocuments]
    rfl
  have hrun : (convertPageTo course.pipeline page.path (pageDest course.plan.documents page)).runOn
      (course.atPage page) = (.ok (), (convertPageBelow course.pipeline course.plan.documents page
        (course.atPage page)).2) := Prod.ext hconverts rfl
  have hwritten := pathExists_of_convertPageTo (namesFile_join _ hplain hne) hrun
  have hbehind : FileSystem.Changes (fun _ _ => True)
      (convertPageBelow course.pipeline course.plan.documents page (course.atPage page)).2
      course.conversion.2 := changes_behindPage hpage course.begun
  have hlater := hbehind.pathExists hwritten
  rw [← hfile]
  exact (changes_copyEach (fun names hmet => (h.plain_of_mem_met hapart hsrc' hmet).1)
    ({}, course.conversion.2)).pathExists hlater

end Site

/-- **A migration of files only** is what `migrateFiles` does for the book that is found. -/
theorem runOn_migrate_filesOnly {settings : Settings} {source : Source} {target : Path}
    {fs fs' : FileSystem} {report : Report} (htarget : settings.targetDir = some target)
    (hfiles : settings.filesOnly = true) (hsource : findSource settings fs = .ok source)
    (hrun : (migrate settings).runOn fs = (.ok report, fs')) :
    (migrateFiles (.standard settings.includeMode) source.src target target).runOn fs =
      (.ok report, fs') := by
  rw [runOn_migrate_eq htarget hsource] at hrun
  simpa [hfiles] using hrun

/-- **A site without included files** is its book, its definition and manifest, and its home page. -/
theorem exists_of_migrateSite {settings : Settings} {source : Source} {target : Path}
    {fs fs' : FileSystem} {report : Report} (hincluded : settings.includingFilesDir = none)
    (hrun : (migrateSite settings source target).runOn fs = (.ok report, fs')) :
    ∃ files fs₁ fs₂ page,
      (migrateSiteFiles (.standard settings.includeMode) source.src target).runOn fs =
        (.ok files, fs₁) ∧
      report.converted = files.converted ∧ report.failed = files.failed ∧
      report.copied = files.copied ∧
      FileSystem.Changes (fun y _ => ∃ names ∈ ownFiles false, y = fs₁.place target ++ names)
        fs₁ fs₂ ∧
      (writeHomePage (docsDir target) page settings.overwriteHomePage).runOn fs₂ =
        (.ok report.homePage, fs') := by
  obtain ⟨run⟩ := exists_siteRun hrun
  obtain ⟨hconverted, hfailed, hcopied⟩ := run.reported
  have hlast : run.withHomePage = fs' := by
    have hnothing := run.included
    rw [copyIncludedOf, hincluded] at hnothing
    exact (Prod.mk.inj hnothing).2
  have hmade := changes_writeDefinition run.definition
  have hdone := changes_writeManifest run.manifest
  rw [place_definition] at hmade
  rw [place_manifest, hmade.place_eq] at hdone
  refine ⟨run.files, run.withBook, run.withManifest, _, run.book, hconverted, hfailed, hcopied,
    (hmade.mono ?_).trans (hdone.mono ?_), hlast ▸ run.homePage⟩
  · exact fun y _ hy => ⟨_, List.mem_cons_self, hy.1⟩
  · exact fun y _ hy => ⟨_, List.mem_cons_of_mem _ List.mem_cons_self, hy.1⟩

/-- **What a site gets beside its book** are files of its own. -/
theorem changes_ownFiles {target : Path} {page : Site.HomePage} {overwrite home : Bool}
    {fs₁ fs₂ fs' : FileSystem}
    (hown : FileSystem.Changes (fun y _ => ∃ names ∈ ownFiles false, y = fs₁.place target ++ names)
      fs₁ fs₂)
    (hhome : (writeHomePage (docsDir target) page overwrite).runOn fs₂ = (.ok home, fs')) :
    FileSystem.Changes (fun y _ => ∃ names ∈ ownFiles home, y = fs₁.place target ++ names)
      fs₁ fs' := by
  have hwritten := changes_writeHomePage hhome
  rw [place_homePage, hown.place_eq] at hwritten
  refine (hown.mono ?_).trans (hwritten.mono ?_)
  · exact fun y _ ⟨names, hnames, hy⟩ => ⟨names, List.mem_append_left _ hnames, hy⟩
  · rintro y _ ⟨hyes, hy, -⟩
    exact ⟨_, by rw [hyes]; exact List.mem_append_right _ List.mem_cons_self, hy⟩

/-- **A site accounts for its book.** -/
theorem IsSetUp.accounts {settings : Settings} {source : Source} {target : Path}
    {fs fs' : FileSystem} {report : Report} (hsetup : IsSetUp fs source.src target none)
    (hsrc : fs.isDir source.src = true) (hincluded : settings.includingFilesDir = none)
    (hmode : settings.filesOnly = false)
    (hrun : (migrateSite settings source target).runOn fs = (.ok report, fs')) :
    ∃ course : Course, course.pipeline = .standard settings.includeMode ∧
      course.plan = sitePlan source.src target ∧ course.LeadsTo fs report ∧
      course.Accounts fs report (IsReplaced settings fs target) fs' := by
  obtain ⟨files, fs₁, fs₂, homePage, hfiles, hconverted, hfailed, hcopied, hown, hhome⟩ :=
    exists_of_migrateSite hincluded hrun
  obtain ⟨_, made, hmade, hfiles⟩ := FileAction.runOn_bind_eq_ok.mp hfiles
  have hdirs := FileAction.changes_createDirAll (.createTargetDir (docsDir target))
    ((docsDir target).join (.ofString ".vitepress")) fs
  rw [hmade] at hdirs
  obtain ⟨course, hpipeline, hplan, hfilesLead, rfl, -⟩ :=
    hsetup.keepsApart.exists_course hsrc hdirs hfiles
  have hleads : course.LeadsTo fs report :=
    { hfilesLead with
      pages := by rw [hconverted, hfailed]; exact hfilesLead.pages
      copied := by rw [hcopied]; exact hfilesLead.copied }
  have hapart : KeepsApart fs course.plan (fs.place target) := hplan ▸ hsetup.keepsApart
  have hsrc' : fs.isDir course.plan.src = true := hplan ▸ hsrc
  have hbook := hleads.changes_copying hapart hsrc'
  have hlater := changes_ownFiles hown hhome
  rw [hbook.place_eq] at hlater
  refine ⟨course, hpipeline, hplan, hleads, hleads.accounts hapart hsrc' hlater ?_ ?_⟩
  · rintro dest hdest hkept _ ⟨names, hnames, hplace⟩
    obtain ⟨hyes, hindex⟩ := hleads.place_converted_of_own hsetup hsrc hplan hdest hnames hplace
    have hoverwrite : settings.overwriteHomePage = false := by
      by_contra hno
      exact hkept ⟨hmode, by simpa using hno, hindex⟩
    rw [hyes, hoverwrite] at hhome
    have hthere := hown.pathExists (hleads.pathExists_homePage hsetup hsrc hplan hdest hindex)
    rw [not_pathExists_of_writeHomePage hhome] at hthere
    cases hthere
  · rintro kind dir hdir dest hdest _ ⟨names, hnames, hplace⟩
    exact hleads.place_copied_ne_own hsetup hsrc hplan hdir hdest hnames hplace

/-- **A migration accounts for its book**: whatever the files of the book are, each of them but the
outline is in one group, no two files that the report lists have the same place, and each of these
holds at the end what was made of its own source, but for a page that the home page replaced. -/
theorem accounts_of_migrate {settings : Settings} {source : Source} {target : Path}
    {fs fs' : FileSystem} {report : Report} (htarget : settings.targetDir = some target)
    (hincluded : settings.includingFilesDir = none)
    (hsource : findSource settings fs = .ok source) (hordered : fs.root.Ordered)
    (hplain : fs.PlainBelow (fs.place source.src))
    (hapart : Apart (fs.place source.src) (fs.place target))
    (hrun : (migrate settings).runOn fs = (.ok report, fs')) :
    ∃ course : Course, course.pipeline = .standard settings.includeMode ∧
      course.plan = planOf settings source.src target ∧ course.LeadsTo fs report ∧
      course.Accounts fs report (IsReplaced settings fs target) fs' := by
  have hsrc := isDir_of_findSource hsource
  rcases hmode : settings.filesOnly
  · rw [planOf, hmode]
    exact IsSetUp.accounts ⟨hordered, hplain, hapart, fun dir h => by cases h⟩ hsrc hincluded hmode
      (runOn_migrate htarget hmode hsource hrun)
  · have hfiles := runOn_migrate_filesOnly htarget hmode hsource hrun
    have hkeeps : KeepsApart fs ⟨source.src, target, target⟩ (fs.place target) :=
      ⟨hordered, hplain, hapart, List.prefix_rfl, List.prefix_rfl⟩
    obtain ⟨course, hpipeline, hplan, hleads, rfl, -⟩ :=
      hkeeps.exists_course hsrc (.refl _ fs) hfiles
    rw [planOf, hmode]
    refine ⟨course, hpipeline, hplan, hleads, ?_⟩
    exact hleads.accounts (hplan ▸ hkeeps) (hplan ▸ hsrc) (.refl (fun _ _ => False) _)
      (fun _ _ _ _ hno => hno) fun _ _ _ _ _ _ hno => hno

/-- A book with a file of each sort, and a page that is no text. -/
def mixedBook : FileSystem := filesOfBook
  [("src".toList, .directory
    [("SUMMARY.md".toList, .file (.text "- [A](a.md)".toList)),
      ("a.md".toList, .file (.text "# A".toList)), ("b.md".toList, .file (.binary [255])),
      ("p.png".toList, .file (.binary [137])), ("t.txt".toList, .file (.text "t".toList)),
      ("z.zip".toList, .file (.binary [80]))])]

theorem accounts_of_migrate_mixedBook :
    ∃ report fs', (migrate bookToSite).runOn mixedBook = (.ok report, fs') ∧
      (report.converted, report.failed, report.assets, report.documents) =
        ([.ofString "site/docs/a.md"], [.ofString "book/src/b.md"],
          [.ofString "site/docs/public/p.png"], [.ofString "site/docs/t.txt"]) ∧
      IsSetUp mixedBook plainBook.src (.ofString "site") none ∧
      ∃ course : Course, course.plan = sitePlan plainBook.src (.ofString "site") ∧
        course.LeadsTo mixedBook report ∧
        course.Accounts mixedBook report
          (IsReplaced bookToSite mixedBook (.ofString "site")) fs' := by
  obtain ⟨report, hrun, hlisted⟩ := exists_report_of_view bookToSite mixedBook
    (fun report => (report.converted, report.failed, report.assets, report.documents))
    ([.ofString "site/docs/a.md"], [.ofString "book/src/b.md"],
      [.ofString "site/docs/public/p.png"], [.ofString "site/docs/t.txt"]) (by decide +kernel)
  have hfresh : IsFresh mixedBook plainBook.src (.ofString "site") none :=
    isFresh_filesOfBook (by decide +kernel) (by decide +kernel) fun dir hdir => by cases hdir
  have hsetup : IsSetUp mixedBook plainBook.src (.ofString "site") none :=
    have hfirst : mixedBook.fileAt (mixedBook.place plainBook.src ++ ["a.md".toList]) =
        some (.text "# A".toList) := rfl
    hfresh.isSetUp hfirst
  have hsource : findSource bookToSite mixedBook = .ok plainBook := rfl
  obtain ⟨course, -, hplan, hleads, haccounts⟩ :=
    accounts_of_migrate rfl rfl hsource hsetup.ordered hsetup.plain hsetup.apart hrun
  exact ⟨report, _, hrun, hlisted, hsetup, course, hplan, hleads, haccounts⟩

end BookSite.Migration
