import BookSite.Proofs.Migration.LaidOut
import Mathlib.Data.List.Infix

/-!
# Proofs/Migration/BothWays — files only, or a whole site

A book may be migrated into a target as it is, or into a site.  Both lay out the same files, the one
flat and the other below `docs` and `docs/public`, and beside them the site has only files of its
own (`same_files_both_ways`).
-/

namespace BookSite

/-- Settings to put the files of a book into a target, and nothing else. -/
def Settings.filesTo (settings : Settings) (target : Path) : Settings :=
  { settings with filesOnly := true, targetDir := some target }

/-- Settings to build a whole site. -/
def Settings.siteTo (settings : Settings) (target : Path) : Settings :=
  { settings with filesOnly := false, targetDir := some target }

namespace Migration

/-! ## Books and targets -/

/-- **A book with nothing called `public` at the top**, among files in order. -/
structure IsBook (fs : FileSystem) (src : Path) : Prop where
  ordered : fs.root.Ordered
  plain : fs.PlainBelow (fs.place src)
  workDir : fs.IsDirAt fs.workDir
  noPublic : ¬ fs.Has (fs.place src ++ ["public".toList])

/-- **An empty target** apart from a book, through which nothing is included. -/
structure IsEmptyTarget (fs : FileSystem) (pipeline : Pipeline) (src target : Path) : Prop where
  apart : Apart (fs.place src) (fs.place target)
  empty : ∀ names, names ≠ [] → ¬ fs.Has (fs.place target ++ names)
  includes : ∀ page ∈ pages fs src, ∀ p ∈ includePaths fs pipeline page,
    ∀ y ∈ passed (fs.origin p) p.segments, ¬ fs.place target <+: y

/-- **An empty target that is no obstacle**: nothing is included through a directory that is missing
on the way to it, its path does not lead through it, and no path below it gets too long. -/
structure IsClearTarget (fs : FileSystem) (pipeline : Pipeline) (src target : Path)
    (layout : Layout) : Prop extends IsEmptyTarget fs pipeline src target where
  missing : ∀ page ∈ pages fs src, ∀ p ∈ includePaths fs pipeline page,
    ∀ y ∈ passed (fs.origin p) p.segments,
      y ∈ entered (fs.origin target) target.segments → fs.Has y
  way : ∀ y ∈ entered (fs.origin target) target.segments, fs.place target <+: y →
    y = fs.place target
  usable : ∀ found ∈ fs.allFiles src, kindAt found.names ≠ .other →
    FileSystem.IsUsable (layout.dest target found.names)

section Targets

variable {fs : FileSystem} {pipeline : Pipeline} {src target : Path} {layout : Layout}

instance : Decidable (IsEmptyTarget fs pipeline src target) :=
  decidable_of_iff
    (Apart (fs.place src) (fs.place target) ∧
      (∀ node ∈ fs.root.get? (fs.place target), node.IsLeaf) ∧
      ∀ page ∈ pages fs src, ∀ p ∈ includePaths fs pipeline page,
        ∀ y ∈ passed (fs.origin p) p.segments, ¬ fs.place target <+: y)
    ⟨fun h => ⟨h.1, FileSystem.forall_not_has_append_iff.mpr h.2.1, h.2.2⟩,
      fun h => ⟨h.apart, FileSystem.forall_not_has_append_iff.mp h.empty, h.includes⟩⟩

instance : Decidable (IsClearTarget fs pipeline src target layout) :=
  decidable_of_iff
    (IsEmptyTarget fs pipeline src target ∧
      (∀ page ∈ pages fs src, ∀ p ∈ includePaths fs pipeline page,
        ∀ y ∈ passed (fs.origin p) p.segments,
          y ∈ entered (fs.origin target) target.segments → fs.Has y) ∧
      (∀ y ∈ entered (fs.origin target) target.segments, fs.place target <+: y →
        y = fs.place target) ∧
      ∀ found ∈ fs.allFiles src, kindAt found.names ≠ .other →
        FileSystem.IsUsable (layout.dest target found.names))
    ⟨fun h => ⟨h.1, h.2.1, h.2.2.1, h.2.2.2⟩,
      fun h => ⟨h.toIsEmptyTarget, h.missing, h.way, h.usable⟩⟩

theorem IsClearTarget.hasRoom (h : IsClearTarget fs pipeline src target layout) :
    HasRoom fs src target layout := ⟨h.empty, h.way, h.usable⟩

theorem IsClearTarget.readsApart (h : IsClearTarget fs pipeline src target layout)
    (hbook : IsBook fs src) : ReadsApart fs pipeline src target where
  ordered := hbook.ordered
  plain := hbook.plain
  apart := h.apart
  includes page hpage p hp y hy :=
    ⟨h.includes page hpage p hp y hy, h.missing page hpage p hp y hy⟩

/-! ## What the first page meets -/

/-- The way to a directory below the target leads to the target and then down. -/
theorem entered_below {names : List Text} (hplain : ∀ n ∈ names, IsPlain n)
    (hkinds : ∀ front ∈ names.inits, kindAt front = .other) {y : List Text}
    (hy : y ∈ entered (fs.origin (target.joinNames names)) (target.joinNames names).segments) :
    y ∈ entered (fs.origin target) target.segments ∨
      ∃ front, kindAt front = .other ∧ y = fs.place target ++ front := by
  rw [FileSystem.entered_joinNames hplain, List.mem_append] at hy
  refine hy.imp_right fun hbelow => ?_
  obtain ⟨front, -, hfront, rfl⟩ := (mem_entered_iff hplain).mp hbelow
  exact ⟨front, hkinds front ((List.mem_inits front names).mpr hfront), rfl⟩

theorem begins_flat {begun : FileSystem} (hwork : fs.IsDirAt fs.workDir)
    (hmade : fs.createDirAll target = (.ok (), begun)) : Begins fs target begun where
  changes := by
    have hchanges := fs.changes_createDirAll target
    rwa [hmade] at hchanges
  opens := FileSystem.opens_of_createDirAll hwork hmade
  dirs _ hy := (FileSystem.isDirAt_of_createDirAll hmade hy).imp_right .inl

/-- A site begins with the directory of its definition. -/
theorem begins_site {first begun : FileSystem} (hwork : fs.IsDirAt fs.workDir)
    (hfirst : fs.createDirAll ((docsDir target).join (.ofString ".vitepress")) = (.ok (), first))
    (hmade : first.createDirAll (docsDir target) = (.ok (), begun)) : Begins fs target begun := by
  have hdirs := fs.changes_createDirAll ((docsDir target).join (.ofString ".vitepress"))
  have hlast := first.changes_createDirAll (docsDir target)
  rw [hfirst] at hdirs
  rw [hmade] at hlast
  have hchanges := hdirs.trans hlast
  have hdocs : ∀ n ∈ ["docs".toList], IsPlain n := by decide
  have hdefinition : ∀ n ∈ ["docs".toList, ".vitepress".toList], IsPlain n := by decide
  refine ⟨hchanges, ?_, fun y hy => ?_⟩
  · have hopens := FileSystem.opens_of_createDirAll
      (hdirs.workDir.symm ▸ hdirs.dir _ hwork) hmade
    rw [← hlast.origin_eq] at hopens
    rw [← hchanges.origin_eq]
    exact ((FileSystem.opens_joinNames_iff hdocs).mp hopens).1
  · obtain hold | hnew := FileSystem.isDirAt_of_createDirAll hmade hy
    · refine (FileSystem.isDirAt_of_createDirAll hfirst hold).imp_right fun hnew => ?_
      exact entered_below hdefinition (by decide) hnew
    · rw [hdirs.origin_eq] at hnew
      exact .inr (entered_below hdocs (by decide) hnew)

/-! ## Both layouts -/

section Lays

variable {report : Report} {fs' : FileSystem} (hbook : IsBook fs src)
  (hsrc : fs.isDir src = true)

include hbook hsrc

/-- **Files only** are laid out flat. -/
theorem exists_lays_flat (h : IsClearTarget fs pipeline src target .flat)
    (hrun : (migrateFiles pipeline src target target).runOn fs = (.ok report, fs')) :
    ∃ begun met, Lays fs pipeline src target .flat begun met report ∧
      (Layout.flat.course pipeline src target begun met).copying.2 = fs' := by
  have hkeeps : KeepsApart fs ⟨src, target, target⟩ (fs.place target) :=
    ⟨hbook.ordered, hbook.plain, h.apart, List.prefix_rfl, List.prefix_rfl⟩
  obtain ⟨⟨pipeline, plan, begun, met⟩, rfl, rfl, hleads, hleft, hmade⟩ :=
    hkeeps.exists_course hsrc (.refl _ fs) hrun
  exact ⟨begun, met, ⟨h.readsApart hbook, hsrc, h.hasRoom, Layout.separates_flat fs src,
    begins_flat hbook.workDir hmade, hleads⟩, hleft⟩

/-- **The files of a site** are laid out below its directories. -/
theorem exists_lays_site (h : IsClearTarget fs pipeline src target .site)
    (hrun : (migrateSiteFiles pipeline src target).runOn fs = (.ok report, fs')) :
    ∃ begun met, Lays fs pipeline src target .site begun met report ∧
      (Layout.site.course pipeline src target begun met).copying.2 = fs' := by
  obtain ⟨_, first, hfirst, hrun⟩ := FileAction.runOn_bind_eq_ok.mp hrun
  have hcreated := FileAction.createDirAll_eq_ok hfirst
  have hdirs := FileAction.changes_createDirAll (.createTargetDir (docsDir target))
    ((docsDir target).join (.ofString ".vitepress")) fs
  rw [hfirst] at hdirs
  have hsetup : IsSetUp fs src target none :=
    ⟨hbook.ordered, hbook.plain, h.apart, fun dir hdir => by cases hdir⟩
  obtain ⟨⟨pipeline, plan, begun, met⟩, rfl, rfl, hleads, hleft, hmade⟩ :=
    hsetup.keepsApart.exists_course hsrc hdirs hrun
  exact ⟨begun, met, ⟨h.readsApart hbook, hsrc, h.hasRoom, Layout.separates_site hbook.noPublic,
    begins_site hbook.workDir hcreated hmade, hleads⟩, hleft⟩

end Lays

end Targets

/-! ## The same files -/

theorem within_flat (names : List Text) : Layout.flat.within names = names := by
  rw [Layout.within, Layout.front]
  split <;> rfl

/-- In a site all files of the book lie below `docs`. -/
theorem exists_within_site (names : List Text) :
    ∃ rest, Layout.site.within names = "docs".toList :: rest := by
  rw [Layout.within, Layout.front]
  split
  · exact ⟨"public".toList :: names, rfl⟩
  · exact ⟨names, rfl⟩

/-- At the place of the home page is the page of the book with that name. -/
theorem within_site_eq_homePage {names : List Text}
    (h : Layout.site.within names = ["docs".toList, "index.md".toList]) :
    names = ["index.md".toList] := by
  rw [Layout.within, Layout.front] at h
  split at h
  · exact absurd (List.cons.inj (List.cons.inj h).2).1 (by decide)
  · exact (List.cons.inj h).2

/-- **The same files in two targets**: the pages that fail are the same, the files of the first
target are in the site where its layout says, and the site has no others but its own. -/
structure SameFiles (fs : FileSystem) (flat site : Path) (files whole : Report)
    (fs₁ fs₂ : FileSystem) : Prop where
  failed : files.failed = whole.failed
  there : ∀ names content, fs₁.fileAt (fs.place flat ++ names) = some content →
    fs₂.fileAt (fs.place site ++ Layout.site.within names) = some content
  only : ∀ names content, fs₂.fileAt (fs.place site ++ names) = some content →
    names ∈ ownFiles whole.homePage ∨ ∃ below, names = Layout.site.within below ∧
      fs₁.fileAt (fs.place flat ++ below) = some content
  outside : ∀ y, (¬ fs.place flat <+: y → fs₁.fileAt y = fs.fileAt y) ∧
    (¬ fs.place site <+: y → fs₂.fileAt y = fs.fileAt y)

section HomePage

variable {fs begun fs' : FileSystem} {pipeline : Pipeline} {src target : Path}
  {met : List (List Text)} {report : Report} {names : List Text} {content : Content}

/-- **The directory of the pages** opens as long as it is there. -/
theorem Begins.opens_docsDir (h : Begins fs target begun) (hworkDir : fs'.workDir = begun.workDir)
    (hdirs : ∀ y, begun.IsDirAt y → fs'.IsDirAt y)
    (hdocs : fs'.IsDirAt (fs.place target ++ ["docs".toList])) :
    fs'.Opens (fs'.origin (docsDir target)) (docsDir target).segments := by
  have horigin : fs'.origin target = fs.origin target := by
    rw [FileSystem.origin, FileSystem.origin, hworkDir, h.changes.workDir]
  have hplain : ∀ n ∈ ["docs".toList], IsPlain n := by decide
  refine (FileSystem.opens_joinNames_iff hplain).mpr ⟨?_, fun front name hfront => ?_⟩
  · rw [horigin]
    exact ⟨hdirs _ h.opens.1, fun y hy => (h.opens.2 y hy).imp_left (hdirs y)⟩
  · obtain ⟨rfl, rfl⟩ : front = [] ∧ name = "docs".toList := by
      rcases front with _ | ⟨first, front⟩
      · exact ⟨rfl, (List.cons_prefix_cons.mp hfront).1⟩
      · have hlength := hfront.length_le
        simp at hlength
    refine ⟨?_, by decide⟩
    rwa [FileSystem.place, horigin]

variable (h : Lays fs pipeline src target .site begun met report)

include h

/-- The path of the home page can be used when the book has one. -/
theorem Lays.isUsable_homePage (hyields : Yields fs pipeline src ["index.md".toList] content) :
    FileSystem.IsUsable ((docsDir target).join homePagePath) := by
  have hjoin : (target.joinNames ["docs".toList]).join (.ofNames ["index.md".toList]) =
      target.join (.ofNames ["docs".toList, "index.md".toList]) :=
    Path.join_joinNames_ofNames target (by decide) (by decide) (by decide)
  exact hjoin.symm ▸ (h.fits hyields).usable

/-- **A home page of the book** is found at its place in the site. -/
theorem Lays.pathExists_homePage (hyields : Yields fs pipeline src ["index.md".toList] content)
    (hworkDir : fs'.workDir = begun.workDir) (hdirs : ∀ y, begun.IsDirAt y → fs'.IsDirAt y)
    (hthere : (fs'.fileAt (fs.place target ++ ["docs".toList, "index.md".toList])).isSome) :
    fs'.pathExists ((docsDir target).join homePagePath) = true := by
  have hplace : fs'.place target = fs.place target := by
    simp only [FileSystem.place, FileSystem.origin, hworkDir, h.begins.changes.workDir]
  have hhas : fs'.Has ((fs.place target ++ ["docs".toList]) ++ ["index.md".toList]) :=
    FileSystem.has_iff.mpr (.inl (by simpa using hthere))
  have hopens := h.begins.opens_docsDir hworkDir hdirs (FileSystem.isDirAt_of_has hhas (by simp))
  obtain ⟨held, hheld⟩ := Option.isSome_iff_exists.mp hthere
  have hnode : fs'.node ((docsDir target).join ⟨"index.md".toList⟩) = .ok (.file held) := by
    refine (FileSystem.node_join_eq_ok_iff (by decide)).mpr
      ⟨h.isUsable_homePage hyields, hopens, by decide, ?_⟩
    rw [place_docsDir, hplace, List.append_assoc]
    exact FileSystem.fileAt_eq_some_iff.mp hheld
  rw [FileSystem.pathExists]
  exact (congrArg Except.isOk hnode).trans rfl

/-- **The site's own files** lie beside those of the book, when no home page of the book is
overwritten. -/
theorem Lays.within_not_mem_ownFiles {fs₂ : FileSystem} {page : Site.HomePage} {homePage : Bool}
    (hown : FileSystem.Changes (fun y _ => ∃ names ∈ ownFiles false,
        y = (Layout.site.course pipeline src target begun met).copying.2.place target ++ names)
      (Layout.site.course pipeline src target begun met).copying.2 fs₂)
    (hhome : (writeHomePage (docsDir target) page false).runOn fs₂ = (.ok homePage, fs'))
    (hyields : Yields fs pipeline src names content) :
    Layout.site.within names ∉ ownFiles homePage := by
  intro hmem
  have hlaid := h.fileAt_iff.mpr ⟨names, hyields, rfl⟩
  have hkind := Layout.site.kindAt_within (h.names_plain hyields.isMet.file).2
  obtain ⟨rest, hrest⟩ := exists_within_site names
  rw [hrest] at hmem hkind hlaid
  obtain hother | ⟨rfl, rfl⟩ := kindAt_of_mem_ownFiles hmem []
  · exact hyields.kindAt_ne (hkind.symm.trans hother)
  · -- The page of the book is there, so the site's own is not written.
    obtain rfl := within_site_eq_homePage hrest
    have hdeposited := h.deposited
    have hexists := h.pathExists_homePage hyields (hown.workDir.trans hdeposited.workDir)
      (fun y hy => hown.dir y ((hdeposited.isDirAt_iff y).mpr (.inl hy)))
      (hown.isSome_fileAt (by rw [hlaid]; rfl))
    rw [not_pathExists_of_writeHomePage hhome] at hexists
    cases hexists

end HomePage

/-- **Files only and a whole site** hold the same. -/
theorem same_files_both_ways {settings : Settings} {source : Source} {flat site : Path}
    {files whole : Report} {fs fs₁ fs₂ : FileSystem}
    (hincluded : settings.includingFilesDir = none)
    (hoverwrite : settings.overwriteHomePage = false)
    (hsource : findSource settings fs = .ok source) (hbook : IsBook fs source.src)
    (hflat : IsClearTarget fs (.standard settings.includeMode) source.src flat .flat)
    (hsite : IsClearTarget fs (.standard settings.includeMode) source.src site .site)
    (hfiles : (migrate (settings.filesTo flat)).runOn fs = (.ok files, fs₁))
    (hwhole : (migrate (settings.siteTo site)).runOn fs = (.ok whole, fs₂)) :
    SameFiles fs flat site files whole fs₁ fs₂ := by
  have hsrc := isDir_of_findSource hsource
  have hsource₁ : findSource (settings.filesTo flat) fs = .ok source := hsource
  have hsource₂ : findSource (settings.siteTo site) fs = .ok source := hsource
  have hincluded₂ : (settings.siteTo site).includingFilesDir = none := hincluded
  have hconverted := runOn_migrate_filesOnly rfl rfl hsource₁ hfiles
  obtain ⟨begun₁, met₁, hlays₁, rfl⟩ := exists_lays_flat hbook hsrc hflat hconverted
  obtain ⟨laid, left, fs', homePage, hlaid, -, hfailed, -, hown, hhome⟩ :=
    exists_of_migrateSite hincluded₂ (runOn_migrate rfl rfl hsource₂ hwhole)
  obtain ⟨begun₂, met₂, hlays₂, rfl⟩ := exists_lays_site hbook hsrc hsite hlaid
  have hbelow := hlays₂.leadsTo.changes_copying hlays₂.keepsApart hlays₂.isDir
  have hlater := changes_ownFiles hown hhome
  rw [hbelow.place_eq] at hlater
  refine ⟨?_, fun names content hthere => ?_, fun names content hthere => ?_, fun y => ⟨?_, ?_⟩⟩
  · rw [hlays₁.failed_eq, hfailed, hlays₂.failed_eq]
  · obtain ⟨names, hyields, rfl⟩ := hlays₁.fileAt_iff.mp hthere
    have hlaid := hlays₂.fileAt_iff.mpr ⟨names, hyields, rfl⟩
    rw [within_flat, hlater.fileAt_eq, hlaid]
    rintro _ ⟨own, hmem, heq⟩
    obtain rfl := List.append_cancel_left heq
    exact hlays₂.within_not_mem_ownFiles hown (hoverwrite ▸ hhome) hyields hmem
  · obtain hsame | ⟨_, -, own, hmem, heq⟩ := hlater.file (fs.place site ++ names)
    · rw [hsame] at hthere
      obtain ⟨below, hyields, rfl⟩ := hlays₂.fileAt_iff.mp hthere
      exact .inr ⟨below, rfl, hlays₁.fileAt_iff.mpr ⟨below, hyields, (within_flat below).symm⟩⟩
    · exact .inl (List.append_cancel_left heq ▸ hmem)
  · exact hlays₁.fileAt_outside
  · intro hy
    rw [hlater.fileAt_eq, hlays₂.fileAt_outside hy]
    rintro _ ⟨own, -, rfl⟩
    exact hy (List.prefix_append _ _)

/-! ## A small book both ways -/

/-- Settings to migrate a book with its includes put in at once. -/
def inlineBook : Settings := { bookToSite with includeMode := .inline }

/-- A book with a page that includes a file, a page that is no text, and a file of each other
sort. -/
def sortedBook : FileSystem := filesOfBook
  [("src".toList, .directory
      [("a.md".toList, .file (.text "\x7b\x7b#include ../x.rs\x7d\x7d".toList)),
        ("b.md".toList, .file (.binary [255])), ("p.png".toList, .file (.binary [137])),
        ("t.txt".toList, .file (.text "t".toList))]),
    ("x.rs".toList, .file (.text "fn x".toList))]

/-- A book in that directory is one if its names are in order and plain. -/
theorem isBook_filesOfBook {entries : List (Text × Node)}
    (hordered : ∀ found ∈ (filesOfBook entries).root.nodes, found.2.HasOrder)
    (hplain : ∀ found ∈ (Node.directory entries).nodes, ∀ n ∈ found.1, IsPlain n)
    (hpublic : ((filesOfBook entries).root.get?
      ["work".toList, "book".toList, "src".toList, "public".toList]).isNone) :
    IsBook (filesOfBook entries) plainBook.src where
  ordered := Node.ordered_of_nodes hordered
  plain := by
    have hbelow : (filesOfBook entries).PlainBelow ["work".toList, "book".toList] :=
      FileSystem.plainBelow_of_nodes rfl hplain
    exact hbelow.of_prefix (List.prefix_append _ ["src".toList])
  workDir := ⟨_, rfl⟩
  noPublic hhas := by
    have hnone := Option.isNone_iff_eq_none.mp hpublic
    exact Bool.false_ne_true ((congrArg Option.isSome hnone).symm.trans hhas)

theorem isBook_sortedBook : IsBook sortedBook plainBook.src :=
  isBook_filesOfBook (by decide +kernel) (by decide +kernel) (by decide +kernel)

/-- The page with the include is in both targets, and the page that is no text fails in both. -/
theorem same_files_both_ways_sortedBook :
    ∃ files whole fs₁ fs₂, (migrate (inlineBook.filesTo (.ofString "flat"))).runOn sortedBook =
        (.ok files, fs₁) ∧
      (migrate (inlineBook.siteTo (.ofString "site"))).runOn sortedBook = (.ok whole, fs₂) ∧
      files.failed = [.ofString "book/src/b.md"] ∧
      fs₁.fileAt ["work".toList, "flat".toList, "a.md".toList] = some (.text "fn x".toList) ∧
      SameFiles sortedBook (.ofString "flat") (.ofString "site") files whole fs₁ fs₂ := by
  obtain ⟨files, hfiles, hfailed⟩ := exists_report_of_view (inlineBook.filesTo (.ofString "flat"))
    sortedBook Report.failed [.ofString "book/src/b.md"] (by decide +kernel)
  obtain ⟨whole, hwhole, -⟩ := exists_report_of_view (inlineBook.siteTo (.ofString "site"))
    sortedBook Report.failed [.ofString "book/src/b.md"] (by decide +kernel)
  refine ⟨files, whole, _, _, hfiles, hwhole, hfailed, by decide +kernel, ?_⟩
  have hsource : findSource inlineBook sortedBook = .ok plainBook := rfl
  have hflat : IsClearTarget sortedBook (.standard .inline) plainBook.src (.ofString "flat")
    .flat := by decide +kernel
  have hsite : IsClearTarget sortedBook (.standard .inline) plainBook.src (.ofString "site")
    .site := by decide +kernel
  exact same_files_both_ways rfl rfl hsource isBook_sortedBook hflat hsite hfiles hwhole

/-! ## Where the files differ -/

/-- **A book and two empty targets for which the files differ.** -/
structure DifferBetween (settings : Settings) (fs : FileSystem) (source : Source)
    (flat site : Path) : Prop where
  included : settings.includingFilesDir = none
  overwrite : settings.overwriteHomePage = false
  found : findSource settings fs = .ok source
  book : IsBook fs source.src
  emptyFlat : IsEmptyTarget fs (.standard settings.includeMode) source.src flat
  emptySite : IsEmptyTarget fs (.standard settings.includeMode) source.src site
  differ : ∃ files whole fs₁ fs₂, (migrate (settings.filesTo flat)).runOn fs = (.ok files, fs₁) ∧
    (migrate (settings.siteTo site)).runOn fs = (.ok whole, fs₂) ∧
    ¬ SameFiles fs flat site files whole fs₁ fs₂

/-- Files differ when other pages fail. -/
theorem differ_of_failed {settings : Settings} {fs : FileSystem} {flat site : Path}
    (failed failed' : List Path) (hne : failed ≠ failed')
    (hfiles : ((migrate (settings.filesTo flat)).runOn fs).1.toOption.map Report.failed =
      some failed)
    (hwhole : ((migrate (settings.siteTo site)).runOn fs).1.toOption.map Report.failed =
      some failed') :
    ∃ files whole fs₁ fs₂, (migrate (settings.filesTo flat)).runOn fs = (.ok files, fs₁) ∧
      (migrate (settings.siteTo site)).runOn fs = (.ok whole, fs₂) ∧
      ¬ SameFiles fs flat site files whole fs₁ fs₂ := by
  obtain ⟨files, hrun, hfailed⟩ := exists_report_of_view _ fs _ _ hfiles
  obtain ⟨whole, hrun', hfailed'⟩ := exists_report_of_view _ fs _ _ hwhole
  exact ⟨files, whole, _, _, hrun, hrun', fun hsame =>
    hne (hfailed.symm.trans (hsame.failed.trans hfailed'))⟩

/-- A book with a page that includes a file by a path through a directory that is not there. -/
def detourBook : FileSystem := filesOfBook
  [("src".toList, .directory
      [("a.md".toList, .file (.text "\x7b\x7b#include ../../new/../book/x.rs\x7d\x7d".toList))]),
    ("x.rs".toList, .file (.text "fn x".toList))]

/-- **A directory that is missing on the way** to one target only is created for that one: there the
file is included. -/
theorem differ_detourBook :
    DifferBetween inlineBook detourBook plainBook (.ofString "new/flat") (.ofString "site") where
  included := rfl
  overwrite := rfl
  found := rfl
  book := isBook_filesOfBook (by decide +kernel) (by decide +kernel) (by decide +kernel)
  emptyFlat := by decide +kernel
  emptySite := by decide +kernel
  differ := by
    obtain ⟨files, hfiles, -⟩ := exists_report_of_view
      (inlineBook.filesTo (.ofString "new/flat")) detourBook Report.failed [] (by decide +kernel)
    obtain ⟨whole, hwhole, -⟩ := exists_report_of_view
      (inlineBook.siteTo (.ofString "site")) detourBook Report.failed [] (by decide +kernel)
    refine ⟨files, whole, _, _, hfiles, hwhole, fun hsame => ?_⟩
    have hpage : ((migrate (inlineBook.filesTo (.ofString "new/flat"))).runOn detourBook).2.fileAt
        ["work".toList, "new".toList, "flat".toList, "a.md".toList] =
          some (.text "fn x".toList) := by decide +kernel
    have hother : ((migrate (inlineBook.siteTo (.ofString "site"))).runOn detourBook).2.fileAt
        ["work".toList, "site".toList, "docs".toList, "a.md".toList] ≠
          some (.text "fn x".toList) := by decide +kernel
    exact hother (hsame.there ["a.md".toList] _ hpage)

/-- A book with one page. -/
def onePage : FileSystem := filesOfBook
  [("src".toList, .directory [("a.md".toList, .file (.text "a".toList))])]

/-- **An empty target that has no place for the page** differs from the site, which has one. -/
theorem differ_onePage {target : Path}
    (hempty : IsEmptyTarget onePage (.standard bookToSite.includeMode) plainBook.src target)
    (hfailed : ((migrate (bookToSite.filesTo target)).runOn onePage).1.toOption.map Report.failed =
      some [.ofString "book/src/a.md"]) :
    DifferBetween bookToSite onePage plainBook target (.ofString "site") where
  included := rfl
  overwrite := rfl
  found := rfl
  book := isBook_filesOfBook (by decide +kernel) (by decide +kernel) (by decide +kernel)
  emptyFlat := hempty
  emptySite := by decide +kernel
  differ := differ_of_failed _ [] (List.cons_ne_nil _ _) hfailed (by decide +kernel)

/-- A path that can be used, below which there is room for three bytes. -/
def longPath : Path := ⟨"flat".toList ++ List.replicate 4088 '/'⟩

/-- **Empty targets are not enough** for the same files: one may have to be made on the way to a
file that is included, one may lead through itself, and one may leave too little room for a name. -/
theorem files_differ_between_empty_targets :
    DifferBetween inlineBook detourBook plainBook (.ofString "new/flat") (.ofString "site") ∧
      DifferBetween bookToSite onePage plainBook (.ofString "flat/a.md/..")
        (.ofString "site") ∧
      DifferBetween bookToSite onePage plainBook longPath (.ofString "site") := by
  refine ⟨differ_detourBook, differ_onePage (by decide +kernel) ?_,
    differ_onePage (by decide +kernel) ?_⟩
  · -- There is a directory where the page is to go.
    decide +kernel
  · -- The path of the page gets too long.
    decide +kernel

end Migration

end BookSite
