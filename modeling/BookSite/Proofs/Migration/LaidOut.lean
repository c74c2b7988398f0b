import BookSite.Proofs.Migration.Layout

/-!
# Proofs/Migration/LaidOut — a book that is laid out

Converting and copying lays a book out (`Lays`): as every file fits and no two are in each other's
way, what is below the target at the end is what the book yields, where the layout says
(`Lays.fileAt_iff`), and the pages that fail are those that cannot be converted (`Lays.failed_eq`).
-/

namespace BookSite.Migration

/-- The course of converting and copying into a layout. -/
def Layout.course (layout : Layout) (pipeline : Pipeline) (src target : Path) (begun : FileSystem)
    (met : List (List Text)) : Course := ⟨pipeline, layout.plan src target, begun, met⟩

/-- **A book that is laid out** at a target with room for it: the pages are converted beginning with
some files, and then the other files are copied. -/
structure Lays (fs : FileSystem) (pipeline : Pipeline) (src target : Path) (layout : Layout)
    (begun : FileSystem) (met : List (List Text)) (report : Report) : Prop where
  reads : ReadsApart fs pipeline src target
  isDir : fs.isDir src = true
  room : HasRoom fs src target layout
  separates : layout.Separates fs src
  begins : Begins fs target begun
  leadsTo : (layout.course pipeline src target begun met).LeadsTo fs report

/-- What the pages are converted to. -/
def Layout.pagesPut (layout : Layout) (pipeline : Pipeline) (src target : Path)
    (begun : FileSystem) : List (Path × Content) :=
  conversions pipeline (target.joinNames layout.pages) begun (Migration.pages begun src)

/-- What the other files are copied to. -/
def Layout.copiesPut (layout : Layout) (fs : FileSystem) (src target : Path)
    (met : List (List Text)) : List (Path × Content) :=
  met.filterMap (copyOf? (layout.plan src target) fs)

/-- What can be read is a file. -/
theorem isFile_of_convertedPage {fs : FileSystem} {pipeline : Pipeline} {page : Path} {t : Text}
    (h : convertedPage pipeline page fs = .ok t) : fs.isFile page = true := by
  rw [convertedPage] at h
  rcases hread : fs.readText page with e | text
  · rw [hread] at h
    cases h
  · obtain ⟨node, hnode, hread⟩ := bind_eq_ok.mp hread
    rcases node with content | entries
    · rw [FileSystem.isFile, hnode]
    · cases hread

section Lays

variable {fs begun : FileSystem} {pipeline : Pipeline} {src target : Path} {layout : Layout}
  {met : List (List Text)} {report : Report}
  (h : Lays fs pipeline src target layout begun met report)

include h

namespace Lays

theorem keepsApart : KeepsApart fs (layout.plan src target) (fs.place target) where
  ordered := h.reads.ordered
  plain := h.reads.plain
  apart := h.reads.apart
  assets := (fs.place_joinNames target layout.plain_assets).symm ▸ List.prefix_append _ _
  documents := (fs.place_joinNames target layout.plain_pages).symm ▸ List.prefix_append _ _

theorem names_plain {names : List Text} (hfile : (fs.fileAt (fs.place src ++ names)).isSome) :
    (∀ n ∈ names, IsPlain n) ∧ names ≠ [] :=
  h.keepsApart.names_plain h.isDir hfile

theorem pages_eq : pages begun src = pages fs src := by
  have hfiles : begun.allFiles src = fs.allFiles src :=
    h.begins.changes.allFiles_eq h.reads.ordered h.isDir fun _ _ hno => hno
  rw [pages, pages, markdownFiles, markdownFiles, hfiles]

theorem mem_pages_iff {page : FileSystem.Found} :
    page ∈ pages fs src ↔ page.path = src.joinNames page.names ∧
      fs.fileAt (fs.place src ++ page.names) = some page.content ∧
      kindAt page.names = .markdown ∧ page.names ≠ [outlineName] := by
  rw [Migration.mem_pages_iff h.reads.ordered h.isDir]
  refine and_congr_right fun hpath => and_congr_right fun hfile => and_congr_left fun _ => ?_
  obtain ⟨hplain, hne⟩ := h.names_plain (by rw [hfile]; rfl)
  rw [← Layout.kindOf_eq (layout.plan src target) hplain hne, CopyPlan.kindOf, hpath]
  rfl

/-- **What the first page meets** keeps the book apart from the place of the pages. -/
theorem readsApart_begun :
    ReadsApart begun pipeline src (target.joinNames layout.pages) where
  ordered := h.begins.changes.ordered h.reads.ordered
  plain := by
    rw [h.begins.changes.place_eq]
    exact h.reads.plain.later h.begins.changes
  apart := by
    rw [begun.place_joinNames target layout.plain_pages, h.begins.changes.place_eq,
      h.begins.changes.place_eq]
    exact h.reads.apart.below _
  includes page hpage p hp y hy := by
    rw [h.pages_eq] at hpage
    rw [h.reads.includePaths_eq h.isDir h.begins.sameBeside hpage] at hp
    rw [h.begins.changes.origin_eq] at hy
    obtain ⟨hbelow, hway⟩ := h.reads.includes page hpage p hp y hy
    rw [begun.place_joinNames target layout.plain_pages, FileSystem.entered_joinNames layout.plain_pages,
      h.begins.changes.place_eq, h.begins.changes.origin_eq]
    refine ⟨fun hpages => hbelow ((List.prefix_append _ _).trans hpages), fun hentered => ?_⟩
    rcases List.mem_append.mp hentered with hentered | hentered
    · exact h.begins.changes.has (hway hentered)
    · obtain ⟨front, -, -, rfl⟩ := (mem_entered_iff layout.plain_pages).mp hentered
      exact absurd (List.prefix_append _ _) hbelow

/-- Before the first page each page is converted to the same. -/
theorem convertedPage_eq {page : FileSystem.Found} (hpage : page ∈ pages fs src) :
    convertedPage pipeline page.path begun = convertedPage pipeline page.path fs :=
  h.reads.convertedPage_eq h.isDir h.begins.sameBeside hpage

/-! ## Every file fits -/

/-- **What the book yields fits.** -/
theorem fits {names : List Text} {content : Content}
    (hyields : Yields fs pipeline src names content) : begun.Fits (layout.dest target names) := by
  obtain ⟨hfile, hfound⟩ := hyields.isMet
  obtain ⟨hplain, hne⟩ := h.names_plain hfile
  obtain ⟨-, hshort, -⟩ := (FileSystem.isFile_joinNames_iff hplain h.isDir).mp hfound
  obtain ⟨held, hheld⟩ := Option.isSome_iff_exists.mp hfile
  refine h.begins.fits h.room (layout.plain_within hplain)
    (by rw [layout.kindAt_within hne]; exact hyields.kindAt_ne) (layout.short_within hshort) ?_
  exact h.room.usable ⟨src.joinNames names, names, held⟩
    ((FileSystem.mem_allFiles_iff h.reads.ordered h.isDir).mpr ⟨rfl, hheld⟩) hyields.kindAt_ne

/-- **Different files** are put independently of each other. -/
theorem independent {names names' : List Text}
    (hfile : (fs.fileAt (fs.place src ++ names)).isSome)
    (hfile' : (fs.fileAt (fs.place src ++ names')).isSome) (hne : names ≠ names') :
    Independent begun (layout.dest target names) (layout.dest target names') :=
  independent_join (layout.plain_within (h.names_plain hfile).1)
    (layout.plain_within (h.names_plain hfile').1) (h.separates names names' hfile hfile' hne)

/-! ## What is put -/

theorem mem_pagesPut_iff {file : Path × Content} :
    file ∈ layout.pagesPut pipeline src target begun ↔ ∃ names content, kindAt names = .markdown ∧
      Yields fs pipeline src names content ∧ file = (layout.dest target names, content) := by
  rw [Layout.pagesPut, conversions, h.pages_eq, List.mem_filterMap]
  constructor
  · rintro ⟨page, hpage, hput⟩
    obtain ⟨hpath, hfile, hkind, hname⟩ := h.mem_pages_iff.mp hpage
    obtain ⟨hplain, hne⟩ := h.names_plain (by rw [hfile]; rfl)
    rw [conversion?, h.convertedPage_eq hpage, hpath] at hput
    rcases hconverted : convertedPage pipeline (src.joinNames page.names) fs with e | t
    · rw [hconverted] at hput
      cases hput
    · rw [hconverted] at hput
      cases hput
      have hmet : IsMet fs src page.names :=
        ⟨by rw [hfile]; rfl, isFile_of_convertedPage hconverted⟩
      exact ⟨page.names, .text t, hkind, .page hkind hname hmet hconverted,
        by rw [layout.pageDest_eq hplain hne hkind]⟩
  · rintro ⟨names, content, hkind, hyields, rfl⟩
    cases hyields with
    | copy hcopied => rw [hkind] at hcopied; simp at hcopied
    | page _ hname hmet hconverted =>
      obtain ⟨held, hheld⟩ := Option.isSome_iff_exists.mp hmet.file
      obtain ⟨hplain, hne⟩ := h.names_plain hmet.file
      have hpage : ⟨src.joinNames names, names, held⟩ ∈ pages fs src :=
        h.mem_pages_iff.mpr ⟨rfl, hheld, hkind, hname⟩
      refine ⟨_, hpage, ?_⟩
      have hdest : pageDest (target.joinNames layout.pages) ⟨src.joinNames names, names, held⟩ =
          layout.dest target names := layout.pageDest_eq hplain hne hkind
      rw [conversion?, h.convertedPage_eq hpage, hconverted, hdest]

theorem mem_copiesPut_iff {file : Path × Content} :
    file ∈ layout.copiesPut fs src target met ↔
      ∃ names content, (kindAt names = .asset ∨ kindAt names = .document) ∧
        Yields fs pipeline src names content ∧ file = (layout.dest target names, content) := by
  have hkindOf : ∀ names, IsMet fs src names →
      (layout.plan src target).kindOf names = kindAt names := fun names hmet =>
    Layout.kindOf_eq _ (h.names_plain hmet.file).1 (h.names_plain hmet.file).2
  rw [Layout.copiesPut, List.mem_filterMap]
  constructor
  · rintro ⟨names, hmem, hput⟩
    have hmet := (h.leadsTo.mem_met names).mp hmem
    obtain ⟨hplain, hne⟩ := h.names_plain hmet.file
    obtain ⟨dir, content, hdir, hfile, rfl⟩ := copyOf?_eq_some_iff.mp hput
    rw [hkindOf names hmet] at hdir
    have hkind : kindAt names = .asset ∨ kindAt names = .document := by
      rcases hkind : kindAt names <;> rw [hkind] at hdir <;> simp [CopyPlan.dirFor?] at hdir ⊢
    exact ⟨names, content, hkind, .copy hkind hmet hfile,
      by rw [layout.dest_eq_of_dirFor? hplain hne hdir]⟩
  · rintro ⟨names, content, hkind, hyields, rfl⟩
    cases hyields with
    | page hpage => rw [hpage] at hkind; simp at hkind
    | copy _ hmet hfile =>
      obtain ⟨hplain, hne⟩ := h.names_plain hmet.file
      obtain ⟨dir, hdir⟩ : ∃ dir, (layout.plan src target).dirFor? (kindAt names) = some dir := by
        rcases hkind with hkind | hkind <;> rw [hkind] <;> exact ⟨_, rfl⟩
      refine ⟨names, (h.leadsTo.mem_met names).mpr hmet, copyOf?_eq_some_iff.mpr ⟨dir, content, ?_,
        hfile, ?_⟩⟩
      · rw [hkindOf names hmet, hdir]
      · rw [layout.dest_eq_of_dirFor? hplain hne hdir]

theorem mem_put_iff {file : Path × Content} :
    file ∈ layout.pagesPut pipeline src target begun ++ layout.copiesPut fs src target met ↔
      ∃ names content, Yields fs pipeline src names content ∧
        file = (layout.dest target names, content) := by
  rw [List.mem_append, h.mem_pagesPut_iff, h.mem_copiesPut_iff]
  constructor
  · rintro (⟨names, content, -, hyields, rfl⟩ | ⟨names, content, -, hyields, rfl⟩) <;>
      exact ⟨names, content, hyields, rfl⟩
  · rintro ⟨names, content, hyields, rfl⟩
    rcases hkind : kindAt names
    · exact .inl ⟨names, content, hkind, hyields, rfl⟩
    · exact .inr ⟨names, content, .inl hkind, hyields, rfl⟩
    · exact .inr ⟨names, content, .inr hkind, hyields, rfl⟩
    · exact absurd hkind hyields.kindAt_ne

/-- The pages one after another. -/
theorem convertEach :
    Deposited begun (layout.pagesPut pipeline src target begun)
        (layout.course pipeline src target begun met).conversion.2 ∧
      (layout.course pipeline src target begun met).conversion.1.map PageOutcome.shown =
        (pages begun src).map fun page =>
          (convertPageBelow pipeline (target.joinNames layout.pages) page begun).1.shown := by
  have hnodup : (pages begun src).Nodup := (nodup_pages h.readsApart_begun.ordered).of_map
  exact h.readsApart_begun.convertEach_first (h.begins.changes.isDir h.isDir) (fun _ => id) hnodup

/-- **What is put** is what the pages are converted to and the other files are copied to. -/
theorem deposited :
    Deposited begun (layout.pagesPut pipeline src target begun ++ layout.copiesPut fs src target met)
      (layout.course pipeline src target begun met).copying.2 := by
  refine h.keepsApart.deposited_copyEach h.isDir (fun names hmem => ?_)
    (h.leadsTo.changes_conversion h.keepsApart h.isDir) h.convertEach.1
    (fun file hfile copy hcopy => ?_) ?_
  · have hmet := (h.leadsTo.mem_met names).mp hmem
    exact ⟨hmet, (h.names_plain hmet.file).2⟩
  · obtain ⟨names, content, hkind, hyields, rfl⟩ := h.mem_pagesPut_iff.mp hfile
    obtain ⟨names', content', hkind', hyields', rfl⟩ := h.mem_copiesPut_iff.mp hcopy
    refine h.independent hyields.isMet.file hyields'.isMet.file ?_
    rintro rfl
    rw [hkind] at hkind'
    simp at hkind'
  · have hdistinct : met.Pairwise fun names names' =>
        IsMet fs src names ∧ IsMet fs src names' ∧ names ≠ names' :=
      h.leadsTo.nodup.imp_of_mem fun hmem hmem' hne =>
        ⟨(h.leadsTo.mem_met _).mp hmem, (h.leadsTo.mem_met _).mp hmem', hne⟩
    refine hdistinct.filterMap _ ?_
    rintro names names' ⟨hmet, hmet', hne⟩ copy hcopy copy' hcopy'
    have hdest : ∀ names copy, IsMet fs src names →
        copyOf? (layout.plan src target) fs names = some copy →
          copy.1 = layout.dest target names := fun names copy hmet hcopy => by
      obtain ⟨hplain, hne⟩ := h.names_plain hmet.file
      obtain ⟨dir, content, hdir, -, rfl⟩ := copyOf?_eq_some_iff.mp hcopy
      rw [Layout.kindOf_eq _ hplain hne] at hdir
      exact layout.dest_eq_of_dirFor? hplain hne hdir
    rw [hdest names copy hmet hcopy, hdest names' copy' hmet' hcopy']
    exact h.independent hmet.file hmet'.file hne

/-! ## What is there at the end -/

/-- **Below the target** is what the book yields, where the layout says. -/
theorem fileAt_iff {below : List Text} {content : Content} :
    (layout.course pipeline src target begun met).copying.2.fileAt (fs.place target ++ below) =
        some content ↔
      ∃ names, Yields fs pipeline src names content ∧ below = layout.within names := by
  have hplace : ∀ names, IsMet fs src names →
      begun.place (layout.dest target names) = fs.place target ++ layout.within names :=
    fun names hmet => by
      rw [layout.place_dest begun target (h.names_plain hmet.file).1, h.begins.changes.place_eq]
  constructor
  · intro hthere
    by_contra hno
    have hempty : begun.fileAt (fs.place target ++ below) = none := by
      by_cases hnil : below = []
      · obtain ⟨_, -, hentries⟩ := FileSystem.exists_dirAlong h.begins.opens
        rw [hnil, List.append_nil]
        exact FileSystem.IsDirAt.fileAt_eq_none ⟨_, hentries⟩
      · rw [h.begins.changes.fileAt_eq fun _ hno => hno]
        by_contra hsome
        exact h.room.empty below hnil
          (FileSystem.has_iff.mpr (.inl (Option.isSome_iff_ne_none.mpr hsome)))
    rw [h.deposited.kept, hempty] at hthere
    · cases hthere
    · intro file hfile hfits heq
      have hwritten := h.deposited.written file hfile hfits
      obtain ⟨names, held, hyields, rfl⟩ := h.mem_put_iff.mp hfile
      rw [← heq, hthere] at hwritten
      cases hwritten
      rw [hplace names hyields.isMet] at heq
      exact hno ⟨names, hyields, List.append_cancel_left heq⟩
  · rintro ⟨names, hyields, rfl⟩
    have hwritten := h.deposited.written _ (h.mem_put_iff.mpr ⟨names, content, hyields, rfl⟩)
      (h.fits hyields)
    rwa [hplace names hyields.isMet] at hwritten

/-- **Outside of the target** nothing changes. -/
theorem fileAt_outside {y : List Text} (hy : ¬ fs.place target <+: y) :
    (layout.course pipeline src target begun met).copying.2.fileAt y = fs.fileAt y :=
  (h.leadsTo.changes_copying h.keepsApart h.isDir).fileAt_eq fun _ hbelow => hy hbelow

/-- **The pages that fail** are those that cannot be converted. -/
theorem failed_eq : report.failed = unconverted fs pipeline src := by
  have hpages := congrArg ConversionReport.failed h.leadsTo.pages
  rw [ofOutcomes_eq, h.convertEach.2, h.pages_eq] at hpages
  dsimp only at hpages
  rw [← hpages, unconverted, List.filterMap_map]
  refine List.filterMap_congr fun page hpage => ?_
  have halone := h.readsApart_begun.convertPageBelow_first (h.begins.changes.isDir h.isDir)
    (h.pages_eq ▸ hpage)
  rw [h.convertedPage_eq hpage] at halone
  obtain ⟨hpath, hfile, hkind, hname⟩ := h.mem_pages_iff.mp hpage
  obtain ⟨hplain, hne⟩ := h.names_plain (by rw [hfile]; rfl)
  rw [layout.pageDest_eq hplain hne hkind] at halone
  rw [Function.comp_apply, PageOutcome.shown]
  rcases hconverted : convertedPage pipeline page.path fs with e | t
  · rcases hresult : (convertPageBelow pipeline (target.joinNames layout.pages) page begun).1.result
      with e' | dest
    · rfl
    · obtain ⟨-, ⟨t, ht⟩, -⟩ := (halone dest).mp hresult
      rw [hconverted] at ht
      cases ht
  · have hyields : Yields fs pipeline src page.names (.text t) :=
      .page hkind hname ⟨by rw [hfile]; rfl, isFile_of_convertedPage (hpath ▸ hconverted)⟩
        (hpath ▸ hconverted)
    rw [(halone _).mpr ⟨rfl, ⟨t, hconverted⟩, h.fits hyields⟩]
    rfl

end Lays

end Lays

end BookSite.Migration
