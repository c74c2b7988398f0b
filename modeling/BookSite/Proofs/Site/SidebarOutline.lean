import BookSite.Proofs.Migration.SiteFiles
import BookSite.Proofs.Outline.Print

/-!
# Proofs/Site/SidebarOutline — the sidebar shows the whole outline

The item of a chapter has the items of its children below it, so going through the sidebar is going
through the outline: nothing is left out and everything stays below what it was below.
-/

namespace BookSite.Site

open Branching

namespace SidebarItem

variable (base : Option Text)

theorem ofChapters_eq_map (cs : List Chapter) : ofChapters base cs = cs.map (ofChapter base) := by
  induction cs with
  | nil => rfl
  | cons c rest ih => rw [ofChapters, ih, List.map_cons]

/-- The items below the item of a chapter are the items of its children. -/
theorem children_ofChapter (c : Chapter) :
    Branching.children (ofChapter base c) = (Branching.children c).map (ofChapter base) := by
  obtain ⟨title, link, level, children⟩ := c
  exact ofChapters_eq_map base children

@[simp] theorem text_ofChapter (c : Chapter) : (ofChapter base c).text = c.title := by
  cases c; rfl

@[simp] theorem link_ofChapter (c : Chapter) :
    (ofChapter base c).link = siteLink base c.link := by
  cases c; rfl

/-- An item is shown open when there are items below it. -/
theorem collapsed_ofChapter (c : Chapter) :
    (ofChapter base c).collapsed = if (ofChapter base c).items = [] then none else some false := by
  obtain ⟨title, link, level, children⟩ := c
  cases children <;> rfl

end SidebarItem

/-! ## The sidebar of an outline -/

theorem sidebar_eq_map (base : Option Text) (outline : List Chapter) :
    sidebar base outline = outline.map (SidebarItem.ofChapter base) :=
  SidebarItem.ofChapters_eq_map base outline

/-- **The items of a sidebar** are those of the chapters, in the order of the outline. -/
theorem walk_sidebar (base : Option Text) (outline : List Chapter) :
    walk (sidebar base outline) = (walk outline).map (SidebarItem.ofChapter base) := by
  rw [sidebar_eq_map, walk_map (SidebarItem.children_ofChapter base)]

/-- **An item stands below the item of the parent** of its chapter. -/
theorem parents_sidebar (base : Option Text) (outline : List Chapter) :
    parents (sidebar base outline) = parents outline := by
  rw [sidebar_eq_map, parents_map (SidebarItem.children_ofChapter base)]

theorem countItems_eq_total (items : List SidebarItem) : countItems items = total items := by
  rw [countItems, flatMap_iter, length_walk]

/-- **As many items as entries.** -/
theorem countItems_sidebar_parse (base : Option Text) (t : Text) :
    countItems (sidebar base (Outline.parse t)) = (Outline.entries t).length := by
  rw [countItems_eq_total, sidebar_eq_map, total_map (SidebarItem.children_ofChapter base),
    ← Outline.length_entriesOf, Outline.entriesOf_parse]

end BookSite.Site

namespace BookSite.Migration

open Branching

/-- **The report counts the items** of the sidebar read after the pages have been converted. -/
theorem sidebarEntries_of_migrateSite {settings : Settings} {source : Source} {target : Path}
    {fs fs₁ fs' : FileSystem} {files report : Report}
    (hfiles : (migrateSiteFiles (.standard settings.includeMode) source.src target).runOn fs =
      (.ok files, fs₁))
    (h : (migrateSite settings source target).runOn fs = (.ok report, fs')) :
    report.sidebarEntries =
      Site.countItems (loadSidebar fs₁ source.src settings.basePath) := by
  obtain ⟨run⟩ := exists_siteRun h
  obtain ⟨-, rfl⟩ := Prod.mk.inj (hfiles.symm.trans run.book)
  exact (congrArg Report.sidebarEntries run.report_eq).trans rfl

/-- **From the outline to the sidebar nothing is lost.**  The items, one after another with all
below them, show the title and the site link of each entry; each stands below the item of its
parent; those with items below them are shown open, and only of those this is said; and there are as
many as entries, which is also what a migration reports. -/
theorem sidebar_shows_outline (t : Text) (base : Option Text) :
    let items := Site.sidebar base (Outline.parse t)
    let shown := items.flatMap Site.SidebarItem.preorder
    shown.map (fun item => (item.text, item.link)) =
        (Outline.entries t).map (fun e => (e.title, Site.siteLink base e.link)) ∧
      parents items = parents (Outline.parse t) ∧
      (∀ item ∈ shown, item.collapsed = if item.items = [] then none else some false) ∧
      Site.countItems items = (Outline.entries t).length ∧
      ∀ (settings : Settings) (source : Source) (target : Path) (fs fs₁ fs' : FileSystem)
        (files report : Report), settings.basePath = base →
        (migrateSiteFiles (.standard settings.includeMode) source.src target).runOn fs =
          (.ok files, fs₁) →
        fs₁.readText (source.src.join ⟨outlineName⟩) = .ok t →
        (migrateSite settings source target).runOn fs = (.ok report, fs') →
          report.sidebarEntries = (Outline.entries t).length := by
  intro items shown
  have hshown : shown = (walk (Outline.parse t)).map (Site.SidebarItem.ofChapter base) :=
    (flatMap_iter items).trans (Site.walk_sidebar base _)
  refine ⟨?_, Site.parents_sidebar base _, ?_, Site.countItems_sidebar_parse base t, ?_⟩
  · rw [hshown, ← Outline.entriesOf_parse, Outline.entriesOf, List.map_map, List.map_map]
    refine List.map_congr_left fun c _ => ?_
    simp [Outline.Entry.ofChapter]
  · intro item hitem
    rw [hshown] at hitem
    obtain ⟨c, -, rfl⟩ := List.mem_map.mp hitem
    exact Site.SidebarItem.collapsed_ofChapter base c
  · rintro settings source target fs fs₁ fs' files report rfl hfiles hread h
    rw [sidebarEntries_of_migrateSite hfiles h, loadSidebar, hread]
    exact Site.countItems_sidebar_parse _ t

/-- A directory with the small outline in its directory `src` and nothing else. -/
def smallBookFiles : FileSystem where
  root := .directory [("book".toList, .directory [("src".toList, .directory
    [("SUMMARY.md".toList, .file (.text Outline.smallOutline))])])]
  workDir := ["book".toList]

/-- The book in this directory. -/
def smallBook : Source where
  book := {}
  root := .ofString "."
  src := .ofString "src"

theorem sidebar_shows_smallOutline :
    ∃ files fs₁ report fs',
      (migrateSiteFiles (.standard .translate) smallBook.src (.ofString "out")).runOn
          smallBookFiles = (.ok files, fs₁) ∧
        fs₁.readText (smallBook.src.join ⟨outlineName⟩) = .ok Outline.smallOutline ∧
        (migrateSite {} smallBook (.ofString "out")).runOn smallBookFiles = (.ok report, fs') ∧
        report.sidebarEntries = (Outline.entries Outline.smallOutline).length := by
  have hread : ((migrateSiteFiles (.standard .translate) smallBook.src
      (.ofString "out")).runOn smallBookFiles).2.readText (smallBook.src.join ⟨outlineName⟩) =
        .ok Outline.smallOutline := by decide +kernel
  obtain ⟨files, hfiles⟩ : ∃ files, (migrateSiteFiles (.standard .translate) smallBook.src
      (.ofString "out")).runOn smallBookFiles = (.ok files, _) :=
    FileAction.exists_runOn_eq_ok (by decide +kernel)
  obtain ⟨report, h⟩ : ∃ report, (migrateSite {} smallBook (.ofString "out")).runOn
      smallBookFiles = (.ok report, _) :=
    FileAction.exists_runOn_eq_ok (by decide +kernel)
  have hshown := (sidebar_shows_outline Outline.smallOutline none).2.2.2.2
  exact ⟨files, _, report, _, hfiles, hread, h,
    hshown {} smallBook (.ofString "out") smallBookFiles _ _ files report rfl hfiles hread h⟩

end BookSite.Migration
