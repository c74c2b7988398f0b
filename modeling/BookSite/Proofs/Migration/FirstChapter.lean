import BookSite.Proofs.Migration.FreshTarget
import BookSite.Proofs.Site.ListedLinks

/-!
# Proofs/Migration/FirstChapter — one first chapter for the whole site

The sidebar shows the first chapter first, the navigation bar has an entry for it, and the button of
the home page leads to it.  All of them take the link from the sidebar, where it belongs to the first
line of the outline that holds an entry.
-/

namespace BookSite.Site

open Branching Outline

/-- A site link leads somewhere. -/
theorem siteLink_ne_nil (base : Option Text) (link : Text) : siteLink base link ≠ [] := by
  by_cases h : "://".toList <:+: link.trim
  · rw [siteLink, if_pos (Text.hasPart_iff.mpr h)]
    exact fun hnil => absurd (List.infix_nil.mp (hnil ▸ h)) (by decide)
  · rw [siteLink_of_internal base h]
    exact List.append_ne_nil_of_right_ne_nil _ (List.cons_ne_nil _ _)

/-- **The first link of a sidebar** is that of the first line that holds an entry. -/
theorem firstLink?_sidebar_parse (base : Option Text) (t : Text) :
    firstLink? (sidebar base (parse t)) =
      (t.lines.findSome? Entry.parse?).map fun e => siteLink base e.link := by
  have hlinks : (walk (sidebar base (parse t))).map SidebarItem.link =
      (entries t).map fun e => siteLink base e.link := by
    have hshown := congrArg (List.map Prod.snd) (shown_sidebar_parse base t)
    rwa [List.map_map, List.map_map] at hshown
  have hnonempty : ∀ link ∈ (entries t).map fun e => siteLink base e.link,
      (!link.isEmpty) = true := by
    refine List.forall_mem_map.mpr fun e _ => ?_
    simpa using siteLink_ne_nil base e.link
  rw [firstLink?, flatMap_iter, hlinks, ← List.head?_filter, List.filter_eq_self.mpr hnonempty,
    List.head?_map, entries, List.head?_filterMap]

/-- **The navigation bar** has an entry for the first link, if there is one. -/
theorem navigation_eq (base : Option Text) (items : List SidebarItem) :
    navigation base items =
      ⟨"Home".toList, normalBase base ++ ['/']⟩ ::
        ((firstLink? items).map (NavItem.mk "Guide".toList)).toList := by
  rw [navigation]
  cases firstLink? items <;> rfl

namespace HomePage

/-- The first of the actions, a button that leads to the first chapter. -/
def startButton (link : Text) : Text :=
  "  actions:\n    - theme: brand\n      text: Start reading\n      link: ".toList ++ link ++ ['\n']

/-- **A home page has the button** that leads to its first chapter. -/
theorem startButton_isInfix_render (page : HomePage) :
    startButton page.firstChapter <:+: page.render := by
  unfold render startButton
  refine ⟨"---\nlayout: home\n\nhero:\n".toList ++ quotedField "name" page.title ++
    quotedField "text" page.description ++ quotedField "tagline" page.tagline,
    repositoryButton page.repository ++ features, ?_⟩
  simp only [List.append_assoc]

end HomePage

end BookSite.Site

namespace BookSite.Migration

/-- **The first chapter is the same everywhere.**  The first link of the sidebar is that of the first
line that holds an entry.  The navigation bar leads home and to this link, or only home if there is
no such line.  A migration hands this sidebar and, if one is wanted, this navigation bar to the site,
and the button of the home page that it writes leads to the same link, or else to a default one.
After that only the included files are copied. -/
theorem first_chapter_agrees (t : Text) (base : Option Text) :
    let items := Site.sidebar base (Outline.parse t)
    let first := (t.lines.findSome? Outline.Entry.parse?).map fun e => Site.siteLink base e.link
    let bar := ⟨"Home".toList, Site.normalBase base ++ ['/']⟩ ::
      (first.map (Site.NavItem.mk "Guide".toList)).toList
    Site.firstLink? items = first ∧ Site.navigation base items = bar ∧
      ∀ (settings : Settings) (source : Source) (target : Path) (fs fs₁ fs' : FileSystem)
        (files report : Report), settings.basePath = base → settings.targetDir = some target →
        settings.filesOnly = false → findSource settings fs = .ok source →
        (migrateSiteFiles (.standard settings.includeMode) source.src target).runOn fs =
          (.ok files, fs₁) →
        fs₁.readText (source.src.join ⟨outlineName⟩) = .ok t →
        (migrate settings).runOn fs = (.ok report, fs') →
        ∃ (definition : Site.Definition) (page : Site.HomePage) (file : Path)
          (fs₂ fs₃ fs₄ : FileSystem),
          definition.sidebar = items ∧
          definition.nav = (if settings.generateNav then some bar else none) ∧
          (writeDefinition (docsDir target) definition).runOn fs₁ = (.ok file, fs₂) ∧
          page.firstChapter = first.getD "/README".toList ∧
          (writeHomePage (docsDir target) page settings.overwriteHomePage).runOn fs₃ =
            (.ok report.homePage, fs₄) ∧
          (report.homePage = true → ∃ content,
            fs₄.fileAt (fs₄.place ((docsDir target).join homePagePath)) = some (.text content) ∧
            Site.HomePage.startButton page.firstChapter <:+: content) ∧
          (copyIncludedOf settings source.root target).runOn fs₄ =
            (.ok report.includedFiles, fs') := by
  intro items first bar
  have hfirst : Site.firstLink? items = first := Site.firstLink?_sidebar_parse base t
  have hbar : Site.navigation base items = bar := by rw [Site.navigation_eq, hfirst]
  refine ⟨hfirst, hbar, ?_⟩
  rintro settings source target fs fs₁ fs' files report rfl htarget hsite hsource hfiles hread hrun
  obtain ⟨run⟩ := exists_siteRun (runOn_migrate htarget hsite hsource hrun)
  obtain ⟨-, rfl⟩ := Prod.mk.inj (hfiles.symm.trans run.book)
  have hsidebar : loadSidebar run.withBook source.src settings.basePath = items := by
    rw [loadSidebar, hread]
  have hdefinition := run.definition
  have hhome := run.homePage
  rw [hsidebar] at hdefinition hhome
  refine ⟨_, _, _, _, _, _, rfl, ?_, hdefinition, ?_, hhome, fun hwritten => ?_, run.included⟩
  · rw [← hbar]
    rfl
  · rw [← hfirst]
    rfl
  · rw [hwritten] at hhome
    exact ⟨_, fileAt_of_writeHomePage hhome, Site.HomePage.startButton_isInfix_render _⟩

/-- An outline whose first line is a heading. -/
def headedOutline : Text := "# Summary\n- [Start]( ./start.md )\n- [Next](next.md)".toList

/-- A book that has this outline and no pages yet. -/
def headedBook : FileSystem := filesOfBook
  [("src".toList, .directory [("SUMMARY.md".toList, .file (.text headedOutline))])]

/-- Settings to migrate it below a base path. -/
def belowZh : Settings := { bookToSite with basePath := some "zh/".toList }

theorem first_chapter_agrees_headedBook :
    ∃ report fs' content, findSource belowZh headedBook = .ok plainBook ∧
      (migrate belowZh).runOn headedBook = (.ok report, fs') ∧
      Site.firstLink? (Site.sidebar (some "zh/".toList) (Outline.parse headedOutline)) =
        some "/zh/start".toList ∧
      fs'.fileAt ["work".toList, "site".toList, "docs".toList, "index.md".toList] =
        some (.text content) ∧
      Site.HomePage.startButton "/zh/start".toList <:+: content := by
  have hsource : findSource belowZh headedBook = .ok plainBook := rfl
  obtain ⟨files, hfiles⟩ : ∃ files, (migrateSiteFiles (.standard belowZh.includeMode) plainBook.src
      (.ofString "site")).runOn headedBook = (.ok files, _) :=
    FileAction.exists_runOn_eq_ok (by decide +kernel)
  have hread : ((migrateSiteFiles (.standard belowZh.includeMode) plainBook.src
      (.ofString "site")).runOn headedBook).2.readText (plainBook.src.join ⟨outlineName⟩) =
        .ok headedOutline := by decide +kernel
  obtain ⟨report, hrun, hwritten⟩ := exists_report_of_view belowZh headedBook Report.homePage true
    (by decide +kernel)
  have hentry : headedOutline.lines.findSome? Outline.Entry.parse? =
      some ⟨"Start".toList, "./start.md".toList, 1⟩ := by decide +kernel
  obtain ⟨hfirst, -, hsite⟩ := first_chapter_agrees headedOutline (some "zh/".toList)
  rw [hentry, Option.map_some] at hfirst hsite
  obtain ⟨-, page, -, -, fs₃, fs₄, -, -, -, hpage, -, hthere, hincluded⟩ :=
    hsite belowZh plainBook (.ofString "site") headedBook _ _ files report rfl rfl rfl hsource
      hfiles hread hrun
  obtain ⟨content, hcontent, hbutton⟩ := hthere hwritten
  obtain rfl : fs₄ = _ := (Prod.mk.inj hincluded).2
  rw [hpage] at hbutton
  have hplace : ((migrate belowZh).runOn headedBook).2.place
      ((docsDir (.ofString "site")).join homePagePath) =
        ["work".toList, "site".toList, "docs".toList, "index.md".toList] := by decide +kernel
  rw [hplace] at hcontent
  exact ⟨report, _, content, hsource, hrun, hfirst, hcontent, hbutton⟩

end BookSite.Migration
