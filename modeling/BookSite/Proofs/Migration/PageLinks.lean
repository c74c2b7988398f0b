import BookSite.Proofs.Files.Extension
import BookSite.Proofs.Files.Steps
import BookSite.Proofs.Migration.FreshTarget
import BookSite.Proofs.Migration.Turns
import BookSite.Proofs.Site.ListedLinks
import BookSite.Proofs.Text.Words

/-!
# Proofs/Migration/PageLinks — whether links of the sidebar lead to pages

    guide/intro.md    written to  guide/intro.md    listed as  /guide/intro
    guide/INTRO.MD    written to  guide/INTRO.MD    listed as  /guide/INTRO.MD

What is a page is told by the extension, in any letter case.  From a link `.md` is taken off in
small letters only, so the pages with capital letters there are those whose links lead nowhere
(`page_links_lead_to_pages`).
-/

namespace BookSite

namespace Path

section Names

variable {names : List Text} (hplain : ∀ n ∈ names, IsPlain n) (hne : names ≠ [])

include hplain hne

/-- **Around a slash of a path** there are names on both sides. -/
theorem isPlain_around_slash {s t : Text} (h : (ofNames names).text = s ++ '/' :: t) :
    ∀ segment ∈ segments ⟨s⟩ ++ segments ⟨t⟩, IsPlain segment := by
  have hnames : segments ⟨s⟩ ++ segments ⟨t⟩ = names := by
    rw [← segments_append_slash, ← h]
    exact segments_ofNames hplain hne
  rwa [hnames]

/-- No slash stands behind another one. -/
theorem not_isInfix_text_ofNames : ¬ "//".toList <:+: (ofNames names).text := by
  rintro ⟨s, t, hst⟩
  have htext : (ofNames names).text = s ++ '/' :: '/' :: t := by
    rw [← hst, List.append_assoc]
    rfl
  have hnil := isPlain_around_slash hplain hne htext []
    (by rw [segments_cons_slash]; exact List.mem_append_right _ List.mem_cons_self)
  exact hnil.ne_nil rfl

end Names

end Path

namespace Site

section Names

variable {names : List Text} (hplain : ∀ n ∈ names, IsPlain n) (hne : names ≠ [])

include hplain hne

/-- Nothing stands in front of the first name of a path. -/
theorem unrooted_ofNames : unrooted (Path.ofNames names).text = (Path.ofNames names).text := by
  have hlead : (Path.ofNames names).text.dropLeading ['.', '/'] = (Path.ofNames names).text := by
    rw [Text.dropLeading]
    cases h : Text.behind? (Path.ofNames names).text ['.', '/'] with
    | none => rfl
    | some rest =>
      have htext := Text.behind?_eq_some_iff.mp h
      have hhere := Path.isPlain_around_slash hplain hne (s := ['.']) htext ['.']
        (List.mem_append_left _ (by decide))
      exact absurd rfl hhere.ne_here
  rw [unrooted, hlead]
  refine Text.dropWhile_eq_self fun c hc => ?_
  obtain ⟨rest, hrest⟩ := List.head?_eq_some_iff.mp hc
  rw [isSlash, beq_eq_false_iff_ne]
  rintro rfl
  have hnil := Path.isPlain_around_slash hplain hne (s := []) hrest []
    (List.mem_append_left _ (by decide))
  exact absurd rfl hnil.ne_nil

/-- **The link of a path** without a fragment is the path below the root of the site, without `.md`
at its end. -/
theorem siteLink_ofNames (htrim : (Path.ofNames names).text.trim = (Path.ofNames names).text)
    (hhash : '#' ∉ (Path.ofNames names).text) :
    siteLink none (Path.ofNames names).text = '/' :: dropExtension (Path.ofNames names).text := by
  have hinternal : ¬ "://".toList <:+: (Path.ofNames names).text := fun hpart =>
    Path.not_isInfix_text_ofNames hplain hne ((List.suffix_cons ':' "//".toList).isInfix.trans hpart)
  have hfragment : (Path.ofNames names).text.dropWhile (· != '#') = [] :=
    List.dropWhile_eq_nil_iff.mpr fun c hc => bne_iff_ne.mpr (ne_of_mem_of_not_mem hc hhash)
  rw [siteLink_of_internal none (by rwa [htrim]), htrim, unrooted_ofNames hplain hne,
    stripExtension_eq, Text.takeWhile_bne hhash, hfragment, List.append_nil]
  rfl

end Names

/-- **From the path of a page** `.md` is taken off in small letters. -/
theorem dropExtension_of_page {stem extension : Text} (h : extension.toLower = "md".toList) :
    dropExtension (stem ++ '.' :: extension) =
      if extension = "md".toList then stem else stem ++ '.' :: extension := by
  have hlength : extension.length = 2 := by
    have := congrArg List.length h
    rwa [Text.toLower, List.length_map] at this
  rw [dropExtension]
  split
  · rename_i hsmall
    have hfront : (stem ++ '.' :: extension).dropTrailing? ".md".toList = some stem :=
      Text.dropTrailing?_eq_some_iff.mpr (by rw [hsmall]; rfl)
    rw [hfront, Option.getD_some]
  · rename_i hcapital
    cases hfront : (stem ++ '.' :: extension).dropTrailing? ".md".toList with
    | none => rfl
    | some front =>
      have htail := (List.append_inj' (Text.dropTrailing?_eq_some_iff.mp hfront)
        (by rw [List.length_cons, hlength]; rfl)).2
      exact absurd (List.cons.inj htail).2 hcapital

end Site

namespace Migration

section Page

variable {fs : FileSystem} {src : Path} {page : FileSystem.Found}
  (hordered : fs.root.Ordered) (hplain : fs.PlainBelow (fs.place src))
  (hsrc : fs.isDir src = true) (hpage : page ∈ pages fs src)

include hordered hplain hsrc hpage

/-- **The path of a page** ends with the extension of pages. -/
theorem exists_extension_of_mem_pages :
    (∀ n ∈ page.names, IsPlain n) ∧ page.names ≠ [] ∧ ∃ (stem extension : Text),
      (Path.ofNames page.names).text = stem ++ '.' :: extension ∧
      page.path.extension? = some extension ∧ extension.toLower = "md".toList := by
  obtain ⟨hpath, hfile, hkind, -⟩ := (mem_pages_iff hordered hsrc).mp hpage
  obtain ⟨hnames, hne⟩ := hplain.names_plain hsrc (by rw [hfile]; rfl)
  obtain ⟨extension, hextension, hlower⟩ := FileKind.classify_eq_markdown_iff.mp hkind
  obtain ⟨stem, -, hname, -⟩ := Path.extension?_eq_some_iff.mp hextension
  obtain ⟨front, last, hconcat⟩ := (List.eq_nil_or_concat page.names).resolve_left hne
  rw [List.concat_eq_append] at hconcat
  have hlast := Path.fileName?_joinNames src front (hnames last (by simp [hconcat]))
  rw [← hconcat, ← hpath, hname, Option.some.injEq] at hlast
  obtain ⟨above, habove⟩ := Text.isSuffix_joinWith_concat ['/'] front last
  refine ⟨hnames, hne, above ++ stem, extension, ?_, hextension, hlower⟩
  rw [Path.ofNames, hconcat, ← habove, ← hlast, List.append_assoc]

/-- **Which links lead to pages.**  A page is written at its own path below the directory of the
converted pages, whichever files it meets at its turn.  Listed by this path, without a fragment and
without blanks around it, it has an item whose link is the path without the extension just when the
extension is in small letters; otherwise the link keeps the extension. -/
theorem page_links_lead_to_pages
    (hhash : '#' ∉ (Path.ofNames page.names).text)
    (htrim : (Path.ofNames page.names).text.trim = (Path.ofNames page.names).text) :
    ∃ (stem extension : Text), (Path.ofNames page.names).text = stem ++ '.' :: extension ∧
      page.path.extension? = some extension ∧ extension.toLower = "md".toList ∧
      (∀ (pipeline : Pipeline) (out dest : Path) (fs₁ : FileSystem),
        (convertPageBelow pipeline out page fs₁).1.result = .ok dest →
          dest = out.join (.ofNames page.names) ∧
          ∃ converted, convertedPage pipeline page.path fs₁ = .ok converted ∧
            (convertPageBelow pipeline out page fs₁).2.fileAt (fs₁.place dest) =
              some (.text converted)) ∧
      ∀ (t : Text) (l : Outline.EntryLine), l.text ∈ t.lines →
        l.target = (Path.ofNames page.names).text →
        ∃ (i : Nat) (item : Site.SidebarItem), (Outline.entries t)[i]? = some l.entry ∧
          ((Site.sidebar none (Outline.parse t)).flatMap Site.SidebarItem.preorder)[i]? =
            some item ∧
          item.text = l.title ∧
          (item.link = '/' :: stem ↔ extension = "md".toList) ∧
          (extension ≠ "md".toList → item.link = '/' :: (Path.ofNames page.names).text) := by
  obtain ⟨hnames, hne, stem, extension, htext, hextension, hlower⟩ :=
    exists_extension_of_mem_pages hordered hplain hsrc hpage
  have hlink : Site.siteLink none (Path.ofNames page.names).text =
      '/' :: if extension = "md".toList then stem else stem ++ '.' :: extension := by
    rw [Site.siteLink_ofNames hnames hne htrim hhash, htext, Site.dropExtension_of_page hlower]
  refine ⟨stem, extension, htext, hextension, hlower, fun pipeline out dest fs₁ hok => ?_,
    fun t l hline htarget => ?_⟩
  · obtain ⟨rfl, hwritten⟩ := result_convertPageBelow_eq_ok_iff.mp hok
    exact ⟨rfl, fileAt_of_convertPageTo (Prod.ext hwritten rfl)⟩
  · obtain ⟨i, item, hentry, hitem, htitle, hshown⟩ := Site.exists_item_of_line none hline
    rw [htarget, hlink] at hshown
    rw [← Branching.flatMap_iter] at hitem
    refine ⟨i, item, hentry, hitem, htitle, ?_, fun hcapital => ?_⟩
    · rw [hshown, List.cons_inj_right, ite_eq_left_iff]
      exact ⟨fun h => by_contra fun hcapital => by simpa using h hcapital,
        fun hsmall hcapital => absurd hsmall hcapital⟩
    · rw [hshown, if_neg hcapital, htext]

end Page

/-! ## Small and capital letters -/

/-- A book with a page in small letters and one with capital letters. -/
def twoSpellings : FileSystem := filesOfBook
  [("src".toList, .directory
    [("a.MD".toList, .file (.text "# A".toList)), ("b.md".toList, .file (.text "# B".toList))])]

/-- One of its pages. -/
def pageNamed (name content : Text) : FileSystem.Found :=
  ⟨plainBook.src.joinNames [name], [name], .text content⟩

/-- The line of the page in small letters. -/
def smallLetters : Outline.EntryLine :=
  .plain "B".toList "b.md".toList (by decide) (by decide) (by decide) (by decide)

theorem page_links_lead_to_pages_smallLetters :
    pageNamed "b.md".toList "# B".toList ∈ pages twoSpellings plainBook.src ∧
      (∃ converted, (convertPageBelow (.standard .translate) (.ofString "out")
        (pageNamed "b.md".toList "# B".toList) twoSpellings).2.fileAt
          ["work".toList, "out".toList, "b.md".toList] = some (.text converted)) ∧
      ∃ (i : Nat) (item : Site.SidebarItem),
        ((Site.sidebar none (Outline.parse "[A](a.MD)\n[B](b.md)".toList)).flatMap
          Site.SidebarItem.preorder)[i]? = some item ∧
        item.text = "B".toList ∧ item.link = "/b".toList := by
  have hfresh : IsFresh twoSpellings plainBook.src (.ofString "site") none :=
    isFresh_filesOfBook (by decide +kernel) (by decide +kernel) fun _ h => by cases h
  have hpage : pageNamed "b.md".toList "# B".toList ∈ pages twoSpellings plainBook.src := by
    decide +kernel
  have hline : smallLetters.text ∈ Text.lines "[A](a.MD)\n[B](b.md)".toList := by decide +kernel
  have hresult : (convertPageBelow (.standard .translate) (.ofString "out")
      (pageNamed "b.md".toList "# B".toList) twoSpellings).1.result =
        .ok (.ofString "out/b.md") := by
    obtain ⟨⟨⟩, hrun⟩ : ∃ done, (convertPageTo (.standard .translate)
        (plainBook.src.joinNames ["b.md".toList]) (.ofString "out/b.md")).runOn twoSpellings =
          (.ok done, _) := FileAction.exists_runOn_eq_ok (by decide +kernel)
    exact result_convertPageBelow_eq_ok_iff.mpr ⟨by decide, congrArg Prod.fst hrun⟩
  obtain ⟨stem, extension, htext, hextension, -, hwritten, hlisted⟩ :=
    page_links_lead_to_pages hfresh.ordered hfresh.plain (by decide +kernel) hpage (by decide)
      (by decide)
  obtain rfl : "md".toList = extension := Option.some.inj (Eq.trans (by decide +kernel) hextension)
  obtain rfl : "b".toList = stem := List.append_cancel_right (htext : "b".toList ++ _ = _)
  obtain ⟨-, converted, -, hthere⟩ := hwritten _ _ _ _ hresult
  obtain ⟨i, item, -, hitem, htitle, hlink, -⟩ := hlisted _ smallLetters hline rfl
  exact ⟨hpage, ⟨converted, hthere⟩, i, item, hitem, htitle, hlink.mpr rfl⟩

/-- **A page whose link leads nowhere**: its extension is in capital letters, and the link keeps
it. -/
theorem page_link_keeps_extension :
    pageNamed "a.MD".toList "# A".toList ∈ pages twoSpellings plainBook.src ∧
      '#' ∉ (Path.ofNames ["a.MD".toList]).text ∧
      (Path.ofNames ["a.MD".toList]).text.trim = (Path.ofNames ["a.MD".toList]).text ∧
      (Path.ofNames ["a.MD".toList]).text = "a".toList ++ ".MD".toList ∧
      ∃ item ∈ (Site.sidebar none (Outline.parse "[A](a.MD)".toList)).flatMap
          Site.SidebarItem.preorder, item.text = "A".toList ∧ item.link = "/a.MD".toList ∧
        item.link ≠ "/a".toList := by
  have hpage : pageNamed "a.MD".toList "# A".toList ∈ pages twoSpellings plainBook.src := by
    decide +kernel
  have hentries : Outline.entries "[A](a.MD)".toList = [⟨"A".toList, "a.MD".toList, 1⟩] := by
    decide +kernel
  have hparse : Outline.parse "[A](a.MD)".toList = [.node "A".toList "a.MD".toList 1 []] := by
    rw [Outline.parse, hentries]
    rfl
  rw [hparse, Branching.flatMap_iter, Site.walk_sidebar, Branching.walk_cons]
  exact ⟨hpage, by decide, by decide, rfl, _, List.mem_cons_self, rfl, by decide, by decide⟩

end Migration

end BookSite
