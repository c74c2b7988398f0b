import BookSite.Proofs.Migration.FirstChapter
import BookSite.Proofs.Outline.EntryLines
import BookSite.Proofs.Site.HomePageLines

/-!
# Proofs/Migration/FrontMatter — the front matter of a migrated book

The home page of a book keeps its structure exactly when the address of the repository and the link
of the first chapter are written on one line (`front_matter_is_kept_iff`).  An outline is read line
by line, so it never brings a line feed into the link.
-/

namespace BookSite.Site

open Text

namespace HomePage

/-! ## The whole page -/

/-- The values that are written in double quotes, with the names in front of them. -/
def quotedValues (page : HomePage) : List (String × Text) :=
  [("name", page.title), ("text", page.description), ("tagline", page.tagline)]

/-- **The structure of the front matter is kept**, whatever the values of the page are. -/
structure KeepsFrontMatter (page : HomePage) : Prop where
  /-- the lines are those of the template with the values filled in -/
  lines : page.render.segments = page.filledLines ++ [[]]
  /-- the lines of the repository are there exactly when there is one -/
  repository : page.repositoryLines <:+: page.render.segments ↔ page.repositoryUrl ≠ []
  /-- the first and the last line are the only ones of three dashes -/
  ends : ∃ inner, page.render.segments = dashes :: inner ++ [dashes, []] ∧ dashes ∉ inner
  /-- each value in double quotes is read back, and nothing stands behind it on its line -/
  values : ∀ name value, (name, value) ∈ page.quotedValues →
    ∃ quoted, ("  " ++ name ++ ": \"").toList ++ quoted ∈ page.render.segments ∧
      readQuoted? quoted = some (value.map foldNewline, [])

theorem quotedLine_mem_filledLines (page : HomePage) {name : String} {value : Text}
    (h : (name, value) ∈ page.quotedValues) : quotedLine name value ∈ page.filledLines := by
  have hupper : quotedLine name value ∈ page.upperLines := by
    simp only [quotedValues, List.mem_cons, Prod.mk.injEq, List.not_mem_nil, or_false] at h
    obtain ⟨rfl, rfl⟩ | ⟨rfl, rfl⟩ | ⟨rfl, rfl⟩ := h <;> simp [upperLines]
  rw [filledLines_eq, innerLines]
  simp [hupper]

/-- **A page keeps its structure** exactly when the links are written on one line. -/
theorem keepsFrontMatter_iff (page : HomePage) :
    page.KeepsFrontMatter ↔ '\n' ∉ page.firstChapter ∧ '\n' ∉ page.repositoryUrl := by
  refine ⟨fun h => page.segments_render_eq_iff.mp h.lines, fun h => ?_⟩
  have hlines := page.segments_render_eq_iff.mpr h
  refine ⟨hlines, ?_, ⟨page.innerLines, ?_, page.dashes_not_mem_innerLines⟩,
    fun name value hvalue => ⟨value.flatMap escapeChar ++ ['"'], ?_, readQuoted?_escape value []⟩⟩
  · rw [hlines, isInfix_repositoryLines_iff]
  · rw [hlines, filledLines_eq]
    simp
  · rw [hlines]
    exact List.mem_append_left _ (page.quotedLine_mem_filledLines hvalue)

end HomePage

/-! ## Links of an outline -/

theorem newline_not_mem_of_mem_lines {t line : Text} (h : line ∈ t.lines) : '\n' ∉ line := by
  rw [Text.lines, List.mem_append, List.mem_map] at h
  obtain ⟨terminated, hmem, rfl⟩ | hlast := h
  · have hline := newline_not_mem_of_mem_segments (List.dropLast_subset _ hmem)
    unfold dropReturn
    cases hreturn : terminated.dropTrailing? ['\r'] with
    | none => exact hline
    | some start =>
      rw [eq_append_of_dropTrailing? hreturn, List.mem_append, not_or] at hline
      exact hline.1
  · exact newline_not_mem_of_mem_segments
      (List.mem_of_getLast? (Option.mem_toList.mp (List.mem_filter.mp hlast).1))

/-- **A site link** holds what the base path and the link hold. -/
theorem mem_of_mem_siteLink {base : Option Text} {link : Text} {c : Char}
    (h : c ∈ siteLink base link) : c ∈ normalBase base ∨ c = '/' ∨ c ∈ link := by
  have htrim : ∀ d ∈ link.trim, d ∈ link := fun d hd => (trim_isInfix link).mem hd
  by_cases hexternal : "://".toList <:+: link.trim
  · rw [siteLink, if_pos (hasPart_iff.mpr hexternal)] at h
    exact .inr (.inr (htrim c h))
  · have hpage : ∀ d ∈ unrooted link.trim, d ∈ link := fun d hd =>
      htrim d (dropLeading_subset _ _ ((List.dropWhile_suffix _).mem hd))
    rw [siteLink_of_internal base hexternal, stripExtension_eq, List.mem_append, List.mem_cons,
      List.mem_append] at h
    obtain h | h | h | h := h
    · exact .inl h
    · exact .inr (.inl h)
    · exact .inr (.inr (hpage c ((List.takeWhile_prefix _).mem ((dropExtension_isPrefix _).mem h))))
    · exact .inr (.inr (hpage c ((List.dropWhile_suffix _).mem h)))

/-- **No outline brings a line feed** into the link of the first chapter. -/
theorem newline_mem_normalBase {base : Option Text} {outline link : Text}
    (hlink : firstLink? (sidebar base (Outline.parse outline)) = some link) (h : '\n' ∈ link) :
    '\n' ∈ normalBase base := by
  rw [firstLink?_sidebar_parse, Option.map_eq_some_iff] at hlink
  obtain ⟨e, hentry, rfl⟩ := hlink
  obtain ⟨line, hline, hparse⟩ := List.exists_of_findSome?_eq_some hentry
  obtain ⟨l, rfl⟩ := Outline.exists_entryLine hparse
  obtain rfl : l.entry = e := Option.some.inj (l.parse?_text.symm.trans hparse)
  have hnewline := newline_not_mem_of_mem_lines hline
  obtain hbase | hslash | htarget := mem_of_mem_siteLink h
  · exact hbase
  · cases hslash
  · refine absurd ((trim_isInfix l.target).mem htarget) fun hmem => hnewline ?_
    simp [Outline.EntryLine.text, Outline.EntryLine.link, hmem]

end BookSite.Site

namespace BookSite.Migration

open Site

/-- **The home page of a book keeps its structure** exactly when the address of the repository and
the link of the first chapter are written on one line: whatever the title and the description hold,
and whichever outline the link is taken from, for only the base path can bring a line feed into the
link. -/
theorem front_matter_is_kept_iff (book : Book) (base : Option Text) (outline : Text) :
    let page := siteHomePage book (sidebar base (Outline.parse outline))
    (page.KeepsFrontMatter ↔
      '\n' ∉ page.firstChapter ∧ ∀ url, book.repository? = some url → '\n' ∉ url) ∧
      ('\n' ∈ page.firstChapter → '\n' ∈ normalBase base) := by
  intro page
  have hurl : '\n' ∉ page.repositoryUrl ↔ ∀ url, book.repository? = some url → '\n' ∉ url := by
    rw [HomePage.repositoryUrl, show page.repository = book.repository? from rfl]
    cases book.repository? <;> simp
  have hchapter : page.firstChapter = (firstLink? (sidebar base (Outline.parse outline))).getD
      HomePage.defaultFirstChapter := rfl
  refine ⟨by rw [page.keepsFrontMatter_iff, hurl], fun h => ?_⟩
  rw [hchapter] at h
  cases hlink : firstLink? (sidebar base (Outline.parse outline)) with
  | some link =>
    rw [hlink] at h
    exact newline_mem_normalBase hlink h
  | none =>
    rw [hlink] at h
    exact absurd h (by decide)

/-- A description of a book whose repository has an address on two lines. -/
def twoLineAddress : Text :=
  "[output.html]\ngit-repository-url = \"https://example.org/\\n---\"".toList

/-- The home page of a book with one page. -/
def pageOf (book : Book) : HomePage :=
  siteHomePage book (sidebar none (Outline.parse "[Start](start.md)".toList))

/-- **A home page that is cut off**: the second line of the address ends the front matter. -/
theorem front_matter_is_cut_off :
    ∃ book, Book.parse? twoLineAddress = some book ∧
      (pageOf book).repository = some "https://example.org/\n---".toList ∧
      (pageOf book).render.segments[14]? = some HomePage.dashes ∧
      ¬ (pageOf book).KeepsFrontMatter := by
  have hview : (Book.parse? twoLineAddress).map (fun book =>
      ((pageOf book).repository, (pageOf book).render.segments[14]?)) =
        some (some "https://example.org/\n---".toList, some HomePage.dashes) := by decide +kernel
  obtain ⟨book, hbook, hpage⟩ := Option.map_eq_some_iff.mp hview
  obtain ⟨haddress, hdashes⟩ := Prod.mk.inj hpage
  refine ⟨book, hbook, haddress, hdashes, fun hkept => ?_⟩
  have hnewline := ((pageOf book).keepsFrontMatter_iff.mp hkept).2
  rw [HomePage.repositoryUrl, haddress] at hnewline
  exact hnewline (by decide)

end BookSite.Migration
