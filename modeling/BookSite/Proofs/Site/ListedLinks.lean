import BookSite.Proofs.Outline.EntryLines
import BookSite.Proofs.Site.SidebarOutline
import BookSite.Proofs.Site.SiteLinks

/-!
# Proofs/Site/ListedLinks — where the lines of an outline lead

    - [Draft]()     no chapter
    - [Draft]( )    a chapter that leads to the root of the site

A line that holds an entry has its item in the sidebar, at the place of the entry.  A chapter that is
not written yet has no target, and its line is passed over; but whether there is a target is told
before the blanks around it are trimmed off, so blanks alone are one (`no_draft_shown_iff`).
-/

namespace BookSite.Outline

open Branching

/-! ## Drafts -/

namespace EntryLine

variable (l : EntryLine)

/-- The line with nothing between the parentheses. -/
def withoutTarget : Text :=
  l.indentation ++ markingText l.marking ++ '[' :: (l.title ++ "]()".toList ++ l.ending)

/-- **A line without a target** holds no entry. -/
theorem parse?_withoutTarget : Entry.parse? l.withoutTarget = none := by
  have hbracket : ∀ t, Text.behind? ('[' :: t) ['['] = some t := fun _ => rfl
  have htitle : upTo? ']' (l.title ++ "]()".toList ++ l.ending) =
      some (l.title, '(' :: ')' :: l.ending) :=
    upTo?_eq_some_iff.mpr ⟨l.title_ne_nil, l.bracket_not_mem, by simp⟩
  have hparen : Text.behind? ('(' :: ')' :: l.ending) ['('] = some (')' :: l.ending) := rfl
  have htarget : upTo? ')' (')' :: l.ending) = none := rfl
  simp only [withoutTarget, Entry.parse?, l.takeWhile_indentation, l.dropWhile_indentation,
    behindMarkerBlanks?_append, hbracket, htitle, hparen, htarget, Option.bind_eq_bind,
    Option.bind_some, Option.bind_none]

/-- The line of a title and a target alone. -/
def plain (title target : Text) (title_ne_nil : title ≠ []) (bracket_not_mem : ']' ∉ title)
    (target_ne_nil : target ≠ []) (paren_not_mem : ')' ∉ target) : EntryLine where
  indentation := []
  marking := none
  title
  target
  ending := []
  space_or_tab := List.forall_mem_nil _
  title_ne_nil
  bracket_not_mem
  target_ne_nil
  paren_not_mem
  isBlank_of_mem_ending := List.forall_mem_nil _

/-- **A draft**: nothing but blanks stands between the parentheses. -/
def IsDraft : Prop := ∀ c ∈ l.target, isBlank c = true

theorem link_entry_eq_nil_iff : l.entry.link = [] ↔ l.IsDraft := Text.trim_eq_nil_iff

end EntryLine

/-- The entries of a text are those of its lines. -/
theorem mem_entries_iff {t : Text} {e : Entry} :
    e ∈ entries t ↔ ∃ l : EntryLine, l.text ∈ t.lines ∧ l.entry = e := by
  rw [entries, List.mem_filterMap]
  constructor
  · rintro ⟨line, hline, hparse⟩
    obtain ⟨l, rfl⟩ := exists_entryLine hparse
    exact ⟨l, hline, Option.some.inj (l.parse?_text.symm.trans hparse)⟩
  · rintro ⟨l, hline, rfl⟩
    exact ⟨l.text, hline, l.parse?_text⟩

/-- **A chapter without a link** is a draft. -/
theorem forall_link_ne_nil_iff (t : Text) :
    (∀ c ∈ walk (parse t), c.link ≠ []) ↔ ∀ l : EntryLine, l.text ∈ t.lines → ¬ l.IsDraft := by
  have hlinks : (∀ c ∈ walk (parse t), c.link ≠ []) ↔ ∀ e ∈ entries t, e.link ≠ [] := by
    rw [← entriesOf_parse, entriesOf, List.forall_mem_map]
    rfl
  simp only [hlinks, mem_entries_iff, forall_exists_index, and_imp]
  constructor
  · exact fun h l hline hdraft => h _ l hline rfl (l.link_entry_eq_nil_iff.mpr hdraft)
  · rintro h _ l hline rfl hnil
    exact h l hline (l.link_entry_eq_nil_iff.mp hnil)

end BookSite.Outline

namespace BookSite.Site

open Branching Outline

/-! ## The item of a line -/

/-- The items of the sidebar show the entries of the text, in their order. -/
theorem shown_sidebar_parse (base : Option Text) (t : Text) :
    (walk (sidebar base (parse t))).map (fun item : SidebarItem => (item.text, item.link)) =
      (entries t).map fun e => (e.title, siteLink base e.link) := by
  rw [walk_sidebar, ← entriesOf_parse, entriesOf, List.map_map, List.map_map]
  refine List.map_congr_left fun c _ => ?_
  simp [Entry.ofChapter]

/-- **The item of a line** shows its title and leads where its target says. -/
theorem exists_item_of_line (base : Option Text) {t : Text} {l : EntryLine}
    (h : l.text ∈ t.lines) :
    ∃ (i : Nat) (item : SidebarItem), (entries t)[i]? = some l.entry ∧
      (walk (sidebar base (parse t)))[i]? = some item ∧ item.text = l.title ∧
      item.link = siteLink base l.target := by
  obtain ⟨i, hi⟩ := List.mem_iff_getElem?.mp (mem_entries_iff.mpr ⟨l, h, rfl⟩)
  have hshown := congrArg (·[i]?) (shown_sidebar_parse base t)
  simp only [List.getElem?_map, hi, Option.map_some, Option.map_eq_some_iff, Prod.mk.injEq]
    at hshown
  obtain ⟨item, hitem, htext, hlink⟩ := hshown
  exact ⟨i, item, hi, hitem, htext, hlink.trans (siteLink_trim base l.target)⟩

/-- A draft leads to the root of the site, below the base path. -/
theorem siteLink_of_isDraft (base : Option Text) {l : EntryLine} (h : l.IsDraft) :
    siteLink base l.target = normalBase base ++ ['/'] := by
  have hnil : l.target.trim = [] := l.link_entry_eq_nil_iff.mpr h
  rw [← siteLink_trim, hnil]
  rfl

/-- **When no draft is shown.**  A line with nothing between its parentheses is no entry.  All
chapters have a link just when no line has only blanks there; each of these that there is has an item
that leads to the root of the site. -/
theorem no_draft_shown_iff (t : Text) (base : Option Text) :
    let items := (sidebar base (parse t)).flatMap SidebarItem.preorder
    (∀ l : EntryLine, Entry.parse? l.withoutTarget = none) ∧
      ((∀ c ∈ (parse t).flatMap Chapter.preorder, c.link ≠ []) ↔
        ∀ l : EntryLine, l.text ∈ t.lines → ¬ l.IsDraft) ∧
      ∀ l : EntryLine, l.text ∈ t.lines → l.IsDraft →
        ∃ (i : Nat) (item : SidebarItem), (entries t)[i]? = some l.entry ∧
          items[i]? = some item ∧ item.text = l.title ∧ item.link = normalBase base ++ ['/'] := by
  intro items
  refine ⟨EntryLine.parse?_withoutTarget, ?_, fun l hline hdraft => ?_⟩
  · rw [flatMap_iter]
    exact forall_link_ne_nil_iff t
  · obtain ⟨i, item, hentry, hitem, htext, hlink⟩ := exists_item_of_line base hline
    refine ⟨i, item, hentry, ?_, htext, hlink.trans (siteLink_of_isDraft base hdraft)⟩
    rwa [show items = walk _ from flatMap_iter _]

/-- A chapter with two drafts below it, of which only the first one has a blank for a target. -/
def draftOutline : Text := "- [Guide](guide.md)\n  - [Draft]( )\n  - [Later]()".toList

/-- The line of the first draft. -/
def blankDraft : EntryLine where
  indentation := [' ', ' ']
  marking := some
    ⟨['-'], [' '], .bullet (by decide), by decide, List.forall_mem_singleton.mpr (by decide)⟩
  title := "Draft".toList
  target := [' ']
  ending := []
  space_or_tab := by simp
  title_ne_nil := by decide
  bracket_not_mem := by decide
  target_ne_nil := by decide
  paren_not_mem := by decide
  isBlank_of_mem_ending := List.forall_mem_nil _

theorem no_draft_shown_iff_draftOutline :
    blankDraft.text ∈ draftOutline.lines ∧ blankDraft.IsDraft ∧
      ∃ (i : Nat) (item : SidebarItem), (entries draftOutline)[i]? = some blankDraft.entry ∧
        ((sidebar (some "zh".toList) (parse draftOutline)).flatMap SidebarItem.preorder)[i]? =
          some item ∧ item.text = "Draft".toList ∧ item.link = "/zh/".toList := by
  have hline : blankDraft.text ∈ draftOutline.lines := by decide +kernel
  have hdraft : blankDraft.IsDraft := List.forall_mem_singleton.mpr (by decide)
  exact ⟨hline, hdraft,
    (no_draft_shown_iff draftOutline (some "zh".toList)).2.2 blankDraft hline hdraft⟩

/-- **A draft that is shown**: a blank for a target makes a chapter without a link, and its item
leads to the root of the site. -/
theorem draft_shown_blankTarget :
    ∃ c ∈ (parse "[Draft]( )".toList).flatMap Chapter.preorder, c.link = [] ∧
      ∃ item ∈ (sidebar none (parse "[Draft]( )".toList)).flatMap SidebarItem.preorder,
        item.text = c.title ∧ item.link = "/".toList := by
  have hentries : entries "[Draft]( )".toList = [⟨"Draft".toList, [], 1⟩] := by decide +kernel
  have hparse : parse "[Draft]( )".toList = [.node "Draft".toList [] 1 []] := by
    rw [parse, hentries]
    rfl
  rw [hparse, flatMap_iter, flatMap_iter, walk_sidebar, walk_cons]
  exact ⟨_, List.mem_cons_self, rfl, _, List.mem_cons_self, rfl, rfl⟩

end BookSite.Site
