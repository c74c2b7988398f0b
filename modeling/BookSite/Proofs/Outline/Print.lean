import BookSite.Proofs.Outline.OpenChapters
import BookSite.Proofs.Text.Lines
import BookSite.Proofs.Text.Scanning
import Mathlib.Data.List.Basic

/-!
# Proofs/Outline/Print — outlines written down and read again

    - [Guide](guide/index.md)
      - [Install](guide/install.md)

The entry of a chapter is written on a line of its own: two columns of indentation for every level
but the first, a bullet and a link.  Reading such lines gives back the entries, and entries of a
nested forest give back the forest.
-/

namespace BookSite.Outline

open Branching

/-! ## One line -/

/-- **The line of an entry.** -/
def Entry.print (e : Entry) : Text :=
  List.replicate (2 * (e.level - 1)) ' ' ++
    "- [".toList ++ e.title ++ "](".toList ++ e.link ++ ")".toList

/-- An entry that a line can hold: neither of its texts is empty, leaves the line or ends the
brackets it is written in, and no blanks surround the link. -/
structure Entry.Printable (e : Entry) : Prop where
  title_ne_nil : e.title ≠ []
  bracket_not_mem : ']' ∉ e.title
  newline_not_mem_title : '\n' ∉ e.title
  link_ne_nil : e.link ≠ []
  paren_not_mem : ')' ∉ e.link
  newline_not_mem_link : '\n' ∉ e.link
  trim_link : e.link.trim = e.link

/-- The text up to a stop that it does not hold. -/
theorem upTo?_append {stop : Char} {inner : Text} (hne : inner ≠ []) (h : stop ∉ inner)
    (rest : Text) : upTo? stop (inner ++ stop :: rest) = some (inner, rest) := by
  obtain ⟨c, cs, rfl⟩ := List.exists_cons_of_ne_nil hne
  rw [upTo?, Text.takeWhile_bne_append h, Text.dropWhile_bne_append h]

theorem columns_replicate_space (n : Nat) : columns (List.replicate n ' ') = n := by
  induction n with
  | zero => rfl
  | succ n ih =>
    rw [List.replicate_succ, columns, ih, if_neg (by decide)]
    omega

theorem levelOf_replicate_space (n : Nat) :
    levelOf (List.replicate (2 * n) ' ') = n + 1 := by
  rw [levelOf, columns_replicate_space]
  omega

/-- **A written entry is read again.** -/
theorem Entry.parse?_print {e : Entry} (h : e.Printable) (hlevel : 0 < e.level) :
    Entry.parse? e.print = some e := by
  let indentation := List.replicate (2 * (e.level - 1)) ' '
  let link := '[' :: (e.title ++ ']' :: '(' :: (e.link ++ [')']))
  have hline : e.print = indentation ++ '-' :: ' ' :: link := by
    simp [Entry.print, indentation, link]
  have hspaces : ∀ c ∈ indentation, isIndentation c = true :=
    List.forall_mem_replicate.mpr (.inr rfl)
  have htake : e.print.takeWhile isIndentation = indentation := by
    rw [hline, List.takeWhile_append_of_pos hspaces]
    simp [isIndentation]
  have hdrop : e.print.dropWhile isIndentation = '-' :: ' ' :: link := by
    rw [hline, List.dropWhile_append_of_pos hspaces]
    simp [isIndentation]
  have hmarker : behindMarkerBlanks? ('-' :: ' ' :: link) = some link := rfl
  have htitle := upTo?_append h.title_ne_nil h.bracket_not_mem ('(' :: (e.link ++ [')']))
  have hlink := upTo?_append h.link_ne_nil h.paren_not_mem []
  have hcolumns : levelOf indentation = e.level := by
    rw [levelOf_replicate_space]
    omega
  have hbracket : Text.behind? link ['['] = some (e.title ++ ']' :: '(' :: (e.link ++ [')'])) :=
    rfl
  have hparen : Text.behind? ('(' :: (e.link ++ [')'])) ['('] = some (e.link ++ [')']) := rfl
  simp only [Entry.parse?, htake, hdrop, hmarker, hbracket, htitle, hparen, hlink, hcolumns,
    h.trim_link, Option.bind_eq_bind, Option.bind_some]
  rfl

theorem Entry.isFileLine_print {e : Entry} (h : e.Printable) : Text.IsFileLine e.print where
  ne_nil := by simp [Entry.print]
  newline_not_mem := by simp [Entry.print, h.newline_not_mem_title, h.newline_not_mem_link]
  getLast?_ne := by
    rw [Entry.print, show ")".toList = [')'] from rfl, List.getLast?_concat]
    decide

/-! ## The whole text -/

/-- **The lines of a forest**: one for each chapter, in the order of a walk. -/
def printedLines (cs : List Chapter) : List Text := (entriesOf cs).map Entry.print

section Printed

variable {cs : List Chapter} (hcs : ∀ e ∈ entriesOf cs, e.Printable)

include hcs

theorem isFileLine_printedLines : ∀ line ∈ printedLines cs, Text.IsFileLine line := by
  intro line hline
  obtain ⟨e, he, rfl⟩ := List.mem_map.mp hline
  exact Entry.isFileLine_print (hcs e he)

/-- A text whose lines are those of a nested forest is read as this forest. -/
theorem parse_of_lines_eq_printedLines (hnested : Nested 0 cs) {t : Text}
    (ht : t.lines = printedLines cs) : parse t = cs := by
  have hentries : entries t = entriesOf cs := by
    have hread : ∀ e ∈ entriesOf cs, Entry.parse? e.print = some e := fun e he =>
      Entry.parse?_print (hcs e he) (hnested.lt_level e he)
    rw [entries, ht, printedLines, List.filterMap_map]
    exact (List.filterMap_congr hread).trans List.filterMap_some
  refine (nested_parse t).eq_of_entriesOf_eq hnested ?_
  rw [entriesOf_parse, hentries]

end Printed

/-- **Reading undoes printing**, for all nested forests with printable entries; and these are the
only ones, for whatever is read is nested. -/
theorem parse_printedLines :
    (∀ cs, Nested 0 cs → (∀ c ∈ cs.flatMap Chapter.preorder, (Entry.ofChapter c).Printable) →
      parse (Text.unlines (printedLines cs)) = cs ∧
        parse ((printedLines cs).flatMap (· ++ ['\n'])) = cs) ∧
      ∀ t, Nested 0 (parse t) := by
  refine ⟨fun cs hnested hprintable => ?_, nested_parse⟩
  have hentries : ∀ e ∈ entriesOf cs, e.Printable := by
    intro e he
    obtain ⟨c, hc, rfl⟩ := List.mem_map.mp he
    exact hprintable c (by simpa using hc)
  have hlines := isFileLine_printedLines hentries
  exact ⟨parse_of_lines_eq_printedLines hentries hnested (Text.lines_unlines hlines),
    parse_of_lines_eq_printedLines hentries hnested (Text.lines_flatMap_newline hlines)⟩

/-- A chapter two levels below its parent, before one that is a single level below it. -/
def skippingForest : List Chapter :=
  [ .node "Guide".toList "guide.md".toList 1
      [ .node "Notes".toList "notes.md".toList 3 [],
        .node "Install".toList "install.md".toList 2 [] ],
    .node "Questions".toList "faq.md".toList 1 [] ]

theorem parse_printedLines_skippingForest :
    Nested 0 skippingForest ∧
      (∀ c ∈ skippingForest.flatMap Chapter.preorder, (Entry.ofChapter c).Printable) ∧
      parse (Text.unlines (printedLines skippingForest)) = skippingForest := by
  have hnested : Nested 0 skippingForest :=
    .cons (by decide) (by simp [Chapter.level])
      (.cons (by decide) (by simp [Chapter.level]) (.nil _)
        (.cons (by decide) (by simp) (.nil _) (.nil _)))
      (.cons (by decide) (by simp) (.nil _) (.nil _))
  have hprintable : ∀ c ∈ skippingForest.flatMap Chapter.preorder,
      (Entry.ofChapter c).Printable := by
    intro c hc
    simp only [skippingForest, flatMap_iter, walk_cons, walk_nil, branching_children,
      Chapter.children, List.nil_append, List.append_nil, List.cons_append, List.mem_cons,
      List.not_mem_nil, or_false] at hc
    rcases hc with rfl | rfl | rfl | rfl <;> constructor <;> decide
  exact ⟨hnested, hprintable, (parse_printedLines.1 _ hnested hprintable).1⟩

end BookSite.Outline
