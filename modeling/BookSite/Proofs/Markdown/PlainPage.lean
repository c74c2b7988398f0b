import BookSite.Proofs.Markdown.ConversionFailure
import BookSite.Proofs.Markdown.MathEdits

/-!
# Proofs/Markdown/PlainPage — pages that no stage has anything to do on

A page **uses no extension** of a book when it holds nothing that one of the stages looks for: no
directive, no hidden line of code, no playground flag, and in its prose no brace, no image and no
quote mark.  Every stage leaves such a page alone, to the last blank, and so does the pipeline.
-/

namespace BookSite

open Include Quote Image

/-! ## What the stages look for -/

/-- **A hidden line**: it begins with `#` behind blanks, and neither with `#!` nor with `#[`. -/
def IsHiddenLine (line : Text) : Prop :=
  ∃ rest, line.trimStart = '#' :: rest ∧ rest.head? ≠ some '!' ∧ rest.head? ≠ some '['

theorem revealLine?_eq_none_iff {line : Text} : revealLine? line = none ↔ ¬ IsHiddenLine line := by
  unfold revealLine? IsHiddenLine
  split
  · rename_i rest hstart
    rw [hstart]
    split <;> simp_all
  · rename_i hother
    refine iff_of_true rfl ?_
    rintro ⟨rest, hstart, -⟩
    exact hother rest hstart

instance (line : Text) : Decidable (IsHiddenLine line) :=
  decidable_of_iff (¬ revealLine? line = none) (by rw [revealLine?_eq_none_iff, not_not])

/-- **A fence with a playground flag**: its language is `rust`, and a flag is among its options. -/
def HasPlaygroundFlag (line : Text) : Prop :=
  (CodeInfo.parse (fenceInfo line)).language = playgroundLanguage ∧
    ∃ flag ∈ playgroundFlags, flag ∈ (CodeInfo.parse (fenceInfo line)).options

instance (line : Text) : Decidable (HasPlaygroundFlag line) :=
  inferInstanceAs (Decidable (_ ∧ _))

theorem plainFence?_eq_none_iff {line : Text} :
    plainFence? line = none ↔ ¬ HasPlaygroundFlag line := by
  have hflag : (CodeInfo.parse (fenceInfo line)).isForPlayground = true ↔
      HasPlaygroundFlag line := by
    simp [CodeInfo.isForPlayground, HasPlaygroundFlag, CodeInfo.hasOption]
  rw [← hflag, plainFence?]
  split <;> simp [*]

/-- **A line of prose with nothing in it for a stage**: no brace, no beginning of an image, and no
quote mark at its front. -/
structure IsPlainProse (line : Text) : Prop where
  brace : '{' ∉ line
  reference : ¬ "![".toList <:+: line
  tag : ¬ "<img".toList <:+: line
  quote : ¬ ['>'] <+: line

instance (line : Text) : Decidable (IsPlainProse line) :=
  decidable_of_iff ('{' ∉ line ∧ ¬ "![".toList <:+: line ∧ ¬ "<img".toList <:+: line ∧
    ¬ ['>'] <+: line)
    ⟨fun h => ⟨h.1, h.2.1, h.2.2.1, h.2.2.2⟩, fun h => ⟨h.brace, h.reference, h.tag, h.quote⟩⟩

/-- **A page that uses no extension.** -/
structure UsesNoExtension (page : Text) : Prop where
  directive : ¬ MatchesDirective page
  code : ∀ line ∈ classify page, line.kind = .code → ¬ IsHiddenLine line.text
  fence : ∀ line ∈ classify page, line.kind = .fenceOpen → ¬ HasPlaygroundFlag line.text
  prose : ∀ line ∈ classify page, line.kind = .text → IsPlainProse line.text

/-! ## Edits that leave all lines alone -/

/-- A page whose lines of the kind are all refused stays. -/
theorem editLines_eq_self {kind : LineKind} {edit? : Text → Option Text} {page : Text}
    (h : ∀ line ∈ classify page, line.kind = kind → edit? line.text = none) :
    editLines kind edit? page = page := by
  have hlines : ∀ line ∈ classify page, (if line.kind = kind then
      (edit? line.text).getD line.text else line.text) = line.text := by
    intro line hline
    split
    · rename_i hkind
      rw [h line hline hkind, Option.getD_none]
    · rfl
  rw [editLines, List.map_congr_left hlines, unlines_classify]

/-- Lines whose parts all stay. -/
theorem editRuns_eq_self {p : Line → Bool} {write : Stretch Line → List Text} {lines : List Text}
    (h : ∀ s ∈ runs p (classifyFrom .prose lines), write s = s.elements.map Line.text) :
    editRuns p write lines = lines := by
  rw [editRuns, List.flatMap_congr h, ← List.map_flatMap, flatMap_elements_runs,
    map_text_classifyFrom]

/-! ## Attribute groups -/

theorem ProseToken.eq_brace_cons_of_find {s inner : Text} {n : Nat}
    (h : find s = some (.group inner, n)) : ∃ rest, s = '{' :: rest := by
  unfold find at h
  simp only at h
  split at h
  · cases h
  · obtain ⟨inner', hinner, -⟩ := Option.map_eq_some_iff.mp h
    unfold groupInner? at hinner
    split at hinner
    · exact ⟨_, rfl⟩
    · cases hinner

/-- A line without opening brace is not cut. -/
theorem AttributedLine.rest_ofText {line : Text} (h : '{' ∉ line) : (ofText line).rest = [] := by
  have hpieces : ∀ piece ∈ line.scan ProseToken.find, pieceAttributes? piece = none := by
    intro piece hpiece
    obtain ⟨c, -, rfl⟩ | ⟨s, found, n, hs, hfind, rfl⟩ := Text.mem_scan hpiece
    · rfl
    · cases found with
      | skipped => rfl
      | group inner =>
        obtain ⟨rest, rfl⟩ := ProseToken.eq_brace_cons_of_find hfind
        exact absurd (hs.mem List.mem_cons_self) h
  rw [ofText]
  generalize line.scan ProseToken.find = pieces at hpieces
  induction pieces with
  | nil => rfl
  | cons piece pieces ih =>
    obtain ⟨hpiece, hpieces⟩ := List.forall_mem_cons.mp hpieces
    rw [List.foldr_cons, cons, hpiece]
    exact ih hpieces

theorem moveAttributes_eq_self {line : Text} (h : '{' ∉ line) : moveAttributes line = [line] :=
  if_pos (by rw [AttributedLine.rest_ofText h]; rfl)

/-- **Prose without braces** has no attribute groups to move. -/
theorem moveAttributesFrom_eq_self (inMath : Bool) {lines : List Line}
    (h : ∀ line ∈ lines, line.kind = .text → '{' ∉ line.text) :
    moveAttributesFrom inMath lines = lines.map Line.text := by
  induction lines generalizing inMath with
  | nil => rfl
  | cons line rest ih =>
    obtain ⟨hline, hrest⟩ := List.forall_mem_cons.mp h
    have hstep : attributeStep inMath line = [line.text] := by
      unfold attributeStep
      split
      · rename_i hattributed
        exact moveAttributes_eq_self (hline hattributed.1)
      · rfl
    rw [moveAttributesFrom_cons, hstep, ih _ hrest]
    rfl

/-! ## Quotes and images -/

/-- **A mark without line feed** stands in one of the lines. -/
theorem Text.exists_isInfix_of_isInfix_unlines {mark : Text} (hmark : '\n' ∉ mark)
    {lines : List Text} (hne : lines ≠ []) (h : mark <:+: unlines lines) :
    ∃ l ∈ lines, mark <:+: l := by
  induction lines with
  | nil => exact absurd rfl hne
  | cons first rest ih =>
    by_cases hrest : rest = []
    · subst hrest
      rw [unlines_singleton] at h
      exact ⟨first, List.mem_cons_self, h⟩
    · rw [unlines_cons first hrest] at h
      obtain h | h := isInfix_of_isInfix_append_cons hmark h
      · exact ⟨first, List.mem_cons_self, h⟩
      · obtain ⟨l, hl, hin⟩ := ih hrest h
        exact ⟨l, List.mem_cons_of_mem _ hl, hin⟩

theorem Quote.content?_eq_none {line : Text} (h : ¬ ['>'] <+: line) : content? line = none := by
  unfold content?
  split
  · exact absurd (List.prefix_append ['>'] _) h
  · exact absurd (List.prefix_append ['>'] _) h
  · rfl

/-- **Prose without quoted lines** holds no run of them. -/
theorem Quote.not_run_mem_runs {lines : List Line}
    (h : ∀ line ∈ lines, line.kind = .text → content? line.text = none) (first : Line)
    (more : List Line) : .run first more ∉ runs isQuoted lines := by
  intro hrun
  have hquoted := forall_mem_of_run_mem_runs hrun first (by simp)
  have hfirst : first ∈ lines := mem_of_mem_runs hrun first (by simp [Stretch.elements])
  rw [isQuoted, Bool.and_eq_true, beq_iff_eq] at hquoted
  rw [h first hfirst hquoted.1] at hquoted
  cases hquoted.2

theorem Quote.quoteLines_eq_self {lines : List Text}
    (h : ∀ line ∈ classifyFrom .prose lines, line.kind = .text → content? line.text = none) :
    quoteLines lines = lines := by
  refine editRuns_eq_self fun s hs => ?_
  cases s with
  | single line => rfl
  | run first more => exact absurd hs (not_run_mem_runs h first more)

namespace Image

/-- **A run of plain prose** stays. -/
theorem convertRun_eq_self {lines : List Text} (hlines : Text.ArePageLines lines)
    (h : ∀ l ∈ lines, IsPlainProse l) : convertRun lines = lines := by
  have htags : replaceTags (Text.unlines lines) = Text.unlines lines := by
    refine replaceTags_eq_self fun attributes hmem => ?_
    obtain ⟨l, hl, hin⟩ :=
      Text.exists_isInfix_of_isInfix_unlines (by decide) hlines.ne_nil (isInfix_of_mem_tagsIn hmem)
    exact absurd hin (h l hl).tag
  have hreferences : ∀ l ∈ lines, rootReferences l = l := by
    intro l hl
    refine rootReferences_eq_self fun _ _ _ hmem => ?_
    exact absurd (isInfix_of_mem_tokensIn hmem) (h l hl).reference
  rw [convertRun, htags, hlines.segments_unlines, List.map_congr_left hreferences, List.map_id']

end Image

/-! ## The pipeline -/

namespace UsesNoExtension

variable {page : Text} (h : UsesNoExtension page)

include h

theorem revealHiddenLines_eq : revealHiddenLines page = page :=
  editLines_eq_self fun line hline hkind => revealLine?_eq_none_iff.mpr (h.code line hline hkind)

theorem hasDirective_eq : hasDirective page = false := by
  rw [Bool.eq_false_iff, ne_eq, hasDirective_iff_matchesDirective]
  exact h.directive

theorem dropPlaygroundFlags_eq : dropPlaygroundFlags page = page :=
  editLines_eq_self fun line hline hkind => plainFence?_eq_none_iff.mpr (h.fence line hline hkind)

theorem moveAllAttributes_eq : moveAllAttributes page = page := by
  rw [moveAllAttributes, moveAttributesFrom_eq_self false fun line hline hkind =>
    (h.prose line hline hkind).brace, unlines_classify]

theorem containQuotes_eq : containQuotes page = page := by
  have hlines : quoteLines page.segments = page.segments :=
    quoteLines_eq_self fun line hline hkind => content?_eq_none (h.prose line hline hkind).quote
  rw [Quote.containQuotes_eq, hlines, Text.unlines_segments]

theorem rootImages_eq : rootImages page = page := by
  have hlines : imageLines page.segments = page.segments := by
    refine editRuns_eq_self fun s hs => ?_
    cases s with
    | single line => rfl
    | run first more =>
      have hline : ∀ line ∈ first :: more, line ∈ classify page := mem_of_mem_runs hs
      refine convertRun_eq_self ⟨by simp, List.forall_mem_map.mpr fun line hmem => ?_⟩
        (List.forall_mem_map.mpr fun line hmem => ?_)
      · exact (Text.arePageLines_segments page).newline_not_mem_text (hline line hmem)
      · have hkind := beq_iff_eq.mp (forall_mem_of_run_mem_runs hs line hmem)
        exact h.prose line (hline line hmem) hkind
  rw [Image.rootImages_eq, hlines, Text.unlines_segments]

end UsesNoExtension

/-- **A page that uses no extension is converted to itself**, in both modes, wherever it lies. -/
theorem convert_of_usesNoExtension {page : Text} (h : UsesNoExtension page) (fs : FileSystem)
    (path? : Option Path) (mode : IncludeMode) :
    (Pipeline.standard mode).convert fs path? page = .ok page := by
  rw [convert_standard, h.revealHiddenLines_eq,
    apply_includes_of_not_hasDirective fs path? mode h.hasDirective_eq, Except.map,
    h.dropPlaygroundFlags_eq, h.moveAllAttributes_eq, h.containQuotes_eq, h.rootImages_eq]

/-- A page with carriage returns, trailing blanks and a fence that nothing closes.  What it holds in
its blocks would be an extension in the prose, and the other way round. -/
def pageWithoutExtension : Text :=
  ("# Title\r\n\n* item  \n #[cfg] > ! [a](b.png)\n" ++
    "```rust\n#![allow(x)]\n > \x7b.wide\x7d\n```\t\n$x$ <imag\n" ++
    " ``` c,editable \r\n![a](b.png) <img src='a'> \x7b\x7b#include \x7d \n\n").toList

instance (page : Text) : Decidable (UsesNoExtension page) :=
  decidable_of_iff (hasDirective page = false ∧ ∀ line ∈ classify page,
      (line.kind = .code → ¬ IsHiddenLine line.text) ∧
      (line.kind = .fenceOpen → ¬ HasPlaygroundFlag line.text) ∧
      (line.kind = .text → IsPlainProse line.text))
    ⟨fun h => ⟨by
        rw [← hasDirective_iff_matchesDirective, h.1]
        exact Bool.false_ne_true,
      fun l hl => (h.2 l hl).1, fun l hl => (h.2 l hl).2.1, fun l hl => (h.2 l hl).2.2⟩,
    fun h => ⟨h.hasDirective_eq, fun l hl => ⟨h.code l hl, h.fence l hl, h.prose l hl⟩⟩⟩

theorem convert_of_usesNoExtension_pageWithoutExtension :
    UsesNoExtension pageWithoutExtension ∧
      (Pipeline.standard .translate).convert .empty none pageWithoutExtension =
        .ok pageWithoutExtension ∧
      (Pipeline.standard .inline).convert .empty none pageWithoutExtension =
        .ok pageWithoutExtension := by
  have hpage : UsesNoExtension pageWithoutExtension := by decide +kernel
  exact ⟨hpage, convert_of_usesNoExtension hpage .empty none .translate,
    convert_of_usesNoExtension hpage .empty none .inline⟩

end BookSite
