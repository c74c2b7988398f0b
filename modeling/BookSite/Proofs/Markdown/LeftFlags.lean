import BookSite.Proofs.Markdown.KeptFences
import BookSite.Proofs.Markdown.PlainPage

/-!
# Proofs/Markdown/LeftFlags — which playground flags are left

The stage for playgrounds drops the flags of all fences that open a block.  Only later stages take
attribute groups and quote marks off the fronts of lines, and so there are three ways for a flag to
be left: on a fence that closed a block and opens one now, on a fence behind an attribute group, and
on a fence in a quote.  There are no others.
-/

namespace BookSite

open Include Quote

/-! ## Fences without flag -/

/-- What is put in place of a fence says nothing but the language. -/
theorem fenceInfo_append_playgroundLanguage {blanks backticks : Text}
    (hblanks : ∀ c ∈ blanks, isBlank c = true) (hbackticks : ∀ c ∈ backticks, c = backtick) :
    fenceInfo (blanks ++ backticks ++ playgroundLanguage) = playgroundLanguage := by
  have hstart : Text.trimStart (backticks ++ playgroundLanguage) =
      backticks ++ playgroundLanguage := by
    cases backticks with
    | nil => rfl
    | cons c rest =>
      obtain rfl := hbackticks c List.mem_cons_self
      rfl
  have hend : Text.trimEnd (backticks ++ playgroundLanguage) = backticks ++ playgroundLanguage := by
    have hlast : backticks ++ playgroundLanguage = (backticks ++ "rus".toList) ++ ['t'] := by
      rw [List.append_assoc]
      rfl
    rw [hlast]
    exact List.rdropWhile_concat_neg isBlank _ _ (by decide)
  have hdrop : (backticks ++ playgroundLanguage).dropWhile (· == backtick) =
      playgroundLanguage :=
    List.dropWhile_append_of_pos fun c hc => beq_iff_eq.mpr (hbackticks c hc)
  have htrim : Text.trim (blanks ++ (backticks ++ playgroundLanguage)) =
      backticks ++ playgroundLanguage := by
    rw [Text.trim, Text.trimStart_append hblanks, hstart, hend]
  rw [fenceInfo, List.append_assoc, htrim, hdrop]
  rfl

theorem not_hasPlaygroundFlag_of_plainFence? {line fence : Text}
    (h : plainFence? line = some fence) : ¬ HasPlaygroundFlag fence := by
  unfold plainFence? at h
  split at h
  · cases h
    have hbackticks : ∀ c ∈ line.trimStart.takeWhile (· == backtick), c = backtick :=
      fun c hc => by simpa using List.mem_takeWhile_imp hc
    rw [HasPlaygroundFlag, fenceInfo_append_playgroundLanguage
      (fun c hc => Text.isBlank_of_mem_leadingBlanks hc) hbackticks]
    decide
  · cases h

/-- **No opening fence keeps a flag** in the stage for playgrounds. -/
theorem not_hasPlaygroundFlag_of_mem_dropPlaygroundFlags {page : Text} {line : Line}
    (hline : line ∈ classify (dropPlaygroundFlags page)) (hkind : line.kind = .fenceOpen) :
    ¬ HasPlaygroundFlag line.text := by
  rw [dropPlaygroundFlags, classify_editLines keepsFences_plainFence
    fun _ _ => newline_not_mem_of_plainFence?] at hline
  obtain ⟨old, -, rfl⟩ := List.mem_map.mp hline
  rw [editLine, if_pos hkind]
  cases hfence : plainFence? old.text with
  | none => exact plainFence?_eq_none_iff.mp hfence
  | some fence => exact not_hasPlaygroundFlag_of_plainFence? hfence

/-! ## Blocks that are opened -/

/-- **Behind these lines the line opens no block with a flag**: if it is a fence with a flag, it
closes a block. -/
def OpensNoFlag (above : List Text) (line : Text) : Prop :=
  isFence line = true → HasPlaygroundFlag line → regionBehind above = .block

/-- No block is opened with a flag when no line opens one. -/
theorem forall_fenceOpen_iff (lines : List Text) :
    (∀ line ∈ classifyFrom .prose lines, line.kind = .fenceOpen → ¬ HasPlaygroundFlag line.text) ↔
      AtEachPlace OpensNoFlag lines := by
  have hplace : ∀ (r : Region) (l : Text),
      (r.kindOf l = .fenceOpen → ¬ HasPlaygroundFlag l) ↔
        (isFence l = true → HasPlaygroundFlag l → r = .block) := by
    intro r l
    rw [Region.kindOf_eq_fenceOpen_iff]
    cases r <;> simp
  rw [forall_mem_iff_atEachPlace, atEachPlace_classifyFrom]
  simp only [hplace]
  rfl

/-- The stage for images neither opens blocks nor closes them. -/
theorem forall_fenceOpen_rootImages_iff (page : Text) :
    (∀ line ∈ classify (Image.rootImages page),
        line.kind = .fenceOpen → ¬ HasPlaygroundFlag line.text) ↔
      ∀ line ∈ classify page, line.kind = .fenceOpen → ¬ HasPlaygroundFlag line.text := by
  have hmem : ∀ line : Line, line.kind = .fenceOpen →
      (line ∈ classify (Image.rootImages page) ↔ line ∈ classify page) := by
    intro line hkind
    have hfilter := Image.filter_classify_rootImages page
    have hsame : ∀ lines : List Line, line ∈ lines.filter (·.kind != .text) ↔ line ∈ lines := by
      simp [hkind]
    rw [← hsame, hfilter, hsame]
  exact ⟨fun h line hline hkind => h line ((hmem line hkind).mpr hline) hkind,
    fun h line hline hkind => h line ((hmem line hkind).mp hline) hkind⟩

/-! ## Fences behind quote marks -/

/-- **No quote opens a block with a flag** by the lines it becomes. -/
def QuotesOpenNoFlag (lines : List Line) : Prop :=
  AtEachPlace (fun above part => ∀ first more, part = Stretch.run first more →
    AtEachPlace (fun front => OpensNoFlag (above.flatMap convertStretch ++ front))
      (convertRun ((first :: more).map Line.text))) (runs isQuoted lines)

/-- Behind the stage for quotes, a block is opened by a fence that stood there before or by a line
of a quote. -/
theorem atEachPlace_quoteLines_iff (lines : List Text) :
    AtEachPlace OpensNoFlag (quoteLines lines) ↔
      AtEachPlace (fun above => OpensNoFlag (quoteLines above)) lines ∧
        QuotesOpenNoFlag (classifyFrom .prose lines) := by
  constructor
  · intro h
    refine ⟨?_, ?_⟩
    · rintro above line below rfl hfence
      obtain ⟨rest, hrest, -⟩ : KeepsLine quoteLines above line below :=
        keepsLine_quoteLines_of_isFence hfence
      exact h (quoteLines above) line rest hrest hfence
    · rw [quoteLines, editRuns, atEachPlace_flatMap] at h
      exact h.imp fun above part hpart first more hrun => by rwa [hrun] at hpart
  · rintro ⟨hlines, hquotes⟩
    rw [quoteLines, editRuns, atEachPlace_flatMap]
    intro above part below hruns
    cases part with
    | run first more => exact hquotes above _ below hruns first more rfl
    | single line =>
      rw [convertStretch, atEachPlace_singleton, List.append_nil]
      intro hfence
      have hlist : classifyFrom .prose lines =
          above.flatMap Stretch.elements ++ line :: below.flatMap Stretch.elements := by
        rw [← flatMap_elements_runs isQuoted (classifyFrom .prose lines), hruns,
          List.flatMap_append, List.flatMap_cons]
        rfl
      obtain ⟨hplace, hkind⟩ := classifyFrom_eq_append_cons hlist
      have hquoted : isQuoted line = false :=
        not_isQuoted_of_isFence (by rw [hkind, Region.isFence_kindOf, hfence])
      -- A fence ends a run, so the parts above it are those of the lines above it.
      have habove : quoteLines ((above.flatMap Stretch.elements).map Line.text) =
          above.flatMap convertStretch := by
        rw [quoteLines, editRuns, (classifyFrom_eq_append hlist).1,
          runs_flatMap_elements hquoted hruns]
      rw [← habove]
      exact hlines _ _ _ hplace hfence

/-! ## Fences behind attribute groups -/

/-- **A line that is cut opens no block with a flag**, in any of the lines put in its place. -/
def CutOpensNoFlag (above : List Line) (line : Line) : Prop :=
  IsAttributed (mathBehind false above) line →
    AtEachPlace (fun front => OpensNoFlag (quoteLines
      (attributeLines (above.map Line.text) ++ front))) (moveAttributes line.text)

/-- **A fence that closes a block opens none with a flag** behind the edited lines above it. -/
def ClosingOpensNoFlag (above : List Line) (line : Line) : Prop :=
  line.kind = .fenceClose →
    OpensNoFlag (quoteLines (attributeLines (above.map Line.text))) line.text

/-- What is put in place of one line, when it is no fence with a flag that opens a block. -/
theorem atEachPlace_attributeStep_iff {above : List Line} {line : Line}
    (hfence : line.kind.isFence = isFence line.text)
    (hopener : line.kind = .fenceOpen → ¬ HasPlaygroundFlag line.text) :
    AtEachPlace
        (fun front => OpensNoFlag (quoteLines (attributeLines (above.map Line.text) ++ front)))
        (attributeStep (mathBehind false above) line) ↔
      ClosingOpensNoFlag above line ∧ CutOpensNoFlag above line := by
  by_cases hcut : IsAttributed (mathBehind false above) line
  · have hclosing : ClosingOpensNoFlag above line := by
      intro hkind
      rw [hcut.1] at hkind
      cases hkind
    rw [attributeStep, if_pos hcut]
    exact ⟨fun h => ⟨hclosing, fun _ => h⟩, fun h => h.2 hcut⟩
  · -- The line stays, so it can only be a fence that closes a block.
    rw [attributeStep, if_neg hcut, atEachPlace_singleton, List.append_nil]
    refine ⟨fun h => ⟨fun _ => h, fun hcut' => absurd hcut' hcut⟩, fun h hline hflag => ?_⟩
    rw [hline] at hfence
    cases hkind : line.kind with
    | fenceOpen => exact absurd hflag (hopener hkind)
    | fenceClose => exact h.1 hkind hline hflag
    | code =>
      rw [hkind] at hfence
      cases hfence
    | text =>
      rw [hkind] at hfence
      cases hfence

/-- **Behind the stage for attributes**, a block is opened by a fence that stood there before or by
a line that was cut. -/
theorem atEachPlace_attributeLines_iff (page : Text) :
    AtEachPlace (fun above => OpensNoFlag (quoteLines above))
        (attributeLines (readByAttributes page).segments) ↔
      AtEachPlace ClosingOpensNoFlag (classify (readByAttributes page)) ∧
        AtEachPlace CutOpensNoFlag (classify (readByAttributes page)) := by
  rw [attributeLines, atEachPlace_moveAttributesFrom, ← atEachPlace_and]
  refine atEachPlace_congr fun above line below h => ?_
  obtain ⟨-, hkind⟩ := classifyFrom_eq_append_cons h
  have habove : moveAttributesFrom false above = attributeLines (above.map Line.text) := by
    rw [attributeLines, (classifyFrom_eq_append h).1]
  have hline : line ∈ classify (readByAttributes page) := by
    rw [classify, h]
    simp
  rw [habove]
  refine atEachPlace_attributeStep_iff ?_ (not_hasPlaygroundFlag_of_mem_dropPlaygroundFlags hline)
  rw [hkind, Region.isFence_kindOf]

/-! ## The three ways -/

/-- **A page that shows no flag**, in any of the three ways. -/
structure ShowsNoFlag (page : Text) : Prop where
  /-- no fence that closes a block comes to open one with a flag -/
  closing : AtEachPlace ClosingOpensNoFlag (classify (readByAttributes page))
  /-- no line that is cut at its attribute groups comes to open one -/
  cut : AtEachPlace CutOpensNoFlag (classify (readByAttributes page))
  /-- no quote comes to open one -/
  quoted : QuotesOpenNoFlag (classify (readByQuotes page))

/-- **Prose without braces and quotes** shows no flag, whatever closes its blocks. -/
theorem ShowsNoFlag.of_prose {page : Text}
    (h : ∀ line ∈ classify (readByAttributes page), line.kind = .text →
      '{' ∉ line.text ∧ content? line.text = none) : ShowsNoFlag page := by
  have hstay : ∀ {above below : List Line}, classify (readByAttributes page) = above ++ below →
      quoteLines (attributeLines (above.map Line.text)) = above.map Line.text := by
    intro above below hparts
    have habove := (classifyFrom_eq_append hparts).1
    have hprose : ∀ line ∈ above, line.kind = .text → '{' ∉ line.text ∧ content? line.text = none :=
      fun line hline => h line (by rw [hparts]; exact List.mem_append_left _ hline)
    rw [attributeLines, habove,
      moveAttributesFrom_eq_self false fun line hline hkind => (hprose line hline hkind).1]
    exact quoteLines_eq_self fun line hline hkind => (hprose line (habove ▸ hline) hkind).2
  refine ⟨fun above line below hparts hclose _ _ => ?_, fun above line below hparts hcut => ?_, ?_⟩
  · obtain ⟨-, hkind⟩ := classifyFrom_eq_append_cons hparts
    rw [hstay hparts]
    exact (Region.kindOf_eq_fenceClose_iff.mp (hkind.symm.trans hclose)).1
  · obtain ⟨-, hkind⟩ := classifyFrom_eq_append_cons hparts
    have hfence := (Region.kindOf_eq_text_iff.mp (hkind.symm.trans hcut.1)).2
    have hbrace := (h line (by rw [hparts]; simp) hcut.1).1
    rw [moveAttributes_eq_self hbrace, atEachPlace_singleton]
    intro hopens
    rw [hfence] at hopens
    cases hopens
  · have hattributes : attributeLines (readByAttributes page).segments =
        (readByAttributes page).segments :=
      (moveAttributesFrom_eq_self false fun line hline hkind => (h line hline hkind).1).trans
        (map_text_classifyFrom .prose _)
    have hread : classify (readByQuotes page) = classify (readByAttributes page) := by
      rw [classify, readByQuotes_eq, segments_moveAllAttributes, hattributes]
      rfl
    rw [QuotesOpenNoFlag, hread]
    rintro above part below hruns first more rfl
    refine absurd ?_ (not_run_mem_runs (fun line hline hkind => (h line hline hkind).2) first more)
    rw [hruns]
    simp

/-- **A playground flag is left on the converted page in these three ways and in no other**: no
fence of the converted page opens a block with a flag if and only if the page shows none.  So none
is left when the prose that the stage for attributes reads has no opening brace and no quote. -/
theorem no_flag_left_iff (fs : FileSystem) (path? : Option Path) (page : Text) :
    ∃ out, (Pipeline.standard .translate).convert fs path? page = .ok out ∧
      ((∀ line ∈ classify out, line.kind = .fenceOpen → ¬ HasPlaygroundFlag line.text) ↔
        ShowsNoFlag page) ∧
      ((∀ line ∈ classify (readByAttributes page), line.kind = .text →
          '{' ∉ line.text ∧ content? line.text = none) →
        ∀ line ∈ classify out, line.kind = .fenceOpen → ¬ HasPlaygroundFlag line.text) := by
  have hleft : (∀ line ∈ classify (Image.rootImages (readByImages page)),
      line.kind = .fenceOpen → ¬ HasPlaygroundFlag line.text) ↔ ShowsNoFlag page := by
    rw [forall_fenceOpen_rootImages_iff, classify, forall_fenceOpen_iff, readByImages,
      segments_containQuotes, atEachPlace_quoteLines_iff, readByQuotes_eq,
      segments_moveAllAttributes, atEachPlace_attributeLines_iff, ← segments_moveAllAttributes]
    exact ⟨fun h => ⟨h.1.1, h.1.2, h.2⟩, fun h => ⟨⟨h.closing, h.cut⟩, h.quoted⟩⟩
  exact ⟨_, convert_translate fs path? page, hleft, fun hprose => hleft.mpr (.of_prose hprose)⟩

/-- A page with a block for a playground between lines of plain prose. -/
def pageWithPlayground : Text := "Try it:\n\n```rust,editable\n> x \x7b\n```\n\nNext.".toList

theorem no_flag_left_pageWithPlayground :
    (∃ line ∈ classify pageWithPlayground, line.kind = .fenceOpen ∧
        HasPlaygroundFlag line.text) ∧
      (∀ line ∈ classify (readByAttributes pageWithPlayground), line.kind = .text →
        '{' ∉ line.text ∧ content? line.text = none) ∧
      ∃ out, (Pipeline.standard .translate).convert .empty none pageWithPlayground = .ok out ∧
        ∀ line ∈ classify out, line.kind = .fenceOpen → ¬ HasPlaygroundFlag line.text := by
  have hprose : ∀ line ∈ classify (readByAttributes pageWithPlayground), line.kind = .text →
      '{' ∉ line.text ∧ content? line.text = none := by decide +kernel
  obtain ⟨out, hout, -, hleft⟩ := no_flag_left_iff .empty none pageWithPlayground
  exact ⟨⟨⟨"```rust,editable".toList, .fenceOpen⟩, by decide +kernel, rfl, by decide +kernel⟩,
    hprose, out, hout, hleft hprose⟩

/-- A page with a quoted block for a playground. -/
def pageWithQuotedPlayground : Text := "> ```rust,editable\n> x\n> ```".toList

/-- What that page becomes: its block is for a playground still. -/
def containedPlayground : Text := "::: info\n```rust,editable\nx\n```\n:::".toList

theorem flag_left_pageWithQuotedPlayground :
    (Pipeline.standard .translate).convert .empty none pageWithQuotedPlayground =
        .ok containedPlayground ∧
      ∃ line ∈ classify containedPlayground, line.kind = .fenceOpen ∧
        HasPlaygroundFlag line.text := by
  refine ⟨rfl, ⟨"```rust,editable".toList, .fenceOpen⟩, by decide +kernel, rfl, by decide +kernel⟩

end BookSite
