import BookSite.Proofs.Markdown.Include.ImportState

/-!
# Proofs/Markdown/Include/ImportEdits — snippet imports as an edit of lines

The regions of the page stay.  A block that is still open when its page ends is written line by
line, and one that is closed by a fence is closed before the lines behind it are taken in.  So a
line of code without directive is kept unless its whole block is unwrapped.
-/

namespace BookSite.Include

/-! ## The edit -/

open ImportedLines

/-- **The lines of a page** with its directives replaced by snippet imports. -/
def importLines (lines : List Text) : List Text := (run (classifyFrom .prose lines)).finish

theorem importPage_eq (page : Text) :
    importPage page = Text.unlines (importLines page.segments) := rfl

/-- **The regions stay.** -/
theorem regionBehind_importLines (lines : List Text) :
    regionBehind (importLines lines) = regionBehind lines := by
  have htracks := tracks_run lines
  rw [importLines]
  generalize run (classifyFrom .prose lines) = state at htracks
  cases htracks with
  | prose habove hwritten => simp [finish, habove, hwritten]
  | block habove hwritten hopener hbody =>
    have hregion := regionBehind_block regionBehind_nil hopener hbody
    rw [List.nil_append] at hregion
    rw [regionBehind_block habove hopener hbody, finish, regionBehind_append, hwritten]
    exact (Region.afterAll_map fun l _ => isFence_importDirectives l).trans hregion

section Open

variable {above body written : List Text} {block : PendingBlock}
  (hrun : run (classifyFrom .prose above) = ⟨written, some block⟩)
  (hregion : regionBehind above = .block) (hbody : ∀ l ∈ body, isFence l = false)

include hrun hregion hbody

/-- **A block that stays open** is written line by line. -/
theorem importLines_append_open :
    importLines (above ++ body) = written ++ (block.lines ++ body).map importDirectives := by
  have hrun' := run_append_block hrun hregion hbody []
  rw [List.append_nil] at hrun'
  rw [importLines, hrun']
  rfl

/-- **A block that is closed** does not matter to the lines behind it. -/
theorem importLines_append_closed {closer : Text} (hcloser : isFence closer = true)
    (below : List Text) :
    importLines (above ++ (body ++ closer :: below)) =
      written ++ PendingBlock.close { block with body := block.body ++ body } closer ++
        importLines below := by
  have hstep : step ⟨written, some { block with body := block.body ++ body }⟩
      ⟨closer, .fenceClose⟩ =
      ⟨written ++ PendingBlock.close { block with body := block.body ++ body } closer ++ [],
        none⟩ := by
    rw [List.append_nil]
    rfl
  rw [importLines, run_append_block hrun hregion hbody, classifyFrom,
    Region.kindOf_block_of_isFence hcloser, Region.after_of_isFence hcloser, List.foldl_cons, hstep,
    finish_foldl_step]
  rfl

end Open

/-- **A block that is pending** at the end is written line by line. -/
theorem importLines_of_pending {above written : List Text} {block : PendingBlock}
    (hrun : run (classifyFrom .prose above) = ⟨written, some block⟩) :
    importLines above = written ++ block.lines.map importDirectives := by
  rw [importLines, hrun]
  rfl

section KeptLine

variable {above below written : List Text} {line : Text} {block : PendingBlock}
  (hrun : run (classifyFrom .prose above) = ⟨written, some block⟩)
  (hregion : regionBehind above = .block) (hfence : isFence line = false)
  (hdirective : hasDirective line = false) (hbelow : ∀ l ∈ below, isFence l = false)

include hrun hregion hfence hdirective hbelow

theorem keepsLine_append_open : KeepsLine importLines above line below := by
  have hbody : ∀ l ∈ line :: below, isFence l = false := List.forall_mem_cons.mpr ⟨hfence, hbelow⟩
  refine ⟨below.map importDirectives, ?_, by rintro rfl; rfl⟩
  rw [importLines_append_open hrun hregion hbody, importLines_of_pending hrun]
  simp [importDirectives_eq_self hdirective]

theorem keepsLine_append_closed {closer : Text} (hcloser : isFence closer = true)
    (hkept : PendingBlock.onlyDirectives { block with body := block.body ++ line :: below } = false)
    (more : List Text) : KeepsLine importLines above line (below ++ closer :: more) := by
  have hbody : ∀ l ∈ line :: below, isFence l = false := List.forall_mem_cons.mpr ⟨hfence, hbelow⟩
  refine ⟨below.map importDirectives ++ importDirectives closer :: importLines more, ?_, by simp⟩
  rw [← List.cons_append, importLines_append_closed hrun hregion hbody hcloser,
    PendingBlock.close_of_not_onlyDirectives hkept, importLines_of_pending hrun]
  simp [PendingBlock.lines, importDirectives_eq_self hdirective]

end KeptLine

/-- The body of the block that a line of code lies in. -/
def blockBody (above : List Text) (line : Text) (below : List Text) : List Text :=
  above.rtakeWhile (!isFence ·) ++ line :: below.takeWhile (!isFence ·)

/-- Whether a line lies in a closed block that is unwrapped. -/
def isUnwrapped (above : List Text) (line : Text) (below : List Text) : Bool :=
  below.any isFence && (PendingBlock.mk [] (blockBody above line below)).onlyDirectives

theorem rtakeWhile_append_cons {body : List Text} {opener : Text} (hopener : isFence opener = true)
    (hbody : ∀ l ∈ body, isFence l = false) (above : List Text) :
    (above ++ opener :: body).rtakeWhile (!isFence ·) = body := by
  rw [List.rtakeWhile, List.reverse_append, List.reverse_cons, List.append_assoc,
    List.takeWhile_append_of_pos]
  · simp [hopener]
  · intro l hl
    simp [hbody l (List.mem_reverse.mp hl)]

/-- **A line of code without directive is kept**, unless its block is unwrapped. -/
theorem keepsLine_importLines {above below : List Text} {line : Text}
    (hregion : regionBehind above = .block) (hfence : isFence line = false)
    (hdirective : hasDirective line = false) (hwrapped : isUnwrapped above line below = false) :
    KeepsLine importLines above line below := by
  obtain ⟨state, hstate⟩ : ∃ state, run (classifyFrom .prose above) = state := ⟨_, rfl⟩
  have htracks := tracks_run above
  rw [hstate] at htracks
  cases htracks with
  | prose habove _ =>
    rw [hregion] at habove
    cases habove
  | @block above written body opener habove hwritten hopener hbody =>
    obtain hopen | ⟨inner, closer, more, rfl, hinner, hcloser⟩ :=
      Text.forall_or_exists_stop (fun l => !isFence l) below
    · exact keepsLine_append_open hstate hregion hfence hdirective fun l hl => by
        simpa using hopen l hl
    · have hcloser : isFence closer = true := by simpa using hcloser
      have hkept : (PendingBlock.mk opener (body ++ line :: inner)).onlyDirectives = false := by
        rw [isUnwrapped, List.any_eq_true.mpr ⟨closer, by simp, hcloser⟩, Bool.true_and, blockBody,
          rtakeWhile_append_cons hopener hbody, Text.takeWhile_append_cons (by simp [hcloser]),
          List.takeWhile_eq_self_iff.mpr hinner] at hwrapped
        exact hwrapped
      exact keepsLine_append_closed hstate hregion hfence hdirective
        (fun l hl => by simpa using hinner l hl) hcloser hkept more

/-! ## The edited lines -/

namespace ImportedLines

/-- No line that is written or pending holds a line feed. -/
structure HoldsNoNewline (state : ImportedLines) : Prop where
  written : ∀ l ∈ state.written, '\n' ∉ l
  pending : ∀ block, state.pending = some block → ∀ l ∈ block.lines, '\n' ∉ l

theorem HoldsNoNewline.step {state : ImportedLines} (h : state.HoldsNoNewline) {line : Line}
    (hline : '\n' ∉ line.text) : (state.step line).HoldsNoNewline := by
  have hwrite : ∀ l ∈ state.written ++ [importDirectives line.text], '\n' ∉ l := by
    intro l hl
    rcases List.mem_append.mp hl with hl | hl
    · exact h.written l hl
    · rw [List.mem_singleton.mp hl]
      exact newline_not_mem_importDirectives hline
  unfold ImportedLines.step
  split
  · refine ⟨h.written, fun block hblock => ?_⟩
    cases hblock
    simpa [PendingBlock.lines] using hline
  · rename_i block _ hpending
    refine ⟨h.written, fun block' hblock => ?_⟩
    cases hblock
    intro l hl
    rcases List.mem_append.mp (show l ∈ block.lines ++ [line.text] from hl) with hl | hl
    · exact h.pending block hpending l hl
    · rwa [List.mem_singleton.mp hl]
  · exact ⟨hwrite, h.pending⟩
  · rename_i block _ hpending
    refine ⟨fun l hl => ?_, fun block' hblock => by cases hblock⟩
    rcases List.mem_append.mp hl with hl | hl
    · exact h.written l hl
    · exact PendingBlock.newline_not_mem_close (h.pending block hpending) hline l hl
  · exact ⟨hwrite, h.pending⟩
  · exact ⟨hwrite, h.pending⟩

theorem finish_step_ne_nil (state : ImportedLines) (line : Line) :
    (state.step line).finish ≠ [] := by
  unfold step
  split
  · simp [finish, PendingBlock.abandon, PendingBlock.lines]
  · simp [finish, PendingBlock.abandon, PendingBlock.lines]
  · simp [finish, write]
  · simp [finish, write, PendingBlock.close_ne_nil]
  · simp [finish, write]
  · simp [finish, write]

end ImportedLines

/-- **The edited lines are lines of a page.** -/
theorem arePageLines_importLines {lines : List Text} (h : Text.ArePageLines lines) :
    Text.ArePageLines (importLines lines) := by
  have hstate : (run (classifyFrom .prose lines)).HoldsNoNewline := by
    have hlines : ∀ line ∈ classifyFrom .prose lines, '\n' ∉ line.text :=
      fun _ => h.newline_not_mem_text
    generalize classifyFrom .prose lines = classified at hlines
    induction classified using List.reverseRecOn with
    | nil => exact ⟨by simp [run, start], by simp [run, start]⟩
    | append_singleton classified line ih =>
      rw [run_concat]
      exact (ih fun q hq => hlines q (by simp [hq])).step (hlines line (by simp))
  refine ⟨?_, fun l hl => ?_⟩
  · obtain hnil | ⟨init, last, rfl⟩ := List.eq_nil_or_concat lines
    · exact absurd hnil h.ne_nil
    · rw [importLines, List.concat_eq_append, classifyFrom_concat, run_concat]
      exact finish_step_ne_nil _ _
  · rcases List.mem_append.mp hl with hl | hl
    · exact hstate.written l hl
    · cases hpending : (run (classifyFrom .prose lines)).pending with
      | none => simp [hpending] at hl
      | some block =>
        rw [hpending] at hl
        obtain ⟨line, hline, rfl⟩ := List.mem_map.mp hl
        exact newline_not_mem_importDirectives (hstate.pending block hpending line hline)

theorem segments_importPage_eq (page : Text) :
    (importPage page).segments = importLines page.segments :=
  (arePageLines_importLines (Text.arePageLines_segments page)).segments_unlines

/-! ## Pages without directives -/

theorem map_importDirectives {lines : List Text} (h : ∀ l ∈ lines, hasDirective l = false) :
    lines.map importDirectives = lines := by
  rw [List.map_congr_left fun l hl => importDirectives_eq_self (h l hl), List.map_id']

theorem PendingBlock.onlyDirectives_eq_false {block : PendingBlock}
    (h : ∀ l ∈ block.body, hasDirective l = false) : block.onlyDirectives = false := by
  have hany : block.body.any isDirectiveLine = false := by
    rw [List.any_eq_false]
    intro l hl hdirective
    simpa [h l hl] using hasDirective_of_isDirectiveLine hdirective
  rw [onlyDirectives, hany, Bool.false_and]

theorem PendingBlock.close_of_not_hasDirective {block : PendingBlock} {closer : Text}
    (h : ∀ l ∈ block.lines ++ [closer], hasDirective l = false) :
    block.close closer = block.lines ++ [closer] := by
  have hnone : block.onlyDirectives = false := onlyDirectives_eq_false fun l hl =>
    h l (List.mem_append_left _ (List.mem_cons_of_mem _ hl))
  rw [close_of_not_onlyDirectives hnone, map_importDirectives h]

namespace ImportedLines

/-- The lines taken in, written or pending. -/
def taken (state : ImportedLines) : List Text :=
  state.written ++ (state.pending.map PendingBlock.lines).getD []

/-- A line more, with nothing to replace on the page so far. -/
theorem taken_step {above : List Text} {state : ImportedLines} (h : Tracks above state)
    (htaken : state.taken = above) {line : Text}
    (hdirectives : ∀ l ∈ above ++ [line], hasDirective l = false) :
    (state.step ⟨line, (regionBehind above).kindOf line⟩).taken = above ++ [line] := by
  have hline := importDirectives_eq_self (hdirectives line (by simp))
  cases h with
  | prose habove hwritten =>
    rw [habove]
    cases hfence : isFence line with
    | true =>
      rw [Region.kindOf_prose_of_isFence hfence, ← htaken]
      simp [step, taken, PendingBlock.lines]
    | false =>
      rw [Region.kindOf_prose_of_not_isFence hfence, ← htaken]
      simp [step, taken, write, hline]
  | @block above written body opener habove hwritten hopener hbody =>
    rw [regionBehind_block habove hopener hbody]
    cases hfence : isFence line with
    | true =>
      have hclose : (PendingBlock.mk opener body).close line = opener :: body ++ [line] :=
        PendingBlock.close_of_not_hasDirective fun l hl => hdirectives l (by
          rw [List.append_assoc]
          exact List.mem_append_right _ hl)
      rw [Region.kindOf_block_of_isFence hfence, ← htaken]
      simp [step, taken, write, hclose, PendingBlock.lines]
    | false =>
      rw [Region.kindOf_block_of_not_isFence hfence, ← htaken]
      simp [step, taken, PendingBlock.lines]

end ImportedLines

theorem taken_run {lines : List Text} (h : ∀ l ∈ lines, hasDirective l = false) :
    (run (classifyFrom .prose lines)).taken = lines := by
  induction lines using List.reverseRecOn with
  | nil => rfl
  | append_singleton lines line ih =>
    rw [classifyFrom_concat, run_concat]
    exact taken_step (tracks_run lines) (ih fun l hl => h l (by simp [hl])) h

theorem importLines_eq_self {lines : List Text} (h : ∀ l ∈ lines, hasDirective l = false) :
    importLines lines = lines := by
  have htaken := taken_run h
  rw [importLines, finish]
  rw [taken] at htaken
  cases hpending : (run (classifyFrom .prose lines)).pending with
  | none =>
    rw [hpending] at htaken
    exact htaken
  | some block =>
    rw [hpending] at htaken
    have hblock : block.abandon = block.lines := map_importDirectives fun l hl => h l (by
      rw [← htaken]
      exact List.mem_append_right _ hl)
    rw [Option.map_some, Option.getD_some, hblock]
    exact htaken

theorem hasDirective_of_mem_segments {page : Text} (h : hasDirective page = false) :
    ∀ l ∈ page.segments, hasDirective l = false := by
  intro l hl
  rw [Bool.eq_false_iff]
  intro hdirective
  rw [hasDirective_of_isInfix (Text.isInfix_of_mem_segments hl) hdirective] at h
  cases h

/-- **A page without directive** stays as it is. -/
theorem importPage_eq_self {page : Text} (h : hasDirective page = false) :
    importPage page = page := by
  rw [importPage_eq, importLines_eq_self (hasDirective_of_mem_segments h), Text.unlines_segments]

end BookSite.Include
