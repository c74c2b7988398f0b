import BookSite.Proofs.Markdown.Include.PageParts

/-!
# Proofs/Markdown/Include/PendingBlocks — the pending block and the kinds of the lines

Two things follow a page line by line: the kinds of its lines and the block that is pending.  They
stay **in step**: a block is pending exactly inside of a block of the page, and it is the opening
fence with the lines of code since (`pending_eq_some_iff`).  So lines of code and closing fences
always meet a pending block, and all other lines meet none (`pending_blocks_stay_in_step`).
-/

namespace BookSite.Include

namespace ImportedLines

/-! ## The block behind some lines -/

/-- Behind the lines of a block it is pending, whatever stands above them. -/
theorem pending_run_append_classified (above : List Line) (block : PendingBlock) :
    (run (above ++ block.classified)).pending = some block := by
  -- The opening fence takes the place of whatever is pending.
  rw [run, List.foldl_append, PendingBlock.classified, List.foldl_cons]
  exact congrArg pending (foldl_step_code _ ⟨block.opener, []⟩ block.body)

section Behind

variable {lines : List Text} {block : PendingBlock}

/-- **A pending block** is one fence and lines that are none, and stands right above. -/
theorem exists_classified_of_pending
    (h : (run (classifyFrom .prose lines)).pending = some block) :
    block.IsBlock ∧ ∃ above, classifyFrom .prose lines = above ++ block.classified := by
  have htracks := tracks_run lines
  generalize run (classifyFrom .prose lines) = state at h htracks
  cases htracks with
  | prose => cases h
  | @block above _ body opener habove _ hopener hbody =>
    cases h
    have hblock : PendingBlock.IsBlock ⟨opener, body⟩ := ⟨hopener, hbody⟩
    have hprose : Region.afterAll .prose above = .prose := habove
    have hlines := hblock.classifyFrom []
    rw [List.append_nil, classifyFrom, List.append_nil] at hlines
    exact ⟨hblock, classifyFrom .prose above, by rw [classifyFrom_append, hprose, ← hlines]; rfl⟩

/-- **The pending block** is the opening fence with the lines of code since. -/
theorem pending_eq_some_iff :
    (run (classifyFrom .prose lines)).pending = some block ↔
      ∃ above, classifyFrom .prose lines = above ++ block.classified := by
  constructor
  · exact fun h => (exists_classified_of_pending h).2
  · rintro ⟨above, habove⟩
    rw [habove, pending_run_append_classified]

end Behind

/-- **A block is pending** exactly inside of a block of the page. -/
theorem isSome_pending_iff (lines : List Text) :
    (run (classifyFrom .prose lines)).pending.isSome ↔ regionBehind lines = .block := by
  have htracks := tracks_run lines
  generalize run (classifyFrom .prose lines) = state at htracks
  cases htracks with
  | prose habove => simp [habove]
  | block habove _ hopener hbody => simp [regionBehind_block habove hopener hbody]

/-! ## What a line meets -/

/-- Code and closing fences are the lines that start inside of a block. -/
theorem kindOf_regionBehind_iff (lines : List Text) (line : Text) :
    (regionBehind lines).kindOf line = .code ∨ (regionBehind lines).kindOf line = .fenceClose ↔
      regionBehind lines = .block := by
  rw [Region.kindOf_eq_code_iff, Region.kindOf_eq_fenceClose_iff]
  cases isFence line <;> simp

/-- **A closing fence behind some lines closes a block.** -/
structure Closes (above : List Line) (closer : Text) (block : PendingBlock) : Prop where
  /-- the block is pending -/
  pending : (run above).pending = some block
  /-- its lines and the closing fence stand one below the other on the page -/
  lines : ∃ before,
    above ++ [⟨closer, .fenceClose⟩] = before ++ (PagePart.closed block closer).lines
  /-- it has the two fences and no other -/
  fences : (block.lines ++ [closer]).countP isFence = 2
  /-- what it becomes is written, and nothing is pending any longer -/
  written : run (above ++ [⟨closer, .fenceClose⟩]) =
    ⟨(run above).written ++ block.close closer, none⟩

/-- A block and the fence that closes it have two fences. -/
theorem countP_isFence_closed {block : PendingBlock} (h : block.IsBlock) {closer : Text}
    (hcloser : isFence closer = true) : (block.lines ++ [closer]).countP isFence = 2 := by
  have hbody : block.body.countP isFence = 0 :=
    List.countP_eq_zero.mpr fun l hl => ne_true_of_eq_false (h.body l hl)
  simp [PendingBlock.lines, h.opener, hcloser, hbody]

/-- **Every closing fence closes a block.** -/
theorem exists_closes {lines : List Text} {closer : Text}
    (h : (regionBehind lines).kindOf closer = .fenceClose) :
    ∃ block, Closes (classifyFrom .prose lines) closer block := by
  obtain ⟨hregion, hcloser⟩ := Region.kindOf_eq_fenceClose_iff.mp h
  obtain ⟨block, hpending⟩ := Option.isSome_iff_exists.mp ((isSome_pending_iff lines).mpr hregion)
  obtain ⟨hblock, before, hlines⟩ := exists_classified_of_pending hpending
  refine ⟨block, hpending, ⟨before, ?_⟩, countP_isFence_closed hblock hcloser, ?_⟩
  · rw [hlines, List.append_assoc]
    rfl
  · rw [run_concat, step, hpending]
    rfl

/-- **The pending block stays in step with the kinds of the lines.**  Behind any lines of a page a
block is pending exactly when they end inside of one, and it is the opening fence with the lines of
code since.  So lines of code and closing fences always meet a pending block, and all other lines
meet none; and every closing fence closes a block that has its two fences. -/
theorem pending_blocks_stay_in_step (page : Text) :
    (∀ k, let lines := (classify page).take k
      ((run lines).pending.isSome ↔ regionBehind (lines.map Line.text) = .block) ∧
        ∀ block, (run lines).pending = some block ↔ ∃ above, lines = above ++ block.classified) ∧
    AtEachPlace (fun above line =>
      ((run above).pending.isSome ↔ line.kind = .code ∨ line.kind = .fenceClose) ∧
        (line.kind = .fenceClose → ∃ block, Closes above line.text block)) (classify page) := by
  refine ⟨fun k => ?_, ?_⟩
  · have htake := (classifyFrom_eq_append (List.take_append_drop k (classify page)).symm).1
    intro lines
    have hlines : classifyFrom .prose (lines.map Line.text) = lines := htake
    rw [← hlines, map_text_classifyFrom]
    exact ⟨isSome_pending_iff _, fun _ => pending_eq_some_iff⟩
  · rw [classify, atEachPlace_classifyFrom]
    intro above line below _
    exact ⟨(isSome_pending_iff above).trans (kindOf_regionBehind_iff above line).symm,
      exists_closes⟩

/-- A page with a closed block and, below it, a block that is left open. -/
def pageOfTwoBlocks : Text := "```rust\nx\n```\n```".toList

theorem pending_blocks_stay_in_step_pageOfTwoBlocks :
    ∃ block, Closes [⟨"```rust".toList, .fenceOpen⟩, ⟨"x".toList, .code⟩] "```".toList block := by
  have hlines : classify pageOfTwoBlocks =
      [⟨"```rust".toList, .fenceOpen⟩, ⟨"x".toList, .code⟩] ++
        ⟨"```".toList, .fenceClose⟩ :: [⟨"```".toList, .fenceOpen⟩] := by decide +kernel
  exact ((pending_blocks_stay_in_step pageOfTwoBlocks).2 _ _ _ hlines).2 rfl

end ImportedLines

end BookSite.Include
