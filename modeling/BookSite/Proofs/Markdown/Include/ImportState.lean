import BookSite.Markdown.Include.SnippetImport
import BookSite.Proofs.Markdown.Include.Directives
import BookSite.Proofs.Markdown.LineEdits

/-!
# Proofs/Markdown/Include/ImportState — the block that is pending between two lines

A page is taken in line by line.  The invariant that carries everything is `Tracks`: a block is
pending exactly inside of a block, it holds the fence that opened it and all lines since, and what
is written so far ends in the prose.
-/

namespace BookSite.Include

/-! ## Closing a block -/

theorem not_isFence_of_directive {s : Text} {r : Target × Nat} (h : directive s = some r) :
    isFence s = false := by
  cases s with
  | nil => cases h
  | cons c rest =>
    by_cases hc : c = '{'
    · subst hc
      have hstart : Text.trimStart ('{' :: rest) = '{' :: rest := rfl
      exact not_isFence_of_trimStart hstart (by decide)
    · rw [directive_eq_none_of_ne hc] at h
      cases h

theorem not_isFence_of_isDirectiveLine {line : Text} (h : isDirectiveLine line = true) :
    isFence (importDirectives line.trim) = false := by
  rw [isFence_importDirectives]
  unfold isDirectiveLine at h
  cases hdirective : directive line.trim with
  | none => simp [hdirective] at h
  | some r => exact not_isFence_of_directive hdirective

namespace PendingBlock

variable {block : PendingBlock} {closer : Text}

theorem close_of_onlyDirectives (h : block.onlyDirectives = true) :
    block.close closer =
      (block.body.filter isDirectiveLine).map fun line => importDirectives line.trim := if_pos h

theorem close_of_not_onlyDirectives (h : block.onlyDirectives = false) :
    block.close closer = (block.lines ++ [closer]).map importDirectives :=
  if_neg (by simp [h])

theorem close_ne_nil (block : PendingBlock) (closer : Text) : block.close closer ≠ [] := by
  cases h : block.onlyDirectives with
  | false => simp [close_of_not_onlyDirectives h]
  | true =>
    rw [close_of_onlyDirectives h]
    rw [onlyDirectives, Bool.and_eq_true, List.any_eq_true] at h
    obtain ⟨⟨line, hline, hdirective⟩, -⟩ := h
    have hmem : line ∈ block.body.filter isDirectiveLine :=
      List.mem_filter.mpr ⟨hline, hdirective⟩
    exact fun hnil => List.ne_nil_of_mem hmem (List.map_eq_nil_iff.mp hnil)

theorem newline_not_mem_close (h : ∀ l ∈ block.lines, '\n' ∉ l) (hcloser : '\n' ∉ closer) :
    ∀ l ∈ block.close closer, '\n' ∉ l := by
  intro l hl
  unfold close at hl
  split at hl
  · obtain ⟨line, hline, rfl⟩ := List.mem_map.mp hl
    have hline' := h line (List.mem_cons_of_mem _ (List.mem_filter.mp hline).1)
    exact newline_not_mem_importDirectives fun hmem => hline' (line.trim_isInfix.mem hmem)
  · obtain ⟨line, hline, rfl⟩ := List.mem_map.mp hl
    refine newline_not_mem_importDirectives ?_
    rcases List.mem_append.mp hline with hline | hline
    · exact h line hline
    · rwa [List.mem_singleton.mp hline]

/-- **A closed block** leads back into the prose, unwrapped or not. -/
theorem afterAll_close (hopener : isFence block.opener = true)
    (hbody : ∀ l ∈ block.body, isFence l = false) (hcloser : isFence closer = true) :
    Region.prose.afterAll (block.close closer) = .prose := by
  cases h : block.onlyDirectives with
  | true =>
    rw [close_of_onlyDirectives h]
    refine Region.afterAll_of_forall_not_isFence fun l hl => ?_
    obtain ⟨line, hline, rfl⟩ := List.mem_map.mp hl
    exact not_isFence_of_isDirectiveLine (List.mem_filter.mp hline).2
  | false =>
    have hlines : Region.prose.afterAll block.lines = .block := by
      rw [lines, Region.afterAll_cons, Region.after_of_isFence hopener,
        Region.afterAll_of_forall_not_isFence hbody]
      rfl
    rw [close_of_not_onlyDirectives h,
      Region.afterAll_map fun l _ => isFence_importDirectives l, Region.afterAll_append, hlines]
    exact Region.after_of_isFence hcloser

end PendingBlock

/-! ## The state between two lines -/

namespace ImportedLines

/-- **The state behind some lines.**  In the prose nothing is pending; in a block its opening fence
and all lines since are.  What is written ends in the prose. -/
inductive Tracks : List Text → ImportedLines → Prop
  | prose {above written : List Text} (habove : regionBehind above = .prose)
      (hwritten : regionBehind written = .prose) : Tracks above ⟨written, none⟩
  | block {above written body : List Text} {opener : Text} (habove : regionBehind above = .prose)
      (hwritten : regionBehind written = .prose) (hopener : isFence opener = true)
      (hbody : ∀ l ∈ body, isFence l = false) :
      Tracks (above ++ opener :: body) ⟨written, some ⟨opener, body⟩⟩

theorem written_write (state : ImportedLines) (lines : List Text) :
    (state.write lines).written = state.written ++ lines := rfl

theorem regionBehind_block {above body : List Text} {opener : Text}
    (habove : regionBehind above = .prose) (hopener : isFence opener = true)
    (hbody : ∀ l ∈ body, isFence l = false) : regionBehind (above ++ opener :: body) = .block := by
  rw [regionBehind_append, habove, Region.afterAll_cons, Region.after_of_isFence hopener,
    Region.afterAll_of_forall_not_isFence hbody]
  rfl

/-- **One line more**, classified by the region it starts in. -/
theorem Tracks.step {above : List Text} {state : ImportedLines} (h : Tracks above state)
    (line : Text) :
    Tracks (above ++ [line]) (state.step ⟨line, (regionBehind above).kindOf line⟩) := by
  cases h with
  | prose habove hwritten =>
    rw [habove]
    cases hfence : isFence line with
    | true =>
      rw [Region.kindOf_prose_of_isFence hfence]
      exact .block habove hwritten hfence (by simp)
    | false =>
      rw [Region.kindOf_prose_of_not_isFence hfence]
      refine .prose ?_ ?_
      · rw [regionBehind_append, habove]
        exact Region.after_of_not_isFence hfence
      · rw [regionBehind_append, hwritten]
        exact Region.after_of_not_isFence (by rw [isFence_importDirectives, hfence])
  | block habove hwritten hopener hbody =>
    have hregion := regionBehind_block habove hopener hbody
    rw [hregion]
    cases hfence : isFence line with
    | true =>
      rw [Region.kindOf_block_of_isFence hfence]
      refine .prose ?_ ?_
      · rw [regionBehind_append, hregion]
        exact Region.after_of_isFence hfence
      · rw [written_write, regionBehind_append, hwritten]
        exact PendingBlock.afterAll_close hopener hbody hfence
    | false =>
      rw [Region.kindOf_block_of_not_isFence hfence, List.append_assoc]
      refine .block habove hwritten hopener fun l hl => ?_
      rcases List.mem_append.mp hl with hl | hl
      · exact hbody l hl
      · rwa [List.mem_singleton.mp hl]

theorem run_concat (lines : List Line) (line : Line) :
    run (lines ++ [line]) = (run lines).step line := List.foldl_concat ..

/-- **The state stays in step** with the regions of the page. -/
theorem tracks_run (lines : List Text) : Tracks lines (run (classifyFrom .prose lines)) := by
  induction lines using List.reverseRecOn with
  | nil => exact .prose rfl rfl
  | append_singleton lines line ih =>
    rw [classifyFrom_concat, run_concat]
    exact ih.step line

/-- Lines written early stay in front. -/
theorem finish_foldl_step (before written : List Text) (pending : Option PendingBlock)
    (lines : List Line) :
    (lines.foldl step ⟨before ++ written, pending⟩).finish =
      before ++ (lines.foldl step ⟨written, pending⟩).finish := by
  induction lines generalizing written pending with
  | nil => simp [finish]
  | cons line lines ih =>
    have hstep : step ⟨before ++ written, pending⟩ line =
        ⟨before ++ (step ⟨written, pending⟩ line).written,
          (step ⟨written, pending⟩ line).pending⟩ := by
      unfold step
      cases line.kind <;> cases pending <;> simp [write]
    rw [List.foldl_cons, List.foldl_cons, hstep, ih]

/-- Lines of code go to the pending block. -/
theorem foldl_step_code (written : List Text) (block : PendingBlock) (body : List Text) :
    (body.map fun line => ⟨line, .code⟩).foldl step ⟨written, some block⟩ =
      ⟨written, some { block with body := block.body ++ body }⟩ := by
  induction body generalizing block with
  | nil => simp
  | cons line body ih =>
    rw [List.map_cons, List.foldl_cons]
    exact (ih _).trans (by simp)

/-- Lines inside of a block go to the pending one. -/
theorem foldl_step_block {body : List Text} (hbody : ∀ l ∈ body, isFence l = false)
    (written : List Text) (block : PendingBlock) :
    (classifyFrom .block body).foldl step ⟨written, some block⟩ =
      ⟨written, some { block with body := block.body ++ body }⟩ := by
  rw [classifyFrom_of_forall_not_isFence .block hbody]
  exact foldl_step_code written block body

/-- Lines without fence that follow a pending block are added to it. -/
theorem run_append_block {above body : List Text} {written : List Text} {block : PendingBlock}
    (hrun : run (classifyFrom .prose above) = ⟨written, some block⟩)
    (hregion : regionBehind above = .block) (hbody : ∀ l ∈ body, isFence l = false)
    (below : List Text) :
    run (classifyFrom .prose (above ++ (body ++ below))) =
      (classifyFrom .block below).foldl step
        ⟨written, some { block with body := block.body ++ body }⟩ := by
  have hblock : Region.afterAll .prose above = .block := hregion
  rw [classifyFrom_append, hblock, classifyFrom_append,
    Region.afterAll_of_forall_not_isFence hbody, run, List.foldl_append, List.foldl_append, ← run,
    hrun, foldl_step_block hbody]

end ImportedLines

end BookSite.Include
