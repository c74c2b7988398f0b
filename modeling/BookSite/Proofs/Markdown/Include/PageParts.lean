import BookSite.Proofs.Markdown.Translation

/-!
# Proofs/Markdown/Include/PageParts — a page as prose, closed blocks and a block left open

The lines of a page fall into **parts**: single lines of prose, blocks that a fence closes, and
perhaps one block at the end that nothing closes.  Imports go by parts: a closed block of directives
becomes their imports, and in all other parts every line stays where it is.  So the parts say line
by line what an imported page holds, and of which kind each of its lines is.
-/

namespace BookSite

open Include

/-! ## The parts of a page -/

/-- **A part of a page.** -/
inductive PagePart where
  /-- a line outside of all blocks -/
  | prose (line : Text)
  /-- a block with the fence that closes it -/
  | closed (block : PendingBlock) (closer : Text)
  /-- a block that nothing closes -/
  | unclosed (block : PendingBlock)
  deriving DecidableEq, Repr

namespace Include.PendingBlock

/-- The lines of a block with their kinds. -/
def classified (block : PendingBlock) : List Line :=
  ⟨block.opener, .fenceOpen⟩ :: block.body.map fun line => ⟨line, .code⟩

/-- The region of a line with this block, or none, pending above it. -/
def regionOf : Option PendingBlock → Region
  | none => .prose
  | some _ => .block

/-- A block of a page: a fence and lines that are none. -/
structure IsBlock (block : PendingBlock) : Prop where
  opener : isFence block.opener = true
  body : ∀ l ∈ block.body, isFence l = false

theorem IsBlock.concat {block : PendingBlock} (h : block.IsBlock) {line : Text}
    (hline : isFence line = false) : IsBlock { block with body := block.body ++ [line] } where
  opener := h.opener
  body := List.forall_mem_append.mpr ⟨h.body, List.forall_mem_singleton.mpr hline⟩

/-- The lines of a block are classified so, whatever follows. -/
theorem IsBlock.classifyFrom {block : PendingBlock} (h : block.IsBlock) (below : List Text) :
    classifyFrom .prose (block.lines ++ below) =
      block.classified ++ BookSite.classifyFrom .block below := by
  rw [lines, List.cons_append, BookSite.classifyFrom, Region.kindOf_prose_of_isFence h.opener,
    Region.after_of_isFence h.opener, Region.toggle, classifyFrom_append,
    classifyFrom_of_forall_not_isFence .block h.body,
    Region.afterAll_of_forall_not_isFence h.body]
  rfl

end Include.PendingBlock

namespace PagePart

/-- The lines of a part with their kinds. -/
def lines : PagePart → List Line
  | prose line => [⟨line, .text⟩]
  | closed block closer => block.classified ++ [⟨closer, .fenceClose⟩]
  | unclosed block => block.classified

/-- The parts of lines that stand below a pending block, or below none. -/
def partsFrom : Option PendingBlock → List Text → List PagePart
  | none, [] => []
  | some block, [] => [unclosed block]
  | none, line :: rest =>
    if isFence line then partsFrom (some ⟨line, []⟩) rest else prose line :: partsFrom none rest
  | some block, line :: rest =>
    if isFence line then closed block line :: partsFrom none rest
    else partsFrom (some { block with body := block.body ++ [line] }) rest

end PagePart

open PagePart

/-- **The parts of a page.** -/
def pageParts (page : Text) : List PagePart := partsFrom none page.segments

/-- Nothing is lost: the parts have the lines of the page, with their kinds. -/
theorem flatMap_lines_partsFrom (pending : Option PendingBlock) (lines : List Text) :
    (partsFrom pending lines).flatMap PagePart.lines =
      (pending.map PendingBlock.classified).getD [] ++
        classifyFrom (PendingBlock.regionOf pending) lines := by
  fun_induction partsFrom pending lines with
  | case1 => rfl
  | case2 block => simp [PagePart.lines, classifyFrom]
  | case3 line rest hfence ih =>
    simp [ih, PendingBlock.regionOf, PendingBlock.classified, classifyFrom,
      Region.kindOf_prose_of_isFence hfence, Region.after_of_isFence hfence, Region.toggle]
  | case4 line rest hfence ih =>
    rw [Bool.not_eq_true] at hfence
    simp [ih, PendingBlock.regionOf, PagePart.lines, classifyFrom,
      Region.kindOf_prose_of_not_isFence hfence, Region.after_of_not_isFence hfence]
  | case5 block line rest hfence ih =>
    simp [ih, PendingBlock.regionOf, PagePart.lines, classifyFrom,
      Region.kindOf_block_of_isFence hfence, Region.after_of_isFence hfence, Region.toggle]
  | case6 block line rest hfence ih =>
    rw [Bool.not_eq_true] at hfence
    simp [ih, PendingBlock.regionOf, PendingBlock.classified, classifyFrom,
      Region.kindOf_block_of_not_isFence hfence, Region.after_of_not_isFence hfence]

theorem flatMap_lines_pageParts (page : Text) :
    (pageParts page).flatMap PagePart.lines = classify page :=
  flatMap_lines_partsFrom none page.segments

/-! ## Imports by parts -/

namespace Include

/-- **The import of a directive line**: a line that is one directive and nothing else but blanks. -/
def lineImport? (line : Text) : Option Text :=
  match directive line.trim with
  | some (target, n) => if n = line.trim.length then some target.toImport else none
  | none => none

theorem isDirectiveLine_eq (line : Text) :
    isDirectiveLine line = (lineImport? line).isSome := by
  unfold isDirectiveLine lineImport?
  cases directive line.trim with
  | none => rfl
  | some r => by_cases h : r.2 = line.trim.length <;> simp [h]

/-- A directive line without its blanks becomes its import. -/
theorem importDirectives_trim {line imported : Text} (h : lineImport? line = some imported) :
    importDirectives line.trim = imported := by
  unfold lineImport? at h
  split at h
  · rename_i target n hdirective
    split at h
    · rename_i hlength
      cases h
      obtain ⟨c, rest, hline⟩ : ∃ c rest, line.trim = c :: rest := by
        cases hline : line.trim with
        | nil => rw [hline] at hdirective; cases hdirective
        | cons c rest => exact ⟨c, rest, rfl⟩
      rw [hline] at hdirective hlength ⊢
      have hrest : rest.drop (n - 1) = [] := by
        rw [List.length_cons] at hlength
        rw [List.drop_eq_nil_iff]
        omega
      rw [importDirectives, Text.replaceTokens_cons_of_some hdirective, hrest]
      simp
    · cases h
  · cases h

/-- **A block of directives**: at least one directive line, and besides such lines only blank
ones. -/
def OnlyDirectives (body : List Text) : Prop :=
  (∃ l ∈ body, (lineImport? l).isSome) ∧ ∀ l ∈ body, l.allBlank ∨ (lineImport? l).isSome

instance (body : List Text) : Decidable (OnlyDirectives body) :=
  inferInstanceAs (Decidable (_ ∧ _))

theorem PendingBlock.onlyDirectives_iff (block : PendingBlock) :
    block.onlyDirectives = true ↔ OnlyDirectives block.body := by
  simp [onlyDirectives, OnlyDirectives, isDirectiveLine_eq]

theorem map_importDirectives_filter (body : List Text) :
    (body.filter isDirectiveLine).map (fun line => importDirectives line.trim) =
      body.filterMap lineImport? := by
  induction body with
  | nil => rfl
  | cons line body ih =>
    cases h : lineImport? line with
    | none =>
      rw [List.filter_cons_of_neg (by simp [isDirectiveLine_eq, h]), List.filterMap_cons_none h, ih]
    | some imported =>
      rw [List.filter_cons_of_pos (by simp [isDirectiveLine_eq, h]), List.filterMap_cons_some h,
        List.map_cons, importDirectives_trim h, ih]

end Include

/-- The line with its directives replaced where they stand. -/
def Line.withImports (line : Line) : Line := { line with text := importDirectives line.text }

/-- **The lines a part becomes**, with their kinds.  A closed block of directives leaves their
imports, which are prose; all other lines stay in their places and are of the kind they were. -/
def PagePart.importedLines (part : PagePart) : List Line :=
  match part with
  | closed block _ =>
    if OnlyDirectives block.body then
      (block.body.filterMap lineImport?).map fun line => ⟨line, .text⟩
    else part.lines.map Line.withImports
  | _ => part.lines.map Line.withImports

/-! ## The imported page -/

namespace PagePart

theorem importedLines_prose (line : Text) :
    (prose line).importedLines = [⟨importDirectives line, .text⟩] := rfl

theorem importedLines_unclosed (block : PendingBlock) :
    (unclosed block).importedLines = block.classified.map Line.withImports := rfl

/-- Replacing directives in place leaves every line of the kind it was. -/
theorem classifyFrom_map_importDirectives (r : Region) (lines : List Text) :
    classifyFrom r (lines.map importDirectives) = (classifyFrom r lines).map Line.withImports := by
  induction lines generalizing r with
  | nil => rfl
  | cons line rest ih =>
    have hfence := isFence_importDirectives line
    rw [List.map_cons, classifyFrom, classifyFrom, List.map_cons, Region.kindOf_congr hfence,
      Region.after_congr hfence, ih]
    rfl

theorem map_text_map_withImports (lines : List Line) :
    (lines.map Line.withImports).map Line.text = (lines.map Line.text).map importDirectives := by
  simp [Line.withImports]

theorem map_text_classified (block : PendingBlock) :
    block.classified.map Line.text = block.lines := by
  rw [PendingBlock.classified, List.map_cons, map_text_ofKind]
  rfl

/-- The lines a closed block becomes are those that closing it writes. -/
theorem map_text_importedLines_closed (block : PendingBlock) (closer : Text) :
    (closed block closer).importedLines.map Line.text = block.close closer := by
  rw [importedLines]
  split
  · rename_i honly
    rw [PendingBlock.close_of_onlyDirectives ((PendingBlock.onlyDirectives_iff block).mpr honly),
      map_importDirectives_filter, map_text_ofKind]
  · rename_i honly
    have hnot : block.onlyDirectives = false := by
      rw [Bool.eq_false_iff]
      exact fun h => honly ((PendingBlock.onlyDirectives_iff block).mp h)
    rw [PendingBlock.close_of_not_onlyDirectives hnot, map_text_map_withImports, lines,
      List.map_append, map_text_classified]
    rfl

/-- **A run over lines** writes what their parts become. -/
theorem finish_foldl_step_partsFrom (written : List Text) (pending : Option PendingBlock)
    (lines : List Text) :
    ((classifyFrom (PendingBlock.regionOf pending) lines).foldl ImportedLines.step
        ⟨written, pending⟩).finish =
      written ++ ((partsFrom pending lines).flatMap importedLines).map Line.text := by
  fun_induction partsFrom pending lines generalizing written with
  | case1 => rfl
  | case2 block =>
    have hlines : block.abandon = (unclosed block).importedLines.map Line.text := by
      rw [importedLines_unclosed, map_text_map_withImports, map_text_classified]
      rfl
    simp [classifyFrom, ImportedLines.finish, hlines]
  | case3 line rest hfence ih =>
    rw [classifyFrom, List.foldl_cons, PendingBlock.regionOf, Region.kindOf_prose_of_isFence hfence,
      Region.after_of_isFence hfence]
    exact ih written
  | case4 line rest hfence ih =>
    rw [Bool.not_eq_true] at hfence
    rw [classifyFrom, List.foldl_cons, PendingBlock.regionOf,
      Region.kindOf_prose_of_not_isFence hfence, Region.after_of_not_isFence hfence]
    refine (ih (written ++ [importDirectives line])).trans ?_
    simp [importedLines_prose]
  | case5 block line rest hfence ih =>
    rw [classifyFrom, List.foldl_cons, PendingBlock.regionOf, Region.kindOf_block_of_isFence hfence,
      Region.after_of_isFence hfence]
    refine (ih (written ++ block.close line)).trans ?_
    rw [List.flatMap_cons, List.map_append, map_text_importedLines_closed, List.append_assoc]
  | case6 block line rest hfence ih =>
    rw [Bool.not_eq_true] at hfence
    rw [classifyFrom, List.foldl_cons, PendingBlock.regionOf,
      Region.kindOf_block_of_not_isFence hfence, Region.after_of_not_isFence hfence]
    exact ih written

theorem importLines_eq (lines : List Text) :
    importLines lines = ((partsFrom none lines).flatMap importedLines).map Line.text :=
  finish_foldl_step_partsFrom [] none lines

/-! ### Kinds of the imported lines -/

theorem not_isFence_of_lineImport? {line imported : Text} (h : lineImport? line = some imported) :
    isFence imported = false := by
  rw [← importDirectives_trim h]
  exact not_isFence_of_isDirectiveLine (by rw [isDirectiveLine_eq, h]; rfl)

theorem classifyFrom_importedLines_closed {block : PendingBlock} (h : block.IsBlock) {closer : Text}
    (hcloser : isFence closer = true) :
    classifyFrom .prose ((closed block closer).importedLines.map Line.text) =
      (closed block closer).importedLines := by
  rw [importedLines]
  split
  · have hfence : ∀ l ∈ block.body.filterMap lineImport?, isFence l = false := by
      intro l hl
      obtain ⟨line, -, himport⟩ := List.mem_filterMap.mp hl
      exact not_isFence_of_lineImport? himport
    rw [map_text_ofKind]
    exact classifyFrom_of_forall_not_isFence .prose hfence
  · have hlines : classifyFrom .prose (block.lines ++ [closer]) = (closed block closer).lines := by
      rw [h.classifyFrom, classifyFrom, Region.kindOf_block_of_isFence hcloser]
      rfl
    rw [← hlines, map_text_map_withImports, map_text_classifyFrom,
      classifyFrom_map_importDirectives]

/-- **The imported lines are of the kinds that their parts say.** -/
theorem classifyFrom_importedLines {pending : Option PendingBlock}
    (hpending : ∀ block, pending = some block → block.IsBlock) (lines : List Text) :
    classifyFrom .prose (((partsFrom pending lines).flatMap importedLines).map Line.text) =
      (partsFrom pending lines).flatMap importedLines := by
  fun_induction partsFrom pending lines with
  | case1 => rfl
  | case2 block =>
    have hblock := (hpending block rfl).classifyFrom []
    rw [List.append_nil, classifyFrom, List.append_nil] at hblock
    rw [List.flatMap_singleton, importedLines_unclosed, map_text_map_withImports,
      map_text_classified, classifyFrom_map_importDirectives, hblock]
  | case3 line rest hfence ih =>
    refine ih fun block hblock => ?_
    cases hblock
    exact ⟨hfence, by simp⟩
  | case4 line rest hfence ih =>
    have hkept : isFence (importDirectives line) = false := by
      rwa [isFence_importDirectives, ← Bool.not_eq_true]
    rw [List.flatMap_cons, importedLines_prose, List.singleton_append, List.map_cons, classifyFrom,
      Region.kindOf_prose_of_not_isFence hkept, Region.after_of_not_isFence hkept, ih (by simp)]
  | case5 block line rest hfence ih =>
    have hblock := hpending block rfl
    have hregion : Region.afterAll .prose
        ((closed block line).importedLines.map Line.text) = .prose := by
      rw [map_text_importedLines_closed]
      exact PendingBlock.afterAll_close hblock.opener hblock.body hfence
    rw [List.flatMap_cons, List.map_append, classifyFrom_append,
      classifyFrom_importedLines_closed hblock hfence, hregion, ih (by simp)]
  | case6 block line rest hfence ih =>
    refine ih fun block' hblock' => ?_
    cases hblock'
    exact (hpending block rfl).concat (by simpa using hfence)

end PagePart

section Page

variable (page : Text)

theorem segments_importPage :
    (importPage page).segments = ((pageParts page).flatMap importedLines).map Line.text :=
  (segments_importPage_eq page).trans (importLines_eq page.segments)

/-- **The imported page, classified**, is what the parts of the page become. -/
theorem classify_importPage :
    classify (importPage page) = (pageParts page).flatMap importedLines := by
  rw [classify, segments_importPage]
  exact classifyFrom_importedLines (by simp) page.segments

end Page

example :
    importPage ("```\n\x7b\x7b#include a.rs\x7d\x7d\n\n```\n".toList ++
      "```\nx \x7b\x7b#include b.rs\x7d\x7d".toList) =
    "<<< a.rs\n```\nx <<< b.rs".toList := by decide +kernel

/-! ## Pages one after the other -/

/-- Lines that end in the prose do not matter to those below. -/
theorem importLines_append {above : List Text} (hregion : regionBehind above = .prose)
    (below : List Text) :
    importLines (above ++ below) = importLines above ++ importLines below := by
  have htracks := ImportedLines.tracks_run above
  have hbehind : Region.afterAll .prose above = .prose := hregion
  generalize hrun : ImportedLines.run (classifyFrom .prose above) = state at htracks
  cases htracks with
  | prose habove hwritten =>
    rename_i written
    have hlater := ImportedLines.finish_foldl_step written [] none (classifyFrom .prose below)
    rw [List.append_nil] at hlater
    rw [importLines, classifyFrom_append, hbehind, ImportedLines.run, List.foldl_append,
      ← ImportedLines.run, hrun, hlater, importLines, importLines, hrun]
    simp [ImportedLines.finish, ImportedLines.run, ImportedLines.start]
  | block habove hwritten hopener hbody =>
    rw [ImportedLines.regionBehind_block habove hopener hbody] at hregion
    cases hregion

theorem importPage_append {a : Text} (hregion : regionBehind a.segments = .prose) (b : Text) :
    importPage (a ++ '\n' :: b) = importPage a ++ '\n' :: importPage b := by
  rw [importPage_eq, Text.segments_append_newline, importLines_append hregion,
    ← segments_importPage_eq a, ← segments_importPage_eq b, ← Text.segments_append_newline,
    Text.unlines_segments]

/-! ## The stage -/

/-- **Imports go by the parts of a page.**  What the stage makes of a page is what its parts become,
line by line and kind by kind, so a block that is open at the end of one is open at the end of the
other.  Pages of which the first one ends in the prose are changed one after the other.  And a page
without directive, which the stage passes on at once, would come out of the parts unchanged. -/
theorem imports_go_by_parts (fs : FileSystem) (path? : Option Path) :
    (∀ page, ∃ out, (Stage.includes .translate).apply fs path? page = .ok out ∧
      (pageParts page).flatMap PagePart.lines = classify page ∧
      out = Text.unlines (((pageParts page).flatMap importedLines).map Line.text) ∧
      classify out = (pageParts page).flatMap importedLines ∧
      regionBehind out.segments = regionBehind page.segments) ∧
    (∀ a b : Text, regionBehind a.segments = .prose →
      ∃ outA outB, (Stage.includes .translate).apply fs path? a = .ok outA ∧
        (Stage.includes .translate).apply fs path? b = .ok outB ∧
        (Stage.includes .translate).apply fs path? (a ++ '\n' :: b) =
          .ok (outA ++ '\n' :: outB)) ∧
    ∀ page, hasDirective page = false →
      (Stage.includes .translate).apply fs path? page = .ok page ∧ importPage page = page := by
  refine ⟨fun page => ?_, fun a b hregion => ?_, fun page hnone => ?_⟩
  · have hsegments := segments_importPage page
    refine ⟨importPage page, apply_includes_translate fs path? page, flatMap_lines_pageParts page,
      ?_, classify_importPage page, ?_⟩
    · rw [← hsegments, Text.unlines_segments]
    · rw [hsegments, pageParts, ← importLines_eq]
      exact regionBehind_importLines page.segments
  · refine ⟨importPage a, importPage b, apply_includes_translate fs path? a,
      apply_includes_translate fs path? b, ?_⟩
    rw [apply_includes_translate, importPage_append hregion]
  · have hsame := importPage_eq_self hnone
    refine ⟨?_, hsame⟩
    rw [apply_includes_translate, hsame]

/-- A page with a closed block of directives and a directive in its prose. -/
def pageOfDirectives : Text :=
  "```\n\x7b\x7b#include a.rs:2\x7d\x7d\n\n```\nSee \x7b\x7b#include b.rs\x7d\x7d.".toList

/-- A page that ends in a block of directives. -/
def pageLeftOpen : Text := "```rust\n\x7b\x7b#include c.rs::4\x7d\x7d".toList

theorem imports_go_by_parts_twoPages :
    regionBehind pageOfDirectives.segments = .prose ∧
      (∃ outA outB, (Stage.includes .translate).apply .empty none pageOfDirectives = .ok outA ∧
        (Stage.includes .translate).apply .empty none pageLeftOpen = .ok outB ∧
        (Stage.includes .translate).apply .empty none
          (pageOfDirectives ++ '\n' :: pageLeftOpen) = .ok (outA ++ '\n' :: outB)) ∧
      hasDirective "```\nlet x = 1;".toList = false ∧
      (Stage.includes .translate).apply .empty none "```\nlet x = 1;".toList =
        .ok "```\nlet x = 1;".toList ∧
      importPage "```\nlet x = 1;".toList = "```\nlet x = 1;".toList := by
  have hprose : regionBehind pageOfDirectives.segments = .prose := by decide +kernel
  have hnone : hasDirective "```\nlet x = 1;".toList = false := by decide +kernel
  have hstage := imports_go_by_parts .empty none
  exact ⟨hprose, hstage.2.1 pageOfDirectives pageLeftOpen hprose, hnone, hstage.2.2 _ hnone⟩

end BookSite
