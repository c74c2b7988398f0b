import BookSite.Proofs.Markdown.Include.PageParts
import BookSite.Proofs.Markdown.LeftFlags
import BookSite.Proofs.Markdown.PlainCode

/-!
# Proofs/Markdown/StageOrder — the first stages in any order

Showing hidden lines changes lines of code, and dropping playground flags changes fences that open a
block.  Neither of them changes what is a fence, so they do not meet.  Imports do meet hidden lines:
they rewrite parts of them, and take the fences off whole blocks.  But the mark of a hidden line
stands in front of all its directives, an import begins with nothing that decides what the comment
looks like, and no hidden line is a directive line.
-/

namespace BookSite

open Include PagePart

/-! ## Edits of the lines of a kind -/

section EditLines

variable {kind kind' : LineKind} {edit? edit?' : Text → Option Text}
  (hfences : KeepsFences (editLine kind edit?))
  (hnewline : ∀ l l', '\n' ∉ l → edit? l = some l' → '\n' ∉ l') (page : Text)

theorem editLines_eq : editLines kind edit? page =
    Text.unlines ((classify page).map (editLine kind edit?)) := rfl

include hfences hnewline

/-- **Edits of different kinds of lines** may change places. -/
theorem editLines_comm (hne : kind ≠ kind') (hfences' : KeepsFences (editLine kind' edit?'))
    (hnewline' : ∀ l l', '\n' ∉ l → edit?' l = some l' → '\n' ∉ l') :
    editLines kind edit? (editLines kind' edit?' page) =
      editLines kind' edit?' (editLines kind edit? page) := by
  rw [editLines_eq, classify_editLines hfences' hnewline', List.map_map, editLines_eq,
    classify_editLines hfences hnewline, List.map_map]
  refine congrArg Text.unlines (List.map_congr_left fun line _ => ?_)
  simp only [Function.comp_apply, editLine]
  by_cases hkind : line.kind = kind
  · rw [if_pos hkind, if_pos hkind, if_neg (hkind ▸ hne), if_neg (hkind ▸ hne)]
  · rw [if_neg hkind, if_neg hkind]

/-- **An edit that refuses what it has made** changes nothing a second time. -/
theorem editLines_editLines (hrefuse : ∀ l l', edit? l = some l' → edit? l' = none) :
    editLines kind edit? (editLines kind edit? page) = editLines kind edit? page := by
  refine editLines_eq_self fun line hline hkind => ?_
  rw [classify_editLines hfences hnewline] at hline
  obtain ⟨old, -, rfl⟩ := List.mem_map.mp hline
  rw [editLine, if_pos hkind]
  cases hedit : edit? old.text with
  | none => exact hedit
  | some new => exact hrefuse _ _ hedit

end EditLines

theorem revealLine?_of_revealLine? {line comment : Text} (h : revealLine? line = some comment) :
    revealLine? comment = none := by
  obtain ⟨more, hcomment⟩ := trimStart_of_revealLine? h
  rw [revealLine?_eq_none_iff]
  rintro ⟨rest, hmark, -⟩
  rw [hcomment] at hmark
  cases hmark

theorem plainFence?_of_plainFence? {line fence : Text} (h : plainFence? line = some fence) :
    plainFence? fence = none :=
  plainFence?_eq_none_iff.mpr (not_hasPlaygroundFlag_of_plainFence? h)

theorem revealHiddenLines_dropPlaygroundFlags (page : Text) :
    revealHiddenLines (dropPlaygroundFlags page) = dropPlaygroundFlags (revealHiddenLines page) :=
  editLines_comm keepsFences_revealLine (fun _ _ => newline_not_mem_of_revealLine?) page (by decide)
    keepsFences_plainFence fun _ _ => newline_not_mem_of_plainFence?

theorem revealHiddenLines_revealHiddenLines (page : Text) :
    revealHiddenLines (revealHiddenLines page) = revealHiddenLines page :=
  editLines_editLines keepsFences_revealLine (fun _ _ => newline_not_mem_of_revealLine?) page
    fun _ _ => revealLine?_of_revealLine?

theorem dropPlaygroundFlags_dropPlaygroundFlags (page : Text) :
    dropPlaygroundFlags (dropPlaygroundFlags page) = dropPlaygroundFlags page :=
  editLines_editLines keepsFences_plainFence (fun _ _ => newline_not_mem_of_plainFence?) page
    fun _ _ => plainFence?_of_plainFence?

/-! ## A hidden line with directives -/

/-- What a comment says behind its slashes, for what follows the mark of a hidden line. -/
def commentBody? : Text → Option Text
  | [] => some []
  | c :: rest =>
    if c = '!' ∨ c = '[' then none
    else some (if isBlank c then c :: rest else ' ' :: c :: rest)

/-- **A line with the mark of hidden lines**, and its comment. -/
theorem revealLine?_of_trimStart {line rest : Text} (h : line.trimStart = '#' :: rest) :
    revealLine? line =
      (commentBody? rest).map fun body => line.leadingBlanks ++ '/' :: '/' :: body := by
  rw [revealLine?, h]
  cases rest with
  | nil => rfl
  | cons c rest =>
    by_cases hmark : c = '!' ∨ c = '['
    · rw [commentBody?, if_pos hmark]
      obtain rfl | rfl := hmark <;> rfl
    · rw [commentBody?, if_neg hmark]
      rw [not_or] at hmark
      simp [hmark.1, hmark.2]

theorem revealed_of_trimStart {line : Text} (h : ∀ rest, line.trimStart ≠ '#' :: rest) :
    revealed line = line := by
  have hnone : revealLine? line = none :=
    revealLine?_eq_none_iff.mpr fun ⟨rest, hmark, _⟩ => h rest hmark
  rw [revealed, hnone, Option.getD_none]

/-- **What a comment says is told by its first character**, and imports change that to nothing that
matters. -/
theorem commentBody?_importDirectives (rest : Text) :
    commentBody? (importDirectives rest) = (commentBody? rest).map importDirectives := by
  cases rest with
  | nil => rfl
  | cons c rest =>
    by_cases hbrace : c = '{'
    · subst hbrace
      obtain ⟨d, more, himport, hd⟩ := importDirectives_brace rest
      have hbody : commentBody? (d :: more) = some (' ' :: d :: more) := by
        obtain rfl | rfl := hd <;> rfl
      have hbefore : commentBody? ('{' :: rest) = some (' ' :: '{' :: rest) := rfl
      rw [himport, hbody, hbefore, Option.map_some, importDirectives_cons_of_ne (by decide),
        himport]
    · rw [importDirectives_cons_of_ne hbrace, commentBody?, commentBody?]
      split
      · rfl
      · split
        · rw [Option.map_some, importDirectives_cons_of_ne hbrace]
        · rw [Option.map_some, importDirectives_cons_of_ne (by decide),
            importDirectives_cons_of_ne hbrace]

theorem importDirectives_append_blanks {blanks : Text} (hblanks : ∀ c ∈ blanks, isBlank c = true)
    (t : Text) : importDirectives (blanks ++ t) = blanks ++ importDirectives t := by
  induction blanks with
  | nil => rfl
  | cons c blanks ih =>
    obtain ⟨hc, hblanks⟩ := List.forall_mem_cons.mp hblanks
    have hbrace : c ≠ '{' := by
      rintro rfl
      cases hc
    rw [List.cons_append, importDirectives_cons_of_ne hbrace, ih hblanks, List.cons_append]

/-- Imports leave the indentation of a line alone. -/
theorem leadingBlanks_importDirectives (line : Text) :
    (importDirectives line).leadingBlanks = line.leadingBlanks := by
  have hline := Text.leadingBlanks_append_trimStart (importDirectives line)
  have hcut : importDirectives line = line.leadingBlanks ++ importDirectives line.trimStart := by
    rw [← importDirectives_append_blanks fun _ => Text.isBlank_of_mem_leadingBlanks,
      Text.leadingBlanks_append_trimStart]
  rw [trimStart_importDirectives] at hline
  exact List.append_cancel_right (hline.trans hcut)

/-- **Hidden lines and directives do not meet** within a line. -/
theorem importDirectives_revealed (line : Text) :
    importDirectives (revealed line) = revealed (importDirectives line) := by
  by_cases hmark : ∃ rest, line.trimStart = '#' :: rest
  · obtain ⟨rest, hstart⟩ := hmark
    have himported : (importDirectives line).trimStart = '#' :: importDirectives rest := by
      rw [trimStart_importDirectives, hstart, importDirectives_cons_of_ne (by decide)]
    rw [revealed, revealed, revealLine?_of_trimStart hstart, revealLine?_of_trimStart himported,
      commentBody?_importDirectives, leadingBlanks_importDirectives]
    cases commentBody? rest with
    | none => rfl
    | some body =>
      rw [Option.map_some, Option.map_some, Option.map_some, Option.getD_some, Option.getD_some,
        importDirectives_append_blanks fun _ => Text.isBlank_of_mem_leadingBlanks,
        importDirectives_cons_of_ne (by decide), importDirectives_cons_of_ne (by decide)]
  · have hline : ∀ rest, line.trimStart ≠ '#' :: rest := fun rest heq => hmark ⟨rest, heq⟩
    have himported : ∀ rest, (importDirectives line).trimStart ≠ '#' :: rest := by
      intro rest heq
      rw [trimStart_importDirectives] at heq
      cases hstart : line.trimStart with
      | nil => rw [hstart] at heq; cases heq
      | cons c more =>
        rw [hstart] at heq
        by_cases hbrace : c = '{'
        · subst hbrace
          obtain ⟨d, _, himport, hd⟩ := importDirectives_brace more
          rw [himport] at heq
          obtain ⟨rfl, -⟩ := List.cons.inj heq
          revert hd
          decide
        · rw [importDirectives_cons_of_ne hbrace] at heq
          exact hline more (by rw [hstart, (List.cons.inj heq).1])
    rw [revealed_of_trimStart hline, revealed_of_trimStart himported]

/-- A hidden line is no directive line, and neither is its comment. -/
theorem lineImport?_revealed (line : Text) : lineImport? (revealed line) = lineImport? line := by
  cases h : revealLine? line with
  | none => rw [revealed, h, Option.getD_none]
  | some comment =>
    obtain ⟨⟨rest, hstart⟩, -⟩ := eq_of_revealLine? h
    have hline : isDirectiveLine line = false :=
      not_isDirectiveLine_of_trimStart hstart (by decide) (by decide)
    have hcomment := (isDirectiveLine_revealed line).trans hline
    rw [isDirectiveLine_eq, Option.isSome_eq_false_iff, Option.isNone_iff_eq_none]
      at hline hcomment
    rw [hline, hcomment]

/-! ## Parts with hidden lines -/

theorem isFence_revealed {line : Text} (h : isFence line = false) :
    isFence (revealed line) = false := by
  have hkept := keepsFences_revealLine .block line
  rwa [Region.kindOf_block_of_not_isFence h, editLine_code, h] at hkept

theorem editLine_of_ne {kind : LineKind} (h : kind ≠ .code) (line : Text) :
    editLine .code revealLine? ⟨line, kind⟩ = line := if_neg h

namespace PagePart

/-- The block with the hidden lines of its body shown. -/
def revealBlock (block : PendingBlock) : PendingBlock :=
  { block with body := block.body.map revealed }

/-- The part with its hidden lines shown. -/
def reveal : PagePart → PagePart
  | prose line => prose line
  | closed block closer => closed (revealBlock block) closer
  | unclosed block => unclosed (revealBlock block)

/-- **Showing hidden lines keeps the parts of a page.** -/
theorem partsFrom_reveal (pending : Option PendingBlock) (lines : List Text) :
    partsFrom (pending.map revealBlock)
        ((classifyFrom (PendingBlock.regionOf pending) lines).map (editLine .code revealLine?)) =
      (partsFrom pending lines).map reveal := by
  fun_induction partsFrom pending lines with
  | case1 => rfl
  | case2 block => rfl
  | case3 line rest hfence ih =>
    rw [classifyFrom, PendingBlock.regionOf, Region.kindOf_prose_of_isFence hfence,
      Region.after_of_isFence hfence, List.map_cons, editLine_of_ne (by decide), ← ih,
      Option.map_none, partsFrom, if_pos hfence]
    rfl
  | case4 line rest hfence ih =>
    have hnot : isFence line = false := by simpa using hfence
    rw [classifyFrom, PendingBlock.regionOf, Region.kindOf_prose_of_not_isFence hnot,
      Region.after_of_not_isFence hnot, List.map_cons, editLine_of_ne (by decide), Option.map_none,
      partsFrom, if_neg hfence, List.map_cons, ← ih]
    rfl
  | case5 block line rest hfence ih =>
    rw [classifyFrom, PendingBlock.regionOf, Region.kindOf_block_of_isFence hfence,
      Region.after_of_isFence hfence, List.map_cons, editLine_of_ne (by decide), Option.map_some,
      partsFrom, if_pos hfence, List.map_cons, ← ih]
    rfl
  | case6 block line rest hfence ih =>
    have hnot : isFence line = false := by simpa using hfence
    rw [classifyFrom, PendingBlock.regionOf, Region.kindOf_block_of_not_isFence hnot,
      Region.after_of_not_isFence hnot, List.map_cons, editLine_code, Option.map_some,
      partsFrom, if_neg (by rw [isFence_revealed hnot]; decide), ← ih, Option.map_some, revealBlock,
      revealBlock, List.map_append, List.map_singleton]
    rfl

/-- Lines of a block that stay where they are. -/
theorem map_withImports_revealBlock (block : PendingBlock) :
    ((revealBlock block).classified.map Line.withImports).map Line.text =
      (block.classified.map Line.withImports).map (editLine .code revealLine?) := by
  have hbody : ∀ line ∈ block.body, importDirectives (revealed line) =
      editLine .code revealLine? ⟨importDirectives line, .code⟩ := fun line _ =>
    importDirectives_revealed line
  simpa [PendingBlock.classified, revealBlock, Line.withImports, editLine_of_ne] using hbody

theorem onlyDirectives_revealBlock (block : PendingBlock) :
    OnlyDirectives (revealBlock block).body ↔ OnlyDirectives block.body := by
  simp only [OnlyDirectives, revealBlock, List.mem_map, exists_exists_and_eq_and,
    forall_exists_index, and_imp, forall_apply_eq_imp_iff₂, lineImport?_revealed, allBlank_revealed]

theorem filterMap_lineImport?_revealBlock (block : PendingBlock) :
    (revealBlock block).body.filterMap lineImport? = block.body.filterMap lineImport? := by
  rw [revealBlock, List.filterMap_map]
  exact congrArg (block.body.filterMap ·) (funext lineImport?_revealed)

/-- **A part is imported and revealed in either order.** -/
theorem map_text_importedLines_reveal (part : PagePart) :
    part.reveal.importedLines.map Line.text =
      part.importedLines.map (editLine .code revealLine?) := by
  cases part with
  | prose line =>
    rw [reveal, importedLines_prose, List.map_singleton, List.map_singleton,
      editLine_of_ne (by decide)]
  | unclosed block =>
    rw [reveal, importedLines_unclosed, importedLines_unclosed, map_withImports_revealBlock]
  | closed block closer =>
    by_cases honly : OnlyDirectives block.body
    · -- the imports are prose, where no line is hidden
      rw [reveal, importedLines, if_pos ((onlyDirectives_revealBlock block).mpr honly),
        importedLines, if_pos honly, filterMap_lineImport?_revealBlock, map_text_ofKind,
        List.map_map]
      exact (List.map_id'' (fun line => editLine_of_ne (by decide) line) _).symm
    · have hcloser : editLine .code revealLine? (Line.withImports ⟨closer, .fenceClose⟩) =
          importDirectives closer := if_neg (by simp [Line.withImports])
      rw [reveal, importedLines, if_neg fun h => honly ((onlyDirectives_revealBlock block).mp h),
        importedLines, if_neg honly, lines, lines, List.map_append, List.map_append,
        List.map_append, List.map_append, map_withImports_revealBlock, List.map_singleton,
        List.map_singleton, List.map_singleton, hcloser]
      rfl

end PagePart

/-! ## The stages -/

/-- **Imports and hidden lines** may change places. -/
theorem importPage_revealHiddenLines (page : Text) :
    importPage (revealHiddenLines page) = revealHiddenLines (importPage page) := by
  have hparts := partsFrom_reveal none page.segments
  rw [Option.map_none, PendingBlock.regionOf] at hparts
  rw [importPage_eq, importLines_eq, revealHiddenLines,
    segments_editLines fun _ _ => newline_not_mem_of_revealLine?, mapLines, hparts,
    List.flatMap_map, revealHiddenLines, editLines_eq, classify_importPage, List.map_flatMap,
    List.map_flatMap]
  exact congrArg Text.unlines (List.flatMap_congr fun part _ => map_text_importedLines_reveal part)

/-- A page with hidden lines that hold directives, in a block for the playground. -/
example :
    importPage (revealHiddenLines
      "```rust,editable\n#\x7b\x7b#include a.rs\x7d\x7d\n#[\x7b\x7b#include b.rs\x7d\x7d".toList) =
    "```rust,editable\n// <<< a.rs\n#[<<< b.rs".toList := by decide +kernel

/-- One stage after another, when neither of them fails. -/
theorem convert_two {fs : FileSystem} {path? : Option Path} {first second : Stage}
    {page between out : Text} (hfirst : first.apply fs path? page = .ok between)
    (hsecond : second.apply fs path? between = .ok out) :
    Pipeline.convert fs path? ⟨[first, second]⟩ page = .ok out := by
  rw [Pipeline.convert, List.foldlM_cons, hfirst]
  exact congrArg (· >>= pure) hsecond

/-- **The first stages in any order.**  Hidden lines may be shown before or after playground flags
are dropped, and before or after directives become imports.  Showing hidden lines or dropping flags
a second time changes nothing.  None of these conversions fails. -/
theorem first_stages_in_any_order (fs : FileSystem) (path? : Option Path) (page : Text) :
    (∃ out, Pipeline.convert fs path? ⟨[.hiddenLines, .playground]⟩ page = .ok out ∧
      Pipeline.convert fs path? ⟨[.playground, .hiddenLines]⟩ page = .ok out) ∧
    (∃ out, Pipeline.convert fs path? ⟨[.hiddenLines, .includes .translate]⟩ page = .ok out ∧
      Pipeline.convert fs path? ⟨[.includes .translate, .hiddenLines]⟩ page = .ok out) ∧
    ∀ stage ∈ [Stage.hiddenLines, .playground], ∃ out,
      Pipeline.convert fs path? ⟨[stage]⟩ page = .ok out ∧
        Pipeline.convert fs path? ⟨[stage, stage]⟩ page = .ok out := by
  refine ⟨⟨_, convert_two rfl rfl, ?_⟩, ⟨_, convert_two rfl (apply_includes_translate ..), ?_⟩, ?_⟩
  · rw [← revealHiddenLines_dropPlaygroundFlags]
    exact convert_two rfl rfl
  · rw [importPage_revealHiddenLines]
    exact convert_two (apply_includes_translate ..) rfl
  · simp only [List.forall_mem_cons]
    refine ⟨⟨revealHiddenLines page, rfl, ?_⟩, ⟨dropPlaygroundFlags page, rfl, ?_⟩, by simp⟩
    · exact convert_two rfl (congrArg Except.ok (revealHiddenLines_revealHiddenLines page))
    · exact convert_two rfl (congrArg Except.ok (dropPlaygroundFlags_dropPlaygroundFlags page))

end BookSite
