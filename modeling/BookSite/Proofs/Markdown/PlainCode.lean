import BookSite.Proofs.Markdown.Translation

/-!
# Proofs/Markdown/PlainCode — lines of code on their way through a translation

A line of code that is not hidden and holds no directive should come through unchanged.  The stages
up to the attributes see to that themselves, for they leave all regions as they are.  The stages for
quotes and images do so where they find themselves in a block as well: where the line is **in
step**.
-/

namespace BookSite

open Include Quote Image

/-! ## Plain lines of code -/

/-- A line of code that nothing should happen to: it is not hidden, it holds no directive, and its
block is not unwrapped. -/
def IsPlainCode (above : List Text) (line : Line) (below : List Text) : Prop :=
  line.kind = .code ∧ revealLine? line.text = none ∧ hasDirective line.text = false ∧
    isUnwrapped above line.text below = false

instance (above : List Text) (line : Line) (below : List Text) :
    Decidable (IsPlainCode above line below) :=
  inferInstanceAs (Decidable (_ ∧ _ ∧ _ ∧ _))

/-- The plain lines of code among lines that stand between others. -/
def plainCodeFrom (above : List Text) (lines : List Line) (below : List Text) : List Text :=
  match lines with
  | [] => []
  | line :: rest =>
    (if IsPlainCode above line (rest.map Line.text ++ below) then [line.text] else []) ++
      plainCodeFrom (above ++ [line.text]) rest below

/-- **The plain lines of code of a page**, in their order. -/
def plainCode (page : Text) : List Text := plainCodeFrom [] (classify page) []

theorem plainCodeFrom_append (above : List Text) (xs ys : List Line) (below : List Text) :
    plainCodeFrom above (xs ++ ys) below =
      plainCodeFrom above xs (ys.map Line.text ++ below) ++
        plainCodeFrom (above ++ xs.map Line.text) ys below := by
  induction xs generalizing above with
  | nil => simp [plainCodeFrom]
  | cons x xs ih => simp [plainCodeFrom, ih]

theorem plainCodeFrom_singleton (above : List Text) (line : Line) (below : List Text) :
    plainCodeFrom above [line] below =
      if IsPlainCode above line below then [line.text] else [] := by
  simp [plainCodeFrom]

/-! ## Showing hidden lines first

The edit shows hidden lines in all blocks.  It makes no directive line of one, so the same blocks
are unwrapped afterwards. -/

/-- What a line of a block becomes. -/
def revealed (line : Text) : Text := (revealLine? line).getD line

/-- **What does not tell a sharp in front of a line from a slash** does not tell whether hidden
lines are shown. -/
theorem apply_revealed {β : Type} (f : Text → β) {b : β}
    (hf : ∀ l c rest, l.trimStart = c :: rest → c = '#' ∨ c = '/' → f l = b) (line : Text) :
    f (revealed line) = f line := by
  unfold revealed
  cases h : revealLine? line with
  | none => rfl
  | some comment =>
    obtain ⟨⟨rest, hstart⟩, -⟩ := eq_of_revealLine? h
    obtain ⟨more, hcomment⟩ := trimStart_of_revealLine? h
    exact (hf comment '/' _ hcomment (.inr rfl)).trans (hf line '#' rest hstart (.inl rfl)).symm

theorem isDirectiveLine_revealed (line : Text) :
    isDirectiveLine (revealed line) = isDirectiveLine line :=
  apply_revealed isDirectiveLine (fun l c rest hstart hc => by
    rcases hc with rfl | rfl
    · exact not_isDirectiveLine_of_trimStart hstart (by decide) (by decide)
    · exact not_isDirectiveLine_of_trimStart hstart (by decide) (by decide)) line

theorem allBlank_revealed (line : Text) : (revealed line).allBlank = line.allBlank :=
  apply_revealed Text.allBlank (fun l c rest hstart hc => by
    rcases hc with rfl | rfl
    · exact Text.not_allBlank hstart (by decide)
    · exact Text.not_allBlank hstart (by decide)) line

theorem onlyDirectives_map_revealed (opener : Text) (body : List Text) :
    (PendingBlock.mk opener (body.map revealed)).onlyDirectives =
      (PendingBlock.mk opener body).onlyDirectives := by
  simp only [PendingBlock.onlyDirectives, List.any_map, List.all_map]
  congr 1
  · exact congrArg (body.any ·) (funext isDirectiveLine_revealed)
  · refine congrArg (body.all ·) (funext fun line => ?_)
    rw [Function.comp_apply, isDirectiveLine_revealed, allBlank_revealed]

theorem editLine_code (line : Text) :
    editLine .code revealLine? ⟨line, .code⟩ = revealed line := rfl

/-- The lines of a block, up to the next fence. -/
theorem takeWhile_map_revealed (below : List Text) :
    ((classifyFrom .block below).map (editLine .code revealLine?)).takeWhile (!isFence ·) =
      (below.takeWhile (!isFence ·)).map revealed := by
  induction below with
  | nil => rfl
  | cons line below ih =>
    have hkept := keepsFences_revealLine .block line
    rw [classifyFrom, List.map_cons, List.takeWhile_cons, List.takeWhile_cons, hkept]
    cases hfence : isFence line with
    | true => rfl
    | false =>
      rw [Region.kindOf_block_of_not_isFence hfence, Region.after_of_not_isFence hfence, ih]
      rfl

theorem any_isFence_map_revealed (r : Region) (lines : List Text) :
    ((classifyFrom r lines).map (editLine .code revealLine?)).any isFence =
      lines.any isFence := by
  induction lines generalizing r with
  | nil => rfl
  | cons line lines ih =>
    rw [classifyFrom, List.map_cons, List.any_cons, List.any_cons, ih,
      keepsFences_revealLine r line]

/-- The lines of a block, back to the fence that opened it. -/
theorem rtakeWhile_revealedLines {above : List Text} (hregion : regionBehind above = .block) :
    (revealedLines above).rtakeWhile (!isFence ·) =
      (above.rtakeWhile (!isFence ·)).map revealed := by
  obtain ⟨before, opener, body, rfl, hbefore, hopener, hbody⟩ :=
    exists_opener_of_regionBehind_eq_block hregion
  have hbody' : ∀ l ∈ body.map revealed, isFence l = false := by
    intro l hl
    obtain ⟨line, hline, rfl⟩ := List.mem_map.mp hl
    have hkept := keepsFences_revealLine .block line
    rw [Region.kindOf_block_of_not_isFence (hbody line hline), editLine_code] at hkept
    rw [hkept, hbody line hline]
  have hlines : revealedLines (before ++ opener :: body) =
      revealedLines before ++ opener :: body.map revealed := by
    rw [revealedLines, mapLines_append, hbefore, classifyFrom,
      Region.kindOf_prose_of_isFence hopener, Region.after_of_isFence hopener,
      Region.toggle, classifyFrom_of_forall_not_isFence .block hbody, List.map_cons, List.map_map]
    rfl
  rw [hlines, rtakeWhile_append_cons hopener hbody', rtakeWhile_append_cons hopener hbody]

/-- **The same blocks are unwrapped** once hidden lines are shown. -/
theorem isUnwrapped_revealedLines {above : List Text} {line : Text}
    (hregion : regionBehind above = .block) (hline : revealLine? line = none) (below : List Text) :
    isUnwrapped (revealedLines above) line
        ((classifyFrom .block below).map (editLine .code revealLine?)) =
      isUnwrapped above line below := by
  have hbody : blockBody (revealedLines above) line
      ((classifyFrom .block below).map (editLine .code revealLine?)) =
      (blockBody above line below).map revealed := by
    have hrevealed : revealed line = line := by rw [revealed, hline, Option.getD_none]
    rw [blockBody, rtakeWhile_revealedLines hregion, takeWhile_map_revealed, blockBody,
      List.map_append, List.map_cons, hrevealed]
  rw [isUnwrapped, any_isFence_map_revealed, hbody, onlyDirectives_map_revealed, isUnwrapped]

/-! ## In step -/

/-- **In step**: behind these lines, the stages for quotes and images are in a block. -/
def InStep (above : List Text) : Prop :=
  regionBehind (readByQuotes (Text.unlines above)).segments = .block ∧
    regionBehind (readByImages (Text.unlines above)).segments = .block

instance (above : List Text) : Decidable (InStep above) := inferInstanceAs (Decidable (_ ∧ _))

/-- In step, for lines that are not joined and cut again between the stages. -/
def LinesInStep (above : List Text) : Prop :=
  regionBehind (linesReadByQuotes above) = .block ∧
    regionBehind (linesReadByImages above) = .block

theorem inStep_iff {above : List Text} (h : Text.ArePageLines above) :
    InStep above ↔ LinesInStep above := by
  rw [InStep, segments_readByQuotes, segments_readByImages, h.segments_unlines, LinesInStep]

section Keeping

variable {above below : List Text} {line : Text} (hregion : regionBehind above = .block)
  (hplain : IsPlainCode above ⟨line, .code⟩ below) (hfence : isFence line = false)

include hregion hplain hfence

/-- Up to the imports the stages keep plain code themselves. -/
theorem keepsLine_importLines_revealedLines :
    KeepsLine (fun lines => importLines (revealedLines lines)) above line below := by
  obtain ⟨-, hhidden, hdirective, hwrapped⟩ := hplain
  have hrevealed : revealedLines (above ++ line :: below) =
      revealedLines above ++
        line :: (classifyFrom .block below).map (editLine .code revealLine?) := by
    have hline : editLine .code revealLine? ⟨line, .code⟩ = line := by
      rw [editLine_code, revealed, hhidden, Option.getD_none]
    rw [revealedLines, mapLines_append, hregion, classifyFrom,
      Region.kindOf_block_of_not_isFence hfence, Region.after_of_not_isFence hfence, List.map_cons,
      hline]
    rfl
  have hbehind : regionBehind (revealedLines above) = .block := by
    rw [regionBehind_revealedLines, hregion]
  obtain ⟨rest, hrest, hlast⟩ := keepsLine_importLines hbehind hfence hdirective
    ((isUnwrapped_revealedLines hregion hhidden below).trans hwrapped)
  refine ⟨rest, ?_, ?_⟩
  · simp only [hrevealed, hrest]
  · rintro rfl
    exact hlast rfl

/-- **Up to the attributes** plain code is kept. -/
theorem keepsLine_linesReadByQuotes : KeepsLine linesReadByQuotes above line below := by
  have hfences : ∀ rest, KeepsLine plainFences (importLines (revealedLines above)) line rest := by
    intro rest
    refine keepsLine_mapLines ?_ hfence rfl
    rw [regionBehind_importLines, regionBehind_revealedLines, hregion]
  have hattributes : ∀ rest, KeepsLine attributeLines
      (plainFences (importLines (revealedLines above))) line rest := by
    intro rest
    refine keepsLine_attributeLines ?_ hfence
    rw [regionBehind_plainFences_importLines_revealedLines, hregion]
  have himports := keepsLine_importLines_revealedLines hregion hplain hfence
  exact (himports.comp hfences).comp hattributes

/-- **Plain code in step** is kept to the end. -/
theorem keepsLine_translatedLines (hstep : LinesInStep above) :
    KeepsLine translatedLines above line below := by
  obtain ⟨hquotes, himages⟩ := hstep
  have hread := keepsLine_linesReadByQuotes hregion hplain hfence
  have hquoted : KeepsLine linesReadByImages above line below :=
    hread.comp fun _ => keepsLine_quoteLines hquotes hfence
  exact hquoted.comp fun _ => keepsLine_imageLines himages hfence

end Keeping

/-! ## Survival -/

/-- A block that is closed further below is not unwrapped while it is still open. -/
theorem isUnwrapped_of_isPrefix {above below below' : List Text} {line : Text}
    (hbelow : below' <+: below) (h : isUnwrapped above line below = false) :
    isUnwrapped above line below' = false := by
  rw [Bool.eq_false_iff]
  intro hunwrapped
  rw [isUnwrapped, Bool.and_eq_true] at hunwrapped
  obtain ⟨more, rfl⟩ := hbelow
  obtain ⟨hclosed, honly⟩ := hunwrapped
  have htake : (below' ++ more).takeWhile (!isFence ·) = below'.takeWhile (!isFence ·) := by
    rw [List.takeWhile_append, if_neg]
    intro hlength
    obtain ⟨l, hl, hfence⟩ := List.any_eq_true.mp hclosed
    rw [← ( List.takeWhile_prefix _).eq_of_length hlength] at hl
    simpa [hfence] using List.mem_takeWhile_imp hl
  rw [isUnwrapped, List.any_append, hclosed, blockBody, htake, ← blockBody, honly] at h
  cases h

/-- **Plain code survives where it is in step**, in its order, with any lines below. -/
theorem plainCodeFrom_sublist (lines : List Text) {below below' : List Text}
    (hbelow : below' <+: below)
    (hstep : ∀ above line rest, classifyFrom .prose lines = above ++ line :: rest →
      IsPlainCode (above.map Line.text) line (rest.map Line.text ++ below) →
      LinesInStep (above.map Line.text)) :
    (plainCodeFrom [] (classifyFrom .prose lines) below).Sublist
      (translatedLines (lines ++ below')) := by
  induction lines using List.reverseRecOn generalizing below below' with
  | nil => exact List.nil_sublist _
  | append_singleton lines line ih =>
    rw [classifyFrom_concat] at hstep
    rw [classifyFrom_concat, plainCodeFrom_append, plainCodeFrom_singleton, List.nil_append,
      map_text_classifyFrom, List.map_singleton, List.singleton_append, List.append_assoc,
      List.singleton_append]
    have hstep' : ∀ above l rest, classifyFrom .prose lines = above ++ l :: rest →
        IsPlainCode (above.map Line.text) l (rest.map Line.text ++ (line :: below)) →
        LinesInStep (above.map Line.text) := by
      intro above l rest hclassified hplain
      refine hstep above l (rest ++ [⟨line, (Region.prose.afterAll lines).kindOf line⟩]) ?_ ?_
      · rw [hclassified, List.append_assoc, List.cons_append]
      · rwa [List.map_append, List.append_assoc]
    split
    · rename_i hplain
      obtain ⟨hregion, hfence⟩ := Region.kindOf_eq_code_iff.mp hplain.1
      have habove : (classifyFrom .prose lines).map Line.text = lines :=
        map_text_classifyFrom .prose lines
      have hline := hstep (classifyFrom .prose lines) _ [] rfl (by rw [habove]; exact hplain)
      rw [habove] at hline
      have hkept : KeepsLine translatedLines lines line below' :=
        keepsLine_translatedLines hregion
          ⟨rfl, hplain.2.1, hplain.2.2.1, isUnwrapped_of_isPrefix hbelow hplain.2.2.2⟩ hfence hline
      have hbefore := ih List.nil_prefix hstep'
      rw [List.append_nil] at hbefore
      exact (hbefore.append (List.Sublist.refl [line])).trans hkept.isPrefix.sublist
    · rw [List.append_nil]
      exact ih (List.cons_prefix_cons.mpr ⟨rfl, hbelow⟩) hstep'

end BookSite
