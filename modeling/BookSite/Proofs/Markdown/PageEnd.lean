import BookSite.Proofs.Markdown.FenceFree
import BookSite.Proofs.Markdown.Include.PageParts
import BookSite.Proofs.Text.Ending

/-!
# Proofs/Markdown/PageEnd — how a translated page ends

Each stage cuts a page into lines and joins lines again, one for one, many for one or one for many:
a block of directives gives way to imports, attribute groups to comments, a quote to a container,
and a tag that runs over several lines to one reference.  The last line is empty behind each of them
exactly if it was before, and so a translated page ends with a line feed exactly if the page does.
-/

namespace BookSite

open Include Quote Image
open Text (EndsAlike LinesEndAlike EndInText)

/-! ## A line for a line -/

/-- **An edit of lines of one kind**, when it makes nothing of an empty line and no line empty. -/
theorem linesEndAlike_mapLines {kind : LineKind} {edit? : Text → Option Text}
    (hnewline : ∀ l l', '\n' ∉ l → edit? l = some l' → '\n' ∉ l') (hnil : edit? [] = none)
    (hedit : ∀ l l', edit? l = some l' → l' ≠ []) {lines : List Text}
    (h : Text.ArePageLines lines) :
    LinesEndAlike (mapLines (editLine kind edit?) lines) lines := by
  have hlines := map_text_classifyFrom .prose lines
  nth_rewrite 2 [← hlines]
  refine LinesEndAlike.map fun line hline => ?_
  have hline' := h.newline_not_mem_text hline
  refine .of_newline_not_mem (newline_not_mem_editLine hnewline line hline') hline' ?_
  unfold editLine
  split
  · rcases hnew : edit? line.text with _ | new
    · exact Iff.rfl
    · refine iff_of_false (hedit _ _ hnew) fun hempty => ?_
      rw [hempty, hnil] at hnew
      cases hnew
  · exact Iff.rfl

theorem linesEndAlike_revealedLines {lines : List Text} (h : Text.ArePageLines lines) :
    LinesEndAlike (revealedLines lines) lines := by
  refine linesEndAlike_mapLines (fun _ _ => newline_not_mem_of_revealLine?) rfl
    (fun l comment hcomment => ?_) h
  obtain ⟨-, more, rfl, -⟩ := eq_of_revealLine? hcomment
  simp

theorem plainFence?_ne_nil {line fence : Text} (h : plainFence? line = some fence) :
    fence ≠ [] := by
  unfold plainFence? at h
  split at h
  · cases h
    exact List.append_ne_nil_of_right_ne_nil _ (by decide)
  · cases h

theorem linesEndAlike_plainFences {lines : List Text} (h : Text.ArePageLines lines) :
    LinesEndAlike (plainFences lines) lines :=
  linesEndAlike_mapLines (fun _ _ => newline_not_mem_of_plainFence?) rfl
    (fun _ _ => plainFence?_ne_nil) h

/-! ## Imports -/

namespace Include

theorem toImport_ne_nil (target : Target) : target.toImport ≠ [] := by
  unfold Target.toImport
  simp

theorem endsAlike_importDirectives {line : Text} (h : '\n' ∉ line) :
    EndsAlike (importDirectives line) line :=
  .of_newline_not_mem (newline_not_mem_importDirectives h) h
    (Text.replaceTokens_eq_nil_iff fun _ => toImport_ne_nil)

theorem lineImport?_ne_nil {line imported : Text} (h : lineImport? line = some imported) :
    imported ≠ [] := by
  unfold lineImport? at h
  split at h
  · split at h
    · cases h
      exact toImport_ne_nil _
    · cases h
  · cases h

theorem newline_not_mem_of_lineImport? {line imported : Text} (hline : '\n' ∉ line)
    (h : lineImport? line = some imported) : '\n' ∉ imported := by
  rw [← importDirectives_trim h]
  exact newline_not_mem_importDirectives fun hmem => hline (line.trim_isInfix.mem hmem)

end Include

namespace PagePart

theorem linesEndAlike_withImports {lines : List Line} (h : ∀ line ∈ lines, '\n' ∉ line.text) :
    LinesEndAlike ((lines.map Line.withImports).map Line.text) (lines.map Line.text) := by
  rw [List.map_map]
  exact LinesEndAlike.map fun line hline => endsAlike_importDirectives (h line hline)

/-- **A block of directives** leaves lines none of which is empty. -/
theorem endInText_imports {body : List Text} (hdirectives : OnlyDirectives body)
    (h : ∀ l ∈ body, '\n' ∉ l) : EndInText (body.filterMap lineImport?) := by
  refine .of_forall (fun hnil => ?_) fun imported himported => ?_
  · obtain ⟨l, hl, himport⟩ := hdirectives.1
    rw [List.filterMap_eq_nil_iff.mp hnil l hl] at himport
    cases himport
  · obtain ⟨l, hl, himport⟩ := List.mem_filterMap.mp himported
    exact ⟨lineImport?_ne_nil himport, newline_not_mem_of_lineImport? (h l hl) himport⟩

/-- **A part of a page and what is imported for it.** -/
theorem linesEndAlike_importedLines {part : PagePart}
    (hcloser : ∀ block closer, part = closed block closer → closer ≠ [])
    (h : ∀ line ∈ part.lines, '\n' ∉ line.text) :
    LinesEndAlike (part.importedLines.map Line.text) (part.lines.map Line.text) := by
  cases part with
  | prose line => exact linesEndAlike_withImports h
  | unclosed block => exact linesEndAlike_withImports h
  | closed block closer =>
    rw [importedLines]
    split
    · rename_i hdirectives
      have hbody : ∀ l ∈ block.body, '\n' ∉ l := fun l hl =>
        h ⟨l, .code⟩ (by simp [lines, PendingBlock.classified, hl])
      have hlast : '\n' ∉ closer := h ⟨closer, .fenceClose⟩ (by simp [lines])
      rw [map_text_ofKind, lines, List.map_append]
      refine (endInText_imports hdirectives hbody).linesEndAlike (EndInText.append_left ?_ _)
      exact .of_forall (by simp) (by simpa using ⟨hcloser _ _ rfl, hlast⟩)
    · exact linesEndAlike_withImports h

theorem closer_ne_nil_of_mem_partsFrom {pending : Option PendingBlock} {lines : List Text}
    {block : PendingBlock} {closer : Text} (h : closed block closer ∈ partsFrom pending lines) :
    closer ≠ [] := by
  fun_induction partsFrom pending lines with
  | case1 => cases h
  | case2 block' => simp at h
  | case3 line rest hfence ih => exact ih h
  | case4 line rest hfence ih => exact ih (by simpa using h)
  | case5 block' line rest hfence ih =>
    rcases List.mem_cons.mp h with heq | h
    · cases heq
      rintro rfl
      cases hfence
    · exact ih h
  | case6 block' line rest hfence ih => exact ih h

end PagePart

theorem linesEndAlike_importLines {lines : List Text} (h : Text.ArePageLines lines) :
    LinesEndAlike (importLines lines) lines := by
  have hparts : (PagePart.partsFrom none lines).flatMap PagePart.lines =
      classifyFrom .prose lines := flatMap_lines_partsFrom none lines
  have hlines := map_text_classifyFrom .prose lines
  rw [← hparts, List.map_flatMap] at hlines
  rw [PagePart.importLines_eq, List.map_flatMap]
  nth_rewrite 2 [← hlines]
  refine LinesEndAlike.flatMap fun part hpart => ?_
  refine PagePart.linesEndAlike_importedLines ?_ fun line hline => ?_
  · rintro block closer rfl
    exact PagePart.closer_ne_nil_of_mem_partsFrom hpart
  · refine h.newline_not_mem_text (r := .prose) ?_
    rw [← hparts]
    exact List.mem_flatMap.mpr ⟨part, hpart, hline⟩

/-! ## Attribute groups -/

theorem AttributeGroup.commentLines_ne_nil (a : AttributeGroup) :
    a.commentLines ≠ [] ∧ ∀ l ∈ a.commentLines, l ≠ [] := by
  unfold commentLines
  refine ⟨List.cons_ne_nil _ _, ?_⟩
  simp

/-- **A line that gives attribute groups up** ends in a comment. -/
theorem AttributedLine.endInText_outputLines {line : AttributedLine} (hrest : line.rest ≠ [])
    (h : line.HoldsNoNewline) : EndInText line.outputLines := by
  refine EndInText.append_left (.of_forall (fun hnil => ?_) fun l hl => ?_) _
  · obtain ⟨part, parts, hparts⟩ := List.exists_cons_of_ne_nil hrest
    exact part.1.commentLines_ne_nil.1 (List.flatMap_eq_nil_iff.mp hnil part (by simp [hparts]))
  · obtain ⟨part, hpart, hl⟩ := List.mem_flatMap.mp hl
    exact ⟨part.1.commentLines_ne_nil.2 l hl, h.comments part hpart l hl⟩

theorem linesEndAlike_moveAttributes {line : Text} (h : '\n' ∉ line) :
    LinesEndAlike (moveAttributes line) [line] := by
  unfold moveAttributes
  simp only
  split
  · exact .refl _
  · rename_i hrest
    rw [List.isEmpty_iff] at hrest
    have hline : line ≠ [] := fun hnil => hrest (by rw [hnil]; rfl)
    have hcut := AttributedLine.endInText_outputLines hrest (AttributedLine.holdsNoNewline_ofText h)
    exact hcut.linesEndAlike (.of_forall (by simp) (by simpa using ⟨hline, h⟩))

theorem linesEndAlike_moveAttributesFrom (inMath : Bool) {lines : List Line}
    (h : ∀ line ∈ lines, '\n' ∉ line.text) :
    LinesEndAlike (moveAttributesFrom inMath lines) (lines.map Line.text) := by
  induction lines generalizing inMath with
  | nil => exact .refl []
  | cons line rest ih =>
    obtain ⟨hline, hrest⟩ := List.forall_mem_cons.mp h
    have hstep : LinesEndAlike (attributeStep inMath line) [line.text] := by
      unfold attributeStep
      split
      · exact linesEndAlike_moveAttributes hline
      · exact .refl _
    rw [moveAttributesFrom_cons]
    exact hstep.append (ih _ hrest)

theorem linesEndAlike_attributeLines {lines : List Text} (h : Text.ArePageLines lines) :
    LinesEndAlike (attributeLines lines) lines := by
  have hlines : LinesEndAlike (attributeLines lines) ((classifyFrom .prose lines).map Line.text) :=
    linesEndAlike_moveAttributesFrom false fun _ => h.newline_not_mem_text
  rwa [map_text_classifyFrom] at hlines

/-! ## Runs of lines -/

/-- **Runs that end as they did**, and lines between them that stay. -/
theorem linesEndAlike_editRuns {p : Line → Bool} {write : Stretch Line → List Text}
    {lines : List Text} (h : Text.ArePageLines lines)
    (hwrite : ∀ s, (∀ line ∈ s.elements, '\n' ∉ line.text) →
      (∀ first more, s = .run first more → ∀ line ∈ first :: more, p line = true) →
      LinesEndAlike (write s) (s.elements.map Line.text)) :
    LinesEndAlike (editRuns p write lines) lines := by
  have hlines := map_text_classifyFrom .prose lines
  rw [← flatMap_elements_runs p (classifyFrom .prose lines), List.map_flatMap] at hlines
  nth_rewrite 2 [← hlines]
  refine LinesEndAlike.flatMap fun s hs => hwrite s (fun line hline => ?_) ?_
  · exact h.newline_not_mem_text (mem_of_mem_runs hs line hline)
  · rintro first more rfl
    exact forall_mem_of_run_mem_runs hs

namespace Quote

theorem endInText_containerLines (first : Text) (more : List Text) :
    EndInText (containerLines first more) := by
  have hcloser : EndInText [closer] := .of_forall (by simp) (by decide)
  unfold containerLines
  split
  · exact hcloser.append_left (_ :: (_ ++ more))
  · exact hcloser.append_left (_ :: first :: more)

/-- **A run of quoted lines** and the container that it becomes: neither ends in an empty line. -/
theorem linesEndAlike_convertRun {raw : List Text} (hne : raw ≠ [])
    (hquoted : ∀ l ∈ raw, (content? l).isSome = true) (h : ∀ l ∈ raw, '\n' ∉ l) :
    LinesEndAlike (convertRun raw) raw := by
  have hraw : EndInText raw := .of_forall hne fun l hl => ⟨?_, h l hl⟩
  · unfold convertRun
    split
    · rename_i hnone
      obtain ⟨l, rest, rfl⟩ := List.exists_cons_of_ne_nil hne
      have hl := List.filterMap_eq_nil_iff.mp hnone l (by simp)
      simpa [hl] using hquoted l (by simp)
    · split
      · exact .refl _
      · exact (endInText_containerLines _ _).linesEndAlike hraw
  · rintro rfl
    cases hquoted [] hl

theorem linesEndAlike_quoteLines {lines : List Text} (h : Text.ArePageLines lines) :
    LinesEndAlike (quoteLines lines) lines := by
  refine linesEndAlike_editRuns h fun s hnewline hp => ?_
  cases s with
  | single line => exact .refl _
  | run first more =>
    refine linesEndAlike_convertRun (by simp) (fun l hl => ?_) fun l hl => ?_
    · obtain ⟨line, hline, rfl⟩ := List.mem_map.mp hl
      have hquoted := hp first more rfl line hline
      rw [isQuoted, Bool.and_eq_true] at hquoted
      exact hquoted.2
    · obtain ⟨line, hline, rfl⟩ := List.mem_map.mp hl
      exact hnewline line hline

end Quote

namespace Image

theorem endsAlike_reference (alt path title front : Text) {last : Char} (hlast : last ≠ '\n') :
    EndsAlike (reference alt path title) (front ++ [last]) := by
  have hend : EndsAlike [')'] [last] :=
    .of_newline_not_mem (by decide) (by simpa using hlast.symm) (by simp)
  exact hend.append_left (by simp) _ _

theorem endsAlike_rootReferences (line : Text) : EndsAlike (rootReferences line) line := by
  refine Text.endsAlike_replaceTokens fun s found n hfind => ?_
  cases found with
  | codeSpan => exact .refl _
  | image alt path title =>
    simp only
    split
    · exact .refl _
    · rw [(ReferenceToken.wording_of_find hfind).2]
      exact endsAlike_reference _ _ _ _ (by decide)

/-- The wording of a tag ends with its mark. -/
theorem TagToken.wording_of_find {s attributes : Text} {n : Nat}
    (h : find s = some (.tag attributes, n)) : ∃ front, s.take (n - 1 + 1) = front ++ ['>'] := by
  obtain ⟨slash, rest, hs, hrest⟩ := eq_of_find h
  refine ⟨"<img".toList ++ attributes ++ slash, ?_⟩
  have hsplit := List.take_append_drop (n - 1 + 1) s
  rw [hrest] at hsplit
  have hwording : s.take (n - 1 + 1) ++ rest =
      "<img".toList ++ attributes ++ slash ++ ['>'] ++ rest := by
    rw [hsplit, hs]
    simp
  exact List.append_cancel_right hwording

theorem endsAlike_replaceTags (t : Text) : EndsAlike (replaceTags t) t := by
  refine Text.endsAlike_replaceTokens fun s found n hfind => ?_
  cases found with
  | codeSpan => exact .refl _
  | tag attributes =>
    cases hreference : tagReference? attributes with
    | none =>
      simp only [hreference, Option.getD_none]
      exact .refl _
    | some reference =>
      obtain ⟨front, hwording⟩ := TagToken.wording_of_find hfind
      obtain ⟨src, -, rfl⟩ := Option.map_eq_some_iff.mp hreference
      simp only [hreference, Option.getD_some, hwording]
      exact endsAlike_reference _ _ _ _ (by decide)

/-- **A run of prose**: replacing tags may join lines of it, and then each line stays one. -/
theorem linesEndAlike_convertRun (lines : List Text) (hne : lines ≠ []) :
    LinesEndAlike (convertRun lines) lines := by
  have hrooted : LinesEndAlike (convertRun lines) (replaceTags (Text.unlines lines)).segments := by
    have hmap : LinesEndAlike (convertRun lines)
        ((replaceTags (Text.unlines lines)).segments.map fun line => line) :=
      LinesEndAlike.map fun line _ => endsAlike_rootReferences line
    rwa [List.map_id'] at hmap
  refine ⟨iff_of_false (by simp [convertRun, Text.segments_ne_nil]) hne, hrooted.unlines.trans ?_⟩
  rw [Text.unlines_segments]
  exact endsAlike_replaceTags _

theorem linesEndAlike_imageLines {lines : List Text} (h : Text.ArePageLines lines) :
    LinesEndAlike (imageLines lines) lines := by
  refine linesEndAlike_editRuns h fun s _ _ => ?_
  cases s with
  | single line => exact .refl _
  | run first more => exact linesEndAlike_convertRun _ (by simp)

end Image

/-! ## The whole translation -/

/-- **The lines of a translated page** end as those of the page. -/
theorem linesEndAlike_translatedLines {lines : List Text} (h : Text.ArePageLines lines) :
    LinesEndAlike (translatedLines lines) lines := by
  have h₁ := arePageLines_revealedLines h
  have h₂ := arePageLines_importLines h₁
  have h₃ := arePageLines_plainFences h₂
  have hread : LinesEndAlike (linesReadByQuotes lines) lines :=
    (linesEndAlike_attributeLines h₃).trans <| (linesEndAlike_plainFences h₂).trans <|
      (linesEndAlike_importLines h₁).trans (linesEndAlike_revealedLines h)
  exact (linesEndAlike_imageLines (arePageLines_linesReadByImages h)).trans <|
    (linesEndAlike_quoteLines (arePageLines_linesReadByQuotes h)).trans hread

/-- **A translated page ends as the page does**: with a line feed exactly if the page ends with one,
and it is empty only if the page is. -/
theorem convert_translate_ends_alike (fs : FileSystem) (path? : Option Path) (page : Text) :
    ∃ out, (Pipeline.standard .translate).convert fs path? page = .ok out ∧
      (out.getLast? = some '\n' ↔ page.getLast? = some '\n') ∧ (out = [] ↔ page = []) := by
  have hlines := linesEndAlike_translatedLines (Text.arePageLines_segments page)
  have hend := hlines.unlines
  rw [← segments_rootImages_readByImages, Text.unlines_segments, Text.unlines_segments] at hend
  exact ⟨_, convert_translate fs path? page, hend.newline, hend.nil⟩

end BookSite
