import BookSite.Markdown.Image.Reference
import BookSite.Proofs.Markdown.RunEdits

/-!
# Proofs/Markdown/ImageEdits — rooting images as an edit of lines

Tags may run over several lines of prose, but not into a line without `>`.  So a last line that
holds neither `>` nor a backtick is edited on its own, whatever stands above it
(`imageLines_concat`).
-/

namespace BookSite.Image

/-! ## Scanning for tags -/

namespace TagToken

/-- What stands on the next line ends no code span. -/
theorem codeSpanLength?_append_newline {s : Text} (hne : s ≠ []) (line : Text) :
    codeSpanLength? (s ++ '\n' :: line) = codeSpanLength? s := by
  obtain ⟨c, rest, rfl⟩ := List.exists_cons_of_ne_nil hne
  rw [List.cons_append, codeSpanLength?, codeSpanLength?]
  simp only
  rw [Text.takeWhile_append_cons (by decide)]
  set inner := rest.takeWhile fun d => d != backtick && d != '\n' with hinner
  have hlength : inner.length ≤ rest.length := (List.takeWhile_sublist _).length_le
  rw [List.drop_append_of_le_length hlength]
  have hstart : Text.startsWith (rest.drop inner.length ++ '\n' :: line) [backtick] =
      Text.startsWith (rest.drop inner.length) [backtick] := by
    cases rest.drop inner.length <;> rfl
  rw [hstart]

/-- A line without `>` ends no tag. -/
theorem tagInside?_append_newline {line : Text} (hline : '>' ∉ line) (s : Text) :
    tagInside? (s ++ '\n' :: line) = tagInside? s := by
  rw [tagInside?, tagInside?, Text.behind?_append_cons (by decide)]
  cases Text.behind? s "<img".toList with
  | none => rfl
  | some rest =>
    simp only [Option.map_some, Option.bind_eq_bind, Option.bind_some]
    by_cases hclosed : '>' ∈ rest
    · obtain ⟨inside, behind, rfl, hinside⟩ := List.eq_append_cons_of_mem hclosed
      have hends : wordEnds (inside ++ '>' :: (behind ++ '\n' :: line)) =
          wordEnds (inside ++ '>' :: behind) := by
        cases inside <;> rfl
      rw [List.append_assoc, List.cons_append, Text.takeWhile_bne_append hinside,
        Text.takeWhile_bne_append hinside, hends]
      simp
    · have hboth : '>' ∉ rest ++ '\n' :: line := by simp [hclosed, hline]
      rw [Text.takeWhile_bne hboth, Text.takeWhile_bne hclosed]
      simp

theorem find_append_newline {line : Text} (hline : '>' ∉ line) {s : Text} (hne : s ≠ []) :
    find (s ++ '\n' :: line) = find s := by
  rw [find, find, codeSpanLength?_append_newline hne, tagInside?_append_newline hline]

/-- Without backtick and `>` there is nothing to find. -/
theorem find_eq_none {s : Text} (hspan : backtick ∉ s) (htag : '>' ∉ s) : find s = none := by
  have hnospan : codeSpanLength? s = none := by
    cases s with
    | nil => rfl
    | cons c rest => exact if_neg fun h => hspan (by simp [h])
  have hnotag : tagInside? s = none := by
    rw [tagInside?]
    cases hrest : Text.behind? s "<img".toList with
    | none => rfl
    | some rest =>
      have hunclosed : '>' ∉ rest := fun h => htag (by
        rw [Text.behind?_eq_some_iff.mp hrest]
        exact List.mem_append_right _ h)
      simp [Text.takeWhile_bne hunclosed]
  rw [find, hnospan, hnotag]
  rfl

theorem length_le_of_codeSpanLength? {s : Text} {n : Nat} (h : codeSpanLength? s = some n) :
    n ≤ s.length := by
  unfold codeSpanLength? at h
  split at h
  · cases h
  · rename_i c rest
    split at h
    · simp only at h
      split at h
      · rename_i hstart
        cases h
        rw [Text.startsWith, List.isPrefixOf_iff_prefix] at hstart
        have hclosed := hstart.length_le
        rw [List.length_drop, List.length_singleton] at hclosed
        rw [List.length_cons]
        omega
      · cases h
    · cases h

theorem length_le_of_tagInside? {s inside : Text} (h : tagInside? s = some inside) :
    inside.length + 5 ≤ s.length := by
  unfold tagInside? at h
  obtain ⟨rest, hrest, hinside⟩ := Option.bind_eq_some_iff.mp h
  rw [Text.behind?_eq_some_iff] at hrest
  simp only at hinside
  split at hinside
  · rename_i hclosed
    cases hinside
    rw [Bool.and_eq_true, decide_eq_true_eq] at hclosed
    have hname : "<img".toList.length = 4 := rfl
    rw [hrest, List.length_append]
    omega
  · cases hinside

/-- **A token lies in the text** at whose front it is found. -/
theorem length_le_of_find {s : Text} {found : TagToken} {n : Nat} (h : find s = some (found, n)) :
    n ≤ s.length := by
  unfold find at h
  split at h
  · rename_i n' hspan
    cases h
    exact length_le_of_codeSpanLength? hspan
  · obtain ⟨inside, hinside, heq⟩ := Option.map_eq_some_iff.mp h
    cases heq
    exact length_le_of_tagInside? hinside

end TagToken

/-- **Tags are replaced line by line** from a line without backtick and `>` on. -/
theorem replaceTags_append_newline {line : Text} (hspan : backtick ∉ line) (htag : '>' ∉ line)
    (t : Text) : replaceTags (t ++ '\n' :: line) = replaceTags t ++ '\n' :: line := by
  have hnothing : Text.finds TagToken.find ('\n' :: line) = false := by
    refine Text.finds_eq_false fun s hs => TagToken.find_eq_none ?_ ?_
    · exact fun hmem => absurd (hs.mem hmem) (by simp [hspan]; decide)
    · exact fun hmem => absurd (hs.mem hmem) (by simp [htag])
  rw [replaceTags, Text.replaceTokens_append
    (fun s _ hne => TagToken.find_append_newline htag hne)
    (fun _ _ _ => TagToken.length_le_of_find), Text.replaceTokens_eq_self hnothing]
  rfl

/-! ## References -/

namespace ReferenceToken

theorem titleHere_isPrefix (t : Text) : titleHere t <+: t := by
  unfold titleHere
  split
  · rename_i first more rest hblanks hrest
    rw [← hblanks]
    simp only
    split
    · rename_i hlength
      obtain ⟨stop, behind, hstop, hquoted⟩ := Text.exists_stop_of_length_takeWhile_lt hlength
      have hquote : stop = '"' := by simpa using hstop
      subst hquote
      refine ⟨behind, ?_⟩
      calc t.leadingBlanks ++ '"' :: rest.takeWhile (· != '"') ++ ['"'] ++ behind
          = t.leadingBlanks ++ '"' :: (rest.takeWhile (· != '"') ++ '"' :: behind) := by simp
        _ = t.leadingBlanks ++ t.trimStart := by rw [← hquoted, hrest]
        _ = t := t.leadingBlanks_append_trimStart
    · exact List.nil_prefix
  · exact List.nil_prefix

/-- **What stands where a reference is found** is the reference. -/
theorem eq_append_of_image? {s alt path title : Text}
    (h : image? s = some (image alt path title)) :
    path ≠ [] ∧ ∃ behind, s = reference alt path title ++ behind := by
  unfold image? at h
  obtain ⟨rest, hrest, h⟩ := Option.bind_eq_some_iff.mp h
  obtain ⟨rest', hrest', h⟩ := Option.bind_eq_some_iff.mp h
  simp only at h
  split at h
  · rename_i hend
    cases h
    rw [Bool.and_eq_true, Text.startsWith, List.isPrefixOf_iff_prefix] at hend
    obtain ⟨hpath, behind, hbehind⟩ := hend
    rw [Text.behind?_eq_some_iff] at hrest hrest'
    refine ⟨by simpa using hpath, behind, ?_⟩
    have halt := List.prefix_iff_eq_append.mp (List.takeWhile_prefix (l := rest) (· != ']'))
    have hend := List.prefix_iff_eq_append.mp
      (List.takeWhile_prefix (l := rest') fun c => c != ')' && !isBlank c)
    have htitle := List.prefix_iff_eq_append.mp
      (titleHere_isPrefix (rest'.drop (rest'.takeWhile fun c => c != ')' && !isBlank c).length))
    rw [hrest'] at halt
    rw [← hbehind] at htitle
    rw [← htitle] at hend
    rw [← hend] at halt
    rw [hrest]
    nth_rewrite 1 [← halt]
    simp [reference]
  · cases h

/-- The parts of a reference lie in the text at whose front it is found. -/
theorem subset_of_image? {s alt path title : Text} (h : image? s = some (image alt path title)) :
    alt ⊆ s ∧ path ⊆ s ∧ title ⊆ s := by
  obtain ⟨-, behind, rfl⟩ := eq_append_of_image? h
  unfold reference
  refine ⟨fun c hc => ?_, fun c hc => ?_, fun c hc => ?_⟩ <;> simp [hc]

theorem subset_of_find {s alt path title : Text} {n : Nat}
    (h : find s = some (image alt path title, n)) : alt ⊆ s ∧ path ⊆ s ∧ title ⊆ s := by
  unfold find at h
  split at h
  · cases h
  · split at h
    · rename_i himage
      cases h
      exact subset_of_image? himage
    · cases h

end ReferenceToken

/-- The wording of a reference. -/
theorem ReferenceToken.wording_of_find {s alt path title : Text} {n : Nat}
    (h : find s = some (image alt path title, n)) :
    path ≠ [] ∧ s.take (n - 1 + 1) = reference alt path title := by
  unfold find at h
  split at h
  · cases h
  · split at h
    · rename_i himage
      cases h
      obtain ⟨hpath, behind, rfl⟩ := eq_append_of_image? himage
      exact ⟨hpath, List.take_left' (by simp [reference])⟩
    · cases h

theorem newline_not_mem_rootPath {path : Text} (h : '\n' ∉ path) : '\n' ∉ rootPath path := by
  unfold rootPath
  split
  · exact h
  · rw [List.mem_cons, not_or]
    exact ⟨by decide, fun hmem => h (Text.dropLeading_subset _ _ hmem)⟩

theorem newline_not_mem_reference {alt path title : Text} (halt : '\n' ∉ alt) (hpath : '\n' ∉ path)
    (htitle : '\n' ∉ title) : '\n' ∉ reference alt path title := by
  have hfront : '\n' ∉ "![".toList := by decide
  have hmiddle : '\n' ∉ "](".toList := by decide
  unfold reference
  simp only [List.mem_append, not_or]
  exact ⟨⟨⟨⟨⟨hfront, halt⟩, hmiddle⟩, hpath⟩, htitle⟩, by decide⟩

/-- **Rooting the references of a line** leaves one line. -/
theorem newline_not_mem_rootReferences {line : Text} (h : '\n' ∉ line) :
    '\n' ∉ rootReferences line := by
  refine Text.not_mem_replaceTokens h fun s found n hs hfind => ?_
  have hwording : '\n' ∉ s.take (n - 1 + 1) := fun hmem => hs (List.mem_of_mem_take hmem)
  cases found with
  | codeSpan => exact hwording
  | image alt path title =>
    obtain ⟨halt, hpath, htitle⟩ := ReferenceToken.subset_of_find hfind
    have hroot := newline_not_mem_rootPath fun hmem => hs (hpath hmem)
    simp only
    split
    · exact hwording
    · exact newline_not_mem_reference (fun hmem => hs (halt hmem)) hroot
        fun hmem => hs (htitle hmem)

/-! ## The edit -/

/-- **The lines of a page** with the images of its prose rooted. -/
def imageLines (lines : List Text) : List Text := editRuns (·.kind == .text) convertStretch lines

theorem rootImages_eq (page : Text) :
    rootImages page = Text.unlines (imageLines page.segments) := rfl

theorem keepsLine_imageLines {above below : List Text} {line : Text}
    (hregion : regionBehind above = .block) (hfence : isFence line = false) :
    KeepsLine imageLines above line below :=
  keepsLine_editRuns hfence (by rw [hregion]; rfl) rfl

/-- **The edited lines are lines of a page.** -/
theorem arePageLines_imageLines {lines : List Text} (h : Text.ArePageLines lines) :
    Text.ArePageLines (imageLines lines) := by
  refine arePageLines_editRuns (fun _ s _ => ?_) (fun s hs => ?_) h
  · cases s with
    | run first more => simp [convertStretch, convertRun, Text.segments_ne_nil]
    | single line => simp [convertStretch]
  · cases s with
    | run first more =>
      intro l hl
      obtain ⟨part, hpart, rfl⟩ := List.mem_map.mp hl
      exact newline_not_mem_rootReferences (Text.newline_not_mem_of_mem_segments hpart)
    | single line => simpa [convertStretch, Stretch.elements] using hs

theorem segments_rootImages (page : Text) :
    (rootImages page).segments = imageLines page.segments :=
  (arePageLines_imageLines (Text.arePageLines_segments page)).segments_unlines

theorem convertRun_concat {lines : List Text} {line : Text} (hne : lines ≠ [])
    (hspan : backtick ∉ line) (htag : '>' ∉ line) (hnewline : '\n' ∉ line) :
    convertRun (lines ++ [line]) = convertRun lines ++ [rootReferences line] := by
  rw [convertRun, Text.unlines_concat hne, replaceTags_append_newline hspan htag,
    Text.segments_append_newline, Text.segments_of_not_mem hnewline, List.map_append]
  rfl

theorem convertRun_singleton {line : Text} (hspan : backtick ∉ line) (htag : '>' ∉ line)
    (hnewline : '\n' ∉ line) : convertRun [line] = [rootReferences line] := by
  have hnothing : Text.finds TagToken.find line = false :=
    Text.finds_eq_false fun s hs => TagToken.find_eq_none
      (fun hmem => hspan (hs.mem hmem)) (fun hmem => htag (hs.mem hmem))
  rw [convertRun, Text.unlines_singleton, replaceTags, Text.replaceTokens_eq_self hnothing,
    Text.segments_of_not_mem hnewline]
  rfl

/-- **A last line in the prose** without backtick and `>` is edited on its own. -/
theorem imageLines_concat {above : List Text} {line : Text} (hregion : regionBehind above = .prose)
    (hspan : backtick ∉ line) (htag : '>' ∉ line) (hnewline : '\n' ∉ line) :
    imageLines (above ++ [line]) = imageLines above ++ [rootReferences line] := by
  have hfence := not_isFence_of_backtick_not_mem hspan
  have hkind := Region.kindOf_prose_of_not_isFence hfence
  have hbehind : Region.afterAll .prose above = .prose := hregion
  rw [imageLines, editRuns, classifyFrom_concat, hbehind, hkind, imageLines, editRuns]
  obtain ⟨parts, first, more, hbefore, hafter⟩ | hafter :=
    runs_concat (p := fun line => line.kind == .text) (a := ⟨line, .text⟩) rfl
      (classifyFrom .prose above)
  · rw [hbefore, hafter, List.flatMap_append, List.flatMap_append, List.append_assoc]
    congr 1
    have hmap : (first :: (more ++ [⟨line, .text⟩])).map Line.text =
        (first :: more).map Line.text ++ [line] := by simp
    rw [List.flatMap_singleton, List.flatMap_singleton, convertStretch, convertStretch, hmap,
      convertRun_concat (by simp) hspan htag hnewline]
  · rw [hafter, List.flatMap_append, List.flatMap_singleton, convertStretch]
    exact congrArg (_ ++ ·) (convertRun_singleton hspan htag hnewline)

/-- A line that is edited on its own: no code span and no tag reaches into it. -/
structure IsSelfContained (line : Text) : Prop where
  backtick_not_mem : backtick ∉ line
  angle_not_mem : '>' ∉ line
  newline_not_mem : '\n' ∉ line

theorem IsSelfContained.not_isFence {line : Text} (h : IsSelfContained line) :
    isFence line = false := not_isFence_of_backtick_not_mem h.backtick_not_mem

/-- **Last lines in the prose** have their references rooted. -/
theorem imageLines_append_prose {above : List Text} (hregion : regionBehind above = .prose)
    {more : List Text} (hmore : ∀ l ∈ more, IsSelfContained l) :
    imageLines (above ++ more) = imageLines above ++ more.map rootReferences := by
  induction more using List.reverseRecOn with
  | nil => simp
  | append_singleton more line ih =>
    have hline := hmore line (by simp)
    have hmore' : ∀ l ∈ more, IsSelfContained l := fun l hl => hmore l (by simp [hl])
    have hbehind : regionBehind (above ++ more) = .prose := by
      rw [regionBehind_append, hregion,
        Region.afterAll_of_forall_not_isFence fun l hl => (hmore' l hl).not_isFence]
    rw [← List.append_assoc, imageLines_concat hbehind hline.backtick_not_mem hline.angle_not_mem
      hline.newline_not_mem, ih hmore', List.append_assoc, List.map_append]
    rfl

/-- Last lines in a block stay. -/
theorem imageLines_append_block {above : List Text} (hregion : regionBehind above = .block)
    {more : List Text} (hmore : ∀ l ∈ more, isFence l = false) :
    imageLines (above ++ more) = imageLines above ++ more :=
  KeepsLine.edit_append (fun _ hl => hl) (fun _ hbehind _ hl => keepsLine_imageLines hbehind hl)
    hregion hmore

/-- Last lines without image references stay, wherever they stand. -/
theorem imageLines_append {above more : List Text} (hmore : ∀ l ∈ more, IsSelfContained l)
    (hroot : ∀ l ∈ more, rootReferences l = l) :
    imageLines (above ++ more) = imageLines above ++ more := by
  cases hregion : regionBehind above with
  | prose =>
    rw [imageLines_append_prose hregion hmore, List.map_congr_left hroot, List.map_id']
  | block => exact imageLines_append_block hregion fun l hl => (hmore l hl).not_isFence

end BookSite.Image
