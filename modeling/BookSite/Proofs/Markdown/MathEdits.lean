import BookSite.Proofs.Markdown.FenceFree
import BookSite.Proofs.Markdown.ShownImages
import Mathlib.Data.List.Infix

/-!
# Proofs/Markdown/MathEdits — lines of display math on their way through a translation

Only the stage for attributes knows display math.  It keeps the lines of a block of math as they
are, and to the other stages they are prose like any other: a directive in them is imported, a
quote mark makes a quote of them, and their images are rooted.  So a line of math comes through
unchanged when nothing of this kind is in it (`IsUntouched`), and when the stages are still in step
with the page where it stands (`MathInStep`).
-/

namespace BookSite

open Include Quote Image

/-! ## Prose in front of all fences -/

/-- **An edit goes through the prose** in front of all fences line by line, by `f`. -/
structure MapsFront (edit : List Text → List Text) (f : Text → Text) : Prop where
  nil : edit [] = []
  append : ∀ front, (∀ l ∈ front, isFence l = false) →
    ∀ rest, edit (front ++ rest) = front.map f ++ edit rest

namespace MapsFront

variable {edit : List Text → List Text} {f : Text → Text} {above : List Text}
  (h : MapsFront edit f) (habove : ∀ l ∈ above, isFence l = false)

include h habove

theorem edit_eq : edit above = above.map f := by
  have hedit := h.append above habove []
  rwa [List.append_nil, h.nil, List.append_nil] at hedit

theorem keepsLine {below : List Text} {line : Text} (hfence : isFence line = false)
    (hline : f line = line) : KeepsLine edit above line below := by
  have hfront : ∀ l ∈ above ++ [line], isFence l = false := by
    simpa [or_imp, forall_and] using ⟨habove, hfence⟩
  have hedit := h.append (above ++ [line]) hfront below
  refine ⟨edit below, ?_, by rintro rfl; exact h.nil⟩
  rw [h.edit_eq habove]
  simpa [hline] using hedit

end MapsFront

theorem regionBehind_of_forall_not_isFence {front : List Text}
    (h : ∀ l ∈ front, isFence l = false) : regionBehind front = .prose :=
  Region.afterAll_of_forall_not_isFence h

theorem mapsFront_editLine {kind : LineKind} (hkind : kind ≠ .text)
    (edit? : Text → Option Text) : MapsFront (mapLines (editLine kind edit?)) id where
  nil := rfl
  append front h rest := by
    have hfront : mapLines (editLine kind edit?) front = front := by
      rw [mapLines, classifyFrom_of_forall_not_isFence .prose h, List.map_map]
      exact List.map_id'' (fun _ => if_neg (Ne.symm hkind)) front
    rw [mapLines_append, hfront, regionBehind_of_forall_not_isFence h, List.map_id]
    rfl

/-- Lines of prose are written one by one. -/
theorem foldl_step_prose {front : List Text} (h : ∀ l ∈ front, isFence l = false)
    (state : ImportedLines) :
    (classifyFrom .prose front).foldl ImportedLines.step state =
      state.write (front.map importDirectives) := by
  rw [classifyFrom_of_forall_not_isFence .prose h]
  clear h
  induction front generalizing state with
  | nil => simp [ImportedLines.write]
  | cons line front ih =>
    rw [List.map_cons, List.foldl_cons, ih, List.map_cons]
    simp [ImportedLines.step, Region.contentKind, ImportedLines.write]

theorem mapsFront_importLines : MapsFront importLines importDirectives where
  nil := rfl
  append front h rest := by
    have hbehind : Region.afterAll .prose front = .prose := regionBehind_of_forall_not_isFence h
    have hwritten := ImportedLines.finish_foldl_step (front.map importDirectives) [] none
      (classifyFrom .prose rest)
    rw [List.append_nil] at hwritten
    rw [importLines, ImportedLines.run, classifyFrom_append, List.foldl_append, foldl_step_prose h,
      hbehind]
    exact hwritten

theorem forall_not_isFence_map_importDirectives {front : List Text}
    (h : ∀ l ∈ front, isFence l = false) : ∀ l ∈ front.map importDirectives, isFence l = false := by
  intro l hl
  obtain ⟨line, hline, rfl⟩ := List.mem_map.mp hl
  rw [isFence_importDirectives]
  exact h line hline

/-- The lines that the stage for attributes reads, in front of all fences. -/
theorem plainFences_importLines_revealedLines {above : List Text}
    (habove : ∀ l ∈ above, isFence l = false) :
    plainFences (importLines (revealedLines above)) = above.map importDirectives := by
  have hrevealed : revealedLines above = above := by
    rw [revealedLines, (mapsFront_editLine (by decide) _).edit_eq habove, List.map_id]
  rw [hrevealed, mapsFront_importLines.edit_eq habove, plainFences,
    (mapsFront_editLine (by decide) _).edit_eq (forall_not_isFence_map_importDirectives habove),
    List.map_id]

/-! ## Display math -/

/-- Whether display math is open behind lines of prose. -/
def insideMath (lines : List Text) : Bool :=
  lines.foldl (fun inMath line => inMath != togglesMath line) false

@[simp] theorem insideMath_concat (lines : List Text) (line : Text) :
    insideMath (lines ++ [line]) = (insideMath lines != togglesMath line) :=
  List.foldl_concat ..

/-- A line **of display math**: it stands inside of a block of math, or opens or closes one. -/
def IsDisplay (above : List Text) (line : Text) : Prop :=
  insideMath above = true ∨ togglesMath line = true

instance (above : List Text) (line : Text) : Decidable (IsDisplay above line) :=
  inferInstanceAs (Decidable (_ ∨ _))

theorem mathBehind_ofKind_text (lines : List Text) :
    mathBehind false (lines.map fun line => ⟨line, .text⟩) = insideMath lines := by
  induction lines using List.reverseRecOn with
  | nil => rfl
  | append_singleton lines line ih =>
    rw [mathBehind] at ih
    rw [List.map_append, mathBehind, List.foldl_append, ih, insideMath_concat]
    cases htoggles : togglesMath line <;> simp [mathAfter, htoggles]

/-- **The stage for attributes keeps display math.** -/
theorem keepsLine_attributeLines_of_isDisplay {above below : List Text} {line : Text}
    (habove : ∀ l ∈ above, isFence l = false) (hfence : isFence line = false)
    (hdisplay : IsDisplay above line) : KeepsLine attributeLines above line below := by
  have hbehind : Region.afterAll .prose above = .prose := regionBehind_of_forall_not_isFence habove
  have hmath : mathBehind false (classifyFrom .prose above) = insideMath above := by
    rw [classifyFrom_of_forall_not_isFence .prose habove]
    exact mathBehind_ofKind_text above
  have hstep : attributeStep (insideMath above) ⟨line, .text⟩ = [line] := by
    refine if_neg fun hattributed => ?_
    obtain ⟨-, htoggles, hinside⟩ := hattributed
    rcases hdisplay with h | h
    · rw [h] at hinside
      cases hinside
    · rw [h] at htoggles
      cases htoggles
  refine ⟨moveAttributesFrom (mathAfter (insideMath above) ⟨line, .text⟩)
    (classifyFrom .prose below), ?_, by rintro rfl; rfl⟩
  rw [attributeLines, classifyFrom_append, hbehind, classifyFrom,
    Region.kindOf_prose_of_not_isFence hfence, Region.after_of_not_isFence hfence,
    moveAttributesFrom_append, hmath, moveAttributesFrom_cons, hstep]
  rfl

namespace Image

/-! ## Tags that end -/

/-- **Every tag of a text ends in it**: nothing written behind a line end belongs to one. -/
def ClosesTags (t : Text) : Prop :=
  ∀ s ∈ t.tails, ∀ rest ∈ Text.behind? s "<img".toList, wordEnds rest = true → '>' ∈ rest

instance (t : Text) : Decidable (ClosesTags t) :=
  inferInstanceAs (Decidable (∀ s ∈ t.tails, ∀ rest ∈ Text.behind? s "<img".toList, _))

theorem ClosesTags.of_suffix {s t : Text} (h : ClosesTags t) (hs : s <:+ t) : ClosesTags s :=
  fun u hu => h u ((List.mem_tails u t).mpr (((List.mem_tails u s).mp hu).trans hs))

/-- The end of a tag that is open in the first text is not looked for behind the line end. -/
theorem ClosesTags.find_append_newline {t s : Text} (h : ClosesTags t) (hs : s <:+ t)
    (hne : s ≠ []) (more : Text) : TagToken.find (s ++ '\n' :: more) = TagToken.find s := by
  have hinside : TagToken.tagInside? (s ++ '\n' :: more) = TagToken.tagInside? s := by
    rw [TagToken.tagInside?, TagToken.tagInside?, Text.behind?_append_cons (by decide)]
    cases hrest : Text.behind? s "<img".toList with
    | none => rfl
    | some rest =>
      have hends : wordEnds (rest ++ '\n' :: more) = wordEnds rest := by
        cases rest <;> rfl
      simp only [Option.map_some, Option.bind_eq_bind, Option.bind_some, hends]
      cases hword : wordEnds rest with
      | false => rfl
      | true =>
        obtain ⟨inside, behind, rfl, hinside⟩ :=
          List.eq_append_cons_of_mem (h s ((List.mem_tails s t).mpr hs) rest hrest hword)
        rw [List.append_assoc, List.cons_append, Text.takeWhile_bne_append hinside,
          Text.takeWhile_bne_append hinside]
        simp
  rw [TagToken.find, TagToken.find, TagToken.codeSpanLength?_append_newline hne, hinside]

theorem replaceTags_newline_cons (t : Text) :
    replaceTags ('\n' :: t) = '\n' :: replaceTags t :=
  Text.replaceTokens_cons_of_none rfl

/-- **Tags are replaced line by line** behind lines in which every tag ends. -/
theorem ClosesTags.replaceTags_append_newline {t : Text} (h : ClosesTags t) (more : Text) :
    replaceTags (t ++ '\n' :: more) = replaceTags t ++ '\n' :: replaceTags more := by
  rw [← replaceTags_newline_cons]
  exact Text.replaceTokens_append (fun s hs hne => h.find_append_newline hs hne more)
    fun _ _ _ => TagToken.length_le_of_find

/-- Where every tag of the first lines ends, the lines behind them are edited on their own. -/
theorem convertRun_append {xs ys : List Text} (hxs : xs ≠ []) (hys : ys ≠ [])
    (h : ClosesTags (Text.unlines xs)) : convertRun (xs ++ ys) = convertRun xs ++ convertRun ys := by
  rw [convertRun, Text.unlines_append hxs hys, h.replaceTags_append_newline,
    Text.segments_append_newline, List.map_append]
  rfl

/-- The lines with the images of their prose rooted, when the first one starts in region `r`. -/
def imageLinesFrom (r : Region) (lines : List Text) : List Text :=
  (runs (·.kind == .text) (classifyFrom r lines)).flatMap convertStretch

theorem imageLinesFrom_prose (lines : List Text) : imageLinesFrom .prose lines = imageLines lines :=
  rfl

/-- **The stage for images goes by parts** that end all of their tags. -/
theorem imageLinesFrom_append (r : Region) {xs : List Text} (h : ClosesTags (Text.unlines xs))
    (ys : List Text) :
    imageLinesFrom r (xs ++ ys) = imageLinesFrom r xs ++ imageLinesFrom (r.afterAll xs) ys := by
  rw [imageLinesFrom, classifyFrom_append]
  obtain ⟨parts, first, more, first', more', rest, hxs, hys, hboth⟩ | hboth :=
    runs_append (p := fun line : Line => line.kind == .text) (classifyFrom r xs)
      (classifyFrom (r.afterAll xs) ys)
  · have hlines : parts.flatMap (fun s => s.elements.map Line.text) ++
        (first :: more).map Line.text = xs := by
      have helements := flatMap_elements_runs (fun line : Line => line.kind == .text)
        (classifyFrom r xs)
      rw [hxs, List.flatMap_append, List.flatMap_singleton] at helements
      have htexts := congrArg (List.map Line.text) helements
      rw [map_text_classifyFrom, List.map_append, List.map_flatMap] at htexts
      exact htexts
    have hlast : ClosesTags (Text.unlines ((first :: more).map Line.text)) := by
      by_cases hbefore : parts.flatMap (fun s => s.elements.map Line.text) = []
      · rw [hbefore, List.nil_append] at hlines
        rwa [hlines]
      · rw [← hlines, Text.unlines_append hbefore (by simp)] at h
        exact h.of_suffix ((List.suffix_cons _ _).trans (List.suffix_append _ _))
    have hmap : (first :: (more ++ first' :: more')).map Line.text =
        (first :: more).map Line.text ++ (first' :: more').map Line.text := by simp
    have hwritten : convertStretch (.run first (more ++ first' :: more')) =
        convertStretch (.run first more) ++ convertStretch (.run first' more') := by
      rw [convertStretch, hmap, convertRun_append (by simp) (by simp) hlast]
      rfl
    rw [imageLinesFrom, imageLinesFrom, hboth, hxs, hys]
    simp only [List.flatMap_append, List.flatMap_cons, List.flatMap_nil, hwritten, List.append_nil,
      List.append_assoc]
  · rw [hboth, List.flatMap_append]
    rfl

/-! ## Images that stay -/

/-- What the scan for tags finds in a text. -/
def tagsIn (t : Text) : List TagToken := Text.tokens TagToken.find t

/-- Where a tag is found its mark stands. -/
theorem isInfix_of_mem_tagsIn {t attributes : Text} (h : .tag attributes ∈ tagsIn t) :
    "<img".toList <:+: t := by
  obtain ⟨wording, hmem⟩ := Text.mem_tokens_iff.mp h
  obtain ⟨c, -, heq⟩ | ⟨s, found, n, hs, hfind, heq⟩ := Text.mem_scan hmem
  · cases heq
  · cases heq
    obtain ⟨slash, rest, rfl, -⟩ := TagToken.eq_of_find hfind
    exact (List.prefix_append _ _).isInfix.trans hs.isInfix

/-- A path that a reference keeps: an anchor of the page, or a rooted or external path. -/
def IsRooted (path : Text) : Prop :=
  path.startsWith ['#'] = true ∨ path.startsWith ['/'] = true ∨ isExternal path = true

instance (path : Text) : Decidable (IsRooted path) := inferInstanceAs (Decidable (_ ∨ _ ∨ _))

theorem replaceTags_eq_self {t : Text}
    (h : ∀ attributes, .tag attributes ∈ tagsIn t → tagReference? attributes = none) :
    replaceTags t = t := by
  refine Text.replaceTokens_eq_self_of_tokens fun wording found hmem => ?_
  cases found with
  | codeSpan => rfl
  | tag attributes => simp [h attributes (Text.mem_tokens_iff.mpr ⟨wording, hmem⟩)]

/-- A path that is not the anchor of a page stays when it is rooted. -/
theorem IsRooted.rootPath_eq {path : Text} (h : IsRooted path)
    (hanchor : ¬ path.startsWith ['#'] = true) : rootPath path = path := by
  rw [rootPath, if_pos]
  rw [Bool.or_eq_true]
  exact h.resolve_left hanchor

/-- What the scan for references calls an image is worded as a reference with these parts. -/
theorem eq_reference_of_mem_scan {line wording alt path title : Text}
    (h : .token wording (.image alt path title) ∈ Text.scan ReferenceToken.find line) :
    path ≠ [] ∧ wording = reference alt path title := by
  obtain ⟨c, -, heq⟩ | ⟨s, found, n, -, hfind, heq⟩ := Text.mem_scan h
  · cases heq
  · cases heq
    exact ReferenceToken.wording_of_find hfind

/-- Where a reference is found its mark stands. -/
theorem isInfix_of_mem_tokensIn {line alt path title : Text}
    (h : .image alt path title ∈ tokensIn line) : "![".toList <:+: line := by
  obtain ⟨wording, hmem⟩ := Text.mem_tokens_iff.mp h
  refine List.IsInfix.trans ?_ (Text.wording_isInfix hmem)
  rw [(eq_reference_of_mem_scan hmem).2, reference]
  simp only [List.append_assoc]
  exact (List.prefix_append _ _).isInfix

theorem rootReferences_eq_self {line : Text}
    (h : ∀ alt path title, .image alt path title ∈ tokensIn line → IsRooted path) :
    rootReferences line = line := by
  refine Text.replaceTokens_eq_self_of_tokens fun wording found hmem => ?_
  cases found with
  | codeSpan => rfl
  | image alt path title =>
    have hrooted := h alt path title (Text.mem_tokens_iff.mpr ⟨wording, hmem⟩)
    simp only
    split
    · rfl
    · rename_i hanchor
      rw [hrooted.rootPath_eq hanchor, (eq_reference_of_mem_scan hmem).2]

/-- **A line for the stage for images to keep**: it ends all of its tags, none of them has a source,
and its references are rooted. -/
structure HasNoImage (line : Text) : Prop where
  closesTags : ClosesTags line
  tag : ∀ attributes, .tag attributes ∈ tagsIn line → tagReference? attributes = none
  reference : ∀ alt path title, .image alt path title ∈ tokensIn line → IsRooted path

theorem keepsLine_imageLines_of_hasNoImage {above below : List Text} {line : Text}
    (habove : ClosesTags (Text.unlines above)) (hnewline : '\n' ∉ line)
    (hfence : isFence line = false) (hline : HasNoImage line) :
    KeepsLine imageLines above line below := by
  have hclosed : ClosesTags (Text.unlines [line]) := by
    rw [Text.unlines_singleton]
    exact hline.closesTags
  have hsingle : ∀ r, imageLinesFrom r [line] = [line] := by
    intro r
    rw [imageLinesFrom, classifyFrom_of_forall_not_isFence r (by simpa using hfence)]
    cases r with
    | prose =>
      rw [List.map_singleton, runs_singleton (by rfl), List.flatMap_singleton, convertStretch,
        convertRun, List.map_singleton, Text.unlines_singleton, replaceTags_eq_self hline.tag,
        Text.segments_of_not_mem hnewline, List.map_singleton,
        rootReferences_eq_self hline.reference]
    | block => rfl
  refine ⟨imageLinesFrom ((regionBehind above).afterAll [line]) below, ?_, by rintro rfl; rfl⟩
  have hbehind : Region.afterAll .prose above = regionBehind above := rfl
  rw [← imageLinesFrom_prose, imageLinesFrom_append _ habove, hbehind, ← List.singleton_append,
    imageLinesFrom_append _ hclosed, hsingle]
  rfl

end Image

/-! ## The whole translation -/

/-- **A line with nothing in it for the stages**: no directive, no quote mark and no image. -/
structure IsUntouched (line : Text) : Prop where
  directive : hasDirective line = false
  quote : content? line = none
  image : HasNoImage line

/-- Lines behind which display math goes through **in step**: importing directives has not changed
whether math is open, and every tag that the stage for images finds ends. -/
structure MathInStep (above : List Text) : Prop where
  math : insideMath (above.map importDirectives) = insideMath above
  tags : ClosesTags (Text.unlines (linesReadByImages above))

instance (above : List Text) : Decidable (MathInStep above) :=
  decidable_of_iff (insideMath (above.map importDirectives) = insideMath above ∧
    ClosesTags (Text.unlines (linesReadByImages above)))
    ⟨fun h => ⟨h.1, h.2⟩, fun h => ⟨h.math, h.tags⟩⟩

/-- **Untouched lines of display math are kept** in front of all fences, where they are in step. -/
theorem keepsLine_translatedLines_of_isDisplay {above below : List Text} {line : Text}
    (habove : ∀ l ∈ above, isFence l = false) (hfence : isFence line = false)
    (hnewline : '\n' ∉ line) (hdisplay : IsDisplay above line) (hline : IsUntouched line)
    (hstep : MathInStep above) : KeepsLine translatedLines above line below := by
  have himported := forall_not_isFence_map_importDirectives habove
  have hrevealed : revealedLines above = above := by
    rw [revealedLines, (mapsFront_editLine (by decide) _).edit_eq habove, List.map_id]
  have hkept : KeepsLine (fun lines => importLines (revealedLines lines)) above line below :=
    KeepsLine.comp ((mapsFront_editLine (by decide) _).keepsLine habove hfence rfl) fun rest => by
      rw [hrevealed]
      exact mapsFront_importLines.keepsLine habove hfence (importDirectives_eq_self hline.directive)
  have hkept' : KeepsLine (fun lines => plainFences (importLines (revealedLines lines))) above line
      below := hkept.comp fun rest => by
    rw [hrevealed, mapsFront_importLines.edit_eq habove]
    exact (mapsFront_editLine (by decide) _).keepsLine himported hfence rfl
  have hquotes : KeepsLine linesReadByQuotes above line below := hkept'.comp fun rest => by
    rw [plainFences_importLines_revealedLines habove]
    refine keepsLine_attributeLines_of_isDisplay himported hfence ?_
    rwa [IsDisplay, hstep.math]
  have himages : KeepsLine linesReadByImages above line below :=
    hquotes.comp fun _ => keepsLine_quoteLines_of_content?_eq_none hfence hline.quote
  exact himages.comp fun _ =>
    keepsLine_imageLines_of_hasNoImage hstep.tags hnewline hfence hline.image

end BookSite
