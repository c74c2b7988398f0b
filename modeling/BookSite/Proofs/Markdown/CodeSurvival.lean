import BookSite.Proofs.Markdown.PlainCode

/-!
# Proofs/Markdown/CodeSurvival — which lines of code come through a translation

An attribute group or the mark of a quote may stand in front of three backticks, and without it a
fence is left that was none before: then the later stages take prose for code and code for prose.
Lines of code in step survive; and behind lines that are not in step some code does not.
-/

namespace BookSite

open Include Quote Image

/-! ## Out of step

Behind lines that are not in step stands code that is lost, as often as one likes: more often than
the lines above have lines to offer. -/

/-- A line with nothing in it for the first stages: in a block that stays open it is plain code. -/
structure IsOrdinary (line : Text) : Prop where
  not_isFence : isFence line = false
  not_hidden : revealLine? line = none
  not_hasDirective : hasDirective line = false

theorem IsOrdinary.isPlainCode {line : Text} (h : IsOrdinary line) (above : List Text)
    {below : List Text} (hbelow : ∀ l ∈ below, isFence l = false) :
    IsPlainCode above ⟨line, .code⟩ below := by
  refine ⟨rfl, h.not_hidden, h.not_hasDirective, ?_⟩
  have hopen : below.any isFence = false := by
    rw [List.any_eq_false]
    intro l hl
    simp [hbelow l hl]
  rw [isUnwrapped, hopen, Bool.false_and]

section Ordinary

variable {above more : List Text} (hregion : regionBehind above = .block)
  (hmore : ∀ l ∈ more, IsOrdinary l)

include hregion hmore

/-- Ordinary code at the end of a page reaches the stage for quotes as it is. -/
theorem linesReadByQuotes_append :
    linesReadByQuotes (above ++ more) = linesReadByQuotes above ++ more := by
  refine KeepsLine.edit_append (fun _ hl => hl.not_isFence) (fun above' hbehind line hline => ?_)
    hregion hmore
  have hplain : IsPlainCode above' ⟨line, .code⟩ [] := hline.isPlainCode _ (by simp)
  exact keepsLine_linesReadByQuotes hbehind hplain hline.not_isFence

/-- All of it is plain code of the page. -/
theorem plainCodeFrom_append_ordinary :
    more <:+ plainCodeFrom [] (classifyFrom .prose (above ++ more)) [] := by
  have hbehind : Region.afterAll .prose above = .block := hregion
  have hplain : ∀ above', plainCodeFrom above' (more.map fun line => ⟨line, .code⟩) [] = more := by
    induction more with
    | nil => exact fun _ => rfl
    | cons line more ih =>
      intro above'
      have hmore' : ∀ l ∈ more, IsOrdinary l := fun l hl => hmore l (by simp [hl])
      have hline : IsPlainCode above' ⟨line, .code⟩ more :=
        (hmore line (by simp)).isPlainCode above' fun l hl => (hmore' l hl).not_isFence
      have hbelow : (more.map fun line => (⟨line, .code⟩ : Line)).map Line.text ++ [] = more := by
        rw [List.map_map, List.append_nil]
        exact List.map_id'' (fun _ => rfl) more
      rw [List.map_cons, plainCodeFrom, ih hmore', hbelow, if_pos hline]
      rfl
  rw [classifyFrom_append, hbehind,
    classifyFrom_of_forall_not_isFence .block fun l hl => (hmore l hl).not_isFence,
    plainCodeFrom_append]
  exact ⟨_, congrArg (_ ++ ·) (hplain _).symm⟩

end Ordinary

/-- A quote of `n + 1` lines behind a line of prose, with nothing to label it. -/
theorem quoteLines_append_quote {above : List Text} (hregion : regionBehind above = .prose)
    (n : Nat) :
    quoteLines (above ++ ['x'] :: List.replicate (n + 1) ['>', ' ', 'x']) =
      quoteLines above ++
        ['x'] :: "::: info".toList :: (List.replicate (n + 1) ['x'] ++ [closer]) := by
  have hbehind : Region.afterAll .prose above = .prose := hregion
  have hfence : ∀ l ∈ ['x'] :: List.replicate (n + 1) ['>', ' ', 'x'], isFence l = false :=
    List.forall_mem_cons.mpr ⟨rfl, List.forall_mem_replicate.mpr (.inr rfl)⟩
  have hcontent : (List.replicate (n + 1) ['>', ' ', 'x']).filterMap content? =
      List.replicate (n + 1) ['x'] := List.filterMap_replicate_of_some rfl
  have hquote : Quote.convertRun (List.replicate (n + 1) ['>', ' ', 'x']) =
      "::: info".toList :: (List.replicate (n + 1) ['x'] ++ [closer]) := by
    rw [Quote.convertRun, hcontent, List.replicate_succ]
    rfl
  have hruns : runs isQuoted
      ((List.replicate (n + 1) ['>', ' ', 'x']).map fun line => ⟨line, .text⟩) =
      [.run ⟨['>', ' ', 'x'], .text⟩ (List.replicate n ⟨['>', ' ', 'x'], .text⟩)] := by
    rw [List.map_replicate]
    exact runs_replicate rfl n
  rw [quoteLines, editRuns, classifyFrom_append, hbehind,
    classifyFrom_of_forall_not_isFence .prose hfence, List.map_cons, Region.contentKind,
    runs_append_cons rfl, hruns, List.flatMap_append, List.flatMap_cons, List.flatMap_singleton]
  have hstretch : Quote.convertStretch
      (.run ⟨['>', ' ', 'x'], .text⟩ (List.replicate n ⟨['>', ' ', 'x'], .text⟩)) =
      Quote.convertRun (List.replicate (n + 1) ['>', ' ', 'x']) := by
    rw [Quote.convertStretch, List.map_cons, List.map_replicate]
    rfl
  rw [hstretch, hquote]
  rfl

section Lost

variable {above : List Text} (hregion : regionBehind above = .block)

include hregion

/-- Where the stage for quotes is in the prose, it takes quoted code for a quote. -/
theorem translatedLines_append_quote (hquotes : regionBehind (linesReadByQuotes above) = .prose)
    (n : Nat) :
    translatedLines (above ++ ['x'] :: List.replicate (n + 1) ['>', ' ', 'x']) =
      translatedLines above ++
        ['x'] :: "::: info".toList :: (List.replicate (n + 1) ['x'] ++ [closer]) := by
  have hordinary : ∀ l ∈ ['x'] :: List.replicate (n + 1) ['>', ' ', 'x'], IsOrdinary l :=
    List.forall_mem_cons.mpr
      ⟨⟨rfl, rfl, rfl⟩, List.forall_mem_replicate.mpr (.inr ⟨rfl, rfl, rfl⟩)⟩
  have hinert : ∀ l ∈ ['x'] :: "::: info".toList :: (List.replicate (n + 1) ['x'] ++ [closer]),
      IsSelfContained l ∧ rootReferences l = l := by
    have hx : IsSelfContained ['x'] ∧ rootReferences ['x'] = ['x'] :=
      ⟨⟨by decide, by decide, by decide⟩, rfl⟩
    refine List.forall_mem_cons.mpr ⟨hx, List.forall_mem_cons.mpr ⟨?_, ?_⟩⟩
    · exact ⟨⟨by decide, by decide, by decide⟩, rfl⟩
    · refine List.forall_mem_append.mpr ⟨List.forall_mem_replicate.mpr (.inr hx), ?_⟩
      exact List.forall_mem_singleton.mpr ⟨⟨by decide, by decide, by decide⟩, rfl⟩
  rw [translatedLines, linesReadByImages, linesReadByQuotes_append hregion hordinary,
    quoteLines_append_quote hquotes,
    imageLines_append (fun l hl => (hinert l hl).1) fun l hl => (hinert l hl).2]
  rfl

/-- Where only the stage for images is in the prose, it takes code for image references. -/
theorem translatedLines_append_image (hquotes : regionBehind (linesReadByQuotes above) = .block)
    (himages : regionBehind (linesReadByImages above) = .prose) (n : Nat) :
    translatedLines (above ++ List.replicate n "![](x)".toList) =
      translatedLines above ++ List.replicate n "![](/x)".toList := by
  have hordinary : ∀ l ∈ List.replicate n "![](x)".toList, IsOrdinary l :=
    List.forall_mem_replicate.mpr (.inr ⟨rfl, rfl, rfl⟩)
  have hself : ∀ l ∈ List.replicate n "![](x)".toList, IsSelfContained l :=
    List.forall_mem_replicate.mpr (.inr ⟨by decide, by decide, by decide⟩)
  have hroot : rootReferences "![](x)".toList = "![](/x)".toList := rfl
  have hread : linesReadByImages (above ++ List.replicate n "![](x)".toList) =
      linesReadByImages above ++ List.replicate n "![](x)".toList := by
    rw [linesReadByImages, linesReadByQuotes_append hregion hordinary,
      quoteLines_append_block hquotes fun l hl => (hordinary l hl).not_isFence]
    rfl
  rw [translatedLines, hread, imageLines_append_prose himages hself, List.map_replicate, hroot]
  rfl

/-- **Behind lines out of step code is lost**: some ordinary code, put there often enough, is on the
translated page less often. -/
theorem exists_lost_code (hstep : ¬ LinesInStep above) :
    ∃ more, (∀ l ∈ more, IsOrdinary l ∧ '\n' ∉ l) ∧
      ∃ line, (translatedLines (above ++ more)).count line < more.count line := by
  set n := (translatedLines above).length
  have hcount : ∀ line, (translatedLines above).count line ≤ n := fun line => List.count_le_length
  cases hquotes : regionBehind (linesReadByQuotes above) with
  | prose =>
    refine ⟨['x'] :: List.replicate (n + 1) ['>', ' ', 'x'], ?_, ['>', ' ', 'x'], ?_⟩
    · exact List.forall_mem_cons.mpr ⟨⟨⟨rfl, rfl, rfl⟩, by decide⟩,
        List.forall_mem_replicate.mpr (.inr ⟨⟨rfl, rfl, rfl⟩, by decide⟩)⟩
    · have htail : ['>', ' ', 'x'] ∉
          ['x'] :: "::: info".toList :: (List.replicate (n + 1) ['x'] ++ [closer]) := by
        simp [closer]
      rw [translatedLines_append_quote hregion hquotes, List.count_append,
        List.count_eq_zero_of_not_mem htail, List.count_cons, List.count_replicate_self]
      have := hcount ['>', ' ', 'x']
      omega
  | block =>
    have himages : regionBehind (linesReadByImages above) = .prose := by
      cases himages : regionBehind (linesReadByImages above) with
      | prose => rfl
      | block => exact absurd ⟨hquotes, himages⟩ hstep
    refine ⟨List.replicate (n + 1) "![](x)".toList, ?_, "![](x)".toList, ?_⟩
    · exact List.forall_mem_replicate.mpr (.inr ⟨⟨rfl, rfl, rfl⟩, by decide⟩)
    · have htail : "![](x)".toList ∉ List.replicate (n + 1) "![](/x)".toList := by
        simp
      rw [translatedLines_append_image hregion hquotes himages, List.count_append,
        List.count_eq_zero_of_not_mem htail, List.count_replicate_self]
      have := hcount "![](x)".toList
      omega

end Lost

/-! ## Where code survives -/

/-- The lines above a line of code are the lines of a page. -/
theorem arePageLines_above {page : Text} {above below : List Line} {line : Line}
    (h : classify page = above ++ line :: below) (hcode : line.kind = .code) :
    Text.ArePageLines (above.map Line.text) := by
  obtain ⟨hlines, hkind⟩ := classifyFrom_eq_append_cons h
  constructor
  · intro hnil
    rw [hcode, hnil] at hkind
    cases (Region.kindOf_eq_code_iff.mp hkind.symm).1
  · intro l hl
    apply (Text.arePageLines_segments page).newline_not_mem
    rw [hlines]
    exact List.mem_append_left _ hl

/-- **Code survives where it is in step, and only there.**  If all plain code of a page is in step,
the translated page has its lines unchanged and in their order.  And whatever ends in a block but
not in step can be continued by plain code that does not all survive. -/
theorem plainCode_survives_in_step (fs : FileSystem) (path? : Option Path) :
    (∀ page, (∀ above line below, classify page = above ++ line :: below →
        IsPlainCode (above.map Line.text) line (below.map Line.text) →
        InStep (above.map Line.text)) →
      ∃ out, (Pipeline.standard .translate).convert fs path? page = .ok out ∧
        (plainCode page).Sublist out.segments) ∧
    ∀ start : Text, regionBehind start.segments = .block → ¬ InStep start.segments →
      ∃ more out, more <:+ plainCode (Text.unlines (start.segments ++ more)) ∧
        (Pipeline.standard .translate).convert fs path?
          (Text.unlines (start.segments ++ more)) = .ok out ∧
        ¬ (plainCode (Text.unlines (start.segments ++ more))).Sublist out.segments := by
  refine ⟨fun page hstep => ⟨_, convert_translate fs path? page, ?_⟩, fun start hregion hstep => ?_⟩
  · rw [segments_rootImages_readByImages]
    have hlines := plainCodeFrom_sublist page.segments (List.prefix_refl []) (by
      intro above line below hclassified hplain
      rw [List.append_nil] at hplain
      exact (inStep_iff (arePageLines_above hclassified hplain.1)).mp
        (hstep above line below hclassified hplain))
    rwa [List.append_nil] at hlines
  · have hstart := Text.arePageLines_segments start
    rw [inStep_iff hstart] at hstep
    obtain ⟨more, hmore, line, hcount⟩ := exists_lost_code hregion hstep
    have hsegments : (Text.unlines (start.segments ++ more)).segments = start.segments ++ more := by
      refine Text.segments_unlines (by simp [hstart.ne_nil]) fun l hl => ?_
      rcases List.mem_append.mp hl with hl | hl
      · exact hstart.newline_not_mem l hl
      · exact (hmore l hl).2
    have hplain : more <:+ plainCode (Text.unlines (start.segments ++ more)) := by
      rw [plainCode, classify, hsegments]
      exact plainCodeFrom_append_ordinary hregion fun l hl => (hmore l hl).1
    refine ⟨more, _, hplain, convert_translate fs path? _, fun hkept => ?_⟩
    rw [segments_rootImages_readByImages, hsegments] at hkept
    have hle := (hplain.sublist.trans hkept).count_le line
    omega

/-- A page with a quoted block, all of it quoted, and a block behind it. -/
def pageInStep : Text := "> ```\n> a\n> ```\n\n```\nx\n```".toList

/-- A page with a quoted block whose closing fence is not quoted, and a block behind it. -/
def pageOutOfStep : Text := "> ```text\n> sample\n\n```md\n![a](b.png)\n```".toList

theorem inStep_pageInStep {above below : List Line} {line : Line}
    (h : classify pageInStep = above ++ line :: below) (hcode : line.kind = .code) :
    InStep (above.map Line.text) := by
  have hall : ∀ i < 7, (classify pageInStep)[i]?.map Line.kind = some .code →
      InStep (((classify pageInStep).take i).map Line.text) := by decide +kernel
  have hlength : (classify pageInStep).length = 7 := rfl
  have habove : (classify pageInStep).take above.length = above := by rw [h]; simp
  have hline : (classify pageInStep)[above.length]? = some line := by rw [h]; simp
  have hlt : above.length < 7 := by
    rw [← hlength, h, List.length_append, List.length_cons]
    omega
  have hstep := hall above.length hlt (by rw [hline, Option.map_some, hcode])
  rwa [habove] at hstep

theorem plainCode_survives_pageInStep :
    (∃ out, (Pipeline.standard .translate).convert .empty none pageInStep = .ok out ∧
      (plainCode pageInStep).Sublist out.segments) ∧
    ∃ more out, more <:+ plainCode (Text.unlines ((pageOutOfStep.segments.take 4) ++ more)) ∧
      (Pipeline.standard .translate).convert .empty none
        (Text.unlines ((pageOutOfStep.segments.take 4) ++ more)) = .ok out ∧
      ¬ (plainCode (Text.unlines ((pageOutOfStep.segments.take 4) ++ more))).Sublist
        out.segments := by
  have hstart : (Text.unlines (pageOutOfStep.segments.take 4)).segments =
      pageOutOfStep.segments.take 4 := by decide +kernel
  have hsurvives := plainCode_survives_in_step .empty none
  refine ⟨hsurvives.1 pageInStep fun _ _ _ h hplain => inStep_pageInStep h hplain.1, ?_⟩
  have hlost := hsurvives.2 (Text.unlines (pageOutOfStep.segments.take 4)) (by decide +kernel)
    (by decide +kernel)
  rwa [hstart] at hlost

/-- What that page becomes: its second block is read as prose. -/
def translatedOutOfStep : Text :=
  "::: info\n```text\nsample\n:::\n\n```md\n![a](/b.png)\n```".toList

theorem plainCode_lost_pageOutOfStep :
    (Pipeline.standard .translate).convert .empty none pageOutOfStep = .ok translatedOutOfStep ∧
      plainCode pageOutOfStep = ["![a](b.png)".toList] ∧
      "![a](b.png)".toList ∉ translatedOutOfStep.segments := by
  refine ⟨rfl, ?_, ?_⟩
  · decide +kernel
  · decide +kernel

end BookSite
