import BookSite.Proofs.Markdown.RaisedText

/-!
# Proofs/Markdown/DisplayMath — display math through the whole translation

Display math should pass through a translation as it is.  It does where its lines are untouched and
in step: then the translated page is the page with other lines in place of its prose.  And for a
line alone between `$$` and `$$` one can say exactly when it passes: a directive, a quote mark, a
tag with a source or a path to be rooted is not left alone because it stands in math.
-/

namespace BookSite

open Include Quote Image

/-! ## Passing -/

/-- Lines, each with whether it is of display math; `inMath` says whether they start in math. -/
def displayFrom (inMath : Bool) : List Text → List (Text × Bool)
  | [] => []
  | line :: rest =>
    (line, inMath || togglesMath line) :: displayFrom (inMath != togglesMath line) rest

/-- **The lines of a page**, each with whether it is of display math. -/
def displayLines (page : Text) : List (Text × Bool) := displayFrom false page.segments

/-- **Display math passes**: of the lines of display math each is kept, in their order and with
nothing between neighbours, and in place of the others there may be any lines. -/
inductive MathPasses : List (Text × Bool) → List Text → Prop
  | nil : MathPasses [] []
  | display {line : Text} {rest : List (Text × Bool)} {out : List Text} :
    MathPasses rest out → MathPasses ((line, true) :: rest) (line :: out)
  | prose {line : Text} {rest : List (Text × Bool)} {out : List Text} (becomes : List Text) :
    MathPasses rest out → MathPasses ((line, false) :: rest) (becomes ++ out)

theorem displayFrom_append (inMath : Bool) (above below : List Text) :
    displayFrom inMath (above ++ below) =
      displayFrom inMath above ++
        displayFrom (above.foldl (fun inMath line => inMath != togglesMath line) inMath) below := by
  induction above generalizing inMath with
  | nil => rfl
  | cons line above ih => rw [List.cons_append, displayFrom, ih]; rfl

/-- A line stands in display math when what is above it leaves math open, or by itself. -/
theorem displayFrom_append_cons (above : List Text) (line : Text) (below : List Text) :
    displayFrom false (above ++ line :: below) =
      displayFrom false above ++ (line, decide (IsDisplay above line)) ::
        displayFrom (insideMath (above ++ [line])) below := by
  have hdisplay : (insideMath above || togglesMath line) = decide (IsDisplay above line) := by
    cases hinside : insideMath above <;> cases htoggles : togglesMath line <;>
      simp [IsDisplay, hinside, htoggles]
  rw [displayFrom_append, insideMath_concat, ← hdisplay]
  rfl

namespace MathPasses

theorem append {above below : List (Text × Bool)} {out out' : List Text}
    (h : MathPasses above out) (h' : MathPasses below out') :
    MathPasses (above ++ below) (out ++ out') := by
  induction h with
  | nil => exact h'
  | display _ ih => exact .display ih
  | prose becomes _ ih =>
    rw [List.append_assoc]
    exact .prose becomes ih

/-- In place of prose alone there may be anything. -/
theorem of_prose {lines : List (Text × Bool)} (h : ∀ p ∈ lines, p.2 = false) {out : List Text}
    (hout : lines = [] → out = []) : MathPasses lines out := by
  induction lines generalizing out with
  | nil =>
    rw [hout rfl]
    exact .nil
  | cons p rest ih =>
    obtain ⟨line, isDisplay⟩ := p
    obtain rfl : isDisplay = false := h _ List.mem_cons_self
    have hrest : MathPasses rest [] := ih (fun q hq => h q (List.mem_cons_of_mem _ hq)) fun _ => rfl
    simpa using MathPasses.prose out hrest

/-- Display math alone passes as it is. -/
theorem eq_of_display {lines out : List Text} (h : MathPasses (lines.map (·, true)) out) :
    out = lines := by
  induction lines generalizing out with
  | nil => cases h; rfl
  | cons line lines ih =>
    cases h with
    | display h => rw [ih h]

theorem of_display (lines : List Text) : MathPasses (lines.map (·, true)) lines := by
  induction lines with
  | nil => exact .nil
  | cons line lines ih => exact .display ih

end MathPasses

/-! ## Where math passes -/

/-- **Every line of display math** of a page is untouched and in step. -/
def MathIsUntouched (lines : List Text) : Prop :=
  ∀ above line below, lines = above ++ line :: below → IsDisplay above line →
    IsUntouched line ∧ MathInStep above

/-- **Up to its last line of display math** a page passes by induction on the lines above it; the
lines below are prose, and it does not matter what becomes of them. -/
theorem mathPasses_translatedLines {lines below : List Text}
    (hfence : ∀ l ∈ lines, isFence l = false) (hnewline : ∀ l ∈ lines, '\n' ∉ l)
    (hmath : MathIsUntouched lines)
    (hbelow : ∀ p ∈ displayFrom (insideMath lines) below, p.2 = false) :
    MathPasses (displayFrom false (lines ++ below)) (translatedLines (lines ++ below)) := by
  induction lines using List.reverseRecOn generalizing below with
  | nil =>
    refine .of_prose hbelow fun hnil => ?_
    cases below with
    | nil => rfl
    | cons line below => cases hnil
  | append_singleton above line ih =>
    have habove : ∀ l ∈ above, isFence l = false := fun l hl => hfence l (by simp [hl])
    have hlater : ∀ below, (∀ p ∈ displayFrom (insideMath above) below, p.2 = false) →
        MathPasses (displayFrom false (above ++ below)) (translatedLines (above ++ below)) :=
      fun below => ih habove (fun l hl => hnewline l (by simp [hl]))
        fun above' line' below' heq => hmath above' line' (below' ++ [line]) (by simp [heq])
    rw [List.append_assoc, List.singleton_append]
    by_cases hdisplay : IsDisplay above line
    · obtain ⟨huntouched, hstep⟩ := hmath above line [] rfl hdisplay
      obtain ⟨rest, hrest, hlast⟩ := keepsLine_translatedLines_of_isDisplay habove
        (hfence line (by simp)) (hnewline line (by simp)) hdisplay huntouched hstep
      have hfront : MathPasses (displayFrom false above) (translatedLines above) := by
        have hnothing := hlater [] fun p hp => by cases hp
        rwa [List.append_nil] at hnothing
      rw [hrest, displayFrom_append_cons, decide_eq_true hdisplay]
      refine hfront.append (.display (.of_prose hbelow fun hnil => hlast ?_))
      cases below with
      | nil => rfl
      | cons line' below => cases hnil
    · refine hlater _ fun p hp => ?_
      rw [displayFrom] at hp
      rw [IsDisplay, not_or] at hdisplay
      obtain ⟨hinside, htoggles⟩ := hdisplay
      rw [Bool.not_eq_true] at hinside htoggles
      rcases List.mem_cons.mp hp with rfl | hp
      · simp [hinside, htoggles]
      · refine hbelow p ?_
        rwa [insideMath_concat]

/-! ## A line alone in math -/

/-- A page with one line between the two lines that open and close display math. -/
def mathPage (line : Text) : Text := Text.unlines [['$', '$'], line, ['$', '$']]

/-- **A line for math to keep**: it holds no directive, it is not quoted unless by an alert, no tag
of it has a source, and its references are rooted. -/
structure IsKeptInMath (line : Text) : Prop where
  directive : hasDirective line = false
  quote : ∀ content, content? line = some content → isAlert content = true
  tag : ∀ attributes, .tag attributes ∈ tagsIn line → tagReference? attributes = none
  reference : ∀ alt path title, .image alt path title ∈ tokensIn line → IsRooted path

theorem segments_mathPage {line : Text} (h : '\n' ∉ line) :
    (mathPage line).segments = [['$', '$'], line, ['$', '$']] :=
  Text.segments_unlines (by simp) (by simp [h])

/-- Between the dollars the stage for attributes leaves everything alone. -/
theorem attributeLines_mathPage {line : Text} (hfence : isFence line = false) :
    attributeLines [['$', '$'], line, ['$', '$']] = [['$', '$'], line, ['$', '$']] := by
  have hopen : KeepsLine attributeLines [] ['$', '$'] [] :=
    keepsLine_attributeLines_of_isDisplay (by simp) (by decide) (.inr (by decide))
  have hline : KeepsLine attributeLines [['$', '$']] line [] :=
    keepsLine_attributeLines_of_isDisplay (by decide) hfence (.inl (by decide))
  have hclose : KeepsLine attributeLines [['$', '$'], line] ['$', '$'] [] :=
    keepsLine_attributeLines_of_isDisplay (by simpa using ⟨by decide, hfence⟩) (by decide)
      (.inr (by decide))
  have hfirst := hopen.edit_concat
  have hsecond := hline.edit_concat
  have hthird := hclose.edit_concat
  simp only [List.nil_append, List.cons_append] at hfirst hsecond hthird
  rw [hthird, hsecond, hfirst]
  rfl

/-- The lines between the dollars, as the stage for images reads them. -/
def linesInMath (line : Text) : List Text :=
  if (content? line).isSome then Quote.convertRun [line] else [line]

theorem linesReadByImages_mathPage {line : Text} (hfence : isFence line = false) :
    linesReadByImages [['$', '$'], line, ['$', '$']] =
      ['$', '$'] :: (linesInMath (importDirectives line) ++ [['$', '$']]) := by
  have hlines : ∀ l ∈ [['$', '$'], line, ['$', '$']], isFence l = false := by
    simpa using ⟨by decide, hfence, by decide⟩
  have himported : isFence (importDirectives line) = false := by rwa [isFence_importDirectives]
  have hdollars : importDirectives ['$', '$'] = ['$', '$'] := rfl
  rw [linesReadByImages, linesReadByQuotes, plainFences_importLines_revealedLines hlines]
  simp only [List.map_cons, List.map_nil, hdollars]
  rw [attributeLines_mathPage himported, quoteLines, editRuns, classifyFrom_of_forall_not_isFence]
  · cases hcontent : content? (importDirectives line) with
    | none =>
      simp [runs, Stretch.cons, isQuoted, hcontent, linesInMath, Region.contentKind,
        Quote.convertStretch, show content? ['$', '$'] = none from rfl]
    | some content =>
      simp [runs, Stretch.cons, isQuoted, hcontent, linesInMath, Region.contentKind,
        Quote.convertStretch, show content? ['$', '$'] = none from rfl]
  · simpa using ⟨by decide, himported, by decide⟩

/-- Nothing happens to the first line for what follows it. -/
theorem imageLines_mathPage (lines : List Text) :
    imageLines (['$', '$'] :: lines) = ['$', '$'] :: imageLines lines := by
  have hclosed : ClosesTags (Text.unlines [['$', '$']]) := by decide
  exact imageLinesFrom_append .prose hclosed lines

/-- The values of a tag are part of it, so no line feed comes from them. -/
theorem newline_not_mem_replaceTags {line : Text} (h : '\n' ∉ line) :
    '\n' ∉ replaceTags line := by
  refine Text.not_mem_replaceTokens h fun s found n hs hfind => ?_
  have hwording : '\n' ∉ s.take (n - 1 + 1) := fun hmem => hs (List.mem_of_mem_take hmem)
  cases found with
  | codeSpan => exact hwording
  | tag attributes =>
    cases hreference : tagReference? attributes with
    | none => simpa [hreference] using hwording
    | some reference =>
      obtain ⟨slash, rest, rfl, -⟩ := TagToken.eq_of_find hfind
      have hattributes : '\n' ∉ attributes := fun hmem => hs (by simp [hmem])
      have hvalue : ∀ {accept : Text → Bool} {name value : Text},
          value? accept name attributes = some value → '\n' ∉ value := by
        intro accept name value hvalue hmem
        obtain ⟨before, c, d, behind, rfl, -⟩ := standsBetweenStops_of_value? hvalue
        exact hattributes (by simp [hmem])
      obtain ⟨src, hsrc, rfl⟩ := Option.map_eq_some_iff.mp hreference
      simp only [hreference, Option.getD_some]
      refine newline_not_mem_reference ?_ (newline_not_mem_rootPath (hvalue hsrc)) List.not_mem_nil
      cases halt : value? (fun _ => true) "alt".toList attributes with
      | none => exact List.not_mem_nil
      | some alt => exact hvalue halt

/-- **A line that makes no container** goes through the import, the tags and the references. -/
theorem translatedLines_mathPage {line : Text} (hnewline : '\n' ∉ line)
    (hfence : isFence line = false)
    (hquote : ∀ content, content? (importDirectives line) = some content →
      isAlert content = true) :
    translatedLines [['$', '$'], line, ['$', '$']] =
      [['$', '$'], rootReferences (replaceTags (importDirectives line)), ['$', '$']] := by
  have himported : isFence (importDirectives line) = false := by rwa [isFence_importDirectives]
  have hlines : linesInMath (importDirectives line) = [importDirectives line] := by
    cases hcontent : content? (importDirectives line) with
    | none => simp [linesInMath, hcontent]
    | some content =>
      simp [linesInMath, hcontent, Quote.convertRun, hquote content hcontent]
  have hregion : regionBehind [importDirectives line] = .prose :=
    regionBehind_of_forall_not_isFence (by simpa using himported)
  have hdollars : rootReferences ['$', '$'] = ['$', '$'] := rfl
  have hsingle : imageLines [importDirectives line] =
      [rootReferences (replaceTags (importDirectives line))] := by
    rw [imageLines, editRuns, classifyFrom_of_forall_not_isFence .prose (by simpa using himported),
      List.map_singleton, runs_singleton (by rfl), List.flatMap_singleton, Image.convertStretch,
      Image.convertRun, List.map_singleton, Text.unlines_singleton, Text.segments_of_not_mem]
    · rfl
    · exact newline_not_mem_replaceTags (newline_not_mem_importDirectives hnewline)
  rw [translatedLines, linesReadByImages_mathPage hfence, imageLines_mathPage, hlines,
    imageLines_concat hregion (by decide) (by decide) (by decide), hsingle, hdollars]
  rfl

theorem containerLines_eq_cons (first : Text) (more : List Text) :
    ∃ opener rest, containerLines first more = (':' :: opener) :: rest := by
  unfold containerLines
  split
  · exact ⟨_, _, rfl⟩
  · exact ⟨_, _, rfl⟩

/-- A colon at the front of a page stays there. -/
theorem imageLines_colon_cons (rest : Text) (lines : List Text) :
    ∃ rest' lines', imageLines ((':' :: rest) :: lines) = (':' :: rest') :: lines' := by
  have hfence : isFence (':' :: rest) = false := not_isFence_of_trimStart rfl (by decide)
  have hrun : ∀ more, ∃ rest' lines', Image.convertRun ((':' :: rest) :: more) =
      (':' :: rest') :: lines' := by
    intro more
    obtain ⟨t, ht⟩ : ∃ t, Text.unlines ((':' :: rest) :: more) = ':' :: t := by
      cases more with
      | nil => exact ⟨rest, Text.unlines_singleton _⟩
      | cons line more => exact ⟨_, Text.unlines_cons _ (by simp)⟩
    obtain ⟨first, later, hsegments⟩ := List.exists_cons_of_ne_nil
      (Text.segments_ne_nil (replaceTags t))
    have hreplaced : replaceTags (':' :: t) = [':'] ++ replaceTags t :=
      Text.replaceTokens_cons_of_none rfl
    have hroot : rootReferences (':' :: first) = ':' :: rootReferences first :=
      Text.replaceTokens_cons_of_none rfl
    rw [Image.convertRun, ht, hreplaced, Text.segments_append (by decide), hsegments,
      List.modifyHead_cons, List.map_cons, List.singleton_append, hroot]
    exact ⟨_, _, rfl⟩
  rw [imageLines, editRuns, classifyFrom, Region.kindOf_prose_of_not_isFence hfence, runs]
  generalize runs _ (classifyFrom _ lines) = parts
  unfold Stretch.cons
  rw [if_pos (by rfl)]
  split
  · rename_i first more parts
    obtain ⟨rest', lines', h⟩ := hrun ((first :: more).map Line.text)
    refine ⟨rest', lines' ++ parts.flatMap Image.convertStretch, ?_⟩
    rw [List.flatMap_cons, Image.convertStretch, List.map_cons, h, List.cons_append]
  · obtain ⟨rest', lines', h⟩ := hrun []
    refine ⟨rest', lines' ++ parts.flatMap Image.convertStretch, ?_⟩
    rw [List.flatMap_cons, Image.convertStretch, List.map_cons, List.map_nil, h, List.cons_append]

/-- **A quoted line makes a container**, and then there is a colon where its quote mark stood. -/
theorem exists_translatedLines_mathPage {line content : Text} (hfence : isFence line = false)
    (hcontent : content? (importDirectives line) = some content)
    (halert : isAlert content = false) :
    ∃ rest lines, translatedLines [['$', '$'], line, ['$', '$']] =
      ['$', '$'] :: (':' :: rest) :: lines := by
  obtain ⟨opener, more, hcontainer⟩ := containerLines_eq_cons content []
  have hlines : linesInMath (importDirectives line) = (':' :: opener) :: more := by
    simp [linesInMath, hcontent, Quote.convertRun, halert, hcontainer]
  obtain ⟨rest, lines, himages⟩ := imageLines_colon_cons opener (more ++ [['$', '$']])
  refine ⟨rest, lines, ?_⟩
  rw [translatedLines, linesReadByImages_mathPage hfence, imageLines_mathPage, hlines,
    List.cons_append, himages]

/-- A quoted line is one with directives as well as with imports. -/
theorem eq_angle_cons_of_content? {line content : Text}
    (h : content? (importDirectives line) = some content) : ∃ rest, line = '>' :: rest := by
  have hangle : ∃ rest, importDirectives line = '>' :: rest := by
    unfold content? at h
    split at h
    · exact ⟨_, ‹_›⟩
    · exact ⟨_, ‹_›⟩
    · cases h
  obtain ⟨rest, hangle⟩ := hangle
  cases line with
  | nil => cases hangle
  | cons c line =>
    by_cases hc : c = '{'
    · subst hc
      obtain ⟨d, more, hd, hchar⟩ := importDirectives_brace line
      rw [hd] at hangle
      cases hangle
      rcases hchar with h | h <;> cases h
    · rw [importDirectives_cons_of_ne hc] at hangle
      cases hangle
      exact ⟨line, rfl⟩

/-- **A line alone in math is kept** just when it holds nothing for any stage. -/
theorem translatedLines_mathPage_eq_iff {line : Text} (hnewline : '\n' ∉ line)
    (hfence : isFence line = false) :
    translatedLines [['$', '$'], line, ['$', '$']] = [['$', '$'], line, ['$', '$']] ↔
      IsKeptInMath line := by
  by_cases hquote : ∀ content, content? (importDirectives line) = some content →
      isAlert content = true
  · rw [translatedLines_mathPage hnewline hfence hquote]
    have hmiddle : [['$', '$'], rootReferences (replaceTags (importDirectives line)), ['$', '$']] =
        [['$', '$'], line, ['$', '$']] ↔
        rootReferences (replaceTags (importDirectives line)) = line := by simp
    rw [hmiddle, rootReferences_replaceTags_importDirectives_eq_iff]
    refine ⟨fun ⟨hdirective, htag, hreference⟩ => ⟨hdirective, ?_, htag, hreference⟩,
      fun h => ⟨h.directive, h.tag, h.reference⟩⟩
    rwa [importDirectives_eq_self hdirective] at hquote
  · push Not at hquote
    obtain ⟨content, hcontent, halert⟩ := hquote
    rw [ne_eq, Bool.not_eq_true] at halert
    obtain ⟨rest, lines, hlines⟩ := exists_translatedLines_mathPage hfence hcontent halert
    obtain ⟨rest', rfl⟩ := eq_angle_cons_of_content? hcontent
    rw [hlines]
    refine ⟨fun heq => by simp at heq, fun h => ?_⟩
    rw [importDirectives_eq_self h.directive] at hcontent
    rw [h.quote content hcontent] at halert
    cases halert

/-! ## Display math through the pipeline -/

theorem displayLines_mathPage {line : Text} (hnewline : '\n' ∉ line)
    (htoggles : togglesMath line = false) :
    displayLines (mathPage line) = [['$', '$'], line, ['$', '$']].map (·, true) := by
  have hdollars : togglesMath ['$', '$'] = true := rfl
  rw [displayLines, segments_mathPage hnewline]
  simp [displayFrom, htoggles, hdollars]

/-- **Display math passes where nothing in it is for the stages, and only there.**  On a page without
fences all of whose lines of display math are untouched and in step, the lines of math come out
unchanged, with only prose between them changed.  And a line alone between two lines `$$` passes
just when it holds no directive, is no quote but an alert, and no image in it is to be rooted. -/
theorem display_math_passes (fs : FileSystem) (path? : Option Path) :
    (∀ page, FenceFree page → MathIsUntouched page.segments →
      ∃ out, (Pipeline.standard .translate).convert fs path? page = .ok out ∧
        MathPasses (displayLines page) out.segments) ∧
    ∀ line, '\n' ∉ line → isFence line = false → togglesMath line = false →
      ∃ out, (Pipeline.standard .translate).convert fs path? (mathPage line) = .ok out ∧
        (MathPasses (displayLines (mathPage line)) out.segments ↔ IsKeptInMath line) := by
  refine ⟨fun page hfence hmath => ⟨_, convert_translate fs path? page, ?_⟩,
    fun line hnewline hfence htoggles => ⟨_, convert_translate fs path? _, ?_⟩⟩
  · have hlines : MathPasses (displayFrom false (page.segments ++ []))
        (translatedLines (page.segments ++ [])) :=
      mathPasses_translatedLines hfence (Text.arePageLines_segments page).newline_not_mem hmath
        fun p hp => by cases hp
    rw [List.append_nil] at hlines
    rwa [segments_rootImages_readByImages, displayLines]
  · rw [segments_rootImages_readByImages, displayLines_mathPage hnewline htoggles,
      segments_mathPage hnewline, ← translatedLines_mathPage_eq_iff hnewline hfence]
    refine ⟨fun h => h.eq_of_display, fun h => ?_⟩
    rw [h]
    exact .of_display _

/-- Formulas without `<` and `!` have no image in them. -/
theorem isUntouched_of_not_mem {line : Text} (hdirective : hasDirective line = false)
    (hquote : content? line = none) (htag : '<' ∉ line) (hreference : '!' ∉ line) :
    IsUntouched line where
  directive := hdirective
  quote := hquote
  image :=
    { closesTags := fun s hs rest hrest _ => by
        rw [Option.mem_def, Text.behind?_eq_some_iff] at hrest
        exact absurd (((List.mem_tails s line).mp hs).mem (by simp [hrest])) htag
      tag := fun attributes hmem =>
        absurd ((isInfix_of_mem_tagsIn hmem).mem (by decide)) htag
      reference := fun alt path title hmem =>
        absurd ((isInfix_of_mem_tokensIn hmem).mem (by decide)) hreference }

/-- A page with a block of math between lines that are changed. -/
def pageWithMath : Text := "Sum \x7b#s\x7d:\n$$\nx_\x7b1\x7d\n+ y $$\n> done".toList

theorem mathIsUntouched_pageWithMath : MathIsUntouched pageWithMath.segments := by
  have hlines : ∀ i < 5, ∀ line ∈ pageWithMath.segments[i]?,
      IsDisplay (pageWithMath.segments.take i) line →
      hasDirective line = false ∧ content? line = none ∧ '<' ∉ line ∧ '!' ∉ line := by
    decide +kernel
  have hstep : ∀ i < 5, MathInStep (pageWithMath.segments.take i) := by decide +kernel
  intro above line below heq hdisplay
  have habove : pageWithMath.segments.take above.length = above := by rw [heq]; simp
  have hline : pageWithMath.segments[above.length]? = some line := by rw [heq]; simp
  have hlength : above.length < 5 := by
    have htotal : pageWithMath.segments.length = 5 := by decide +kernel
    rw [heq, List.length_append, List.length_cons] at htotal
    omega
  have hplain := hlines above.length hlength line hline
  have habovestep := hstep above.length hlength
  rw [habove] at hplain habovestep
  obtain ⟨hdirective, hquote, htag, hreference⟩ := hplain hdisplay
  exact ⟨isUntouched_of_not_mem hdirective hquote htag hreference, habovestep⟩

theorem display_math_passes_pageWithMath :
    (∃ out, (Pipeline.standard .translate).convert .empty none pageWithMath = .ok out ∧
      MathPasses (displayLines pageWithMath) out.segments) ∧
    ∃ out, (Pipeline.standard .translate).convert .empty none (mathPage "> b_n".toList) = .ok out ∧
      (MathPasses (displayLines (mathPage "> b_n".toList)) out.segments ↔
        IsKeptInMath "> b_n".toList) := by
  have hpasses := display_math_passes .empty none
  have hfence : ∀ l ∈ pageWithMath.segments, isFence l = false := by decide +kernel
  exact ⟨hpasses.1 pageWithMath hfence mathIsUntouched_pageWithMath,
    hpasses.2 "> b_n".toList (by decide) (by decide) (by decide)⟩

/-- A page of display math with a line that begins as a quote does. -/
def mathWithComparison : Text := "$$\na_n\n> b_n\n$$".toList

theorem display_math_lost_mathWithComparison :
    FenceFree mathWithComparison ∧
      displayLines mathWithComparison = mathWithComparison.segments.map (·, true) ∧
      (Pipeline.standard .translate).convert .empty none mathWithComparison =
        .ok "$$\na_n\n::: info\nb_n\n:::\n$$".toList ∧
      ¬ MathPasses (displayLines mathWithComparison)
        (Text.segments "$$\na_n\n::: info\nb_n\n:::\n$$".toList) := by
  have hfence : ∀ l ∈ mathWithComparison.segments, isFence l = false := by decide +kernel
  have hdisplay : displayLines mathWithComparison = mathWithComparison.segments.map (·, true) := by
    decide +kernel
  refine ⟨hfence, hdisplay, by rfl, fun h => ?_⟩
  rw [hdisplay] at h
  exact absurd h.eq_of_display (by decide +kernel)

end BookSite
