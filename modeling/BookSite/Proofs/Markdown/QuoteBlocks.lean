import BookSite.Markdown.Stage
import BookSite.Proofs.Markdown.RunParts

/-!
# Proofs/Markdown/QuoteBlocks — which lines become containers

A page is cut into its runs of quoted lines and the lines between them.  Each run becomes a
container on its own, unless it begins with an alert, and every other line stays
(`quotes_become_containers`).  Of what a quote says only the first line may change: its first label
is taken out of it, with the blanks behind, and goes into the line that opens the container.
-/

namespace BookSite.Quote

/-! ## Quoted lines -/

/-- **What a quoted line says**: what follows `> `, and nothing when only blanks follow `>`. -/
inductive Says : Text → Text → Prop
  | text (content : Text) : Says ('>' :: ' ' :: content) content
  | bare {blanks : Text} (hblanks : ∀ c ∈ blanks, isBlank c = true)
    (hspace : ∀ content, blanks ≠ ' ' :: content) : Says ('>' :: blanks) []

theorem content?_eq_some_iff {line content : Text} :
    content? line = some content ↔ Says line content := by
  constructor
  · intro h
    unfold content? at h
    split at h
    · cases h
      exact .text _
    · rename_i rest hspace
      split at h
      · rename_i hblank
        cases h
        exact .bare (List.all_eq_true.mp hblank) fun content heq => hspace content heq
      · cases h
    · cases h
  · intro h
    cases h with
    | text content => rfl
    | @bare blanks hblanks hspace =>
      unfold content?
      split
      · rename_i rest heq
        exact absurd (List.cons.inj heq).2 (hspace rest)
      · rename_i rest _ heq
        rw [← (List.cons.inj heq).2]
        exact if_pos (List.all_eq_true.mpr hblanks)
      · rename_i hother
        exact absurd rfl (hother blanks)

/-- **A quoted line** is prose, and says something. -/
theorem isQuoted_iff {line : Line} :
    isQuoted line = true ↔ line.kind = .text ∧ ∃ content, Says line.text content := by
  rw [isQuoted, Bool.and_eq_true, beq_iff_eq, Option.isSome_iff_exists]
  simp only [content?_eq_some_iff]

/-- What several lines say, in their order. -/
abbrev SayInOrder : List Line → List Text → Prop :=
  List.Forall₂ fun line content => Says line.text content

/-- The quoted lines of a run say something each. -/
theorem exists_says {lines : List Line} (h : ∀ line ∈ lines, isQuoted line = true) :
    ∃ contents, SayInOrder lines contents := by
  induction lines with
  | nil => exact ⟨[], .nil⟩
  | cons line lines ih =>
    obtain ⟨hline, hlines⟩ := List.forall_mem_cons.mp h
    obtain ⟨contents, hcontents⟩ := ih hlines
    obtain ⟨-, content, hcontent⟩ := isQuoted_iff.mp hline
    exact ⟨content :: contents, .cons hcontent hcontents⟩

theorem filterMap_content? {lines : List Line} {contents : List Text}
    (h : SayInOrder lines contents) :
    (lines.map Line.text).filterMap content? = contents := by
  induction h with
  | nil => rfl
  | cons hsaid _ ih =>
    rw [List.map_cons, List.filterMap_cons_some (content?_eq_some_iff.mpr hsaid), ih]

/-! ## Alerts -/

/-- **A line that begins as an alert**: with a tag, behind any number of blanks. -/
def BeginsAsAlert (t : Text) : Prop :=
  ∃ blanks tag rest, (∀ c ∈ blanks, isBlank c = true) ∧ tag ∈ alertTags ∧
    t = blanks ++ ("[!".toList ++ tag ++ [']'] ++ rest)

theorem isAlert_iff {t : Text} : isAlert t = true ↔ BeginsAsAlert t := by
  rw [isAlert, List.any_eq_true]
  constructor
  · rintro ⟨tag, htag, hstart⟩
    obtain ⟨rest, hrest⟩ := List.isPrefixOf_iff_prefix.mp hstart
    refine ⟨t.leadingBlanks, tag, rest, fun _ => Text.isBlank_of_mem_leadingBlanks, htag, ?_⟩
    rw [hrest, Text.leadingBlanks_append_trimStart]
  · rintro ⟨blanks, tag, rest, hblanks, htag, rfl⟩
    refine ⟨tag, htag, List.isPrefixOf_iff_prefix.mpr ?_⟩
    rw [Text.trimStart_append hblanks]
    exact List.prefix_append _ rest

/-! ## Labels -/

/-- **A bold label** is one of the names with a colon of either width, in two pairs of stars. -/
inductive IsLabel : Text → Text → Container → Prop
  | intro {name : Text} {container : Container} {colon : Char}
    (hname : (name, container) ∈ Container.labels) (hcolon : colon ∈ [':', '：']) :
    IsLabel ("**".toList ++ name ++ colon :: "**".toList) name container

/-- **The first label of a text**, with the texts before it and behind it and its blanks. -/
structure HasFirstLabel (t before name : Text) (container : Container) (behind : Text) : Prop where
  exists_eq : ∃ w blanks, IsLabel w name container ∧ (∀ c ∈ blanks, isBlank c = true) ∧
    t = before ++ (w ++ (blanks ++ behind))
  not_isBlank : ∀ c ∈ behind.head?, isBlank c = false
  first : ∀ w name' container' before' behind', IsLabel w name' container' →
    t = before' ++ (w ++ behind') → before.length ≤ before'.length

theorem IsLabel.ne_nil {w name : Text} {container : Container} (h : IsLabel w name container) :
    w ≠ [] := by
  cases h
  exact List.cons_ne_nil _ _

/-- A label chooses a container other than that of quotes without label. -/
theorem IsLabel.container_ne_info {w name : Text} {container : Container}
    (h : IsLabel w name container) : container ≠ .info := by
  have hlabels : ∀ entry ∈ Container.labels, entry.2 ≠ .info := by decide
  cases h with
  | intro hname _ => exact hlabels _ hname

theorem exists_isLabel_of_label {t name : Text} {container : Container} {n : Nat}
    (h : label t = some ((name, container), n)) :
    ∃ w rest, IsLabel w name container ∧ t = w ++ rest ∧
      n = w.length + rest.leadingBlanks.length := by
  obtain ⟨⟨name', container'⟩, hname, h⟩ := List.exists_of_findSome?_eq_some h
  obtain ⟨colon, hcolon, h⟩ := List.exists_of_findSome?_eq_some h
  obtain ⟨rest, hrest, heq⟩ := Option.map_eq_some_iff.mp h
  cases heq
  exact ⟨_, rest, .intro hname hcolon, Text.behind?_eq_some_iff.mp hrest, rfl⟩

theorem not_isPrefix_of_label_eq_none {t : Text} (h : label t = none) {w name : Text}
    {container : Container} (hw : IsLabel w name container) : ¬ w <+: t := by
  rintro ⟨rest, hrest⟩
  cases hw with
  | intro hname hcolon =>
    have hname := List.findSome?_eq_none_iff.mp h _ hname
    have hcolon := Option.map_eq_none_iff.mp (List.findSome?_eq_none_iff.mp hname _ hcolon)
    rw [Text.behind?_eq_some_iff.mpr hrest.symm] at hcolon
    cases hcolon

theorem hasFirstLabel_of_findFirst {t before name behind : Text} {container : Container}
    (h : t.findFirst label = some (before, (name, container), behind)) :
    HasFirstLabel t before name container behind := by
  obtain ⟨s, n, ht, hlabel, rfl⟩ := Text.eq_append_of_findFirst h
  obtain ⟨w, rest, hw, rfl, rfl⟩ := exists_isLabel_of_label hlabel
  rw [← List.drop_drop, List.drop_left, Text.drop_length_leadingBlanks] at h ⊢
  refine ⟨⟨w, rest.leadingBlanks, hw, fun _ => Text.isBlank_of_mem_leadingBlanks, ?_⟩, ?_, ?_⟩
  · rw [Text.leadingBlanks_append_trimStart, ht]
  · exact fun c => Text.not_isBlank_of_mem_head?_trimStart
  · intro w' name' container' before' behind' hw' ht'
    by_contra hlt
    have hnone := Text.find_eq_none_of_findFirst h ht' (not_le.mp hlt)
    exact not_isPrefix_of_label_eq_none hnone hw' (List.prefix_append w' behind')

theorem HasFirstLabel.exists_isInfix {t before name behind : Text} {container : Container}
    (h : HasFirstLabel t before name container behind) :
    ∃ w, IsLabel w name container ∧ w <:+: t := by
  obtain ⟨w, blanks, hw, -, ht⟩ := h.exists_eq
  exact ⟨w, hw, before, blanks ++ behind, by rw [ht, List.append_assoc]⟩

/-- The labels as they are written, each with its name and container. -/
def spelledLabels : List (Text × Text × Container) :=
  Container.labels.flatMap fun (name, container) =>
    [':', '：'].map fun colon => ("**".toList ++ name ++ colon :: "**".toList, name, container)

theorem IsLabel.mem_spelledLabels {w name : Text} {container : Container}
    (h : IsLabel w name container) : (w, name, container) ∈ spelledLabels := by
  cases h with
  | intro hname hcolon =>
    exact List.mem_flatMap.mpr ⟨_, hname, List.mem_map.mpr ⟨_, hcolon, rfl⟩⟩

/-- No label begins another one. -/
theorem IsLabel.eq_of_isPrefix {w w' name name' : Text} {container container' : Container}
    (h : IsLabel w name container) (h' : IsLabel w' name' container') (hfront : w <+: w') :
    w = w' ∧ name = name' ∧ container = container' := by
  have hspelled : ∀ x ∈ spelledLabels, ∀ y ∈ spelledLabels, x.1.isPrefixOf y.1 = true → x = y := by
    decide +kernel
  have heq := hspelled _ h.mem_spelledLabels _ h'.mem_spelledLabels
    (List.isPrefixOf_iff_prefix.mpr hfront)
  simpa only [Prod.mk.injEq] using heq

/-- **A text has one first label.** -/
theorem HasFirstLabel.unique {t before before' name name' behind behind' : Text}
    {container container' : Container} (h : HasFirstLabel t before name container behind)
    (h' : HasFirstLabel t before' name' container' behind') :
    before = before' ∧ name = name' ∧ container = container' ∧ behind = behind' := by
  obtain ⟨w, blanks, hw, hblanks, ht⟩ := h.exists_eq
  obtain ⟨w', blanks', hw', hblanks', ht'⟩ := h'.exists_eq
  have hlength : before.length = before'.length :=
    le_antisymm (h.first w' name' container' before' _ hw' ht')
      (h'.first w name container before _ hw ht)
  obtain ⟨rfl, hbehind⟩ := List.append_inj (ht.symm.trans ht') hlength
  have hsame : w = w' ∧ name = name' ∧ container = container' := by
    rcases List.prefix_or_prefix_of_prefix (List.prefix_append w _)
      (hbehind ▸ List.prefix_append w' _) with hfront | hfront
    · exact hw.eq_of_isPrefix hw' hfront
    · obtain ⟨hw, hname, hcontainer⟩ := hw'.eq_of_isPrefix hw hfront
      exact ⟨hw.symm, hname.symm, hcontainer.symm⟩
  obtain ⟨rfl, rfl, rfl⟩ := hsame
  have htrimmed := congrArg Text.trimStart (List.append_cancel_left hbehind)
  rw [Text.trimStart_append hblanks, Text.trimStart_append hblanks',
    Text.trimStart_eq_self h.not_isBlank, Text.trimStart_eq_self h'.not_isBlank] at htrimmed
  exact ⟨rfl, rfl, rfl, htrimmed⟩

theorem not_isInfix_of_findFirst_eq_none {t : Text} (h : t.findFirst label = none) {w name : Text}
    {container : Container} (hw : IsLabel w name container) : ¬ w <:+: t := by
  rintro ⟨before, behind, rfl⟩
  rw [List.append_assoc] at h
  have hnone := Text.find_eq_none_of_findFirst_eq_none h rfl
    (List.append_ne_nil_of_left_ne_nil hw.ne_nil behind)
  exact not_isPrefix_of_label_eq_none hnone hw (List.prefix_append w behind)

/-! ## What becomes of the page -/

/-- **What becomes of a quote** of which the lines say `first` and `more`: a container.  If the
first line has a label, it chooses the container and is taken out, and the line with it if only
blanks are left. -/
inductive ContainerOf (first : Text) (more : List Text) : List Text → Prop
  | labelled {before name behind : Text} {container : Container}
    (h : HasFirstLabel first before name container behind) (hcontainer : container ≠ .info) :
    ContainerOf first more
      (("::: ".toList ++ container.name ++ ' ' :: name) ::
        ((if (before ++ behind).allBlank then [] else [before ++ behind]) ++ more ++
          [":::".toList]))
  | plain (h : ∀ w name container, IsLabel w name container → ¬ w <:+: first) :
    ContainerOf first more ("::: info".toList :: first :: more ++ [":::".toList])

/-- **A quote becomes its container lines** and nothing else. -/
theorem containerOf_iff {first : Text} {more lines : List Text} :
    ContainerOf first more lines ↔ lines = containerLines first more := by
  unfold containerLines
  cases hfound : first.findFirst label with
  | none =>
    have hnone : ∀ w name container, IsLabel w name container → ¬ w <:+: first :=
      fun w name container => not_isInfix_of_findFirst_eq_none hfound
    refine ⟨fun h => ?_, fun h => h ▸ .plain hnone⟩
    cases h with
    | plain _ => rfl
    | labelled hlabel _ =>
      obtain ⟨w, hw, hinfix⟩ := hlabel.exists_isInfix
      exact absurd hinfix (hnone w _ _ hw)
  | some found =>
    obtain ⟨before, ⟨name, container⟩, behind⟩ := found
    have hlabel := hasFirstLabel_of_findFirst hfound
    obtain ⟨w, hw, hinfix⟩ := hlabel.exists_isInfix
    refine ⟨fun h => ?_, fun h => h ▸ .labelled hlabel hw.container_ne_info⟩
    cases h with
    | plain hnone => exact absurd hinfix (hnone w _ _ hw)
    | labelled hlabel' _ =>
      obtain ⟨rfl, rfl, rfl, rfl⟩ := hlabel.unique hlabel'
      rfl

/-- **What becomes of a part of a page.**  A line outside all quotes stays, and so do the lines of a
quote that begins with an alert; any other quote becomes a container. -/
inductive PartBecomes : Stretch Line → List Text → Prop
  | single (line : Line) : PartBecomes (.single line) [line.text]
  | alert {firstLine : Line} {moreLines : List Line} {first : Text} {more : List Text}
    (hsaid : SayInOrder (firstLine :: moreLines) (first :: more))
    (halert : BeginsAsAlert first) :
    PartBecomes (.run firstLine moreLines) ((firstLine :: moreLines).map Line.text)
  | container {firstLine : Line} {moreLines : List Line} {first : Text} {more lines : List Text}
    (hsaid : SayInOrder (firstLine :: moreLines) (first :: more))
    (halert : ¬ BeginsAsAlert first) (hlines : ContainerOf first more lines) :
    PartBecomes (.run firstLine moreLines) lines

theorem convertStretch_run {firstLine : Line} {moreLines : List Line} {first : Text}
    {more : List Text} (h : SayInOrder (firstLine :: moreLines) (first :: more)) :
    convertStretch (.run firstLine moreLines) =
      if isAlert first then (firstLine :: moreLines).map Line.text
      else containerLines first more := by
  rw [convertStretch, convertRun, filterMap_content? h]

/-- **A part is rewritten so** and in no other way. -/
theorem partBecomes_iff {s : Stretch Line} (h : s.Respects isQuoted) {lines : List Text} :
    PartBecomes s lines ↔ lines = convertStretch s := by
  constructor
  · intro hpart
    cases hpart with
    | single line => rfl
    | alert hsaid halert => rw [convertStretch_run hsaid, if_pos (isAlert_iff.mpr halert)]
    | container hsaid halert hlines =>
      rw [convertStretch_run hsaid, if_neg fun hfirst => halert (isAlert_iff.mp hfirst)]
      exact containerOf_iff.mp hlines
  · rintro rfl
    cases s with
    | single line => exact .single line
    | run firstLine moreLines =>
      obtain ⟨contents, hsaid⟩ := exists_says h
      cases contents with
      | nil => cases hsaid
      | cons first more =>
        rw [convertStretch_run hsaid]
        by_cases halert : isAlert first = true
        · rw [if_pos halert]
          exact .alert hsaid (isAlert_iff.mp halert)
        · rw [if_neg halert]
          exact .container hsaid (fun hfirst => halert (isAlert_iff.mpr hfirst))
            (containerOf_iff.mpr rfl)

/-- Where each part of a list becomes one thing, the whole list does. -/
theorem forall₂_iff_eq_map {α β : Type} {R : α → β → Prop} {f : α → β} {xs : List α}
    (h : ∀ x ∈ xs, ∀ y, R x y ↔ y = f x) (ys : List β) :
    List.Forall₂ R xs ys ↔ ys = xs.map f := by
  induction xs generalizing ys with
  | nil => exact List.forall₂_nil_left_iff
  | cons x xs ih =>
    obtain ⟨hx, hxs⟩ := List.forall_mem_cons.mp h
    rw [List.forall₂_cons_left_iff, List.map_cons]
    simp only [hx, ih hxs]
    constructor
    · rintro ⟨_, _, rfl, rfl, hys⟩
      exact hys
    · exact fun hys => ⟨_, _, rfl, rfl, hys⟩

theorem forall₂_partBecomes (page : Text) :
    List.Forall₂ PartBecomes (runs isQuoted (classify page))
      ((runs isQuoted (classify page)).map convertStretch) :=
  (forall₂_iff_eq_map (fun s hs _ =>
    partBecomes_iff ((areRuns_runs isQuoted (classify page)).respects s hs)) _).mpr rfl

/-- **Quotes become containers**: a page is cut into its runs of quoted lines and the lines between
them, and each of these parts is rewritten on its own, in one way. -/
theorem quotes_become_containers (fs : FileSystem) (path? : Option Path) (page : Text) :
    ∃ out parts blocks, Stage.quotes.apply fs path? page = .ok out ∧
      AreRuns isQuoted parts ∧ parts.flatMap Stretch.elements = classify page ∧
      (∀ blocks', List.Forall₂ PartBecomes parts blocks' ↔ blocks' = blocks) ∧
      out.segments = blocks.flatten := by
  have hruns := areRuns_runs isQuoted (classify page)
  refine ⟨containQuotes page, runs isQuoted (classify page),
    (runs isQuoted (classify page)).map convertStretch, rfl, hruns, flatMap_elements_runs _ _,
    forall₂_iff_eq_map fun s hs _ => partBecomes_iff (hruns.respects s hs), ?_⟩
  rw [segments_containQuotes, ← List.flatMap_def]
  rfl

end BookSite.Quote
