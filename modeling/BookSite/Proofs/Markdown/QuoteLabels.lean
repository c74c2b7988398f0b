import BookSite.Proofs.Markdown.QuoteBlocks

/-!
# Proofs/Markdown/QuoteLabels — quotes that keep all they say

A label chooses the container of a quote wherever it stands in the first line, and is taken out of
this line.  So a quote keeps all it says when no label stands in its first line, and only then
(`quotes_stay_whole_iff`): a first line that only mentions a label loses it.
-/

namespace BookSite.Quote

/-- A label stands somewhere in the text. -/
def HoldsLabel (t : Text) : Prop := ∃ w name container, IsLabel w name container ∧ w <:+: t

/-- **The container of a quote that keeps all it says.** -/
def wholeContainer (contents : List Text) : List Text :=
  "::: info".toList :: contents ++ [":::".toList]

variable {first : Text} {more block : List Text}

/-! ## Labels and the lines of a container -/

theorem IsLabel.star_mem {w name : Text} {container : Container} (h : IsLabel w name container) :
    '*' ∈ w := by
  cases h with
  | intro hname hcolon => simp

theorem star_not_mem_opener {w name : Text} {container : Container}
    (h : IsLabel w name container) : '*' ∉ opener container (' ' :: name) := by
  have hopeners : ∀ entry ∈ Container.labels, '*' ∉ opener entry.2 (' ' :: entry.1) := by decide
  cases h with
  | intro hname _ => exact hopeners _ hname

theorem HasFirstLabel.holdsLabel {before name behind : Text} {container : Container}
    (h : HasFirstLabel first before name container behind) : HoldsLabel first := by
  obtain ⟨w, hw, hpart⟩ := h.exists_isInfix
  exact ⟨w, name, container, hw, hpart⟩

/-- What is left of the first line is shorter. -/
theorem HasFirstLabel.length_lt {before name behind : Text} {container : Container}
    (h : HasFirstLabel first before name container behind) :
    (before ++ behind).length < first.length := by
  obtain ⟨w, blanks, hw, -, rfl⟩ := h.exists_eq
  have hlength : 0 < w.length := List.length_pos_iff.mpr hw.ne_nil
  simp only [List.length_append]
  omega

/-! ## Quotes as they are said -/

/-- **A quote without label in its first line** becomes a container with all it says. -/
theorem containerOf_iff_of_not_holdsLabel (h : ¬ HoldsLabel first) :
    ContainerOf first more block ↔ block = wholeContainer (first :: more) := by
  have hnone : ∀ w name container, IsLabel w name container → ¬ w <:+: first :=
    fun w name container hw hpart => h ⟨w, name, container, hw, hpart⟩
  refine ⟨fun hblock => ?_, fun heq => heq ▸ .plain hnone⟩
  cases hblock with
  | labelled hlabel _ => exact absurd hlabel.holdsLabel h
  | plain _ => rfl

/-- **A label in the first line costs this line**: not all that the quote says stands in its
container. -/
theorem not_sublist_of_holdsLabel (h : HoldsLabel first) (hblock : ContainerOf first more block) :
    ¬ (first :: more).Sublist block := by
  obtain ⟨w, name, container, hw, hpart⟩ := h
  have hstar : '*' ∈ first := hpart.mem hw.star_mem
  intro hsublist
  cases hblock with
  | plain hnone => exact hnone w name container hw hpart
  | @labelled before name' behind container' hlabel _ =>
    obtain ⟨w', hw', -⟩ := hlabel.exists_isInfix
    have hopener : first ≠ "::: ".toList ++ container'.name ++ ' ' :: name' := by
      rintro rfl
      exact star_not_mem_opener hw' hstar
    have hcloser : first ≠ ":::".toList := by
      rintro rfl
      exact absurd hstar (by decide)
    have hrest : (first :: more).Sublist (more ++ [":::".toList]) := by
      have hinside := hsublist.of_cons_of_ne hopener
      split at hinside
      · exact hinside
      · exact hinside.of_cons_of_ne fun heq => absurd hlabel.length_lt (by rw [← heq]; simp)
    -- Both lists are of one length, so the closing line would have to be what was said first.
    have heq : first :: more = more ++ [":::".toList] := hrest.eq_of_length (by simp)
    have hcount := congrArg (List.count first) heq
    rw [List.count_cons_self, List.count_append, List.count_singleton,
      if_neg (by simpa using hcloser.symm)] at hcount
    omega

/-- **A quote keeps all it says** when its first line holds no label, and only then. -/
theorem keeps_all_iff (hblock : ContainerOf first more block) :
    (block = wholeContainer (first :: more) ↔ ¬ HoldsLabel first) ∧
      ((first :: more).Sublist block ↔ ¬ HoldsLabel first) := by
  have hlabel : (first :: more).Sublist block → ¬ HoldsLabel first :=
    fun hsublist h => not_sublist_of_holdsLabel h hblock hsublist
  have hwhole : ¬ HoldsLabel first → block = wholeContainer (first :: more) :=
    fun h => (containerOf_iff_of_not_holdsLabel h).mp hblock
  have hkept : block = wholeContainer (first :: more) → (first :: more).Sublist block := by
    rintro rfl
    exact (List.sublist_append_left _ _).cons _
  exact ⟨⟨fun heq => hlabel (hkept heq), hwhole⟩, ⟨hlabel, fun h => hkept (hwhole h)⟩⟩

/-- What lines say is one thing. -/
theorem SayInOrder.unique {lines : List Line} {contents contents' : List Text}
    (h : SayInOrder lines contents) (h' : SayInOrder lines contents') : contents = contents' :=
  (filterMap_content? h).symm.trans (filterMap_content? h')

/-- **A quote that is no alert keeps all it says** when its first line holds no label, and only
then. -/
def KeepsAllUnlessLabelled (part : Stretch Line) (block : List Text) : Prop :=
  ∀ firstLine moreLines first more, part = .run firstLine moreLines →
    SayInOrder (firstLine :: moreLines) (first :: more) → ¬ BeginsAsAlert first →
      (block = wholeContainer (first :: more) ↔ ¬ HoldsLabel first) ∧
        ((first :: more).Sublist block ↔ ¬ HoldsLabel first)

theorem PartBecomes.keepsAllUnlessLabelled {part : Stretch Line} (h : PartBecomes part block) :
    KeepsAllUnlessLabelled part block := by
  rintro firstLine moreLines first more rfl hsaid halert
  cases h with
  | alert hsaid' halert' =>
    obtain ⟨rfl, rfl⟩ := List.cons.inj (hsaid.unique hsaid')
    exact absurd halert' halert
  | container hsaid' _ hblock =>
    obtain ⟨rfl, rfl⟩ := List.cons.inj (hsaid.unique hsaid')
    exact keeps_all_iff hblock

/-- **A quote stays whole unless a label stands in its first line**: each run of quoted lines that
is no alert becomes the container that holds all it says if and only if no label stands anywhere in
its first line, and a label there takes away from what it says. -/
theorem quotes_stay_whole_iff (fs : FileSystem) (path? : Option Path) (page : Text) :
    ∃ out parts blocks, Stage.quotes.apply fs path? page = .ok out ∧
      AreRuns isQuoted parts ∧ parts.flatMap Stretch.elements = classify page ∧
      out.segments = blocks.flatten ∧ List.Forall₂ PartBecomes parts blocks ∧
      List.Forall₂ KeepsAllUnlessLabelled parts blocks := by
  have hruns := areRuns_runs isQuoted (classify page)
  have hbecome := forall₂_partBecomes page
  refine ⟨containQuotes page, runs isQuoted (classify page),
    (runs isQuoted (classify page)).map convertStretch, rfl, hruns, flatMap_elements_runs _ _, ?_,
    hbecome, hbecome.imp fun _ _ => PartBecomes.keepsAllUnlessLabelled⟩
  rw [segments_containQuotes, ← List.flatMap_def]
  rfl

/-- A quote that mentions a label. -/
def pageWithMentionedLabel : Text := "> see **Note:** below".toList

/-- The first line of this quote begins with no label, and the label is taken out of it. -/
theorem mentioned_label_lost :
    ∃ out, Stage.quotes.apply .empty none pageWithMentionedLabel = .ok out ∧
      classify pageWithMentionedLabel = [⟨pageWithMentionedLabel, .text⟩] ∧
      Says pageWithMentionedLabel "see **Note:** below".toList ∧
      ¬ BeginsAsAlert "see **Note:** below".toList ∧
      (∀ w name container, IsLabel w name container → ¬ w <+: "see **Note:** below".toList) ∧
      out.segments = ["::: tip Note".toList, "see below".toList, ":::".toList] ∧
      out.segments ≠ wholeContainer ["see **Note:** below".toList] := by
  have halert : isAlert "see **Note:** below".toList = false := by decide
  have hlabel : label "see **Note:** below".toList = none := by decide
  refine ⟨_, rfl, by decide, .text _, ?_, ?_, by decide, by decide⟩
  · rw [← isAlert_iff, halert]
    exact Bool.false_ne_true
  · exact fun w name container => not_isPrefix_of_label_eq_none hlabel

end BookSite.Quote
