import BookSite.Proofs.Markdown.LeftImages
import BookSite.Proofs.Markdown.RaisedText
import BookSite.Proofs.Markdown.ReplacedTags

/-!
# Proofs/Markdown/RepeatedRooting — rooting the images of a page a second time

A page stays just when none of its tags has a source and all of its images are rooted, since what
replacing tags changes rooting paths cannot put back (`rootRun_eq_self_iff`).  All images of a page
that has been converted are rooted.  So a second conversion changes it just when a tag with a source
has come about: in an alternative text, or where a backtick of one has brought one out of a code
span.
-/

namespace BookSite.Image

open TagToken

/-! ## Pages that stay -/

/-- Rooting a path raises the text. -/
theorem RootsOne.raises {t u : Text} (h : RootsOne t u) : Raises t u := by
  cases h with
  | @slash front rest c hc hslash =>
    have hrank : editRank c < editRank '/' := by
      unfold editRank
      rw [if_neg hslash]
      split
      · decide
      · split <;> decide
    exact List.Lex.append_left _ (.cons (.cons (Raises.of_rank hrank _ _))) front
  | dot front rest =>
    exact List.Lex.append_left _ (.cons (.cons (Raises.of_rank (by decide) _ _))) front

theorem RootsTo.keepsOrRaises {t u : Text} (h : RootsTo t u) : KeepsOrRaises t u :=
  h.keeps (fun _ _ hone hkept => hkept.trans (.inr hone.raises)) (.inl rfl)

theorem rootsTo_rootRun (t : Text) : RootsTo (replaceTags t) (rootRun t) := by
  have hroots := RootsTo.unlines_map (replaceTags t).segments
  rwa [Text.unlines_segments] at hroots

theorem hasSource_eq_false_iff {tags : List TagToken} : (∀ found ∈ tags, found.hasSource = false) ↔
    ∀ attributes, .tag attributes ∈ tags → tagSource? attributes = none := by
  constructor
  · intro h attributes hmem
    exact Option.not_isSome_iff_eq_none.mp (ne_true_of_eq_false (h _ hmem))
  · intro h found hmem
    cases found with
    | codeSpan => rfl
    | tag attributes => rw [hasSource, h attributes hmem, Option.isSome_none]

/-- **A run of prose stays** just when none of its tags has a source and its images are rooted. -/
theorem rootRun_eq_self_iff {t : Text} : rootRun t = t ↔
    (∀ found ∈ tagsIn t, found.hasSource = false) ∧
      ∀ line ∈ t.segments, ∀ alt path title, .image alt path title ∈ tokensIn line →
        IsRooted path := by
  simp only [hasSource_eq_false_iff, ← tagReference?_eq_none_iff]
  constructor
  · intro h
    have hroots := (rootsTo_rootRun t).keepsOrRaises
    rw [h] at hroots
    have hreplaced : replaceTags t = t := (keepsOrRaises_replaceTags t).eq hroots
    have hlines := segments_rootRun t
    rw [h, hreplaced] at hlines
    refine ⟨fun attributes hmem => ?_, fun line hline alt path title hmem => ?_⟩
    · by_contra hreference
      exact (raises_replaceTags hmem hreference).ne hreplaced
    · have hkept : rootReferences line = line :=
        List.map_inj_left.mp (hlines.symm.trans (List.map_id' _).symm) line hline
      by_contra hrooted
      exact (raises_rootReferences hmem hrooted).ne hkept
  · rintro ⟨htags, himages⟩
    have hlines : ∀ line ∈ t.segments, rootReferences line = line := fun line hline =>
      rootReferences_eq_self (himages line hline)
    rw [rootRun, replaceTags_eq_self htags, List.map_congr_left hlines, List.map_id',
      Text.unlines_segments]

/-- **A page stays** just when none of its tags has a source and its images are rooted. -/
theorem rootImages_eq_self_iff {page : Text} : rootImages page = page ↔
    (∀ found ∈ shownTags page, found.hasSource = false) ∧
      ∀ alt path title, .image alt path title ∈ proseTokens page → IsRooted path := by
  rw [rootImages_eq_self_iff_runs, shownTags, proseTokens_eq]
  constructor
  · intro h
    refine ⟨fun found hfound => ?_, fun alt path title himage => ?_⟩
    · obtain ⟨t, ht, hfound⟩ := List.mem_flatMap.mp hfound
      exact (rootRun_eq_self_iff.mp (h t ht)).1 found hfound
    · obtain ⟨t, ht, himage⟩ := List.mem_flatMap.mp himage
      obtain ⟨line, hline, himage⟩ := List.mem_flatMap.mp himage
      exact (rootRun_eq_self_iff.mp (h t ht)).2 line hline alt path title himage
  · rintro ⟨htags, himages⟩ t ht
    refine rootRun_eq_self_iff.mpr ⟨fun found hfound => ?_, fun line hline alt path title h => ?_⟩
    · exact htags found (List.mem_flatMap.mpr ⟨t, ht, hfound⟩)
    · refine himages alt path title (List.mem_flatMap.mpr ⟨t, ht, ?_⟩)
      exact List.mem_flatMap.mpr ⟨line, hline, h⟩

/-! ## Converted pages -/

/-- **Plain tags** leave no tag with a source in a run. -/
theorem HasPlainTags.hasSource_eq_false {t : Text} (h : HasPlainTags t) :
    ∀ found ∈ tagsIn (rootRun t), found.hasSource = false := by
  have hreplaced : ∀ sourced ∈ (tagsIn (replaceTags t)).map hasSource, sourced = false := by
    rw [tagsIn_replaceTags h]
    simp
  have hkept := (rootsTo_rootRun t).keeps
    (P := fun u => (tagsIn u).map hasSource = (tagsIn (replaceTags t)).map hasSource)
    (fun _ _ hone hsame => hone.map_hasSource_eq.trans hsame) rfl
  rw [← hkept] at hreplaced
  exact List.forall_mem_map.mp hreplaced

/-- **A converted page stays** when it is converted again just when it shows no tag with a source.
A page whose tags become plain references is converted to such a page. -/
theorem converted_page_stays (fs : FileSystem) (path? : Option Path) (page : Text) :
    ∃ out, Stage.images.apply fs path? page = .ok out ∧
      (Stage.images.apply fs path? out = .ok out ↔
        ∀ attributes, .tag attributes ∈ shownTags out → tagSource? attributes = none) ∧
      ((∀ t ∈ proseRuns page, HasPlainTags t) → Stage.images.apply fs path? out = .ok out) := by
  have hstays : rootImages (rootImages page) = rootImages page ↔
      ∀ found ∈ shownTags (rootImages page), found.hasSource = false := by
    rw [rootImages_eq_self_iff]
    exact and_iff_left fun _ _ _ => isRooted_of_mem_proseTokens
  refine ⟨rootImages page, rfl, ?_, fun hplain => ?_⟩
  · rw [← hasSource_eq_false_iff, ← hstays]
    exact ⟨Except.ok.inj, congrArg Except.ok⟩
  · refine congrArg Except.ok (hstays.mpr fun found hfound => ?_)
    rw [shownTags, proseRuns_rootImages, List.flatMap_map] at hfound
    obtain ⟨t, ht, hfound⟩ := List.mem_flatMap.mp hfound
    exact (hplain t ht).hasSource_eq_false found hfound

/-- A stray backtick in the line above a tag over two lines, and a code span, a tag without source
and an image behind it. -/
def pageWithPlainTags : Text :=
  ("a \x60 b\n<img src='./a.png'\n alt=\"c\"> \x60<img src='b.png'>\x60 " ++
    "<img alt='d'> ![e](f.png)").toList

theorem converted_page_stays_pageWithPlainTags :
    (∀ t ∈ proseRuns pageWithPlainTags, HasPlainTags t) ∧
      ∃ out, Stage.images.apply .empty none pageWithPlainTags = .ok out ∧
        Stage.images.apply .empty none out = .ok out := by
  have hplain : ∀ t ∈ proseRuns pageWithPlainTags, HasPlainTags t := by decide +kernel
  obtain ⟨out, hout, -, hstays⟩ := converted_page_stays .empty none pageWithPlainTags
  exact ⟨hplain, out, hout, hstays hplain⟩

/-- An alternative text with a backtick in front of a tag in a code span. -/
def pageWithBacktick : Text :=
  "<img src=\"a.png\" alt=\"a \x60 key\"> makes \x60<img src=\"b.png\">\x60".toList

/-- **A converted page changes**: the backtick of the alternative text begins a code span that ends
where another one began, and the tag in that one is replaced. -/
theorem converted_page_changes_pageWithBacktick :
    Stage.images.apply .empty none pageWithBacktick =
        .ok "![a \x60 key](/a.png) makes \x60<img src=\"b.png\">\x60".toList ∧
      Stage.images.apply .empty none
          "![a \x60 key](/a.png) makes \x60<img src=\"b.png\">\x60".toList =
        .ok "![a \x60 key](/a.png) makes \x60![](/b.png)\x60".toList ∧
      "![a \x60 key](/a.png) makes \x60![](/b.png)\x60".toList ≠
        "![a \x60 key](/a.png) makes \x60<img src=\"b.png\">\x60".toList := by
  decide +kernel

end BookSite.Image
