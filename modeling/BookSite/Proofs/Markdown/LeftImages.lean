import BookSite.Proofs.Markdown.ProseRuns
import BookSite.Proofs.Markdown.RootedPaths

/-!
# Proofs/Markdown/LeftImages — the images that are left

Rooting a path makes no reference and unmakes none: it moves nothing between the states in which a
reference is read (`RootsOne.run_eq`).  So the edited line is scanned into the same pieces as the
line, with the paths rooted, and every image that is left on a page has a path that can stay.
-/

namespace BookSite

namespace Image

/-! ## Places without reference -/

/-- Behind `](` it makes no difference to what follows in a path whether it begins with a slash. -/
theorem ReferenceState.step_link_slash (state : ReferenceState) {c : Char}
    (hc : isPathChar c = true) :
    (((state.step ']').step '(').step '/').step c = ((state.step ']').step '(').step c := by
  have hbracket : isPathChar ']' = true := rfl
  have hparen : isPathChar '(' = true := rfl
  have hslash : isPathChar '/' = true := rfl
  have hblank : isBlank ']' = false := rfl
  cases state <;> simp [step, hbracket, hparen, hslash, hblank, hc]

/-- **Rooting a path** leaves a reference to be read where one was, and nowhere else. -/
theorem RootsOne.run_eq {t u : Text} (h : RootsOne t u) (state : ReferenceState) :
    state.run u = state.run t := by
  cases h with
  | slash front rest hc hslash =>
    simp only [ReferenceState.run_append, ReferenceState.run_cons,
      ReferenceState.step_link_slash _ hc]
  | dot front rest =>
    have hdot : isPathChar '.' = true := rfl
    have hstep : ∀ state : ReferenceState, (((state.step ']').step '(').step '.').step '/' =
        ((state.step ']').step '(').step '/' := fun state => by cases state <;> rfl
    simp only [ReferenceState.run_append, ReferenceState.run_cons, hstep]

namespace ReferenceToken

/-- A code span begins at a backtick with another one behind it. -/
theorem isSome_codeSpanLength?_iff {t : Text} :
    (codeSpanLength? t).isSome ↔ ∃ rest, t = backtick :: rest ∧ backtick ∈ rest := by
  cases t with
  | nil => simp [codeSpanLength?]
  | cons c rest =>
    unfold codeSpanLength?
    by_cases hc : c = backtick
    · subst hc
      by_cases hmem : backtick ∈ rest
      · obtain ⟨inner, behind, rfl, hinner⟩ := List.eq_append_cons_of_mem hmem
        simp [Text.takeWhile_bne_append hinner]
      · simp [Text.takeWhile_bne hmem, hmem]
    · simp [hc]

theorem find_eq_none_iff {t : Text} :
    find t = none ↔ codeSpanLength? t = none ∧ image? t = none := by
  unfold find
  cases codeSpanLength? t with
  | some n => simp
  | none =>
    cases himage : image? t with
    | none => simp
    | some found =>
      obtain ⟨alt, path, title, rfl⟩ := exists_image_of_image? himage
      simp

end ReferenceToken

open ReferenceToken

/-- Rooting a path opens no code span. -/
theorem RootsOne.codeSpanLength?_eq_none {t u : Text} (h : RootsOne t u)
    (ht : codeSpanLength? t = none) : codeSpanLength? u = none := by
  rw [← Option.not_isSome_iff_eq_none, isSome_codeSpanLength?_iff] at ht ⊢
  rintro ⟨inner, hu, hinner⟩
  obtain ⟨front, link, rooted, rfl, rfl, hlink⟩ : ∃ front link rooted : Text,
      t = front ++ ']' :: link ∧ u = front ++ ']' :: rooted ∧
        (backtick ∈ rooted → backtick ∈ link) := by
    cases h with
    | slash front rest => exact ⟨front, _, _, rfl, rfl, by simp [backtick]⟩
    | dot front rest => exact ⟨front, _, _, rfl, rfl, by simp [backtick]⟩
  cases front with
  | nil => cases hu
  | cons d front =>
    rw [List.cons_append] at hu
    obtain ⟨rfl, rfl⟩ := List.cons.inj hu
    refine ht ⟨front ++ ']' :: link, rfl, ?_⟩
    simp only [List.mem_append, List.mem_cons] at hinner ⊢
    exact hinner.imp_right (Or.imp_right hlink)

theorem RootsOne.find_eq_none {t u : Text} (h : RootsOne t u) (ht : find t = none) :
    find u = none := by
  rw [find_eq_none_iff] at ht ⊢
  refine ⟨h.codeSpanLength?_eq_none ht.1, ?_⟩
  have hread := ht.2
  rw [← Option.not_isSome_iff_eq_none, isSome_image?_iff] at hread ⊢
  rwa [h.run_eq]

/-- **Where nothing is found** nothing is found when what follows has its references rooted. -/
theorem find_cons_rootReferences {c : Char} {rest : Text} (h : find (c :: rest) = none) :
    find (c :: rootReferences rest) = none := by
  have hroots := (RootsTo.rootReferences rest).append_append [c] []
  simp only [List.append_nil, List.singleton_append] at hroots
  exact hroots.keeps (fun _ _ => RootsOne.find_eq_none) h

/-! ## Tokens -/

namespace ReferenceToken

/-- The token with its path rooted. -/
def rooted : ReferenceToken → ReferenceToken
  | codeSpan => codeSpan
  | image alt path title =>
    image alt (if path.startsWith ['#'] then path else rootPath path) title

/-- A path in its rooted form can stand in a reference. -/
theorem areReferenceParts_rootPath {alt path title : Text} (h : AreReferenceParts alt path title) :
    AreReferenceParts alt (rootPath path) title := by
  have hpath : rootPath path ≠ [] ∧ ∀ c ∈ rootPath path, isPathChar c = true := by
    unfold rootPath
    split
    · exact ⟨h.ne_nil, h.path⟩
    · refine ⟨List.cons_ne_nil _ _, List.forall_mem_cons.mpr ⟨rfl, fun c hc => ?_⟩⟩
      exact h.path c (Text.dropLeading_subset _ _ hc)
  exact ⟨h.alt, hpath.1, hpath.2, h.title⟩

/-- A reference is found where it is written, whatever follows. -/
theorem find_reference_append {alt path title : Text} (h : AreReferenceParts alt path title)
    (behind : Text) : find (reference alt path title ++ behind) =
      some (.image alt path title, (reference alt path title).length) := by
  have hspan : codeSpanLength? (reference alt path title ++ behind) = none := rfl
  rw [find, hspan, image?_append h]

/-- A code span is found where it is written, whatever follows. -/
theorem find_codeSpan_append {s : Text} {n : Nat} (h : find s = some (.codeSpan, n)) :
    ∃ w, s.take (n - 1 + 1) = backtick :: w ∧
      ∀ behind, find (backtick :: (w ++ behind)) = some (.codeSpan, w.length + 1) := by
  unfold find at h
  split at h
  · rename_i hspan
    cases h
    obtain ⟨rest, rfl, hmem⟩ := isSome_codeSpanLength?_iff.mp (Option.isSome_of_eq_some hspan)
    obtain ⟨inner, behind, rfl, hinner⟩ := List.eq_append_cons_of_mem hmem
    have hlength : ∀ behind, codeSpanLength? (backtick :: (inner ++ backtick :: behind)) =
        some (inner.length + 2) := by
      simp [codeSpanLength?, Text.takeWhile_bne_append hinner]
    rw [hlength] at hspan
    cases hspan
    have hwording : (backtick :: (inner ++ backtick :: behind)).take (inner.length + 2 - 1 + 1) =
        backtick :: (inner ++ [backtick]) := by
      rw [List.append_cons, ← List.cons_append]
      exact List.take_left' (by simp)
    exact ⟨inner ++ [backtick], hwording, fun behind => by simp [find, hlength]⟩
  · split at h <;> cases h

end ReferenceToken

/-- **The references of an edited line** are those of the line, with their paths rooted. -/
theorem tokensIn_rootReferences (line : Text) :
    tokensIn (rootReferences line) = (tokensIn line).map rooted := by
  refine Text.tokens_replaceTokens rooted (fun c rest => find_cons_rootReferences)
    (fun s found n hfind => ?_) line
  cases found with
  | codeSpan =>
    obtain ⟨w, hwording, hagain⟩ := find_codeSpan_append hfind
    exact ⟨backtick, w, hwording, hagain⟩
  | image alt path title =>
    obtain ⟨himage, -⟩ := image?_of_find hfind
    have hparts := areReferenceParts_of_image? himage
    have hwritten : ∀ path, AreReferenceParts alt path title → ∃ c w,
        reference alt path title = c :: w ∧ ∀ behind,
          find (c :: (w ++ behind)) = some (.image alt path title, w.length + 1) :=
      fun path h => ⟨_, _, rfl, find_reference_append h⟩
    obtain ⟨-, hwording⟩ := wording_of_find hfind
    rw [hwording]
    simp only [rooted]
    split
    · exact hwritten path hparts
    · exact hwritten _ (areReferenceParts_rootPath hparts)

/-- **The references of the converted page** are those the stage finds, with their paths rooted. -/
theorem proseTokens_rootImages (page : Text) :
    proseTokens (rootImages page) = (shownTokens page).map rooted := by
  rw [proseTokens_eq, proseRuns_rootImages, List.flatMap_map, shownTokens_eq, List.map_flatMap]
  refine List.flatMap_congr fun t _ => ?_
  rw [segments_rootRun, List.flatMap_map, List.map_flatMap]
  exact List.flatMap_congr fun line _ => tokensIn_rootReferences line

theorem isRooted_rootPath (path : Text) : IsRooted (rootPath path) := by
  unfold rootPath
  split
  · rename_i hstays
    exact .inr ((Bool.or_eq_true _ _).mp hstays)
  · exact .inr (.inl rfl)

/-- **A token in its rooted form** has a path that can stay. -/
theorem ReferenceToken.isRooted_of_rooted_eq {found : ReferenceToken} {alt path title : Text}
    (h : found.rooted = .image alt path title) : IsRooted path := by
  cases found with
  | codeSpan => cases h
  | image alt' path' title' =>
    cases h
    split
    · rename_i hanchor
      exact .inl hanchor
    · exact isRooted_rootPath path'

theorem isRooted_of_mem_proseTokens {page alt path title : Text}
    (h : .image alt path title ∈ proseTokens (rootImages page)) : IsRooted path := by
  rw [proseTokens_rootImages] at h
  obtain ⟨found, -, hrooted⟩ := List.mem_map.mp h
  exact isRooted_of_rooted_eq hrooted

/-- **Every image that is left is rooted.**  Scanning the prose of the result again finds the code
spans and the images that the stage found, in their order and with their paths rooted.  So every
image of the result leads to an anchor, out of the site, or to a place below its root. -/
theorem left_images_are_rooted (fs : FileSystem) (path? : Option Path) (page : Text) :
    ∃ out, Stage.images.apply fs path? page = .ok out ∧
      proseTokens out = (shownTokens page).map rooted ∧
      ∀ line ∈ classify out, line.kind = .text → ∀ alt path title,
        .image alt path title ∈ tokensIn line.text → IsRooted path := by
  refine ⟨rootImages page, rfl, proseTokens_rootImages page, ?_⟩
  intro line hline hkind alt path title himage
  have hprose : line ∈ (classify (rootImages page)).filter isProse :=
    List.mem_filter.mpr ⟨hline, beq_iff_eq.mpr hkind⟩
  exact isRooted_of_mem_proseTokens (List.mem_flatMap.mpr ⟨line, hprose, himage⟩)

end Image

end BookSite
