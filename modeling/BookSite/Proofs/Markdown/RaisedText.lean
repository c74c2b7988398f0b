import BookSite.Proofs.Markdown.FenceFree
import BookSite.Proofs.Markdown.MathEdits

/-!
# Proofs/Markdown/RaisedText — edits that cannot undo each other

Could a later stage put back what an earlier one has changed?  The first character that a stage
changes is a brace that becomes `<`, a `<` that becomes `!`, a `>` that becomes `:`, or any
character that becomes `/`.  In each case it is followed by one of greater rank, so every stage
**raises** the text that it changes, and a text that comes out as it went in was changed by none of
them.
-/

namespace BookSite

open Include Quote Image

/-! ## The order -/

/-- The rank of a character: it is greater than that of what a stage puts it in place of. -/
def editRank (c : Char) : Nat :=
  if c = '/' then 3 else if c = '!' then 2 else if c = '<' ∨ c = ':' then 1 else 0

/-- **A text is raised** into another one: where the two first differ the other one has the
character of greater rank. -/
def Raises (t t' : Text) : Prop := List.Lex (fun c d => editRank c < editRank d) t t'

/-- A text is kept or raised. -/
def KeepsOrRaises (t t' : Text) : Prop := t' = t ∨ Raises t t'

theorem Raises.ne {t t' : Text} (h : Raises t t') : t' ≠ t := by
  rintro rfl
  exact List.lex_irrefl (fun c => lt_irrefl (editRank c)) _ h

theorem Raises.trans {t t' t'' : Text} (h : Raises t t') (h' : Raises t' t'') : Raises t t'' :=
  List.lex_trans (fun hcd hde => lt_trans hcd hde) h h'

theorem Raises.of_rank {c d : Char} (h : editRank c < editRank d) (s t : Text) :
    Raises (c :: s) (d :: t) := .rel h

theorem ne_of_raises_append {t t' : Text} (h : ∀ x y, Raises (t ++ x) (t' ++ y)) : t' ≠ t := by
  have hraises := h [] []
  rw [List.append_nil, List.append_nil] at hraises
  exact hraises.ne

theorem KeepsOrRaises.trans {t t' t'' : Text} (h : KeepsOrRaises t t') (h' : KeepsOrRaises t' t'') :
    KeepsOrRaises t t'' := by
  rcases h with rfl | h
  · exact h'
  · rcases h' with rfl | h'
    · exact .inr h
    · exact .inr (h.trans h')

/-- **No raised text comes back.** -/
theorem KeepsOrRaises.eq {t t' : Text} (h : KeepsOrRaises t t') (h' : KeepsOrRaises t' t) :
    t' = t := by
  rcases h with h | h
  · exact h
  · exact absurd rfl (h.trans (h'.resolve_left h.ne.symm)).ne

/-! ## The stages -/

/-- **Directives raise their line**: an import begins with `<`, a directive with a brace. -/
theorem raises_importDirectives {line : Text} (h : hasDirective line = true) :
    Raises line (importDirectives line) := by
  have himport : ∀ wording target, .token wording target ∈ Text.scan directive line →
      ∀ x y, Raises (wording ++ x) (target.toImport ++ y) := by
    intro wording target hmem x y
    obtain ⟨c, -, heq⟩ | ⟨s, found, n, -, hfind, heq⟩ := Text.mem_scan hmem
    · cases heq
    · cases heq
      obtain ⟨opening, body, rest, hopening, rfl, -⟩ := eq_of_directive hfind
      obtain ⟨word, rfl⟩ := mem_openings hopening
      exact .of_rank (by decide) _ _
  obtain ⟨wording, target, hmem⟩ := Text.exists_token_of_finds h
  exact Text.lex_replaceTokens (fun wording target hmem => .inr (himport wording target hmem)) hmem
    (ne_of_raises_append (himport wording target hmem))

/-- **Tags with a source raise the text**: a reference begins with an exclamation mark, a tag with
`<`. -/
theorem raises_replaceTags {t attributes : Text} (hmem : .tag attributes ∈ tagsIn t)
    (hreference : tagReference? attributes ≠ none) : Raises t (replaceTags t) := by
  have hwritten : ∀ wording attributes reference,
      .token wording (.tag attributes) ∈ Text.scan TagToken.find t →
      tagReference? attributes = some reference →
      ∀ x y, Raises (wording ++ x) (reference ++ y) := by
    intro wording attributes reference hmem hsome x y
    obtain ⟨c, -, heq⟩ | ⟨s, found, n, -, hfind, heq⟩ := Text.mem_scan hmem
    · cases heq
    · cases heq
      obtain ⟨slash, rest, rfl, -⟩ := TagToken.eq_of_find hfind
      obtain ⟨src, -, rfl⟩ := Option.map_eq_some_iff.mp hsome
      exact .of_rank (by decide) _ _
  obtain ⟨wording, hmem⟩ := Text.mem_tokens_iff.mp hmem
  obtain ⟨reference, hsome⟩ := Option.ne_none_iff_exists'.mp hreference
  refine Text.lex_replaceTokens (fun wording found hmem => ?_) hmem ?_
  · cases found with
    | codeSpan => exact .inl rfl
    | tag attributes =>
      cases hsome : tagReference? attributes with
      | none => exact .inl (by simp [hsome])
      | some reference =>
        simp only [hsome, Option.getD_some]
        exact .inr (hwritten wording attributes reference hmem hsome)
  · simp only [hsome, Option.getD_some]
    exact ne_of_raises_append (hwritten wording attributes reference hmem hsome)

/-- A rooted path begins with a slash, and a path to be rooted does not. -/
theorem raises_rootPath {path : Text} (hne : path ≠ []) (hrooted : ¬ IsRooted path)
    (x y : Text) : Raises (path ++ x) (rootPath path ++ y) := by
  obtain ⟨c, rest, rfl⟩ := List.exists_cons_of_ne_nil hne
  rw [IsRooted, not_or, not_or] at hrooted
  obtain ⟨-, hslash, hexternal⟩ := hrooted
  have hc : c ≠ '/' := by
    rintro rfl
    exact hslash rfl
  have hroot : rootPath (c :: rest) = '/' :: Text.dropLeading (c :: rest) ['.', '/'] := by
    rw [rootPath, if_neg]
    simp [hslash, hexternal]
  rw [hroot]
  refine .of_rank ?_ _ _
  unfold editRank
  rw [if_neg hc]
  split
  · decide
  · split <;> decide

theorem raises_reference {path : Text} (hne : path ≠ []) (hrooted : ¬ IsRooted path)
    (alt title x y : Text) :
    Raises (reference alt path title ++ x) (reference alt (rootPath path) title ++ y) := by
  have hsplit : ∀ p z, reference alt p title ++ z =
      ("![".toList ++ alt ++ "](".toList) ++ (p ++ (title ++ [')'] ++ z)) := fun p z => by
    simp [reference]
  rw [hsplit, hsplit]
  exact List.Lex.append_left _ (raises_rootPath hne hrooted _ _) _

/-- **References with a path to be rooted raise their line.** -/
theorem raises_rootReferences {line alt path title : Text}
    (hmem : .image alt path title ∈ tokensIn line) (hrooted : ¬ IsRooted path) :
    Raises line (rootReferences line) := by
  have hanchor : ∀ {path : Text}, ¬ IsRooted path → ¬ path.startsWith ['#'] = true :=
    fun hrooted hanchor => hrooted (.inl hanchor)
  obtain ⟨wording, hmem⟩ := Text.mem_tokens_iff.mp hmem
  refine Text.lex_replaceTokens (fun wording found hmem => ?_) hmem ?_
  · cases found with
    | codeSpan => exact .inl rfl
    | image alt path title =>
      obtain ⟨hne, rfl⟩ := eq_reference_of_mem_scan hmem
      simp only
      by_cases hpath : IsRooted path
      · left
        split
        · rfl
        · rename_i hnoanchor
          rw [hpath.rootPath_eq hnoanchor]
      · rw [if_neg (hanchor hpath)]
        exact .inr (raises_reference hne hpath alt title)
  · obtain ⟨hne, rfl⟩ := eq_reference_of_mem_scan hmem
    simp only
    rw [if_neg (hanchor hrooted)]
    exact ne_of_raises_append (raises_reference hne hrooted alt title)

/-! ## Lines that stay -/

section Line

variable (line : Text)

theorem keepsOrRaises_importDirectives : KeepsOrRaises line (importDirectives line) := by
  cases h : hasDirective line with
  | true => exact .inr (raises_importDirectives h)
  | false => exact .inl (importDirectives_eq_self h)

theorem keepsOrRaises_replaceTags : KeepsOrRaises line (replaceTags line) := by
  by_cases h : ∀ attributes, .tag attributes ∈ tagsIn line → tagReference? attributes = none
  · exact .inl (replaceTags_eq_self h)
  · push Not at h
    obtain ⟨attributes, hmem, hreference⟩ := h
    exact .inr (raises_replaceTags hmem hreference)

theorem keepsOrRaises_rootReferences : KeepsOrRaises line (rootReferences line) := by
  by_cases h : ∀ alt path title, .image alt path title ∈ tokensIn line → IsRooted path
  · exact .inl (rootReferences_eq_self h)
  · push Not at h
    obtain ⟨alt, path, title, hmem, hrooted⟩ := h
    exact .inr (raises_rootReferences hmem hrooted)

/-- **A line comes out as it went in** just when there is nothing in it for any stage. -/
theorem rootReferences_replaceTags_importDirectives_eq_iff :
    rootReferences (replaceTags (importDirectives line)) = line ↔
      hasDirective line = false ∧
        (∀ attributes, .tag attributes ∈ tagsIn line → tagReference? attributes = none) ∧
        ∀ alt path title, .image alt path title ∈ tokensIn line → IsRooted path := by
  constructor
  · intro h
    have himport := keepsOrRaises_importDirectives line
    have htags := keepsOrRaises_replaceTags (importDirectives line)
    have hroot := keepsOrRaises_rootReferences (replaceTags (importDirectives line))
    rw [h] at hroot
    have himported : importDirectives line = line := himport.eq (htags.trans hroot)
    rw [himported] at htags hroot h
    have hreplaced : replaceTags line = line := htags.eq hroot
    rw [hreplaced] at h
    refine ⟨?_, fun attributes hmem => ?_, fun alt path title hmem => ?_⟩
    · rw [Bool.eq_false_iff]
      exact fun hdirective => (raises_importDirectives hdirective).ne himported
    · by_contra hreference
      exact (raises_replaceTags hmem hreference).ne hreplaced
    · by_contra hrooted
      exact (raises_rootReferences hmem hrooted).ne h
  · rintro ⟨hdirective, htag, hreference⟩
    rw [importDirectives_eq_self hdirective, replaceTags_eq_self htag,
      rootReferences_eq_self hreference]

end Line

end BookSite
