import BookSite.Proofs.Markdown.MathEdits
import BookSite.Proofs.Markdown.ReferenceParts
import Mathlib.Logic.Relation

/-!
# Proofs/Markdown/RootedPaths — rooting one path at a time

Rooting the references of a text changes it only behind `](`, where a slash is put in front of a
path or the dot in front of one is taken away (`RootsOne`).  So whatever one such change keeps, the
whole edit keeps, line by line and over a run of lines (`RootsTo.keeps`).
-/

namespace BookSite.Image

open ReferenceToken

/-! ## One path -/

/-- **One relative path is rooted.** -/
inductive RootsOne : Text → Text → Prop
  /-- a slash in front of the path -/
  | slash (front rest : Text) {c : Char} : isPathChar c = true → c ≠ '/' →
      RootsOne (front ++ ']' :: '(' :: c :: rest) (front ++ ']' :: '(' :: '/' :: c :: rest)
  /-- a slash in place of `./` -/
  | dot (front rest : Text) :
      RootsOne (front ++ ']' :: '(' :: '.' :: '/' :: rest) (front ++ ']' :: '(' :: '/' :: rest)

/-- What stands around the place does not matter. -/
theorem RootsOne.append_append {t u : Text} (h : RootsOne t u) (before behind : Text) :
    RootsOne (before ++ (t ++ behind)) (before ++ (u ++ behind)) := by
  cases h with
  | @slash front rest c hc hslash =>
    have hone := RootsOne.slash (before ++ front) (rest ++ behind) hc hslash
    simpa using hone
  | dot front rest =>
    have hone := RootsOne.dot (before ++ front) (rest ++ behind)
    simpa using hone

/-- **Rooting a path** is such a change, or none. -/
theorem rootPath_eq_or {path : Text} (hne : path ≠ []) (hpath : ∀ c ∈ path, isPathChar c = true)
    (front behind : Text) :
    rootPath path = path ∨
      RootsOne (front ++ ']' :: '(' :: (path ++ behind))
        (front ++ ']' :: '(' :: (rootPath path ++ behind)) := by
  unfold rootPath
  split
  · exact .inl rfl
  · rename_i hrelative
    right
    rw [Bool.or_eq_true, not_or] at hrelative
    rw [Text.dropLeading]
    cases hdot : path.behind? ['.', '/'] with
    | some rest =>
      rw [Text.behind?_eq_some_iff.mp hdot]
      exact .dot front (rest ++ behind)
    | none =>
      obtain ⟨c, rest, rfl⟩ := List.exists_cons_of_ne_nil hne
      have hc : c ≠ '/' := by
        rintro rfl
        exact hrelative.1 rfl
      exact .slash front (rest ++ behind) (hpath c List.mem_cons_self) hc

/-! ## All paths -/

/-- **Some paths are rooted**, one after another. -/
abbrev RootsTo : Text → Text → Prop := Relation.ReflTransGen RootsOne

namespace RootsTo

theorem append_append {t u : Text} (h : RootsTo t u) (before behind : Text) :
    RootsTo (before ++ (t ++ behind)) (before ++ (u ++ behind)) :=
  Relation.ReflTransGen.lift (fun s => before ++ (s ++ behind))
    (fun _ _ (hone : RootsOne _ _) => hone.append_append before behind) _ _ h

/-- **What rooting one path keeps** is kept. -/
theorem keeps {P : Text → Prop} (hstep : ∀ t u, RootsOne t u → P t → P u) {t u : Text}
    (h : RootsTo t u) (ht : P t) : P u := by
  induction h with
  | refl => exact ht
  | tail _ hone ih => exact hstep _ _ hone ih

/-- The edit of a line. -/
theorem rootReferences (line : Text) : RootsTo line (rootReferences line) := by
  refine Text.keeps_replaceTokens (P := RootsTo line) (fun before s found n hfind hs => ?_) .refl
  have hsame : RootsTo line (before ++ (s.take (n - 1 + 1) ++ s.drop (n - 1 + 1))) := by
    rwa [List.take_append_drop]
  cases found with
  | codeSpan => exact hsame
  | image alt path title =>
    simp only
    split
    · exact hsame
    · obtain ⟨himage, hn⟩ := image?_of_find hfind
      have hparts := areReferenceParts_of_image? himage
      obtain ⟨-, hwording⟩ := wording_of_find hfind
      have hsplit : ∀ p, before ++ (reference alt p title ++ s.drop (n - 1 + 1)) =
          before ++ '!' :: '[' :: alt ++
            ']' :: '(' :: (p ++ (title ++ ')' :: s.drop (n - 1 + 1))) :=
        fun p => by simp [reference]
      rw [hwording, hsplit] at hsame
      rw [hsplit]
      obtain hpath | hone := rootPath_eq_or hparts.ne_nil hparts.path (before ++ '!' :: '[' :: alt)
        (title ++ ')' :: s.drop (n - 1 + 1))
      · rwa [hpath]
      · exact hsame.tail hone

/-- The edit of several lines. -/
theorem unlines_map (lines : List Text) :
    RootsTo (Text.unlines lines) (Text.unlines (lines.map Image.rootReferences)) := by
  induction lines with
  | nil => exact .refl
  | cons first more ih =>
    by_cases hmore : more = []
    · subst hmore
      simpa using rootReferences first
    · rw [List.map_cons, Text.unlines_cons _ hmore, Text.unlines_cons _ (by simpa using hmore)]
      have hfirst := (rootReferences first).append_append [] ('\n' :: Text.unlines more)
      have hmore := ih.append_append (Image.rootReferences first ++ ['\n']) []
      simp only [List.nil_append, List.append_nil, List.append_assoc, List.singleton_append]
        at hfirst hmore
      exact hfirst.trans hmore

end RootsTo

end BookSite.Image
