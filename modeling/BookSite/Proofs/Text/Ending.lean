import BookSite.Proofs.Text.Lines
import BookSite.Proofs.Text.Scanning

/-!
# Proofs/Text/Ending — texts that end alike

Two texts **end alike** when both are empty or neither is, and when both end with a line feed or
neither does.  The relation goes through everything that a page is put together with: texts one
after another, lines that are joined, and tokens that are replaced.
-/

namespace BookSite

namespace Text

/-- **Texts that end alike**, with regard to line feeds. -/
structure EndsAlike (t u : Text) : Prop where
  nil : t = [] ↔ u = []
  newline : t.getLast? = some '\n' ↔ u.getLast? = some '\n'

namespace EndsAlike

variable {t u t' u' : Text}

theorem refl (t : Text) : EndsAlike t t := ⟨Iff.rfl, Iff.rfl⟩

theorem trans {v : Text} (h : EndsAlike t u) (h' : EndsAlike u v) : EndsAlike t v :=
  ⟨h.nil.trans h'.nil, h.newline.trans h'.newline⟩

/-- Texts without line feed, either both of them empty or neither. -/
theorem of_newline_not_mem (ht : '\n' ∉ t) (hu : '\n' ∉ u) (hnil : t = [] ↔ u = []) :
    EndsAlike t u :=
  ⟨hnil, iff_of_false (fun h => ht (List.mem_of_getLast? h)) fun h => hu (List.mem_of_getLast? h)⟩

/-- What is not empty decides how a text ends, whatever stands in front of it. -/
theorem append_left (h : EndsAlike t u) (hne : t ≠ []) (front front' : Text) :
    EndsAlike (front ++ t) (front' ++ u) := by
  have hne' : u ≠ [] := fun hu => hne (h.nil.mpr hu)
  refine ⟨iff_of_false (by simp [hne]) (by simp [hne']), ?_⟩
  rw [List.getLast?_append_of_ne_nil _ hne, List.getLast?_append_of_ne_nil _ hne']
  exact h.newline

/-- **Texts one after the other.** -/
theorem append (h : EndsAlike t u) (h' : EndsAlike t' u') : EndsAlike (t ++ t') (u ++ u') := by
  by_cases hne : t' = []
  · rw [hne, h'.nil.mp hne, List.append_nil, List.append_nil]
    exact h
  · exact h'.append_left hne t u

end EndsAlike

/-- **Replacing tokens** keeps the end of a text when each of them ends like what is written for
it. -/
theorem endsAlike_replaceTokens {α : Type} {find : Finder α} {write : Text → α → Text} {t : Text}
    (hwrite : ∀ s found n, find s = some (found, n) →
      EndsAlike (write (s.take (n - 1 + 1)) found) (s.take (n - 1 + 1))) :
    EndsAlike (replaceTokens find write t) t := by
  refine keeps_replaceTokens (P := fun u => EndsAlike u t) (fun before s found n hfind h => ?_)
    (EndsAlike.refl t)
  have htoken := (hwrite s found n hfind).append (EndsAlike.refl (s.drop (n - 1 + 1)))
  rw [List.take_append_drop] at htoken
  exact ((EndsAlike.refl before).append htoken).trans h

/-- Nothing is written for an empty text, and something for every other one. -/
theorem replaceTokens_eq_nil_iff {α : Type} {find : Finder α} {write : Text → α → Text} {t : Text}
    (hwrite : ∀ wording found, write wording found ≠ []) :
    replaceTokens find write t = [] ↔ t = [] := by
  cases t with
  | nil => exact iff_of_true rfl rfl
  | cons c rest =>
    refine iff_of_false ?_ (List.cons_ne_nil _ _)
    rcases hfind : find (c :: rest) with _ | ⟨found, n⟩
    · rw [replaceTokens_cons_of_none hfind]
      exact List.cons_ne_nil _ _
    · rw [replaceTokens_cons_of_some hfind]
      exact List.append_ne_nil_of_left_ne_nil (hwrite _ _) _

/-! ## Lines -/

/-- **Lines that end alike**: there are some in both lists or in neither, and joined they end
alike. -/
structure LinesEndAlike (xs ys : List Text) : Prop where
  nil : xs = [] ↔ ys = []
  unlines : EndsAlike (unlines xs) (unlines ys)

namespace LinesEndAlike

variable {xs ys xs' ys' : List Text}

theorem refl (xs : List Text) : LinesEndAlike xs xs := ⟨Iff.rfl, EndsAlike.refl _⟩

theorem trans {zs : List Text} (h : LinesEndAlike xs ys) (h' : LinesEndAlike ys zs) :
    LinesEndAlike xs zs := ⟨h.nil.trans h'.nil, h.unlines.trans h'.unlines⟩

theorem singleton {t u : Text} (h : EndsAlike t u) : LinesEndAlike [t] [u] := by
  refine ⟨iff_of_false (List.cons_ne_nil _ _) (List.cons_ne_nil _ _), ?_⟩
  rwa [unlines_singleton, unlines_singleton]

/-- **Lists of lines one after the other.** -/
theorem append (h : LinesEndAlike xs ys) (h' : LinesEndAlike xs' ys') :
    LinesEndAlike (xs ++ xs') (ys ++ ys') := by
  by_cases hxs : xs = []
  · rwa [hxs, h.nil.mp hxs]
  by_cases hxs' : xs' = []
  · rwa [hxs', h'.nil.mp hxs', List.append_nil, List.append_nil]
  have hys : ys ≠ [] := fun hys => hxs (h.nil.mpr hys)
  have hys' : ys' ≠ [] := fun hys' => hxs' (h'.nil.mpr hys')
  refine ⟨iff_of_false (by simp [hxs]) (by simp [hys]), ?_⟩
  rw [unlines_append hxs hxs', unlines_append hys hys']
  exact h.unlines.append ((EndsAlike.refl ['\n']).append h'.unlines)

/-- **Lists that are put together of parts.** -/
theorem flatMap {α : Type} {items : List α} {f g : α → List Text}
    (h : ∀ a ∈ items, LinesEndAlike (f a) (g a)) :
    LinesEndAlike (items.flatMap f) (items.flatMap g) := by
  induction items with
  | nil => exact refl []
  | cons a items ih =>
    obtain ⟨ha, hitems⟩ := List.forall_mem_cons.mp h
    rw [List.flatMap_cons, List.flatMap_cons]
    exact ha.append (ih hitems)

theorem map {α : Type} {items : List α} {f g : α → Text} (h : ∀ a ∈ items, EndsAlike (f a) (g a)) :
    LinesEndAlike (items.map f) (items.map g) := by
  rw [List.map_eq_flatMap, List.map_eq_flatMap]
  exact flatMap fun a ha => singleton (h a ha)

end LinesEndAlike

/-- **Lines the last of which is not empty.** -/
def EndInText (lines : List Text) : Prop :=
  ∃ init last, lines = init ++ [last] ∧ last ≠ [] ∧ '\n' ∉ last

theorem unlines_concat_eq_append (init : List Text) (last : Text) :
    ∃ front, unlines (init ++ [last]) = front ++ last := by
  by_cases hinit : init = []
  · exact ⟨[], by rw [hinit, List.nil_append, unlines_singleton, List.nil_append]⟩
  · exact ⟨unlines init ++ ['\n'], by simp [unlines_concat hinit]⟩

namespace EndInText

variable {xs ys : List Text}

/-- What stands above does not matter. -/
theorem append_left (h : EndInText xs) (front : List Text) : EndInText (front ++ xs) := by
  obtain ⟨init, last, rfl, hlast⟩ := h
  exact ⟨front ++ init, last, (List.append_assoc ..).symm, hlast⟩

theorem of_forall (hne : xs ≠ []) (h : ∀ l ∈ xs, l ≠ [] ∧ '\n' ∉ l) : EndInText xs :=
  ⟨xs.dropLast, xs.getLast hne, (List.dropLast_append_getLast hne).symm,
    h _ (List.getLast_mem hne)⟩

/-- **All such lists end alike.** -/
theorem linesEndAlike (h : EndInText xs) (h' : EndInText ys) : LinesEndAlike xs ys := by
  obtain ⟨init, last, rfl, hne, hnewline⟩ := h
  obtain ⟨init', last', rfl, hne', hnewline'⟩ := h'
  obtain ⟨front, hlines⟩ := unlines_concat_eq_append init last
  obtain ⟨front', hlines'⟩ := unlines_concat_eq_append init' last'
  have hlast : EndsAlike last last' :=
    .of_newline_not_mem hnewline hnewline' (iff_of_false hne hne')
  refine ⟨iff_of_false (by simp) (by simp), ?_⟩
  rw [hlines, hlines']
  exact hlast.append_left hne front front'

end EndInText

end Text

end BookSite
