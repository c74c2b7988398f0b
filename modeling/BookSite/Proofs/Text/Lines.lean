import BookSite.Text.Lines

/-!
# Proofs/Text/Lines — cutting at line feeds and joining again

Segments hold no line feed, and texts without line feeds come back from `unlines` as they were.
-/

namespace BookSite.Text

/-! ## Segments -/

theorem segments_ne_nil (t : Text) : t.segments ≠ [] := List.splitOn_ne_nil _ _

/-- A line feed cuts a text in two. -/
theorem segments_append_newline (s t : Text) :
    segments (s ++ '\n' :: t) = s.segments ++ t.segments :=
  List.splitOn_append_cons_self s t

theorem segments_of_not_mem {t : Text} (h : '\n' ∉ t) : t.segments = [t] :=
  List.splitOn_eq_singleton h

/-- What a text without line feed is put in front of begins with it. -/
theorem segments_append {front : Text} (h : '\n' ∉ front) (t : Text) :
    segments (front ++ t) = t.segments.modifyHead (front ++ ·) := by
  induction front with
  | nil =>
    obtain ⟨first, rest, hsegments⟩ := List.exists_cons_of_ne_nil (segments_ne_nil t)
    rw [List.nil_append, hsegments]
    rfl
  | cons c front ih =>
    rw [List.mem_cons, not_or] at h
    have hc : (c == '\n') = false := beq_false_of_ne (Ne.symm h.1)
    have hfront := ih h.2
    rw [segments, fields, List.splitOn_eq_splitOnP] at hfront ⊢
    rw [List.cons_append, List.splitOnP_cons_eq_if_modifyHead, hc, if_neg Bool.false_ne_true,
      hfront, List.modifyHead_modifyHead]
    rfl

/-- The pieces between marks hold no mark. -/
theorem not_of_mem_splitOnP {p : Char → Bool} {t s : Text} (h : s ∈ List.splitOnP p t) :
    ∀ c ∈ s, p c = false := by
  induction t generalizing s with
  | nil =>
    rw [List.splitOnP_nil, List.mem_singleton] at h
    simp [h]
  | cons c t ih =>
    rw [List.splitOnP_cons_eq_if_modifyHead] at h
    split at h
    · rcases List.mem_cons.mp h with rfl | h
      · simp
      · exact ih h
    · rename_i hc
      obtain ⟨first, rest, hsplit⟩ := List.exists_cons_of_ne_nil (List.splitOnP_ne_nil p t)
      rw [hsplit, List.modifyHead_cons, List.mem_cons] at h
      rcases h with rfl | h
      · intro d hd
        rcases List.mem_cons.mp hd with rfl | hd
        · simpa using hc
        · exact ih (by simp [hsplit]) d hd
      · exact ih (by simp [hsplit, h])

/-- **A segment holds no line feed.** -/
theorem newline_not_mem_of_mem_segments {t s : Text} (h : s ∈ t.segments) : '\n' ∉ s := by
  rw [segments, fields, List.splitOn_eq_splitOnP] at h
  intro hmem
  simpa using not_of_mem_splitOnP h _ hmem

/-! ## Joining -/

@[simp] theorem unlines_singleton (t : Text) : unlines [t] = t := List.intercalate_singleton

theorem unlines_cons {rest : List Text} (first : Text) (h : rest ≠ []) :
    unlines (first :: rest) = first ++ '\n' :: unlines rest := by
  rw [unlines, List.intercalate_cons_of_ne_nil h]
  simp [unlines]

/-- Lists of lines are joined by the line feed between them. -/
theorem unlines_append {xs ys : List Text} (hxs : xs ≠ []) (hys : ys ≠ []) :
    unlines (xs ++ ys) = unlines xs ++ '\n' :: unlines ys := by
  induction xs with
  | nil => exact absurd rfl hxs
  | cons first rest ih =>
    rw [List.cons_append, unlines_cons first (by simp [hys])]
    by_cases hrest : rest = []
    · rw [hrest, unlines_singleton, List.nil_append]
    · rw [ih hrest, unlines_cons first hrest, List.append_assoc, List.cons_append]

theorem unlines_concat {lines : List Text} (hne : lines ≠ []) (line : Text) :
    unlines (lines ++ [line]) = unlines lines ++ '\n' :: line := by
  rw [unlines_append hne (by simp), unlines_singleton]

theorem isInfix_unlines {parts : List Text} {line : Text} (h : line ∈ parts) :
    line <:+: unlines parts := by
  induction parts with
  | nil => cases h
  | cons first rest ih =>
    by_cases hrest : rest = []
    · subst hrest
      exact ⟨[], [], by simp [List.mem_singleton.mp h]⟩
    · rw [unlines_cons first hrest]
      rcases List.mem_cons.mp h with rfl | h
      · exact (List.prefix_append _ _).isInfix
      · exact (ih h).trans ((List.suffix_cons _ _).trans (List.suffix_append _ _)).isInfix

theorem isInfix_of_mem_segments {t line : Text} (h : line ∈ t.segments) : line <:+: t := by
  rw [← unlines_segments t]
  exact isInfix_unlines h

/-- **A line** is a segment, when what stands above and below it ends there. -/
theorem mem_segments_append {above line below : Text} (hline : '\n' ∉ line)
    (habove : above = [] ∨ ∃ front, above = front ++ ['\n'])
    (hbelow : below = [] ∨ ∃ back, below = '\n' :: back) :
    line ∈ segments (above ++ (line ++ below)) := by
  have hfirst : line ∈ segments (line ++ below) := by
    obtain rfl | ⟨back, rfl⟩ := hbelow
    · rw [List.append_nil, segments_of_not_mem hline]
      exact List.mem_singleton_self line
    · rw [segments_append_newline, segments_of_not_mem hline]
      exact List.mem_cons_self
  obtain rfl | ⟨front, rfl⟩ := habove
  · exact hfirst
  · rw [List.append_assoc, List.singleton_append, segments_append_newline]
    exact List.mem_append_right _ hfirst

/-- A character of a joined text stands in the mark or in one of the parts. -/
theorem mem_joinWith {mark : Text} {parts : List Text} {c : Char} (h : c ∈ joinWith mark parts) :
    c ∈ mark ∨ ∃ p ∈ parts, c ∈ p := by
  induction parts with
  | nil => simp [joinWith] at h
  | cons p parts ih =>
    by_cases hparts : parts = []
    · subst hparts
      rw [joinWith, List.intercalate_singleton] at h
      exact .inr ⟨p, by simp, h⟩
    · rw [joinWith, List.intercalate_cons_of_ne_nil hparts, List.mem_append, List.mem_append] at h
      rcases h with (h | h) | h
      · exact .inr ⟨p, by simp, h⟩
      · exact .inl h
      · obtain h | ⟨q, hq, h⟩ := ih h
        · exact .inl h
        · exact .inr ⟨q, by simp [hq], h⟩

/-- **Texts without line feeds come back** from the joined text. -/
theorem segments_unlines {parts : List Text} (hne : parts ≠ []) (h : ∀ p ∈ parts, '\n' ∉ p) :
    (unlines parts).segments = parts :=
  List.splitOn_intercalate '\n' h hne

/-- **The lines of some page**: at least one, and no line feed in any of them. -/
structure ArePageLines (lines : List Text) : Prop where
  ne_nil : lines ≠ []
  newline_not_mem : ∀ line ∈ lines, '\n' ∉ line

theorem arePageLines_segments (t : Text) : ArePageLines t.segments :=
  ⟨segments_ne_nil t, fun _ h => newline_not_mem_of_mem_segments h⟩

theorem ArePageLines.segments_unlines {lines : List Text} (h : ArePageLines lines) :
    (unlines lines).segments = lines :=
  Text.segments_unlines h.ne_nil h.newline_not_mem

/-- Texts that each end with a line feed of their own. -/
theorem segments_flatMap_newline {parts : List Text} (h : ∀ p ∈ parts, '\n' ∉ p) :
    segments (parts.flatMap (· ++ ['\n'])) = parts ++ [[]] := by
  induction parts with
  | nil => rfl
  | cons p parts ih =>
    have hp := segments_of_not_mem (h p (by simp))
    have hrest := ih fun q hq => h q (by simp [hq])
    rw [List.flatMap_cons, List.append_assoc, List.singleton_append, segments_append_newline, hp,
      hrest]
    rfl

/-! ## Lines of a file -/

theorem dropReturn_eq_self {line : Text} (h : line.getLast? ≠ some '\r') :
    dropReturn line = line := by
  rw [List.getLast?_eq_head?_reverse] at h
  unfold dropReturn dropTrailing? behind?
  cases hrev : line.reverse with
  | nil => rfl
  | cons c rest =>
    have hc : '\r' ≠ c := by
      rintro rfl
      simp [hrev] at h
    have hnone : List.isPrefixOf? ['\r'] (c :: rest) = none := if_neg (by simpa using hc)
    rw [List.reverse_singleton, hnone]
    rfl

/-- A text that can stand as a line of a file: it is not empty and nothing at its end is read as
part of the line end. -/
structure IsFileLine (line : Text) : Prop where
  ne_nil : line ≠ []
  newline_not_mem : '\n' ∉ line
  getLast?_ne : line.getLast? ≠ some '\r'

theorem map_dropReturn {parts : List Text} (h : ∀ p ∈ parts, IsFileLine p) :
    parts.map dropReturn = parts := by
  rw [List.map_congr_left fun p hp => dropReturn_eq_self (h p hp).getLast?_ne, List.map_id']

/-- **The lines of a file are read back**, whether or not the last one is terminated. -/
theorem lines_unlines {parts : List Text} (h : ∀ p ∈ parts, IsFileLine p) :
    lines (unlines parts) = parts := by
  rcases List.eq_nil_or_concat parts with rfl | ⟨init, last, rfl⟩
  · rfl
  · have hlast := h last (by simp)
    have hinit : ∀ p ∈ init, IsFileLine p := fun p hp => h p (by simp [hp])
    have hempty : last.isEmpty = false := by simp [hlast.ne_nil]
    rw [lines, segments_unlines (by simp) fun p hp => (h p hp).newline_not_mem]
    simp [map_dropReturn hinit, hempty]

theorem lines_flatMap_newline {parts : List Text} (h : ∀ p ∈ parts, IsFileLine p) :
    lines (parts.flatMap (· ++ ['\n'])) = parts := by
  rw [lines, segments_flatMap_newline fun p hp => (h p hp).newline_not_mem]
  simp [map_dropReturn h]

end BookSite.Text
