import BookSite.Proofs.Files.Descent
import Mathlib.Data.List.DropRight

/-!
# Proofs/Files/Steps — the steps of a path, and those of its parent

Names and `..` are the **steps** of a path; its other segments lead nowhere.  The parent of a path
has all its steps but the last one (`isParent_of_parent?`).
-/

namespace BookSite

/-! ## Steps -/

/-- A segment that leads somewhere. -/
structure IsStep (segment : Text) : Prop where
  ne_nil : segment ≠ []
  ne_here : segment ≠ ['.']

theorem IsPlain.isStep {name : Text} (h : IsPlain name) : IsStep name := ⟨h.ne_nil, h.ne_here⟩

theorem namesAlong_append (first more : List Text) :
    namesAlong (first ++ more) = namesAlong first ++ namesAlong more := List.filter_append ..

theorem namesAlong_of_isStep {segment : Text} (h : IsStep segment) :
    namesAlong [segment] = [segment] := by
  simp [namesAlong, h.ne_nil, h.ne_here]

theorem namesAlong_of_isPlain {names : List Text} (h : ∀ n ∈ names, IsPlain n) :
    namesAlong names = names :=
  List.filter_eq_self.mpr fun n hn => by simp [(h n hn).ne_nil, (h n hn).ne_here]

theorem namesAlong_replicate_nil (n : Nat) : namesAlong (List.replicate n []) = [] :=
  List.filter_eq_nil_iff.mpr fun segment hsegment => by simp [List.eq_of_mem_replicate hsegment]

theorem isStep_of_mem_namesAlong {segments : List Text} {segment : Text}
    (h : segment ∈ namesAlong segments) : IsStep segment := by
  have hstep := (List.mem_filter.mp h).2
  simp only [Bool.not_eq_true', Bool.or_eq_false_iff, List.isEmpty_eq_false_iff, beq_eq_false_iff_ne]
    at hstep
  exact ⟨hstep.1, hstep.2⟩

/-- Other segments lead nowhere. -/
theorem placeFrom_namesAlong (place segments : List Text) :
    placeFrom place (namesAlong segments) = placeFrom place segments := by
  induction segments generalizing place with
  | nil => rfl
  | cons segment rest ih =>
    rw [namesAlong_cons, placeFrom_cons]
    split
    · rename_i hskip
      rw [stepTo, if_pos hskip, ih]
    · rw [placeFrom_cons, ih]

namespace Path

theorem isNone_component? (segment : Text) :
    (component? segment).isNone = (segment.isEmpty || segment == ['.']) := by
  unfold component?
  cases segment.isEmpty || segment == ['.'] with
  | true => rfl
  | false => cases segment == ['.', '.'] <;> rfl

/-- **The steps of a path.** -/
def steps (p : Path) : List Text := namesAlong p.segments

/-! ## Segments and texts -/

theorem joinWith_segments (p : Path) : Text.joinWith ['/'] p.segments = p.text :=
  List.intercalate_splitOn '/'

theorem segments_joinWith {segments : List Text} (h : ∀ s ∈ segments, '/' ∉ s)
    (hne : segments ≠ []) : Path.segments ⟨Text.joinWith ['/'] segments⟩ = segments :=
  List.splitOn_intercalate '/' h hne

theorem segments_cons_slash (t : Text) : segments ⟨'/' :: t⟩ = [] :: segments ⟨t⟩ :=
  segments_append_slash [] t

theorem joinWith_isPrefix {front segments : List Text} (h : front <+: segments) :
    Text.joinWith ['/'] front <+: Text.joinWith ['/'] segments := by
  induction front generalizing segments with
  | nil => exact List.nil_prefix
  | cons first front ih =>
    obtain ⟨more, rfl⟩ := h
    by_cases hfront : front = []
    · subst hfront
      rw [Text.joinWith, Text.joinWith, List.intercalate_singleton]
      by_cases hmore : more = []
      · simp [hmore]
      · rw [List.singleton_append, List.intercalate_cons_of_ne_nil hmore, List.append_assoc]
        exact List.prefix_append _ _
    · have hrest := ih (List.prefix_append front more)
      rw [Text.joinWith, Text.joinWith, List.cons_append, List.intercalate_cons_of_ne_nil hfront,
        List.intercalate_cons_of_ne_nil (by simp [hfront])]
      exact (List.prefix_append_right_inj _).mpr hrest

theorem trimSegments_isPrefix (segments : List Text) : trimSegments segments <+: segments :=
  List.rdropWhile_prefix _ segments

theorem namesAlong_trimSegments (segments : List Text) :
    namesAlong (trimSegments segments) = namesAlong segments := by
  have hsplit := List.rdropWhile_append_rtakeWhile (p := fun s => (component? s).isNone)
    (l := segments)
  have hempty : namesAlong (segments.rtakeWhile fun s => (component? s).isNone) = [] :=
    List.filter_eq_nil_iff.mpr fun s hs => by
      have hnone := List.mem_rtakeWhile_imp hs
      rw [isNone_component?] at hnone
      simp only [hnone, Bool.not_true, Bool.false_eq_true, not_false_eq_true]
  calc namesAlong (trimSegments segments)
      = namesAlong (segments.rdropWhile fun s => (component? s).isNone) ++ [] := by
        rw [List.append_nil]
        rfl
    _ = namesAlong segments := by rw [← hempty, ← namesAlong_append, hsplit]

/-- Trimmed segments end with a step. -/
theorem exists_of_trimSegments {segments : List Text} (h : trimSegments segments ≠ []) :
    ∃ front last, trimSegments segments = front ++ [last] ∧ IsStep last := by
  have hlast := List.rdropWhile_last_not (fun s => (component? s).isNone) segments h
  rw [isNone_component?] at hlast
  simp only [Bool.or_eq_true, List.isEmpty_iff, beq_iff_eq, not_or] at hlast
  exact ⟨_, _, (List.dropLast_append_getLast h).symm, hlast.1, hlast.2⟩

section Trimmed

variable {segments front : List Text} {last : Text}
  (hsplit : trimSegments segments = front ++ [last])

include hsplit

theorem trimSegments_front_isPrefix : trimSegments front <+: segments :=
  (trimSegments_isPrefix front).trans ((List.prefix_append front [last]).trans
    (hsplit ▸ trimSegments_isPrefix segments))

theorem namesAlong_of_trimSegments (hlast : IsStep last) :
    namesAlong segments = namesAlong front ++ [last] := by
  rw [← namesAlong_trimSegments segments, hsplit, namesAlong_append, namesAlong_of_isStep hlast]

end Trimmed

/-- Segments of which nothing is left when they are trimmed lead nowhere. -/
theorem namesAlong_eq_nil_of_trimSegments {segments : List Text} (h : trimSegments segments = []) :
    namesAlong segments = [] := by
  rw [← namesAlong_trimSegments, h]
  rfl

/-! ## Joined paths -/

/-- **The segments of a joined path** are some that lead where the first path does, and those of the
second one. -/
theorem exists_segments_join (p : Path) {q : Path} (hq : q.isAbsolute = false) :
    (p.join q).isAbsolute = p.isAbsolute ∧
      ∃ front, (p.join q).segments = front ++ q.segments ∧ namesAlong front = p.steps := by
  obtain ⟨s⟩ := p
  rw [join, hq, Bool.false_or]
  by_cases hs : s = []
  · subst hs
    exact ⟨hq, [], rfl, rfl⟩
  rw [if_neg (by simpa using hs)]
  split
  · rename_i hlast
    rw [beq_iff_eq] at hlast
    obtain ⟨front, hfront⟩ := List.getLast?_eq_some_iff.mp hlast
    obtain rfl : s = front ++ ['/'] := hfront
    have hnil : namesAlong (segments ⟨front⟩) = steps ⟨front ++ ['/']⟩ := by
      rw [steps, segments_append_slash, namesAlong_append]
      exact (List.append_nil _).symm
    refine ⟨isAbsolute_append hs _, segments ⟨front⟩, ?_, hnil⟩
    rw [List.append_assoc, List.singleton_append]
    exact segments_append_slash front q.text
  · exact ⟨isAbsolute_append hs _, segments ⟨s⟩, segments_append_slash s q.text, rfl⟩

/-- **The steps of names below a path.** -/
theorem steps_join_ofNames (p : Path) {names : List Text} (h : ∀ n ∈ names, IsPlain n) :
    (p.join (ofNames names)).steps = p.steps ++ names := by
  obtain ⟨-, front, hsegments, hfront⟩ := exists_segments_join p (isAbsolute_ofNames h)
  rw [steps, hsegments, namesAlong_append, hfront]
  by_cases hne : names = []
  · subst hne
    rfl
  · rw [segments_ofNames h hne, namesAlong_of_isPlain h]

/-! ## The parent of a path -/

/-- **A trimmed path** ends with its last step. -/
def IsTrimmed (p : Path) : Prop :=
  p.steps = [] ∨ ∃ before last, p.segments = before ++ [last] ∧ IsStep last

/-- Segments that are trimmed behind the first one make a trimmed path. -/
theorem isTrimmed_of_segments {p : Path} {first : Text} {more : List Text}
    (h : p.segments = first :: trimSegments more) : p.IsTrimmed := by
  by_cases hmore : trimSegments more = []
  · rw [hmore] at h
    by_cases hfirst : IsStep first
    · exact .inr ⟨[], first, h, hfirst⟩
    · refine .inl (List.eq_nil_iff_forall_not_mem.mpr fun s hs => ?_)
      rw [steps, h] at hs
      obtain rfl := List.mem_singleton.mp (List.mem_of_mem_filter hs)
      exact hfirst (isStep_of_mem_namesAlong hs)
  · obtain ⟨before, last, hsplit, hlast⟩ := exists_of_trimSegments hmore
    exact .inr ⟨first :: before, last, by rw [h, hsplit, List.cons_append], hlast⟩

theorem steps_of_segments {p : Path} {first : Text} {more : List Text}
    (h : p.segments = first :: trimSegments more) : p.steps = namesAlong (first :: more) := by
  rw [steps, h, ← List.singleton_append, namesAlong_append, namesAlong_trimSegments,
    ← namesAlong_append, List.singleton_append]

/-- **What the parent of a path is.** -/
structure IsParent (parent p : Path) : Prop where
  isAbsolute : parent.isAbsolute = p.isAbsolute
  steps : parent.steps = p.steps.dropLast
  text : parent.text <+: p.text
  ne : parent.text ≠ p.text
  trimmed : parent.IsTrimmed

theorem IsParent.length_lt {parent p : Path} (h : IsParent parent p) :
    parent.text.length < p.text.length :=
  lt_of_le_of_ne h.text.length_le fun heq => h.ne (h.text.eq_of_length heq)

theorem isParent_of_steps {p parent : Path} (last : Text)
    (habsolute : parent.isAbsolute = p.isAbsolute) (htext : parent.text <+: p.text)
    (hsteps : p.steps = parent.steps ++ [last]) (htrimmed : parent.IsTrimmed) :
    IsParent parent p where
  isAbsolute := habsolute
  steps := by rw [hsteps, List.dropLast_concat]
  text := htext
  ne heq := by
    obtain rfl : parent = p := Path.mk.injEq .. ▸ heq
    exact absurd hsteps (by simp)
  trimmed := htrimmed

theorem text_isPrefix_of_segments {p q : Path} (h : q.segments <+: p.segments) :
    q.text <+: p.text := by
  rw [← joinWith_segments q, ← joinWith_segments p]
  exact joinWith_isPrefix h

/-- **The parent of a path with a step behind the first segment** has the segments before the last
step, trimmed in the same way. -/
theorem isParent_of_segments {p parent : Path} {first last : Text} {more front : List Text}
    (habsolute : parent.isAbsolute = p.isAbsolute) (hp : p.segments = first :: more)
    (hsplit : trimSegments more = front ++ [last]) (hlast : IsStep last)
    (hparent : parent.segments = first :: trimSegments front) : IsParent parent p := by
  have htext : parent.text <+: p.text := text_isPrefix_of_segments (by
    rw [hparent, hp, List.prefix_cons_inj]
    exact trimSegments_front_isPrefix hsplit)
  have hsteps : p.steps = parent.steps ++ [last] := by
    rw [steps_of_segments hparent, steps, hp, ← List.singleton_append, namesAlong_append,
      namesAlong_of_trimSegments hsplit hlast, ← List.append_assoc, ← namesAlong_append,
      List.singleton_append]
  exact isParent_of_steps last habsolute htext hsteps (isTrimmed_of_segments hparent)

/-- The parent of a path from the root, as it is written. -/
theorem eq_of_parent?_of_isAbsolute {t : Text} {parent : Path} {front : List Text} {last : Text}
    (h : parent? ⟨'/' :: t⟩ = some parent) (hsplit : trimSegments (segments ⟨t⟩) = front ++ [last]) :
    parent = ⟨'/' :: Text.joinWith ['/'] (trimSegments front)⟩ := by
  rw [parent?, if_pos (by rfl), segments_cons_slash, List.tail_cons, hsplit] at h
  split at h
  · cases h
  · rw [List.dropLast_concat] at h
    split at h
    · rename_i hfront
      cases h
      rw [hfront]
      rfl
    · cases h
      rfl

/-- The parent of a path from the root. -/
theorem isParent_of_isAbsolute {t : Text} {parent : Path}
    (h : parent? ⟨'/' :: t⟩ = some parent) : IsParent parent ⟨'/' :: t⟩ := by
  have hbody : trimSegments (segments ⟨t⟩) ≠ [] := fun hnil => by
    rw [parent?, if_pos (by rfl), segments_cons_slash, List.tail_cons, hnil] at h
    cases h
  obtain ⟨front, last, hsplit, hlast⟩ := exists_of_trimSegments hbody
  obtain rfl := eq_of_parent?_of_isAbsolute h hsplit
  by_cases hnil : trimSegments front = []
  · rw [hnil]
    have hsteps : steps ⟨'/' :: t⟩ = [last] := by
      rw [steps, segments_cons_slash, ← List.singleton_append, namesAlong_append,
        namesAlong_of_trimSegments hsplit hlast, namesAlong_eq_nil_of_trimSegments hnil]
      rfl
    exact isParent_of_steps last rfl (List.prefix_append ['/'] t) hsteps (.inl rfl)
  · have hslash : ∀ s ∈ trimSegments front, '/' ∉ s := fun s hs =>
      slash_not_mem_of_mem_segments ((trimSegments_front_isPrefix hsplit).subset hs)
    refine isParent_of_segments rfl (segments_cons_slash t) hsplit hlast ?_
    rw [segments_cons_slash, segments_joinWith hslash hnil]

/-- The first segment of a path from the working directory is not empty. -/
theorem exists_segments_of_relative {p : Path} (hrelative : p.isAbsolute = false)
    (hne : p.text ≠ []) : ∃ c first more, p.segments = (c :: first) :: more := by
  have htext := joinWith_segments p
  rcases hsegments : p.segments with _ | ⟨_ | ⟨c, first⟩, more⟩
  · rw [hsegments] at htext
    exact absurd htext.symm hne
  · rw [hsegments, Text.joinWith] at htext
    by_cases hmore : more = []
    · rw [hmore, List.intercalate_singleton] at htext
      exact absurd htext.symm hne
    · rw [List.intercalate_cons_of_ne_nil hmore] at htext
      rw [isAbsolute, ← htext] at hrelative
      cases hrelative
  · exact ⟨c, first, more, rfl⟩

theorem isAbsolute_joinWith {c : Char} (hc : c ≠ '/') (first : Text) (more : List Text) :
    isAbsolute ⟨Text.joinWith ['/'] ((c :: first) :: more)⟩ = false := by
  by_cases hmore : more = []
  · rw [hmore, Text.joinWith, List.intercalate_singleton]
    exact isAbsolute_of_head hc _
  · rw [Text.joinWith, List.intercalate_cons_of_ne_nil hmore]
    exact isAbsolute_of_head hc _

/-- The parent of a path from the working directory. -/
theorem isParent_of_relative {p parent : Path} (hrelative : p.isAbsolute = false)
    (h : p.parent? = some parent) : IsParent parent p := by
  rw [parent?, if_neg (by simp [hrelative])] at h
  split at h
  · cases h
  rename_i hempty
  cases h
  have hne : p.text ≠ [] := by simpa using hempty
  obtain ⟨c, first, more, hsegments⟩ := exists_segments_of_relative hrelative hne
  rw [hsegments, trimRelative]
  by_cases hnil : trimSegments more = []
  · have hsteps : p.steps = namesAlong [c :: first] := by
      rw [steps, hsegments, ← List.singleton_append, namesAlong_append,
        namesAlong_eq_nil_of_trimSegments hnil, List.append_nil]
    rw [hnil]
    refine ⟨hrelative.symm, ?_, List.nil_prefix, hne.symm, .inl rfl⟩
    rw [hsteps, namesAlong_cons]
    split <;> rfl
  · obtain ⟨front, last, hsplit, hlast⟩ := exists_of_trimSegments hnil
    rw [hsplit, ← List.cons_append, List.dropLast_concat, trimRelative]
    have hslash : ∀ s ∈ (c :: first) :: trimSegments front, '/' ∉ s := fun s hs =>
      slash_not_mem_of_mem_segments (p := p) (hsegments ▸
        ((List.prefix_cons_inj _).mpr (trimSegments_front_isPrefix hsplit)).subset hs)
    have hc : c ≠ '/' := fun hc => hslash (c :: first) List.mem_cons_self (by simp [hc])
    refine isParent_of_segments ?_ hsegments hsplit hlast
      (segments_joinWith hslash (List.cons_ne_nil _ _))
    rw [isAbsolute_joinWith hc, hrelative]

/-- **The parent of a path** has its steps but the last one. -/
theorem isParent_of_parent? {p parent : Path} (h : p.parent? = some parent) :
    IsParent parent p := by
  by_cases habsolute : p.isAbsolute = true
  · obtain ⟨text⟩ := p
    obtain ⟨t, rfl⟩ : ∃ t, text = '/' :: t := by
      obtain ⟨t, ht⟩ := List.isPrefixOf_iff_prefix.mp habsolute
      exact ⟨t, ht.symm⟩
    exact isParent_of_isAbsolute h
  · exact isParent_of_relative (by simpa using habsolute) h

/-- A path with a step has a parent. -/
theorem exists_parent? {p : Path} (h : p.steps ≠ []) : ∃ parent, p.parent? = some parent := by
  unfold parent?
  split
  · rename_i habsolute
    have hbody : trimSegments p.segments.tail ≠ [] := fun hnil => h (by
      obtain ⟨text⟩ := p
      obtain ⟨t, rfl⟩ := List.isPrefixOf_iff_prefix.mp habsolute
      change trimSegments (segments ⟨'/' :: t⟩).tail = [] at hnil
      change namesAlong (segments ⟨'/' :: t⟩) = []
      rw [segments_cons_slash] at hnil ⊢
      rw [List.tail_cons] at hnil
      rw [← List.singleton_append, namesAlong_append, namesAlong_eq_nil_of_trimSegments hnil]
      rfl)
    split
    · rename_i hnil
      exact absurd hnil hbody
    · split <;> exact ⟨_, rfl⟩
  · split
    · rename_i hempty
      rw [List.isEmpty_iff] at hempty
      obtain ⟨text⟩ := p
      obtain rfl : text = [] := hempty
      exact absurd rfl h
    · exact ⟨_, rfl⟩

end Path

end BookSite
