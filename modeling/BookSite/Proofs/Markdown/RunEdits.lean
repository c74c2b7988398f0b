import BookSite.Markdown.Quote
import BookSite.Markdown.Runs
import BookSite.Proofs.Markdown.LineEdits
import BookSite.Proofs.Text.Scanning

/-!
# Proofs/Markdown/RunEdits — stages that edit runs of prose

Quotes and images are edited one run at a time.  A line of code belongs to no run and separates the
runs above it from those below (`runs_append_cons`), so these edits keep it.  What a run of quoted
lines becomes are lines of a page again.
-/

namespace BookSite

/-! ## Cutting into runs -/

section Runs

variable {α : Type} {p : α → Bool}

/-- **An element outside all runs** separates those before it from those behind it. -/
theorem runs_append_cons {a : α} (ha : p a = false) (xs ys : List α) :
    runs p (xs ++ a :: ys) = runs p xs ++ .single a :: runs p ys := by
  induction xs with
  | nil => simp [runs, Stretch.cons, ha]
  | cons x xs ih =>
    rw [List.cons_append, runs, ih, runs]
    unfold Stretch.cons
    split
    · cases runs p xs with
      | nil => rfl
      | cons s rest => cases s <;> rfl
    · rfl

theorem runs_ne_nil {xs : List α} (h : xs ≠ []) : runs p xs ≠ [] := by
  intro hnil
  apply h
  rw [← flatMap_elements_runs p xs, hnil, List.flatMap_nil]

theorem mem_of_mem_runs {xs : List α} {s : Stretch α} (h : s ∈ runs p xs) :
    ∀ a ∈ s.elements, a ∈ xs := by
  intro a ha
  rw [← flatMap_elements_runs p xs]
  exact List.mem_flatMap.mpr ⟨s, h, ha⟩

/-- All elements of a run satisfy what it is a run of. -/
theorem forall_mem_of_run_mem_runs {xs : List α} {first : α} {more : List α}
    (h : .run first more ∈ runs p xs) : ∀ a ∈ first :: more, p a = true := by
  induction xs generalizing first more with
  | nil => cases h
  | cons x xs ih =>
    rw [runs] at h
    unfold Stretch.cons at h
    split at h
    · rename_i hx
      split at h
      · rename_i first' more' rest hruns
        rcases List.mem_cons.mp h with heq | h
        · cases heq
          intro a ha
          rcases List.mem_cons.mp ha with rfl | ha
          · exact hx
          · exact ih (by simp [hruns]) a ha
        · exact ih (by simp [hruns, h])
      · rcases List.mem_cons.mp h with heq | h
        · cases heq
          simpa using hx
        · exact ih h
    · rcases List.mem_cons.mp h with heq | h
      · cases heq
      · exact ih h

theorem runs_replicate {a : α} (ha : p a = true) (n : Nat) :
    runs p (List.replicate (n + 1) a) = [.run a (List.replicate n a)] := by
  induction n with
  | zero => simp [runs, Stretch.cons, ha]
  | succ n ih => rw [List.replicate_succ, runs, ih, Stretch.cons, if_pos ha]; rfl

/-- **Two lists one after the other**: their runs stay as they are, or the last run of the first list
goes on in the first run of the second. -/
theorem runs_append (xs ys : List α) :
    (∃ parts first more first' more' rest, runs p xs = parts ++ [.run first more] ∧
        runs p ys = .run first' more' :: rest ∧
        runs p (xs ++ ys) = parts ++ .run first (more ++ first' :: more') :: rest) ∨
      runs p (xs ++ ys) = runs p xs ++ runs p ys := by
  induction xs with
  | nil => exact .inr rfl
  | cons x xs ih =>
    rw [List.cons_append, runs, runs]
    unfold Stretch.cons
    by_cases hx : p x = true
    · rw [if_pos hx, if_pos hx]
      obtain ⟨parts, first, more, first', more', rest, hxs, hys, hboth⟩ | hboth := ih
      · rw [hxs, hboth]
        cases parts with
        | nil => exact .inl ⟨[], x, first :: more, first', more', rest, rfl, hys, rfl⟩
        | cons s parts =>
          cases s with
          | run a as =>
            exact .inl ⟨.run x (a :: as) :: parts, first, more, first', more', rest, rfl, hys, rfl⟩
          | single b =>
            exact .inl
              ⟨.run x [] :: .single b :: parts, first, more, first', more', rest, rfl, hys, rfl⟩
      · rw [hboth]
        cases runs p xs with
        | nil =>
          cases hys : runs p ys with
          | nil => exact .inr rfl
          | cons s rest =>
            cases s with
            | run a as => exact .inl ⟨[], x, [], a, as, rest, rfl, rfl, rfl⟩
            | single b => exact .inr rfl
        | cons s parts => cases s <;> exact .inr rfl
    · rw [if_neg hx, if_neg hx]
      obtain ⟨parts, first, more, first', more', rest, hxs, hys, hboth⟩ | hboth := ih
      · rw [hxs, hboth]
        exact .inl ⟨.single x :: parts, first, more, first', more', rest, rfl, hys, rfl⟩
      · rw [hboth]
        exact .inr rfl

theorem runs_singleton {a : α} (ha : p a = true) : runs p [a] = [.run a []] := by
  simp [runs, Stretch.cons, ha]

/-- One more element at the end joins the last run, or begins a run of its own. -/
theorem runs_concat {a : α} (ha : p a = true) (xs : List α) :
    (∃ parts first more, runs p xs = parts ++ [.run first more] ∧
        runs p (xs ++ [a]) = parts ++ [.run first (more ++ [a])]) ∨
      runs p (xs ++ [a]) = runs p xs ++ [.run a []] := by
  obtain ⟨parts, first, more, first', more', rest, hxs, hsingle, hboth⟩ | hboth := runs_append xs [a]
  · rw [runs_singleton ha] at hsingle
    cases hsingle
    exact .inl ⟨parts, first, more, hxs, hboth⟩
  · rw [runs_singleton ha] at hboth
    exact .inr hboth

/-- Parts of a list without elements are none. -/
theorem Stretch.eq_nil_of_flatMap_elements {parts : List (Stretch α)}
    (h : parts.flatMap elements = []) : parts = [] := by
  cases parts with
  | nil => rfl
  | cons s parts => cases s <;> simp [elements] at h

/-- **The parts before an element outside all runs** are the runs of the elements before it. -/
theorem runs_flatMap_elements {xs : List α} {parts rest : List (Stretch α)} {a : α}
    (ha : p a = false) (h : runs p xs = parts ++ .single a :: rest) :
    runs p (parts.flatMap Stretch.elements) = parts := by
  have hxs : xs = parts.flatMap Stretch.elements ++ a :: rest.flatMap Stretch.elements := by
    rw [← flatMap_elements_runs p xs, h, List.flatMap_append, List.flatMap_cons]
    rfl
  rw [hxs, runs_append_cons ha] at h
  have helements := flatMap_elements_runs p (parts.flatMap Stretch.elements)
  -- Were one of the two lists of parts longer, it would hold more elements.
  obtain ⟨more, hparts, -⟩ | ⟨more, hruns, -⟩ := List.append_eq_append_iff.mp h
  · have hmore : more.flatMap Stretch.elements = [] := by
      have hboth := congrArg (List.flatMap Stretch.elements) hparts
      rw [List.flatMap_append, helements] at hboth
      exact List.self_eq_append_right.mp hboth
    rw [Stretch.eq_nil_of_flatMap_elements hmore, List.append_nil] at hparts
    exact hparts.symm
  · have hmore : more.flatMap Stretch.elements = [] := by
      rw [hruns, List.flatMap_append] at helements
      exact List.append_right_eq_self.mp helements
    rw [hruns, Stretch.eq_nil_of_flatMap_elements hmore, List.append_nil]

end Runs

/-! ## Editing runs -/

/-- **The page with its parts rewritten**: runs of lines that satisfy `p`, and all other lines. -/
def editRuns (p : Line → Bool) (write : Stretch Line → List Text) (lines : List Text) :
    List Text :=
  (runs p (classifyFrom .prose lines)).flatMap write

section EditRuns

variable {p : Line → Bool} {write : Stretch Line → List Text}

/-- **A line outside all runs is kept**, a fence too. -/
theorem keepsLine_editRuns_of_kindOf {above below : List Text} {line : Text} {kind : LineKind}
    (hkind : (regionBehind above).kindOf line = kind) (hp : p ⟨line, kind⟩ = false)
    (hwrite : write (.single ⟨line, kind⟩) = [line]) :
    KeepsLine (editRuns p write) above line below := by
  have hbehind : Region.afterAll .prose above = regionBehind above := rfl
  refine ⟨(runs p (classifyFrom ((regionBehind above).after line) below)).flatMap write, ?_, by
    rintro rfl; rfl⟩
  rw [editRuns, classifyFrom_append, hbehind, classifyFrom, hkind, runs_append_cons hp,
    List.flatMap_append, List.flatMap_cons, hwrite]
  rfl

/-- A line of content outside all runs is kept, in the prose as in a block. -/
theorem keepsLine_editRuns {above below : List Text} {line : Text} (hfence : isFence line = false)
    (hp : p ⟨line, (regionBehind above).contentKind⟩ = false)
    (hwrite : write (.single ⟨line, (regionBehind above).contentKind⟩) = [line]) :
    KeepsLine (editRuns p write) above line below :=
  keepsLine_editRuns_of_kindOf (Region.kindOf_of_not_isFence _ hfence) hp hwrite

theorem arePageLines_editRuns
    (hne : ∀ lines, ∀ s ∈ runs p lines, write s ≠ [])
    (hnewline : ∀ s, (∀ line ∈ s.elements, '\n' ∉ line.text) → ∀ l ∈ write s, '\n' ∉ l)
    {lines : List Text} (h : Text.ArePageLines lines) :
    Text.ArePageLines (editRuns p write lines) where
  ne_nil := by
    obtain ⟨line, rest, rfl⟩ := List.exists_cons_of_ne_nil h.ne_nil
    have hruns : runs p (classifyFrom .prose (line :: rest)) ≠ [] :=
      runs_ne_nil (by simp [classifyFrom])
    obtain ⟨s, more, hs⟩ := List.exists_cons_of_ne_nil hruns
    rw [editRuns, hs, List.flatMap_cons]
    exact List.append_ne_nil_of_left_ne_nil (hne _ s (by rw [hs]; simp)) _
  newline_not_mem := by
    intro l hl
    obtain ⟨s, hs, hl⟩ := List.mem_flatMap.mp hl
    exact hnewline s (fun line hline => h.newline_not_mem_text (mem_of_mem_runs hs line hline)) l hl

end EditRuns

/-! ## Quotes -/

namespace Quote

/-- **The lines of a page** with the quotes turned into containers. -/
def quoteLines (lines : List Text) : List Text := editRuns isQuoted convertStretch lines

theorem containQuotes_eq (page : Text) :
    containQuotes page = Text.unlines (quoteLines page.segments) := rfl

theorem keepsLine_quoteLines {above below : List Text} {line : Text}
    (hregion : regionBehind above = .block) (hfence : isFence line = false) :
    KeepsLine quoteLines above line below :=
  keepsLine_editRuns hfence (by rw [hregion]; rfl) rfl

/-- No fence is part of a quote. -/
theorem not_isQuoted_of_isFence {line : Line} (h : line.kind.isFence = true) :
    isQuoted line = false := by
  have htext : line.kind ≠ .text := by
    intro htext
    rw [htext] at h
    cases h
  rw [isQuoted, beq_eq_false_iff_ne.mpr htext, Bool.false_and]

/-- **Fences are kept.** -/
theorem keepsLine_quoteLines_of_isFence {above below : List Text} {line : Text}
    (hfence : isFence line = true) : KeepsLine quoteLines above line below :=
  keepsLine_editRuns_of_kindOf rfl
    (not_isQuoted_of_isFence ((Region.isFence_kindOf _ line).trans hfence)) rfl

/-- A line that is not quoted is kept wherever it stands. -/
theorem keepsLine_quoteLines_of_content?_eq_none {above below : List Text} {line : Text}
    (hfence : isFence line = false) (hcontent : content? line = none) :
    KeepsLine quoteLines above line below :=
  keepsLine_editRuns hfence (by simp [isQuoted, hcontent]) rfl

/-- Last lines in a block stay. -/
theorem quoteLines_append_block {above : List Text} (hregion : regionBehind above = .block)
    {more : List Text} (hmore : ∀ l ∈ more, isFence l = false) :
    quoteLines (above ++ more) = quoteLines above ++ more :=
  KeepsLine.edit_append (fun _ hl => hl) (fun _ hbehind _ hl => keepsLine_quoteLines hbehind hl)
    hregion hmore

theorem content?_subset {line content : Text} (h : content? line = some content) :
    content ⊆ line := by
  unfold content? at h
  split at h
  · cases h
    simp
  · split at h
    · cases h
      simp
    · cases h
  · cases h

/-- A label that is found is one of the labels. -/
theorem mem_labels_of_label {t name : Text} {container : Container} {n : Nat}
    (h : label t = some ((name, container), n)) : (name, container) ∈ Container.labels := by
  obtain ⟨⟨name', container'⟩, hmem, h⟩ := List.exists_of_findSome?_eq_some h
  obtain ⟨colon, -, h⟩ := List.exists_of_findSome?_eq_some h
  obtain ⟨rest, -, heq⟩ := Option.map_eq_some_iff.mp h
  cases heq
  exact hmem

theorem newline_not_mem_opener (container : Container) {title : Text} (h : '\n' ∉ title) :
    '\n' ∉ opener container title := by
  have hmark : '\n' ∉ "::: ".toList := by decide
  have hname : '\n' ∉ container.name := by cases container <;> decide
  unfold opener
  simp only [List.mem_append, not_or]
  exact ⟨⟨hmark, hname⟩, h⟩

theorem newline_not_mem_containerLines {first : Text} {more : List Text} (hfirst : '\n' ∉ first)
    (hmore : ∀ l ∈ more, '\n' ∉ l) : ∀ l ∈ containerLines first more, '\n' ∉ l := by
  have hcloser : '\n' ∉ closer := by decide
  intro l hl
  unfold containerLines at hl
  split at hl
  · rename_i before name container behind hfound
    obtain ⟨s, n, rfl, hlabel, rfl⟩ := Text.eq_append_of_findFirst hfound
    have hname : '\n' ∉ name := by
      have hlabels : ∀ entry ∈ Container.labels, '\n' ∉ entry.1 := by decide
      exact hlabels _ (mem_labels_of_label hlabel)
    rcases List.mem_cons.mp hl with rfl | hl
    · exact newline_not_mem_opener _ (by simp [hname])
    · simp only [List.mem_append, List.mem_singleton] at hl
      rcases hl with (hl | hl) | rfl
      · split at hl
        · simp at hl
        · rw [List.mem_singleton.mp hl, List.mem_append, not_or]
          rw [List.mem_append, not_or] at hfirst
          exact ⟨hfirst.1, fun hmem => hfirst.2 (List.mem_of_mem_drop hmem)⟩
      · exact hmore l hl
      · exact hcloser
  · simp only [List.mem_append, List.mem_cons, List.not_mem_nil, or_false] at hl
    rcases hl with (rfl | rfl | hl) | rfl
    · exact newline_not_mem_opener _ List.not_mem_nil
    · exact hfirst
    · exact hmore l hl
    · exact hcloser

theorem newline_not_mem_convertRun {raw : List Text} (h : ∀ l ∈ raw, '\n' ∉ l) :
    ∀ l ∈ convertRun raw, '\n' ∉ l := by
  have hcontent : ∀ l ∈ raw.filterMap content?, '\n' ∉ l := by
    intro l hl
    obtain ⟨line, hline, hcontent⟩ := List.mem_filterMap.mp hl
    exact fun hmem => h line hline (content?_subset hcontent hmem)
  unfold convertRun
  split
  · simp
  · rename_i first more hraw
    rw [hraw] at hcontent
    split
    · exact h
    · exact newline_not_mem_containerLines (hcontent first (by simp))
        fun l hl => hcontent l (by simp [hl])

theorem containerLines_ne_nil (first : Text) (more : List Text) :
    containerLines first more ≠ [] := by
  unfold containerLines
  split <;> simp

theorem convertRun_ne_nil {first : Text} (hfirst : (content? first).isSome) (more : List Text) :
    convertRun (first :: more) ≠ [] := by
  obtain ⟨content, hcontent⟩ := Option.isSome_iff_exists.mp hfirst
  rw [convertRun, List.filterMap_cons_some hcontent]
  simp only
  split
  · simp
  · exact containerLines_ne_nil _ _

/-- **The edited lines are lines of a page.** -/
theorem arePageLines_quoteLines {lines : List Text} (h : Text.ArePageLines lines) :
    Text.ArePageLines (quoteLines lines) := by
  refine arePageLines_editRuns (fun _ s hs => ?_) (fun s hs => ?_) h
  · cases s with
    | run first more =>
      have hquoted := forall_mem_of_run_mem_runs hs first (by simp)
      rw [isQuoted, Bool.and_eq_true] at hquoted
      exact convertRun_ne_nil hquoted.2 _
    | single line => simp [convertStretch]
  · cases s with
    | run first more =>
      refine newline_not_mem_convertRun fun l hl => ?_
      obtain ⟨line, hline, rfl⟩ := List.mem_map.mp hl
      exact hs line hline
    | single line => simpa [convertStretch, Stretch.elements] using hs

theorem segments_containQuotes (page : Text) :
    (containQuotes page).segments = quoteLines page.segments :=
  (arePageLines_quoteLines (Text.arePageLines_segments page)).segments_unlines

end Quote

end BookSite
