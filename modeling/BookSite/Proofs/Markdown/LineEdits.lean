import BookSite.Markdown.HiddenLine
import BookSite.Markdown.Playground
import BookSite.Proofs.Markdown.Regions
import BookSite.Proofs.Text.Lines

/-!
# Proofs/Markdown/LineEdits — stages as edits of lines

Every stage cuts a page into lines and joins the lines it has made of them, so a stage is an edit of
lists of lines.  The first thing to ask of an edit is whether it **keeps a line**: whether the
edited page is what the lines above become, then the line itself, then more.

The simplest edits put one line in the place of each.  They keep all regions when they keep fences,
and showing hidden lines and dropping playground flags do.
-/

namespace BookSite

/-! ## Keeping a line -/

/-- **An edit keeps a line** between others, and adds nothing behind it when it is the last one. -/
def KeepsLine (edit : List Text → List Text) (above : List Text) (line : Text)
    (below : List Text) : Prop :=
  ∃ rest, edit (above ++ line :: below) = edit above ++ line :: rest ∧ (below = [] → rest = [])

namespace KeepsLine

variable {edit edit' : List Text → List Text} {above : List Text} {line : Text}

/-- What the first edit makes of the lines below does not matter to the second one. -/
theorem comp {below : List Text} (h : KeepsLine edit above line below)
    (h' : ∀ rest, KeepsLine edit' (edit above) line rest) :
    KeepsLine (fun lines => edit' (edit lines)) above line below := by
  obtain ⟨rest, hrest, hlast⟩ := h
  obtain ⟨rest', hrest', hlast'⟩ := h' rest
  refine ⟨rest', ?_, fun hbelow => hlast' (hlast hbelow)⟩
  simp only [hrest, hrest']

/-- The last line of a page is the last one of the edited page. -/
theorem edit_concat (h : KeepsLine edit above line []) :
    edit (above ++ [line]) = edit above ++ [line] := by
  obtain ⟨rest, hrest, hlast⟩ := h
  rw [hrest, hlast rfl]

theorem isPrefix {below : List Text} (h : KeepsLine edit above line below) :
    edit above ++ [line] <+: edit (above ++ line :: below) := by
  obtain ⟨rest, hrest, -⟩ := h
  exact ⟨rest, by rw [hrest, List.append_assoc, List.singleton_append]⟩

/-- An edit that keeps such lines in a block leaves them alone at the end of a page. -/
theorem edit_append {P : Text → Prop} (hfence : ∀ line, P line → isFence line = false)
    (h : ∀ above, regionBehind above = .block → ∀ line, P line → KeepsLine edit above line [])
    (hregion : regionBehind above = .block) {more : List Text} (hmore : ∀ l ∈ more, P l) :
    edit (above ++ more) = edit above ++ more := by
  induction more using List.reverseRecOn with
  | nil => simp
  | append_singleton more line ih =>
    have hmore' : ∀ l ∈ more, P l := fun l hl => hmore l (by simp [hl])
    have hbehind : regionBehind (above ++ more) = .block := by
      rw [regionBehind_append, hregion,
        Region.afterAll_of_forall_not_isFence fun l hl => hfence l (hmore' l hl)]
    rw [← List.append_assoc, (h _ hbehind line (hmore line (by simp))).edit_concat, ih hmore',
      List.append_assoc]

end KeepsLine

/-- Classified lines of a page hold no line feed. -/
theorem Text.ArePageLines.newline_not_mem_text {lines : List Text} (h : ArePageLines lines)
    {r : Region} {line : Line} (hline : line ∈ classifyFrom r lines) : '\n' ∉ line.text := by
  apply h.newline_not_mem
  rw [← map_text_classifyFrom r lines]
  exact List.mem_map_of_mem hline

/-! ## A line for a line -/

/-- The page with the lines that `f` puts in place of its lines. -/
def mapLines (f : Line → Text) (lines : List Text) : List Text :=
  (classifyFrom .prose lines).map f

/-- A replacement keeps fences: it puts a fence in place of a fence and of nothing else. -/
def KeepsFences (f : Line → Text) : Prop :=
  ∀ (r : Region) (line : Text), isFence (f ⟨line, r.kindOf line⟩) = isFence line

section MapLines

variable {f : Line → Text}

theorem mapLines_append (xs ys : List Text) :
    mapLines f (xs ++ ys) = mapLines f xs ++ (classifyFrom (regionBehind xs) ys).map f := by
  rw [mapLines, classifyFrom_append, List.map_append]
  rfl

theorem KeepsFences.afterAll_map (hf : KeepsFences f) (r : Region) (lines : List Text) :
    r.afterAll ((classifyFrom r lines).map f) = r.afterAll lines := by
  induction lines generalizing r with
  | nil => rfl
  | cons line lines ih =>
    rw [classifyFrom, List.map_cons, Region.afterAll_cons, Region.afterAll_cons, Region.after,
      hf r line, ← Region.after, ih]

/-- **The regions stay.** -/
theorem KeepsFences.regionBehind_mapLines (hf : KeepsFences f) (lines : List Text) :
    regionBehind (mapLines f lines) = regionBehind lines := hf.afterAll_map .prose lines

theorem keepsLine_mapLines {above below : List Text} {line : Text}
    (hregion : regionBehind above = .block) (hfence : isFence line = false)
    (hline : f ⟨line, .code⟩ = line) : KeepsLine (mapLines f) above line below := by
  refine ⟨(classifyFrom .block below).map f, ?_, by rintro rfl; rfl⟩
  have hkind := Region.kindOf_block_of_not_isFence hfence
  rw [mapLines_append, hregion, classifyFrom, hkind, Region.after_of_not_isFence hfence,
    List.map_cons, hline]

theorem arePageLines_mapLines (hf : ∀ line, '\n' ∉ line.text → '\n' ∉ f line) {lines : List Text}
    (h : Text.ArePageLines lines) : Text.ArePageLines (mapLines f lines) where
  ne_nil := by
    intro hnil
    rw [mapLines, List.map_eq_nil_iff] at hnil
    apply h.ne_nil
    rw [← map_text_classifyFrom .prose lines, hnil, List.map_nil]
  newline_not_mem := by
    intro l hl
    obtain ⟨line, hline, rfl⟩ := List.mem_map.mp hl
    exact hf line (h.newline_not_mem_text hline)

end MapLines

/-- The line that `editLines` puts in place of a line. -/
def editLine (kind : LineKind) (edit? : Text → Option Text) (line : Line) : Text :=
  if line.kind = kind then (edit? line.text).getD line.text else line.text

theorem newline_not_mem_editLine {kind : LineKind} {edit? : Text → Option Text}
    (hedit : ∀ l l', '\n' ∉ l → edit? l = some l' → '\n' ∉ l') (line : Line)
    (h : '\n' ∉ line.text) : '\n' ∉ editLine kind edit? line := by
  unfold editLine
  split
  · cases hl : edit? line.text with
    | none => exact h
    | some l' => exact hedit _ _ h hl
  · exact h

/-- **The lines of the edited page** are the edited lines of the page. -/
theorem segments_editLines {kind : LineKind} {edit? : Text → Option Text}
    (hedit : ∀ l l', '\n' ∉ l → edit? l = some l' → '\n' ∉ l') (page : Text) :
    (editLines kind edit? page).segments = mapLines (editLine kind edit?) page.segments :=
  (arePageLines_mapLines (newline_not_mem_editLine hedit)
    (Text.arePageLines_segments page)).segments_unlines

/-! ## Hidden lines -/

/-- **The comment of a hidden line**: two slashes, with or without a space, in the place of its
mark. -/
theorem eq_comment_of_revealLine? {line comment : Text} (h : revealLine? line = some comment) :
    ∃ rest gap, line.trimStart = '#' :: rest ∧ (gap = [] ∨ gap = [' ']) ∧
      comment = line.leadingBlanks ++ '/' :: '/' :: (gap ++ rest) := by
  unfold revealLine? at h
  split at h
  · rename_i rest hstart
    refine ⟨rest, ?_⟩
    split at h
    · cases h
    · cases h
    · cases h
      exact ⟨[], hstart, .inl rfl, rfl⟩
    · cases h
      split
      · exact ⟨[], hstart, .inl rfl, by simp⟩
      · exact ⟨[' '], hstart, .inr rfl, by simp⟩
  · cases h

/-- A hidden line begins with its mark, and its comment holds nothing else than two slashes, spaces
and what the line holds. -/
theorem eq_of_revealLine? {line comment : Text} (h : revealLine? line = some comment) :
    (∃ rest, line.trimStart = '#' :: rest) ∧
      ∃ more, comment = line.leadingBlanks ++ '/' :: '/' :: more ∧
        ∀ c ∈ more, c = ' ' ∨ c ∈ line.trimStart := by
  obtain ⟨rest, gap, hstart, hgap, hcomment⟩ := eq_comment_of_revealLine? h
  refine ⟨⟨rest, hstart⟩, gap ++ rest, hcomment, fun c hc => ?_⟩
  rw [hstart]
  rcases hgap with rfl | rfl
  · exact .inr (List.mem_cons_of_mem _ hc)
  · rcases List.mem_cons.mp hc with rfl | hc
    · exact .inl rfl
    · exact .inr (List.mem_cons_of_mem _ hc)

theorem trimStart_of_revealLine? {line comment : Text} (h : revealLine? line = some comment) :
    ∃ more, comment.trimStart = '/' :: '/' :: more := by
  obtain ⟨-, more, rfl, -⟩ := eq_of_revealLine? h
  exact ⟨more, Text.trimStart_append (fun c hc => Text.isBlank_of_mem_leadingBlanks hc) _⟩

theorem keepsFences_revealLine : KeepsFences (editLine .code revealLine?) := by
  intro r line
  unfold editLine
  split
  · cases hl : revealLine? line with
    | none => rfl
    | some comment =>
      obtain ⟨⟨rest, hstart⟩, -⟩ := eq_of_revealLine? hl
      obtain ⟨more, hcomment⟩ := trimStart_of_revealLine? hl
      rw [not_isFence_of_trimStart hstart (by decide)]
      exact not_isFence_of_trimStart hcomment (by decide)
  · rfl

theorem newline_not_mem_of_revealLine? {line comment : Text} (hline : '\n' ∉ line)
    (h : revealLine? line = some comment) : '\n' ∉ comment := by
  obtain ⟨-, more, rfl, hmore⟩ := eq_of_revealLine? h
  rw [← line.leadingBlanks_append_trimStart, List.mem_append, not_or] at hline
  have hnewline : '\n' ∉ more := by
    intro hmem
    rcases hmore _ hmem with heq | hmem
    · cases heq
    · exact hline.2 hmem
  simp [hline.1, hnewline]

/-! ## Playground flags -/

theorem isFence_of_plainFence? {line fence : Text} (hline : isFence line = true)
    (h : plainFence? line = some fence) : isFence fence = true := by
  obtain ⟨rest, hstart⟩ := isFence_iff.mp hline
  unfold plainFence? at h
  split at h
  · cases h
    rw [isFence_iff, List.append_assoc,
      Text.trimStart_append fun c hc => Text.isBlank_of_mem_leadingBlanks hc, hstart]
    exact ⟨_, rfl⟩
  · cases h

theorem keepsFences_plainFence : KeepsFences (editLine .fenceOpen plainFence?) := by
  intro r line
  unfold editLine
  split
  · rename_i hkind
    have hline : isFence line = true := by
      rw [← Region.isFence_kindOf r line]
      simp only at hkind
      rw [hkind]
      rfl
    cases hl : plainFence? line with
    | none => rfl
    | some fence => rw [hline]; exact isFence_of_plainFence? hline hl
  · rfl

theorem newline_not_mem_of_plainFence? {line fence : Text} (hline : '\n' ∉ line)
    (h : plainFence? line = some fence) : '\n' ∉ fence := by
  rw [← line.leadingBlanks_append_trimStart, List.mem_append, not_or] at hline
  unfold plainFence? at h
  split at h
  · cases h
    have hbackticks : '\n' ∉ line.trimStart.takeWhile (· == backtick) := fun hmem =>
      hline.2 ((List.takeWhile_sublist _).mem hmem)
    have hlanguage : '\n' ∉ playgroundLanguage := by decide
    simp [hline.1, hbackticks, hlanguage]
  · cases h

end BookSite
