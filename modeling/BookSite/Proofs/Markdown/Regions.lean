import BookSite.Markdown.Fence
import BookSite.Proofs.Places
import BookSite.Proofs.Text.Blanks
import Mathlib.Data.List.Basic
import Mathlib.Data.List.DropRight

/-!
# Proofs/Markdown/Regions — prose and blocks of a page

Only fences lead from one region into the other, so the region behind some lines depends on their
fences alone (`afterAll_map`), and a line that starts in a block is a line of code unless it is a
fence.
-/

namespace BookSite

/-! ## Fences -/

theorem isFence_iff {line : Text} :
    isFence line = true ↔ ∃ rest, line.trimStart = backtick :: backtick :: backtick :: rest := by
  rw [isFence, List.isPrefixOf_iff_prefix, List.prefix_iff_exists_eq_append]
  rfl

/-- A line whose first character behind the blanks is no backtick is no fence. -/
theorem not_isFence_of_trimStart {line rest : Text} {c : Char} (h : line.trimStart = c :: rest)
    (hc : c ≠ backtick) : isFence line = false := by
  rw [Bool.eq_false_iff, ne_eq, isFence_iff, h]
  rintro ⟨_, hrest⟩
  exact hc (List.cons.inj hrest).1

/-- A fence goes on as a fence. -/
theorem isFence_append {line : Text} (h : isFence line = true) (more : Text) :
    isFence (line ++ more) = true := by
  obtain ⟨rest, hrest⟩ := isFence_iff.mp h
  refine isFence_iff.mpr ⟨rest ++ more, ?_⟩
  rw [← Text.leadingBlanks_append_trimStart line, List.append_assoc,
    Text.trimStart_append (fun _ => Text.isBlank_of_mem_leadingBlanks), hrest]
  rfl

theorem not_isFence_of_backtick_not_mem {line : Text} (h : backtick ∉ line) :
    isFence line = false := by
  rw [Bool.eq_false_iff, ne_eq, isFence_iff]
  rintro ⟨rest, hstart⟩
  exact h ((Text.trimStart_suffix line).mem (by rw [hstart]; simp))

/-! ## The region behind lines -/

namespace Region

variable {r : Region} {line : Text} {lines : List Text}

@[simp] theorem toggle_toggle (r : Region) : r.toggle.toggle = r := by cases r <;> rfl

@[simp] theorem after_of_isFence (h : isFence line = true) : r.after line = r.toggle := if_pos h

@[simp] theorem after_of_not_isFence (h : isFence line = false) : r.after line = r := by
  rw [after, h]
  rfl

@[simp] theorem afterAll_nil (r : Region) : r.afterAll [] = r := rfl

@[simp] theorem afterAll_cons (r : Region) (line : Text) (lines : List Text) :
    r.afterAll (line :: lines) = (r.after line).afterAll lines := rfl

@[simp] theorem afterAll_append (r : Region) (xs ys : List Text) :
    r.afterAll (xs ++ ys) = (r.afterAll xs).afterAll ys := List.foldl_append

theorem afterAll_of_forall_not_isFence (h : ∀ l ∈ lines, isFence l = false) :
    r.afterAll lines = r := by
  induction lines with
  | nil => rfl
  | cons l lines ih =>
    rw [afterAll_cons, after_of_not_isFence (h l (by simp)), ih fun l' hl' => h l' (by simp [hl'])]

/-- **Lines that are fences where others are** lead to the same region. -/
theorem afterAll_map {f : Text → Text} (hf : ∀ l ∈ lines, isFence (f l) = isFence l) :
    r.afterAll (lines.map f) = r.afterAll lines := by
  induction lines generalizing r with
  | nil => rfl
  | cons l lines ih =>
    rw [List.map_cons, afterAll_cons, afterAll_cons, after, after, hf l (by simp),
      ih fun l' hl' => hf l' (by simp [hl'])]

/-! ## Kinds -/

/-- The kind of all lines of a region but fences. -/
def contentKind : Region → LineKind
  | prose => .text
  | block => .code

theorem kindOf_of_not_isFence (r : Region) (h : isFence line = false) :
    r.kindOf line = r.contentKind := by
  cases r <;> simp [kindOf, h, contentKind]

theorem kindOf_prose_of_isFence (h : isFence line = true) : kindOf .prose line = .fenceOpen := by
  simp [kindOf, h]

theorem kindOf_block_of_isFence (h : isFence line = true) : kindOf .block line = .fenceClose := by
  simp [kindOf, h]

theorem kindOf_prose_of_not_isFence (h : isFence line = false) : kindOf .prose line = .text :=
  kindOf_of_not_isFence .prose h

theorem kindOf_block_of_not_isFence (h : isFence line = false) : kindOf .block line = .code :=
  kindOf_of_not_isFence .block h

theorem kindOf_eq_code_iff : r.kindOf line = .code ↔ r = .block ∧ isFence line = false := by
  cases r <;> cases h : isFence line <;> simp [kindOf, h]

theorem kindOf_eq_fenceOpen_iff :
    r.kindOf line = .fenceOpen ↔ r = .prose ∧ isFence line = true := by
  cases r <;> cases h : isFence line <;> simp [kindOf, h]

theorem kindOf_eq_fenceClose_iff :
    r.kindOf line = .fenceClose ↔ r = .block ∧ isFence line = true := by
  cases r <;> cases h : isFence line <;> simp [kindOf, h]

/-- The kind of a line and the region behind it depend on whether it is a fence. -/
theorem kindOf_congr {line' : Text} (h : isFence line = isFence line') (r : Region) :
    r.kindOf line = r.kindOf line' := by
  cases r <;> simp only [kindOf, h]

theorem after_congr {line' : Text} (h : isFence line = isFence line') (r : Region) :
    r.after line = r.after line' := by
  rw [after, after, h]

theorem kindOf_eq_text_iff : r.kindOf line = .text ↔ r = .prose ∧ isFence line = false := by
  cases r <;> cases h : isFence line <;> simp [kindOf, h]

theorem isFence_kindOf (r : Region) (line : Text) : (r.kindOf line).isFence = isFence line := by
  cases r <;> cases h : isFence line <;> simp [kindOf, h, LineKind.isFence]

end Region

/-- **The region behind the lines of a page**, or behind the first of them. -/
def regionBehind (lines : List Text) : Region := Region.prose.afterAll lines

@[simp] theorem regionBehind_nil : regionBehind [] = .prose := rfl

@[simp] theorem regionBehind_append (xs ys : List Text) :
    regionBehind (xs ++ ys) = (regionBehind xs).afterAll ys := Region.afterAll_append _ xs ys

/-- **The block that lines end in**: the fence that opened it, and the lines since. -/
theorem exists_opener_of_regionBehind_eq_block {above : List Text}
    (h : regionBehind above = .block) :
    ∃ before opener body, above = before ++ opener :: body ∧ regionBehind before = .prose ∧
      isFence opener = true ∧ ∀ l ∈ body, isFence l = false := by
  induction above using List.reverseRecOn with
  | nil => cases h
  | append_singleton above line ih =>
    rw [regionBehind_append, Region.afterAll_cons, Region.afterAll_nil] at h
    cases hfence : isFence line with
    | true =>
      rw [Region.after_of_isFence hfence] at h
      have habove : regionBehind above = .prose := by
        rw [← Region.toggle_toggle (regionBehind above), h]
        rfl
      exact ⟨above, line, [], rfl, habove, hfence, by simp⟩
    | false =>
      rw [Region.after_of_not_isFence hfence] at h
      obtain ⟨before, opener, body, rfl, hbefore, hopener, hbody⟩ := ih h
      refine ⟨before, opener, body ++ [line], by simp, hbefore, hopener, fun l hl => ?_⟩
      rcases List.mem_append.mp hl with hl | hl
      · exact hbody l hl
      · rwa [List.mem_singleton.mp hl]

/-! ## Classified lines -/

open Region

/-- **A line among classified ones**: its kind is that of the region behind the lines above it. -/
theorem classifyFrom_eq_append_cons {r : Region} {lines : List Text} {above below : List Line}
    {line : Line} (h : classifyFrom r lines = above ++ line :: below) :
    lines = above.map Line.text ++ line.text :: below.map Line.text ∧
      line.kind = (r.afterAll (above.map Line.text)).kindOf line.text := by
  have hlines : lines = above.map Line.text ++ line.text :: below.map Line.text := by
    rw [← map_text_classifyFrom r lines, h]
    simp
  refine ⟨hlines, ?_⟩
  rw [hlines, classifyFrom_append, classifyFrom] at h
  have hlength : (classifyFrom r (above.map Line.text)).length = above.length := by
    rw [← List.length_map Line.text, map_text_classifyFrom, List.length_map]
  obtain ⟨-, hrest⟩ := List.append_inj h hlength
  rw [← (List.cons.inj hrest).1]

/-- Classified lines in two parts: each part is classified from the region it starts in. -/
theorem classifyFrom_eq_append {r : Region} {lines : List Text} {xs ys : List Line}
    (h : classifyFrom r lines = xs ++ ys) :
    classifyFrom r (xs.map Line.text) = xs ∧
      classifyFrom (r.afterAll (xs.map Line.text)) (ys.map Line.text) = ys := by
  have hlines : lines = xs.map Line.text ++ ys.map Line.text := by
    rw [← map_text_classifyFrom r lines, h, List.map_append]
  rw [hlines, classifyFrom_append] at h
  refine List.append_inj h ?_
  rw [← List.length_map Line.text, map_text_classifyFrom, List.length_map]

/-- Lines that are all text stand in the prose and are no fences. -/
theorem eq_prose_of_classifyFrom {r : Region} {lines : List Text}
    (h : ∀ line ∈ classifyFrom r lines, line.kind = .text) :
    (lines ≠ [] → r = .prose) ∧ ∀ l ∈ lines, isFence l = false := by
  induction lines generalizing r with
  | nil => exact ⟨fun hne => absurd rfl hne, by simp⟩
  | cons line rest ih =>
    rw [classifyFrom, List.forall_mem_cons] at h
    obtain ⟨rfl, hfence⟩ := kindOf_eq_text_iff.mp h.1
    exact ⟨fun _ => rfl, List.forall_mem_cons.mpr ⟨hfence, (ih h.2).2⟩⟩

theorem classifyFrom_concat (r : Region) (above : List Text) (line : Text) :
    classifyFrom r (above ++ [line]) =
      classifyFrom r above ++ [⟨line, (r.afterAll above).kindOf line⟩] := by
  rw [classifyFrom_append]
  rfl

/-- Lines of one kind have the texts they are made of. -/
@[simp] theorem map_text_ofKind (kind : LineKind) (lines : List Text) :
    (lines.map fun line => (⟨line, kind⟩ : Line)).map Line.text = lines := by
  rw [List.map_map]
  exact List.map_id'' (fun _ => rfl) lines

/-- Lines without fence are all of the kind that the region holds. -/
theorem classifyFrom_of_forall_not_isFence (r : Region) {lines : List Text}
    (h : ∀ l ∈ lines, isFence l = false) :
    classifyFrom r lines = lines.map fun line => ⟨line, r.contentKind⟩ := by
  induction lines with
  | nil => rfl
  | cons line lines ih =>
    have hline := h line (by simp)
    rw [classifyFrom, kindOf_of_not_isFence r hline, after_of_not_isFence hline,
      ih fun l hl => h l (by simp [hl]), List.map_cons]

/-- The places of classified lines are those of the lines. -/
theorem atEachPlace_classifyFrom {P : List Line → Line → Prop} {r : Region} {lines : List Text} :
    AtEachPlace P (classifyFrom r lines) ↔
      AtEachPlace
        (fun above line => P (classifyFrom r above) ⟨line, (r.afterAll above).kindOf line⟩) lines := by
  induction lines generalizing r P with
  | nil => simp [classifyFrom]
  | cons line lines ih =>
    rw [classifyFrom, atEachPlace_cons, atEachPlace_cons, ih]
    rfl

end BookSite
