import BookSite.Proofs.Markdown.Regions
import BookSite.Proofs.Text.Lines
import Mathlib.Algebra.Group.Nat.Even

/-!
# Proofs/Markdown/LineKinds — what the kinds of lines say

A page is cut into lines and every line gets a kind, so no stage has to look for fences itself.
The kinds depend on nothing but the number of fences above (`afterAll_eq`), they read as prose and
blocks (`readAsBlocks_classify`), and lines below others are classified from the region those leave:
`kinds_follow_fences` puts it together.
-/

namespace BookSite

/-! ## Fences in pairs -/

/-- How many of the lines are fences. -/
def fenceCount (lines : List Line) : Nat := lines.countP fun line => isFence line.text

theorem fenceCount_cons (line : Line) (lines : List Line) :
    fenceCount (line :: lines) = fenceCount lines + if isFence line.text then 1 else 0 :=
  List.countP_cons

@[simp] theorem fenceCount_append (xs ys : List Line) :
    fenceCount (xs ++ ys) = fenceCount xs + fenceCount ys := List.countP_append

theorem fenceCount_eq_zero {lines : List Line} (h : ∀ line ∈ lines, isFence line.text = false) :
    fenceCount lines = 0 :=
  List.countP_eq_zero.mpr fun line hline => ne_true_of_eq_false (h line hline)

/-- Lines with the same texts have the same fences. -/
theorem fenceCount_congr {xs ys : List Line} (h : xs.map Line.text = ys.map Line.text) :
    fenceCount xs = fenceCount ys := by
  have hcount := congrArg (List.countP isFence) h
  rwa [List.countP_map, List.countP_map] at hcount

namespace Region

/-- **Fences in pairs** lead back to where they began. -/
theorem afterAll_eq (r : Region) (lines : List Line) :
    r.afterAll (lines.map Line.text) = if Even (fenceCount lines) then r else r.toggle := by
  induction lines generalizing r with
  | nil => rfl
  | cons line lines ih =>
    rw [List.map_cons, afterAll_cons, ih, fenceCount_cons]
    cases hfence : isFence line.text with
    | false => rw [after_of_not_isFence hfence]; rfl
    | true =>
      rw [after_of_isFence hfence, toggle_toggle, if_pos rfl]
      simp only [Nat.even_add_one, ite_not]

theorem toggle_ne_self (r : Region) : r.toggle ≠ r := by cases r <;> decide

theorem afterAll_eq_afterAll_iff {r : Region} {xs ys : List Line} :
    r.afterAll (xs.map Line.text) = r.afterAll (ys.map Line.text) ↔
      (Even (fenceCount xs) ↔ Even (fenceCount ys)) := by
  rw [afterAll_eq, afterAll_eq]
  by_cases hx : Even (fenceCount xs) <;> by_cases hy : Even (fenceCount ys) <;>
    simp [hx, hy, toggle_ne_self, (toggle_ne_self r).symm]

/-- A line is of one kind in one region only. -/
theorem kindOf_injective {r r' : Region} {line : Text} (h : r.kindOf line = r'.kindOf line) :
    r = r' := by
  cases r <;> cases r' <;> cases hfence : isFence line <;> simp [kindOf, hfence] at h ⊢

end Region

/-- **A line of two pages** is of the same kind in both when the fences above it are even in number
in both, or in none. -/
theorem line_eq_iff {page page' : Text} {above above' below below' : List Line} {line line' : Line}
    (h : classify page = above ++ line :: below) (h' : classify page' = above' ++ line' :: below')
    (htext : line'.text = line.text) :
    line' = line ↔ (Even (fenceCount above') ↔ Even (fenceCount above)) := by
  obtain ⟨-, hkind⟩ := classifyFrom_eq_append_cons h
  obtain ⟨-, hkind'⟩ := classifyFrom_eq_append_cons h'
  rw [← Region.afterAll_eq_afterAll_iff (r := .prose)]
  constructor
  · rintro rfl
    exact Region.kindOf_injective (hkind'.symm.trans hkind)
  · intro hregion
    rw [hregion, htext, ← hkind] at hkind'
    obtain ⟨text, kind⟩ := line
    obtain rfl := htext
    obtain rfl := hkind'
    rfl

/-! ## Prose and blocks -/

/-- **Kinds that read as prose and blocks**: lines of prose, and blocks of an opening fence, lines
of code and a closing fence.  Only a block at the very end may lack its closing fence. -/
inductive ReadAsBlocks : List LineKind → Prop
  | nil : ReadAsBlocks []
  | prose {kinds : List LineKind} (h : ReadAsBlocks kinds) : ReadAsBlocks (.text :: kinds)
  | closed (n : Nat) {kinds : List LineKind} (h : ReadAsBlocks kinds) :
    ReadAsBlocks (.fenceOpen :: (List.replicate n .code ++ .fenceClose :: kinds))
  | unclosed (n : Nat) : ReadAsBlocks (.fenceOpen :: List.replicate n .code)

/-- Kinds that read as the rest of a block and what follows it: they are what may stand below an
opening fence. -/
def ReadAsRestOfBlock (kinds : List LineKind) : Prop := ReadAsBlocks (.fenceOpen :: kinds)

theorem ReadAsRestOfBlock.code {kinds : List LineKind} (h : ReadAsRestOfBlock kinds) :
    ReadAsRestOfBlock (.code :: kinds) := by
  cases h with
  | closed n h => exact .closed (n + 1) h
  | unclosed n => exact .unclosed (n + 1)

/-- **The kinds of lines**, below prose and inside of a block. -/
theorem readAsBlocks_classifyFrom (lines : List Text) :
    ReadAsBlocks ((classifyFrom .prose lines).map Line.kind) ∧
      ReadAsRestOfBlock ((classifyFrom .block lines).map Line.kind) := by
  induction lines with
  | nil => exact ⟨.nil, .unclosed 0⟩
  | cons line rest ih =>
    obtain ⟨hprose, hblock⟩ := ih
    -- A fence passes from one of the two statements to the other.
    cases hfence : isFence line with
    | true =>
      rw [classifyFrom, classifyFrom, Region.after_of_isFence hfence,
        Region.after_of_isFence hfence, Region.kindOf_prose_of_isFence hfence,
        Region.kindOf_block_of_isFence hfence]
      exact ⟨hblock, .closed 0 hprose⟩
    | false =>
      rw [classifyFrom, classifyFrom, Region.after_of_not_isFence hfence,
        Region.after_of_not_isFence hfence, Region.kindOf_prose_of_not_isFence hfence,
        Region.kindOf_block_of_not_isFence hfence]
      exact ⟨.prose hprose, hblock.code⟩

theorem readAsBlocks_classify (page : Text) : ReadAsBlocks ((classify page).map Line.kind) :=
  (readAsBlocks_classifyFrom page.segments).1

/-! ## The kinds of a page -/

/-- The kind of a line with the given number of fences above it: an even number of them leaves the
prose, an odd one a block. -/
def kindBelow (fences : Nat) (line : Text) : LineKind :=
  (if Even fences then Region.prose else .block).kindOf line

/-- **What a line is** depends on how many fences stand above it. -/
theorem atEachPlace_kindBelow (page : Text) :
    AtEachPlace
      (fun above line => '\n' ∉ line.text ∧ line.kind = kindBelow (fenceCount above) line.text)
      (classify page) := by
  intro above line below h
  obtain ⟨hlines, hkind⟩ := classifyFrom_eq_append_cons h
  have hmem : line.text ∈ page.segments := by simp [hlines]
  rw [Region.afterAll_eq] at hkind
  exact ⟨Text.newline_not_mem_of_mem_segments hmem, hkind⟩

/-- A page below another one is classified from the region that one leaves. -/
theorem classify_append (a b : Text) :
    classify (a ++ '\n' :: b) =
      classify a ++ classifyFrom (regionBehind a.segments) b.segments := by
  rw [classify, Text.segments_append_newline, classifyFrom_append]
  rfl

/-- **The kinds of a page follow its fences.**  Nothing is lost: the lines, which hold no line feed,
make up the page again when they are joined.  Their kinds read as prose and blocks, and the parity
of the fences above decides each of them.  And of two pages, one below the other, the second one is
classified from the region that the first one leaves. -/
theorem kinds_follow_fences :
    (∀ page, Text.unlines ((classify page).map Line.text) = page ∧
      ReadAsBlocks ((classify page).map Line.kind) ∧
      AtEachPlace
        (fun above line => '\n' ∉ line.text ∧ line.kind = kindBelow (fenceCount above) line.text)
        (classify page)) ∧
    ∀ a b : Text,
      classify (a ++ '\n' :: b) =
        classify a ++ classifyFrom (regionBehind a.segments) b.segments :=
  ⟨fun page => ⟨unlines_classify page, readAsBlocks_classify page, atEachPlace_kindBelow page⟩,
    classify_append⟩

/-- A closed block right below the text, and a block that is left open. -/
example : (classify "a\r\n```\n\n ```x\n```\n# b\n".toList).map Line.kind =
    [.text, .fenceOpen, .code, .fenceClose, .fenceOpen, .code, .code] := by decide +kernel

end BookSite
