import BookSite.Markdown.Stage
import BookSite.Proofs.Markdown.ProseScan
import Mathlib.Algebra.Ring.Parity

/-!
# Proofs/Markdown/MovedAttributes — moving attribute groups loses no text

The stage for attributes replaces each line on its own.  A line of code stays, and so does a line
of display math.  Any other line is its texts with its attribute groups between them; the texts are
kept, but for a space in front of a group and blanks at the end, and the groups follow in comments
that say them word for word (`attributes_are_moved`).
-/

namespace BookSite

/-! ## Display math -/

theorem togglesMath_iff {line : Text} :
    togglesMath line = true ↔ Odd (line.countPairs '$' '$') := by
  rw [togglesMath, beq_iff_eq, Nat.odd_iff]

/-- A line that enters or leaves display math: prose with an odd number of `$$`. -/
def IsMathEdge (line : Line) : Prop := line.kind = .text ∧ Odd (line.text.countPairs '$' '$')

instance (line : Line) : Decidable (IsMathEdge line) := inferInstanceAs (Decidable (_ ∧ _))

/-- **Lines end in display math** when an odd number of them enters or leaves it. -/
def EndInMath (above : List Text) : Prop :=
  Odd ((classifyFrom .prose above).countP fun line => IsMathEdge line)

theorem mathBehind_eq_true_iff (lines : List Line) :
    mathBehind false lines = true ↔ Odd (lines.countP fun line => IsMathEdge line) := by
  induction lines using List.reverseRecOn with
  | nil => simp [mathBehind]
  | append_singleton lines line ih =>
    rw [mathBehind, List.foldl_concat, ← mathBehind, mathAfter, List.countP_append,
      List.countP_singleton]
    by_cases hedge : IsMathEdge line
    · have htoggles : line.kind = .text ∧ togglesMath line.text = true :=
        ⟨hedge.1, togglesMath_iff.mpr hedge.2⟩
      simp [htoggles, hedge, Nat.odd_add_one, ← ih]
    · have htoggles : ¬ (line.kind = .text ∧ togglesMath line.text = true) := fun h =>
        hedge ⟨h.1, togglesMath_iff.mp h.2⟩
      simp [htoggles, hedge, ih]

/-! ## What is left of a line -/

/-- **The texts of a cut line, joined**: where a space stands in front of a group it is dropped. -/
inductive JoinsTo : Text → List (AttributeGroup × Text) → Text → Prop
  | last {first : Text} : JoinsTo first [] first
  | space {front next joined : Text} {a : AttributeGroup} {parts : List (AttributeGroup × Text)}
    (h : JoinsTo next parts joined) :
    JoinsTo (front ++ [' ']) ((a, next) :: parts) (front ++ joined)
  | plain {front next joined : Text} {a : AttributeGroup} {parts : List (AttributeGroup × Text)}
    (hfront : ¬ [' '] <:+ front) (h : JoinsTo next parts joined) :
    JoinsTo front ((a, next) :: parts) (front ++ joined)

/-- **What is kept of a cut line**: its texts, joined, without the blanks at their end. -/
def IsKept (cut : AttributedLine) (kept : Text) : Prop :=
  ∃ blanks, JoinsTo cut.first cut.rest (kept ++ blanks) ∧ (∀ c ∈ blanks, isBlank c = true) ∧
    ∀ c ∈ kept.getLast?, isBlank c = false

namespace Text

theorem exists_trimEnd_append (t : Text) :
    ∃ blanks, t = t.trimEnd ++ blanks ∧ ∀ c ∈ blanks, isBlank c = true :=
  ⟨t.rtakeWhile isBlank, List.rdropWhile_append_rtakeWhile.symm,
    fun _ hc => List.mem_rtakeWhile_imp hc⟩

theorem not_isBlank_of_mem_getLast?_trimEnd {t : Text} {c : Char} (h : c ∈ t.trimEnd.getLast?) :
    isBlank c = false := by
  obtain ⟨hne, rfl⟩ := List.mem_getLast?_eq_getLast h
  exact Bool.not_eq_true _ ▸ List.rdropWhile_last_not isBlank t hne

end Text

namespace AttributedLine

theorem joinsTo_keptFrom (first : Text) (parts : List (AttributeGroup × Text)) :
    JoinsTo first parts (keptFrom first parts) := by
  induction parts generalizing first with
  | nil => exact .last
  | cons part parts ih =>
    rw [keptFrom, dropSpace]
    cases hspace : first.dropTrailing? [' '] with
    | some front =>
      rw [Text.dropTrailing?_eq_some_iff.mp hspace]
      exact .space (ih part.2)
    | none =>
      refine .plain (fun hsuffix => ?_) (ih part.2)
      obtain ⟨front, hfront⟩ := hsuffix
      rw [Text.dropTrailing?_eq_some_iff.mpr hfront.symm] at hspace
      cases hspace

theorem isKept_kept (cut : AttributedLine) : IsKept cut cut.kept := by
  obtain ⟨blanks, hjoined, hblanks⟩ := Text.exists_trimEnd_append (keptFrom cut.first cut.rest)
  refine ⟨blanks, ?_, hblanks, fun c => Text.not_isBlank_of_mem_getLast?_trimEnd⟩
  rw [kept, ← hjoined]
  exact joinsTo_keptFrom cut.first cut.rest

end AttributedLine

/-! ## What becomes of a line -/

/-- **A line to be left alone**, behind the lines above it: a fence or a line of code, or a line at
the edge or in the middle of display math. -/
def IsLeftAlone (above : List Text) (line : Text) : Prop :=
  (regionBehind above).kindOf line ≠ .text ∨ Odd (line.countPairs '$' '$') ∨ EndInMath above

theorem isLeftAlone_iff {above : List Text} {line : Text} :
    IsLeftAlone above line ↔ ¬ IsAttributed (mathBehind false (classifyFrom .prose above))
      ⟨line, (regionBehind above).kindOf line⟩ := by
  rw [IsLeftAlone, ← togglesMath_iff, EndInMath, ← mathBehind_eq_true_iff, IsAttributed]
  simp only [not_and_or, ne_eq, Bool.not_eq_false]

/-- **What becomes of a line** behind the lines above it.  A line with attribute groups becomes what
is kept of it, unless that is blank, and then the comments of the groups, of which the first line
says the group word for word. -/
inductive AttributesBecome (above : List Text) (line : Text) : List Text → Prop
  | leftAlone (h : IsLeftAlone above line) : AttributesBecome above line [line]
  | whole (h : ¬ IsLeftAlone above line) (hcut : CutsTo line ⟨line, []⟩) :
    AttributesBecome above line [line]
  | moved {cut : AttributedLine} {kept : Text} (h : ¬ IsLeftAlone above line)
    (hcut : CutsTo line cut) (hparts : cut.rest ≠ [])
    (hline : line = cut.first ++ cut.rest.flatMap fun part => part.1.raw ++ part.2)
    (hkept : IsKept cut kept)
    (hecho : ∀ part ∈ cut.rest, part.1.commentLines.head? =
      some ("<!-- mdBook attributes: ".toList ++ part.1.raw ++ " -->".toList)) :
    AttributesBecome above line
      ((if kept.allBlank then [] else [kept]) ++ cut.rest.flatMap fun part => part.1.commentLines)

theorem attributesBecome_attributeStep (above : List Text) (line : Text) :
    AttributesBecome above line (attributeStep (mathBehind false (classifyFrom .prose above))
      ⟨line, (regionBehind above).kindOf line⟩) := by
  unfold attributeStep
  split
  · rename_i hattributed
    have halone : ¬ IsLeftAlone above line := fun h => isLeftAlone_iff.mp h hattributed
    have hcut := cutsTo_ofText line
    unfold moveAttributes
    simp only [List.isEmpty_iff]
    split
    · rename_i hparts
      rw [hcut.eq_of_rest_eq_nil hparts] at hcut
      exact .whole halone hcut
    · rename_i hparts
      exact .moved halone hcut hparts hcut.eq_append (AttributedLine.isKept_kept _)
        fun _ _ => rfl
  · exact .leftAlone (isLeftAlone_iff.mpr ‹_›)

/-! ## The page -/

theorem replacesEach_moveAttributesFrom (above lines : List Text) :
    ReplacesEach AttributesBecome above lines
      (moveAttributesFrom (mathBehind false (classifyFrom .prose above))
        (classifyFrom (regionBehind above) lines)) := by
  induction lines generalizing above with
  | nil => exact .nil
  | cons line lines ih =>
    rw [classifyFrom, moveAttributesFrom_cons]
    refine .cons (attributesBecome_attributeStep above line) ?_
    have hrest := ih (above ++ [line])
    rw [classifyFrom_concat, mathBehind, List.foldl_concat, regionBehind_append] at hrest
    exact hrest

/-- **Moving attributes loses no text**: every page is rewritten, each line on its own. -/
theorem attributes_are_moved (fs : FileSystem) (path? : Option Path) (page : Text) :
    ∃ out, Stage.attributes.apply fs path? page = .ok out ∧
      ReplacesEach AttributesBecome [] page.segments out.segments := by
  refine ⟨moveAllAttributes page, rfl, ?_⟩
  rw [segments_moveAllAttributes]
  exact replacesEach_moveAttributesFrom [] page.segments

end BookSite
