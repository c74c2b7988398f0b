import BookSite.Proofs.Markdown.LineKinds
import BookSite.Proofs.Markdown.QuoteBlocks

/-!
# Proofs/Markdown/QuoteSurroundings — lines around quotes

A fence that stands in a quote is text there, and is a fence of the page once the quote has become
a container.  So a quote may turn the sides of all lines below it.  A line outside all quotes keeps
its kind when the quotes above it bare an even number of fences, and only then
(`surroundings_keep_kind_iff`).
-/

namespace BookSite

namespace Quote

/-! ## The pieces of a page -/

/-- **A part of a page with the lines it becomes**, as they are read behind the stage. -/
structure Piece where
  part : Stretch Line
  lines : List Line

/-- **The fences that a quote bares**: all those among the lines it becomes. -/
def Piece.baredFences (piece : Piece) : Nat :=
  if piece.part.isRun then fenceCount piece.lines else 0

/-- The line of a piece outside all quotes has the text and the kind it had. -/
def Piece.KeepsKind (piece : Piece) : Prop :=
  ∀ line, piece.part = .single line → piece.lines = [line]

/-- The fences that several pieces bare. -/
def baredFences : List Piece → Nat
  | [] => 0
  | piece :: pieces => piece.baredFences + baredFences pieces

/-- **The pieces of a page and of what the stage makes of it**: the parts are those the page is cut
into, and what they become is read one after the other. -/
structure AreReadAgain (page out : Text) (pieces : List Piece) : Prop where
  areRuns : AreRuns isQuoted (pieces.map Piece.part)
  elements : pieces.flatMap (fun piece => piece.part.elements) = classify page
  become : ∀ piece ∈ pieces, PartBecomes piece.part (piece.lines.map Line.text)
  lines : pieces.flatMap Piece.lines = classify out

variable {page out : Text} {pieces above below : List Piece} {piece : Piece} {line : Line}

@[simp] theorem baredFences_append (xs ys : List Piece) :
    baredFences (xs ++ ys) = baredFences xs + baredFences ys := by
  induction xs with
  | nil => exact (Nat.zero_add _).symm
  | cons piece xs ih => rw [List.cons_append, baredFences, baredFences, ih, Nat.add_assoc]

@[simp] theorem baredFences_singleton (piece : Piece) :
    baredFences [piece] = piece.baredFences := Nat.add_zero _

theorem Piece.baredFences_of_not_isRun (h : piece.part.isRun = false) : piece.baredFences = 0 :=
  if_neg (ne_true_of_eq_false h)

theorem even_baredFences_of_forall (h : ∀ piece ∈ above, Even piece.baredFences) :
    Even (baredFences above) := by
  induction above with
  | nil => exact Even.zero
  | cons piece above ih =>
    obtain ⟨hpiece, habove⟩ := List.forall_mem_cons.mp h
    exact hpiece.add (ih habove)

/-- A quoted line is no fence: it begins with `>`. -/
theorem not_isFence_of_says {t content : Text} (h : Says t content) : isFence t = false := by
  cases h with
  | text content => exact not_isFence_of_trimStart (c := '>') rfl (by decide)
  | bare hblanks hspace => exact not_isFence_of_trimStart (c := '>') rfl (by decide)

theorem fenceCount_of_run {firstLine : Line} {moreLines : List Line}
    (h : (Stretch.run firstLine moreLines).Respects isQuoted) :
    fenceCount (firstLine :: moreLines) = 0 := by
  refine fenceCount_eq_zero fun line hline => ?_
  obtain ⟨-, content, hsaid⟩ := isQuoted_iff.mp (h line hline)
  exact not_isFence_of_says hsaid

/-- **The fences of a piece** are those of its part and those it bares. -/
theorem Piece.fenceCount_lines (hpart : piece.part.Respects isQuoted)
    (hbecome : PartBecomes piece.part (piece.lines.map Line.text)) :
    fenceCount piece.lines = fenceCount piece.part.elements + piece.baredFences := by
  obtain ⟨part, lines⟩ := piece
  cases part with
  | run firstLine moreLines => exact (fenceCount_of_run hpart ▸ Nat.zero_add _).symm
  | single line =>
    have htext : lines.map Line.text = [line].map Line.text := (partBecomes_iff hpart).mp hbecome
    exact fenceCount_congr htext

/-- The fences above a place are those of the page and those that quotes bare. -/
theorem fenceCount_flatMap_lines (hparts : ∀ piece ∈ above, piece.part.Respects isQuoted)
    (hbecome : ∀ piece ∈ above, PartBecomes piece.part (piece.lines.map Line.text)) :
    fenceCount (above.flatMap Piece.lines) =
      fenceCount (above.flatMap fun piece => piece.part.elements) + baredFences above := by
  induction above with
  | nil => rfl
  | cons piece above ih =>
    obtain ⟨hpart, hparts⟩ := List.forall_mem_cons.mp hparts
    obtain ⟨hpiece, hbecome⟩ := List.forall_mem_cons.mp hbecome
    rw [List.flatMap_cons, List.flatMap_cons, fenceCount_append, fenceCount_append,
      ih hparts hbecome, Piece.fenceCount_lines hpart hpiece, baredFences]
    omega

namespace AreReadAgain

theorem respects (h : AreReadAgain page out pieces) :
    ∀ piece ∈ pieces, piece.part.Respects isQuoted :=
  fun _ hpiece => h.areRuns.respects _ (List.mem_map_of_mem hpiece)

/-! ## One line -/

/-- **A line outside all quotes keeps its kind** when the quotes above it bare an even number of
fences, and only then. -/
theorem lines_eq_singleton_iff (h : AreReadAgain page out pieces)
    (hpieces : pieces = above ++ piece :: below) (hpart : piece.part = .single line) :
    piece.lines = [line] ↔ Even (baredFences above) := by
  have habove : ∀ piece ∈ above, piece ∈ pieces := fun piece hpiece => by simp [hpieces, hpiece]
  have hpiece : piece ∈ pieces := by simp [hpieces]
  obtain ⟨line', hlines, htext⟩ : ∃ line', piece.lines = [line'] ∧ line'.text = line.text := by
    have hbecome := (partBecomes_iff (h.respects piece hpiece)).mp (h.become piece hpiece)
    simpa [hpart, convertStretch, List.map_eq_cons_iff] using hbecome
  have hpage : classify page = (above.flatMap fun piece => piece.part.elements) ++
      line :: below.flatMap fun piece => piece.part.elements := by
    rw [← h.elements, hpieces, List.flatMap_append, List.flatMap_cons, hpart]
    rfl
  have hout : classify out = above.flatMap Piece.lines ++ line' :: below.flatMap Piece.lines := by
    rw [← h.lines, hpieces, List.flatMap_append, List.flatMap_cons, hlines]
    rfl
  have hcount := fenceCount_flatMap_lines
    (fun piece hpiece => h.respects piece (habove piece hpiece))
    fun piece hpiece => h.become piece (habove piece hpiece)
  rw [hlines, List.cons.injEq, and_iff_left rfl, line_eq_iff hpage hout htext, hcount, Nat.even_add]
  tauto

/-! ## All lines -/

/-- Behind one quote a line follows that is outside all quotes. -/
theorem not_isRun_next {next : Piece} {rest : List Piece} (h : AreReadAgain page out pieces)
    (hpieces : pieces = above ++ piece :: next :: rest) (hrun : piece.part.isRun = true) :
    next.part.isRun = false := by
  have hseparated := h.areRuns.separated
  rw [hpieces, List.map_append, List.isChain_append] at hseparated
  exact (List.isChain_cons_cons.mp hseparated.2.1).1 hrun

theorem even_baredFences_of_keepsKind (h : AreReadAgain page out pieces)
    (hpieces : pieces = above ++ piece :: below) (hrun : piece.part.isRun = false)
    (hkeeps : piece.KeepsKind) : Even (baredFences above) := by
  cases hpart : piece.part with
  | single line => exact (h.lines_eq_singleton_iff hpieces hpart).mp (hkeeps line hpart)
  | run first more =>
    rw [hpart] at hrun
    cases hrun

/-- While all lines keep their kinds, an even number of fences is bared above any piece. -/
theorem even_baredFences (h : AreReadAgain page out pieces)
    (hkeeps : ∀ piece ∈ pieces, piece.KeepsKind) (hpieces : pieces = above ++ below)
    (hbelow : below ≠ []) : Even (baredFences above) := by
  obtain ⟨piece, below, rfl⟩ := List.exists_cons_of_ne_nil hbelow
  cases hrun : piece.part.isRun with
  | false => exact h.even_baredFences_of_keepsKind hpieces hrun (hkeeps piece (by simp [hpieces]))
  | true =>
    -- The line above a quote is outside all quotes, so it keeps its kind and bares no fence.
    obtain rfl | ⟨above, prev, rfl⟩ := List.eq_nil_or_concat' above
    · exact Even.zero
    · rw [List.append_assoc, List.singleton_append] at hpieces
      have hprev : prev.part.isRun = false := by
        rw [Bool.eq_false_iff]
        intro hprev
        rw [h.not_isRun_next hpieces hprev] at hrun
        cases hrun
      rw [baredFences_append, baredFences_singleton, prev.baredFences_of_not_isRun hprev]
      exact h.even_baredFences_of_keepsKind hpieces hprev (hkeeps prev (by simp [hpieces]))

/-- **All lines outside quotes keep their kinds** when each quote with something below it bares an
even number of fences, and only then. -/
theorem forall_keepsKind_iff (h : AreReadAgain page out pieces) :
    (∀ piece ∈ pieces, piece.KeepsKind) ↔ ∀ piece ∈ pieces.dropLast, Even piece.baredFences := by
  constructor
  · intro hkeeps piece hpiece
    obtain rfl | ⟨front, last, rfl⟩ := List.eq_nil_or_concat' pieces
    · cases hpiece
    rw [List.dropLast_concat] at hpiece
    obtain ⟨above, below, rfl⟩ := List.append_of_mem hpiece
    have hbehind : above ++ piece :: below ++ [last] = (above ++ [piece]) ++ (below ++ [last]) := by
      simp
    have habove : Even (baredFences above) :=
      h.even_baredFences hkeeps (List.append_assoc above (piece :: below) [last]) (by simp)
    have hboth : Even (baredFences (above ++ [piece])) :=
      h.even_baredFences hkeeps hbehind (by simp)
    rw [baredFences_append, baredFences_singleton, Nat.even_add] at hboth
    exact hboth.mp habove
  · intro heven piece hpiece line hpart
    obtain ⟨above, below, hpieces⟩ := List.append_of_mem hpiece
    rw [hpieces, List.dropLast_append_cons] at heven
    exact (h.lines_eq_singleton_iff hpieces hpart).mpr
      (even_baredFences_of_forall fun piece hpiece => heven piece (List.mem_append_left _ hpiece))

end AreReadAgain

/-! ## The stage -/

/-- Parts that are rewritten one after the other, each read from the region that the lines above it
lead to. -/
def readAgainFrom : Region → List (Stretch Line) → List Piece
  | _, [] => []
  | r, part :: parts =>
    ⟨part, classifyFrom r (convertStretch part)⟩ ::
      readAgainFrom (r.afterAll (convertStretch part)) parts

@[simp] theorem map_part_readAgainFrom (r : Region) (parts : List (Stretch Line)) :
    (readAgainFrom r parts).map Piece.part = parts := by
  induction parts generalizing r with
  | nil => rfl
  | cons part parts ih => rw [readAgainFrom, List.map_cons, ih]

theorem flatMap_lines_readAgainFrom (r : Region) (parts : List (Stretch Line)) :
    (readAgainFrom r parts).flatMap Piece.lines =
      classifyFrom r (parts.flatMap convertStretch) := by
  induction parts generalizing r with
  | nil => rfl
  | cons part parts ih =>
    rw [readAgainFrom, List.flatMap_cons, List.flatMap_cons, ih, classifyFrom_append]

theorem map_text_lines_of_mem_readAgainFrom {r : Region} {parts : List (Stretch Line)}
    (h : piece ∈ readAgainFrom r parts) :
    piece.lines.map Line.text = convertStretch piece.part := by
  induction parts generalizing r with
  | nil => cases h
  | cons part parts ih =>
    rcases List.mem_cons.mp h with rfl | h
    · exact map_text_classifyFrom r _
    · exact ih h

/-- **What the stage makes of a page is read again piece by piece.** -/
theorem areReadAgain_containQuotes (page : Text) :
    AreReadAgain page (containQuotes page)
      (readAgainFrom .prose (runs isQuoted (classify page))) := by
  have hruns := areRuns_runs isQuoted (classify page)
  refine ⟨?_, ?_, fun piece hpiece => ?_, ?_⟩
  · rwa [map_part_readAgainFrom]
  · rw [← List.flatMap_map, map_part_readAgainFrom, flatMap_elements_runs]
  · have hpart : piece.part ∈ runs isQuoted (classify page) := by
      rw [← map_part_readAgainFrom .prose (runs isQuoted (classify page))]
      exact List.mem_map_of_mem hpiece
    exact (partBecomes_iff (hruns.respects _ hpart)).mpr
      (map_text_lines_of_mem_readAgainFrom hpiece)
  · rw [flatMap_lines_readAgainFrom]
    exact congrArg (classifyFrom .prose) (segments_containQuotes page).symm

/-- **Lines around quotes keep their kinds** exactly where the quotes above them bare fences in
pairs: each line on its own, and all lines of a page when each quote with something below it bares
its fences in pairs. -/
theorem surroundings_keep_kind_iff (fs : FileSystem) (path? : Option Path) (page : Text) :
    ∃ out, Stage.quotes.apply fs path? page = .ok out ∧ (∃ pieces, AreReadAgain page out pieces) ∧
      ∀ pieces, AreReadAgain page out pieces →
        AtEachPlace (fun above piece => ∀ line, piece.part = .single line →
          (piece.lines = [line] ↔ Even (baredFences above))) pieces ∧
        ((∀ piece ∈ pieces, piece.KeepsKind) ↔
          ∀ piece ∈ pieces.dropLast, Even piece.baredFences) := by
  refine ⟨containQuotes page, rfl, ⟨_, areReadAgain_containQuotes page⟩, fun pieces h => ⟨?_, ?_⟩⟩
  · exact fun above piece below hpieces line => h.lines_eq_singleton_iff hpieces
  · exact h.forall_keepsKind_iff

/-- A page with an image below a quote that holds one fence. -/
def pageWithQuotedFence : Text := "> ```

![a](b.png)".toList

/-- The image of this page stands in its prose, and in a block of code behind the stage. -/
theorem kind_changed_pageWithQuotedFence :
    ∃ out, Stage.quotes.apply .empty none pageWithQuotedFence = .ok out ∧
      ⟨"![a](b.png)".toList, .text⟩ ∈ classify pageWithQuotedFence ∧
      isQuoted ⟨"![a](b.png)".toList, .text⟩ = false ∧
      ⟨"![a](b.png)".toList, .text⟩ ∉ classify out ∧
      ⟨"![a](b.png)".toList, .code⟩ ∈ classify out :=
  ⟨_, rfl, by decide +kernel, by decide, by decide +kernel, by decide +kernel⟩

end Quote

end BookSite
