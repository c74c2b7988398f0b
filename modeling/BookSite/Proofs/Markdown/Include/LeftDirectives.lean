import BookSite.Proofs.Markdown.Include.InertImports
import BookSite.Proofs.Markdown.Include.PageParts

/-!
# Proofs/Markdown/Include/LeftDirectives — which pages imports leave without directive

On a **tidy** page every directive lies in one line and has an inert import, and no fence that is
dropped holds a closing brace.  There imports and included files go by the same directives, and
no directive is left.  Any other directive can be continued so that one is left: imports are written
once, line by line, and nothing looks at their result again.
-/

namespace BookSite

open Include

/-! ## Lines that are kept -/

/-- Lines with a line feed in front of each. -/
def Text.ledLines (lines : List Text) : Text := lines.flatMap ('\n' :: ·)

theorem Text.unlines_eq_append_ledLines (line : Text) (rest : List Text) :
    unlines (line :: rest) = line ++ ledLines rest := by
  induction rest generalizing line with
  | nil => simp [ledLines]
  | cons second rest ih =>
    rw [unlines_cons line (List.cons_ne_nil _ _), ih, ledLines, ledLines, List.flatMap_cons,
      List.cons_append]

theorem Text.newline_cons_unlines {lines : List Text} (h : lines ≠ []) :
    '\n' :: unlines lines = ledLines lines := by
  obtain ⟨line, rest, rfl⟩ := List.exists_cons_of_ne_nil h
  rw [unlines_eq_append_ledLines]
  rfl

namespace PagePart

/-- The lines of a part as they are written. -/
def texts (part : PagePart) : List Text := part.lines.map Line.text

theorem texts_closed (block : PendingBlock) (closer : Text) :
    (closed block closer).texts = block.lines ++ [closer] := by
  rw [texts, lines, List.map_append, map_text_classified]
  rfl

/-- **The fences that are dropped** with a closed block of directives. -/
def droppedFences : PagePart → List Text
  | closed block closer => if OnlyDirectives block.body then [block.opener, closer] else []
  | _ => []

/-- **The lines of a part that are kept**; of a closed block of directives these are the directives
themselves. -/
def keptLines (part : PagePart) : List Text :=
  match part with
  | closed block _ =>
    if OnlyDirectives block.body then (block.body.filter isDirectiveLine).map Text.trim
    else part.texts
  | _ => part.texts

/-- A part becomes its kept lines with imports in place of their directives. -/
theorem map_text_importedLines (part : PagePart) :
    part.importedLines.map Line.text = part.keptLines.map importDirectives := by
  cases part with
  | prose line => rfl
  | unclosed block => exact map_text_map_withImports _
  | closed block closer =>
    rw [importedLines, keptLines]
    split
    · rw [map_text_ofKind, List.map_map, ← map_importDirectives_filter]
      rfl
    · exact map_text_map_withImports _

end PagePart

open PagePart

/-- **The lines of a page that are kept.** -/
def keptLines (page : Text) : List Text := (pageParts page).flatMap PagePart.keptLines

theorem importPage_eq_keptLines (page : Text) :
    importPage page = Text.unlines ((keptLines page).map importDirectives) := by
  rw [← Text.unlines_segments (importPage page), segments_importPage, keptLines, List.map_flatMap,
    List.map_flatMap]
  exact congrArg Text.unlines (List.flatMap_congr fun part _ => part.map_text_importedLines)

/-- The lines of a page are those of its parts. -/
theorem flatMap_texts_pageParts (page : Text) : (pageParts page).flatMap texts = page.segments := by
  have hlines := congrArg (List.map Line.text) (flatMap_lines_pageParts page)
  rwa [List.map_flatMap, classify, map_text_classifyFrom] at hlines

namespace Include

/-! ## Directive lines -/

theorem ne_brace_of_isBlank {c : Char} (h : isBlank c = true) : c ≠ '{' ∧ c ≠ '}' := by
  constructor <;> rintro rfl <;> cases h

theorem directivesIn_blanks_append {blanks : Text} (h : ∀ c ∈ blanks, isBlank c = true)
    (t : Text) : directivesIn (blanks ++ t) = directivesIn t := by
  induction blanks with
  | nil => rfl
  | cons c blanks ih =>
    obtain ⟨hc, hblanks⟩ := List.forall_mem_cons.mp h
    have hnone := directive_eq_none_of_ne (ne_brace_of_isBlank hc).1 (blanks ++ t)
    rw [List.cons_append, directivesIn_cons_of_none hnone, ih hblanks]

theorem directivesIn_of_allBlank {line : Text} (h : line.allBlank = true) :
    directivesIn line = [] := by
  have hblanks := directivesIn_blanks_append (List.all_eq_true.mp h) []
  rwa [List.append_nil] at hblanks

/-- **A directive line** is a directive between blanks. -/
theorem exists_of_lineImport? {line imported : Text} (h : lineImport? line = some imported) :
    ∃ lead trail target, line = lead ++ (line.trim ++ trail) ∧
      (∀ c ∈ lead, isBlank c = true) ∧ (∀ c ∈ trail, isBlank c = true) ∧
      IsDirective line.trim target ∧ imported = target.toImport := by
  unfold lineImport? at h
  split at h
  · rename_i target n hdirective
    split at h
    · rename_i hlength
      cases h
      refine ⟨line.leadingBlanks, line.trimStart.rtakeWhile isBlank, target, ?_, ?_, ?_, ?_, rfl⟩
      · have htrail : line.trim ++ line.trimStart.rtakeWhile isBlank = line.trimStart :=
          List.rdropWhile_append_rtakeWhile
        rw [htrail, Text.leadingBlanks_append_trimStart]
      · exact fun c hc => Text.isBlank_of_mem_leadingBlanks hc
      · exact fun c hc => List.mem_rtakeWhile_imp hc
      · rw [IsDirective, hdirective, hlength]
    · cases h
  · cases h

/-- The only directive of a directive line. -/
theorem directivesIn_of_lineImport? {line imported : Text} (h : lineImport? line = some imported) :
    directivesIn line = directivesIn line.trim ∧
      ∃ target, directivesIn line = [(line.trim, target)] ∧ imported = target.toImport := by
  obtain ⟨lead, trail, target, hline, hlead, htrail, hdirective, himport⟩ :=
    exists_of_lineImport? h
  have hfound : directivesIn line = [(line.trim, target)] := by
    rw [hline, directivesIn_blanks_append hlead, ← hline, directivesIn_append hdirective,
      directivesIn_of_allBlank (List.all_eq_true.mpr htrail)]
  have htrim := directivesIn_append hdirective []
  rw [List.append_nil, directivesIn_nil] at htrim
  exact ⟨hfound.trans htrim.symm, target, hfound, himport⟩

/-! ## Lines in lockstep -/

/-- What stands behind a line of a page: nothing, or a line end. -/
def IsBehindLine (t : Text) : Prop := t = [] ∨ ∃ rest, t = '\n' :: rest

theorem isBehindLine_ledLines_append (lines : List Text) {t : Text} (h : IsBehindLine t) :
    IsBehindLine (Text.ledLines lines ++ t) := by
  cases lines with
  | nil => exact h
  | cons line rest => exact .inr ⟨_, rfl⟩

theorem directive_newline_eq_none (t : Text) : directive ('\n' :: t) = none :=
  directive_eq_none_of_ne (by decide) t

namespace SingleLine

theorem of_newline_cons {t : Text} (h : SingleLine ('\n' :: t)) : SingleLine t :=
  h.of_cons (directive_newline_eq_none t)

theorem of_append_line {line t : Text} (h : SingleLine (line ++ t)) (ht : IsBehindLine t) :
    SingleLine t := by
  obtain rfl | ⟨rest, rfl⟩ := ht
  · exact fun _ hd => by cases hd
  · rw [SingleLine, directivesIn_cons_of_none (directive_newline_eq_none rest)]
    exact h.of_append_newline

end SingleLine

namespace Imported

variable {t t' : Text} (ht : IsBehindLine t) (h : ∀ ended, Imported ended t t')

include ht h

/-- A line with its directives replaced. -/
theorem append_line {line : Text} (hsingle : SingleLine (line ++ t))
    (hinert : ∀ d ∈ directivesIn line, Inert d.2.toImport) (ended : Bool) :
    Imported ended (line ++ t) (importDirectives line ++ t') := by
  induction line using directive_induction generalizing ended with
  | nil => exact h ended
  | char c line hnone ih =>
    have hboth : directive (c :: (line ++ t)) = none := by
      obtain rfl | ⟨rest, rfl⟩ := ht
      · rwa [List.append_nil]
      · exact hsingle.directive_append_eq_none hnone
    rw [directivesIn_cons_of_none hnone] at hinert
    have himport : importDirectives (c :: line) = c :: importDirectives line :=
      Text.replaceTokens_cons_of_none hnone
    rw [himport]
    exact .keep c hboth (ih (hsingle.of_cons hboth) hinert _)
  | token w target line hw ih =>
    rw [directivesIn_append hw, List.forall_mem_cons] at hinert
    rw [importDirectives_append hw, List.append_assoc, List.append_assoc]
    rw [List.append_assoc] at hsingle
    exact .token hw hinert.1 (ih (hsingle.of_append hw) hinert.2 _)

/-- Lines with their directives replaced. -/
theorem append_ledLines {lines : List Text} (hsingle : SingleLine (Text.ledLines lines ++ t))
    (hinert : ∀ line ∈ lines, ∀ d ∈ directivesIn line, Inert d.2.toImport) (ended : Bool) :
    Imported ended (Text.ledLines lines ++ t)
      (Text.ledLines (lines.map importDirectives) ++ t') := by
  induction lines generalizing ended with
  | nil => exact h ended
  | cons line rest ih =>
    have hled : ∀ (l : Text) (ls : List Text) (u : Text),
        Text.ledLines (l :: ls) ++ u = '\n' :: (l ++ (Text.ledLines ls ++ u)) := by
      simp [Text.ledLines]
    rw [List.map_cons, hled, hled]
    rw [hled] at hsingle
    obtain ⟨hline, hrest⟩ := List.forall_mem_cons.mp hinert
    have hbehind := isBehindLine_ledLines_append rest ht
    refine .keep '\n' (directive_newline_eq_none _) ?_
    exact append_line hbehind (ih (hsingle.of_newline_cons.of_append_line hbehind) hrest)
      hsingle.of_newline_cons hline _

end Imported

/-! ## Closed blocks of directives -/

namespace Imported

/-- A directive line of such a block becomes its import: the blanks around it are missing. -/
theorem directiveLine {line imported t t' : Text} (himport : lineImport? line = some imported)
    (hinert : ∀ d ∈ directivesIn line, Inert d.2.toImport) (h : Imported true t t') :
    Imported true (line ++ t) (imported ++ t') := by
  obtain ⟨lead, trail, target, heq, hlead, htrail, hdirective, rfl⟩ :=
    exists_of_lineImport? himport
  obtain ⟨-, target', hfound, htarget⟩ := directivesIn_of_lineImport? himport
  rw [hfound, List.forall_mem_singleton, ← htarget] at hinert
  have hbrace : ∀ {blanks : Text}, (∀ c ∈ blanks, isBlank c = true) → '}' ∉ blanks :=
    fun hblanks hmem => (ne_brace_of_isBlank (hblanks _ hmem)).2 rfl
  rw [heq, List.append_assoc, List.append_assoc]
  exact .drop (hbrace hlead) (.token hdirective hinert (.drop (hbrace htrail) h))

theorem newline_cons_drop {line t t' : Text} (hline : '}' ∉ line) (h : Imported true t t') :
    Imported true ('\n' :: (line ++ t)) t' := by
  have hmissing : '}' ∉ '\n' :: line := by simpa using hline
  have hdrop := Imported.drop hmissing h
  exact hdrop

section Block

variable {body : List Text} {closer t t' : Text}
  (hblank : ∀ l ∈ body, l.allBlank ∨ (lineImport? l).isSome)
  (hinert : ∀ l ∈ body, ∀ d ∈ directivesIn l, Inert d.2.toImport) (hcloser : '}' ∉ closer)
  (h : Imported true t t')

include hblank hinert hcloser h

/-- The lines of such a block that follow one of its imports. -/
theorem blockRest :
    Imported true (Text.ledLines body ++ ('\n' :: (closer ++ t)))
      (Text.ledLines (body.filterMap lineImport?) ++ t') := by
  induction body with
  | nil => exact newline_cons_drop hcloser h
  | cons line body ih =>
    obtain ⟨hline, hbody⟩ := List.forall_mem_cons.mp hblank
    obtain ⟨hlineInert, hbodyInert⟩ := List.forall_mem_cons.mp hinert
    have hrest := ih hbody hbodyInert
    rw [Text.ledLines, List.flatMap_cons, List.cons_append, List.cons_append, List.append_assoc]
    cases himport : lineImport? line with
    | none =>
      rw [himport, Option.isSome_none, Bool.false_eq_true, or_false] at hline
      rw [List.filterMap_cons_none himport]
      exact newline_cons_drop
        (fun hmem => (ne_brace_of_isBlank (List.all_eq_true.mp hline _ hmem)).2 rfl) hrest
    | some imported =>
      rw [List.filterMap_cons_some himport, Text.ledLines, List.flatMap_cons, List.cons_append,
        List.cons_append, List.append_assoc]
      exact .keep '\n' (directive_newline_eq_none _) (directiveLine himport hlineInert hrest)

/-- The lines of such a block behind its opening fence. -/
theorem blockBody (hany : ∃ l ∈ body, (lineImport? l).isSome) :
    Imported true (Text.ledLines body ++ ('\n' :: (closer ++ t)))
      (Text.unlines (body.filterMap lineImport?) ++ t') := by
  induction body with
  | nil =>
    obtain ⟨l, hl, -⟩ := hany
    cases hl
  | cons line body ih =>
    obtain ⟨hline, hbody⟩ := List.forall_mem_cons.mp hblank
    obtain ⟨hlineInert, hbodyInert⟩ := List.forall_mem_cons.mp hinert
    rw [Text.ledLines, List.flatMap_cons, List.cons_append, List.cons_append, List.append_assoc]
    cases himport : lineImport? line with
    | none =>
      rw [himport, Option.isSome_none, Bool.false_eq_true, or_false] at hline
      obtain ⟨l, hl, hsome⟩ := hany
      have hlater : ∃ l ∈ body, (lineImport? l).isSome := by
        rcases List.mem_cons.mp hl with rfl | hl
        · rw [himport] at hsome
          cases hsome
        · exact ⟨l, hl, hsome⟩
      rw [List.filterMap_cons_none himport]
      exact newline_cons_drop
        (fun hmem => (ne_brace_of_isBlank (List.all_eq_true.mp hline _ hmem)).2 rfl)
        (ih hbody hbodyInert hlater)
    | some imported =>
      have hrest := blockRest hbody hbodyInert hcloser h
      rw [List.filterMap_cons_some himport, Text.unlines_eq_append_ledLines, List.append_assoc]
      have hmissing : '}' ∉ ['\n'] := by simp
      have hdrop := Imported.drop hmissing (directiveLine himport hlineInert hrest)
      exact hdrop

end Block

/-- **The lines of a part**, with its directives replaced. -/
theorem part {part : PagePart} {t t' : Text} (ht : IsBehindLine t)
    (h : ∀ ended, Imported ended t t') (hfences : ∀ fence ∈ part.droppedFences, '}' ∉ fence)
    (hinert : ∀ line ∈ part.texts, ∀ d ∈ directivesIn line, Inert d.2.toImport)
    (hsingle : SingleLine (Text.ledLines part.texts ++ t)) (ended : Bool) :
    Imported ended (Text.ledLines part.texts ++ t)
      (Text.ledLines (part.keptLines.map importDirectives) ++ t') := by
  cases part with
  | prose line => exact append_ledLines ht h hsingle hinert ended
  | unclosed block => exact append_ledLines ht h hsingle hinert ended
  | closed block closer =>
    by_cases honly : OnlyDirectives block.body
    · rw [droppedFences, if_pos honly, List.forall_mem_cons, List.forall_mem_singleton] at hfences
      have hkept : (closed block closer).keptLines.map importDirectives =
          block.body.filterMap lineImport? := by
        rw [PagePart.keptLines, if_pos honly, List.map_map, ← map_importDirectives_filter]
        rfl
      have hne : block.body.filterMap lineImport? ≠ [] := by
        obtain ⟨l, hl, hsome⟩ := honly.1
        obtain ⟨imported, himport⟩ := Option.isSome_iff_exists.mp hsome
        exact List.ne_nil_of_mem (List.mem_filterMap.mpr ⟨l, hl, himport⟩)
      have hbodyInert : ∀ l ∈ block.body, ∀ d ∈ directivesIn l, Inert d.2.toImport :=
        fun l hl => hinert l (by rw [texts_closed, PendingBlock.lines]; simp [hl])
      have hlines : Text.ledLines (closed block closer).texts ++ t =
          '\n' :: (block.opener ++ (Text.ledLines block.body ++ ('\n' :: (closer ++ t)))) := by
        simp [texts_closed, PendingBlock.lines, Text.ledLines]
      rw [hkept, hlines, ← Text.newline_cons_unlines hne]
      exact .keep '\n' (directive_newline_eq_none _)
        (.drop hfences.1 (blockBody honly.2 hbodyInert hfences.2 (h true) honly.1))
    · have hkept : (closed block closer).keptLines = (closed block closer).texts := by
        rw [PagePart.keptLines, if_neg honly]
      rw [hkept]
      exact append_ledLines ht h hsingle hinert ended

end Imported

theorem SingleLine.of_append_ledLines {lines : List Text} {t : Text} (ht : IsBehindLine t)
    (h : SingleLine (Text.ledLines lines ++ t)) : SingleLine t := by
  induction lines with
  | nil => exact h
  | cons line rest ih =>
    rw [Text.ledLines, List.flatMap_cons, List.cons_append, List.cons_append, List.append_assoc]
      at h
    exact ih (h.of_newline_cons.of_append_line (isBehindLine_ledLines_append rest ht))

/-- The parts of a page, with their directives replaced. -/
theorem imported_parts {parts : List PagePart}
    (hfences : ∀ part ∈ parts, ∀ fence ∈ part.droppedFences, '}' ∉ fence)
    (hinert : ∀ line ∈ parts.flatMap texts, ∀ d ∈ directivesIn line, Inert d.2.toImport)
    (hsingle : SingleLine (Text.ledLines (parts.flatMap texts))) (ended : Bool) :
    Imported ended (Text.ledLines (parts.flatMap texts))
      (Text.ledLines ((parts.flatMap PagePart.keptLines).map importDirectives)) := by
  induction parts generalizing ended with
  | nil => exact .nil
  | cons part parts ih =>
    have hled : ∀ a b : List Text, Text.ledLines (a ++ b) = Text.ledLines a ++ Text.ledLines b :=
      fun a b => List.flatMap_append
    rw [List.flatMap_cons, hled] at hsingle ⊢
    rw [List.flatMap_cons, List.map_append, hled]
    rw [List.flatMap_cons, List.forall_mem_append] at hinert
    obtain ⟨hpart, hparts⟩ := List.forall_mem_cons.mp hfences
    have hbehind : IsBehindLine (Text.ledLines (parts.flatMap texts)) := by
      have hled := isBehindLine_ledLines_append (parts.flatMap texts) (t := []) (.inl rfl)
      rwa [List.append_nil] at hled
    exact Imported.part hbehind (ih hparts hinert.2 (hsingle.of_append_ledLines hbehind)) hpart
      hinert.1 hsingle ended

end Include

/-! ## Tidy pages -/

/-- **A settled directive** lies in one line and has an inert import. -/
structure Include.IsSettled (d : Text × Target) : Prop where
  oneLine : '\n' ∉ d.1
  inert : Inert d.2.toImport

/-- **A tidy page**: its directives are settled, and the fences that are dropped hold no closing
brace. -/
structure IsTidy (page : Text) : Prop where
  settled : ∀ d ∈ directivesIn page, IsSettled d
  fences : ∀ part ∈ pageParts page, ∀ fence ∈ part.droppedFences, '}' ∉ fence

namespace IsTidy

variable {page : Text} (h : IsTidy page)

include h

theorem singleLine : SingleLine page := fun d hd => (h.settled d hd).oneLine

/-- The directives of a tidy page are those of its lines. -/
theorem directivesIn_eq : directivesIn page = page.segments.flatMap directivesIn := by
  have hsingle : SingleLine (Text.unlines page.segments) := by
    rw [Text.unlines_segments]
    exact h.singleLine
  have hlines := hsingle.directivesIn_unlines
  rwa [Text.unlines_segments] at hlines

/-- **No directive is left** on a tidy page. -/
theorem hasDirective_importPage : hasDirective (importPage page) = false := by
  have hsegments := flatMap_texts_pageParts page
  have hpage : '\n' :: page = Text.ledLines ((pageParts page).flatMap texts) := by
    rw [hsegments, ← Text.newline_cons_unlines (Text.segments_ne_nil page), Text.unlines_segments]
  have hinert : ∀ line ∈ (pageParts page).flatMap texts, ∀ d ∈ directivesIn line,
      Inert d.2.toImport := by
    intro line hline d hd
    refine (h.settled d ?_).inert
    rw [h.directivesIn_eq]
    exact List.mem_flatMap.mpr ⟨line, hsegments ▸ hline, hd⟩
  have hsingle : SingleLine (Text.ledLines ((pageParts page).flatMap texts)) := by
    rw [← hpage, SingleLine, directivesIn_cons_of_none (directive_newline_eq_none page)]
    exact h.singleLine
  have himported := (imported_parts h.fences hinert hsingle true).hasDirective_eq_false
  have hkept : (keptLines page).map importDirectives ≠ [] := by
    rw [keptLines, List.map_flatMap, List.flatMap_congr fun part _ =>
      (part.map_text_importedLines).symm, ← List.map_flatMap, ← segments_importPage]
    exact Text.segments_ne_nil _
  rw [← keptLines, ← Text.newline_cons_unlines hkept, ← importPage_eq_keptLines,
    Shown.hasDirective_cons_of_ne (by decide)] at himported
  exact himported

end IsTidy

end BookSite
