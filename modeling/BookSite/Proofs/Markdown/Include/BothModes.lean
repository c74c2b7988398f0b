import BookSite.Proofs.Markdown.Include.LeftDirectives

/-!
# Proofs/Markdown/Include/BothModes — imports and included files go by the same directives

Both modes act on the same directives of a tidy page.  A directive that runs over a line end, or one
whose import is not inert, can be continued to a page on which another directive is left.
-/

namespace BookSite

open Include PagePart

/-! ## Texts without closing brace -/

namespace Include

theorem hasDirective_of_not_mem {t : Text} (h : '}' ∉ t) : hasDirective t = false := by
  rw [Bool.eq_false_iff]
  intro hfound
  obtain ⟨before, s, r, rfl, hs⟩ := hasDirective_iff.mp hfound
  obtain ⟨opening, body, rest, -, rfl, -⟩ :=
    eq_of_directive (show directive s = some (r.1, r.2) from hs)
  exact h (by simp [closing])

/-- A selection has a closing brace at the end of its import at most. -/
theorem exists_importText_eq {selection : Selection}
    (hname : ∀ name, selection = .anchor name → '}' ∉ name) :
    ∃ front, '}' ∉ front ∧
      (selection.importText = front ∨ selection.importText = front ++ ['}']) := by
  have hbounds : ∀ bounds, ∃ front, '}' ∉ front ∧
      (boundsText bounds = front ∨ boundsText bounds = front ++ ['}']) := fun bounds =>
    ⟨'{' :: boundsInner bounds, by simp [not_mem_boundsInner (c := '}') rfl (by decide)], .inr rfl⟩
  cases selection with
  | all => exact ⟨[], List.not_mem_nil, .inl rfl⟩
  | starting first => exact hbounds _
  | ending last => exact hbounds _
  | range first last => exact hbounds _
  | anchor name => exact ⟨'#' :: name, by simp [hname name rfl], .inl rfl⟩

/-- The import of a directive has a closing brace at its end at most. -/
theorem exists_toImport_eq {body : Text} (h : '}' ∉ body) :
    ∃ front, '}' ∉ front ∧ front ≠ [] ∧
      ((Target.parse body).toImport = front ∨ (Target.parse body).toImport = front ++ ['}']) := by
  obtain ⟨hpath, hname⟩ := Target.subset_of_parse body
  have hpath' : '}' ∉ (Target.parse body).path := fun hmem => h (hpath hmem)
  obtain ⟨tail, htail, heq⟩ := exists_importText_eq fun name hsel hmem => h (hname name hsel hmem)
  refine ⟨"<<< ".toList ++ ((Target.parse body).path ++ tail), by simp [hpath', htail], by simp, ?_⟩
  rw [Target.toImport_eq]
  exact heq.imp (fun h => by rw [h]) (fun h => by rw [h]; simp)

end Include

/-! ## The directives of the lines that are kept -/

namespace PagePart

theorem flatMap_directivesIn_filter {body : List Text}
    (hblank : ∀ l ∈ body, l.allBlank ∨ (lineImport? l).isSome) :
    ((body.filter isDirectiveLine).map Text.trim).flatMap directivesIn =
      body.flatMap directivesIn := by
  induction body with
  | nil => rfl
  | cons line body ih =>
    obtain ⟨hline, hbody⟩ := List.forall_mem_cons.mp hblank
    cases himport : lineImport? line with
    | none =>
      rw [himport, Option.isSome_none, Bool.false_eq_true, or_false] at hline
      rw [List.filter_cons_of_neg (by simp [isDirectiveLine_eq, himport]), List.flatMap_cons,
        directivesIn_of_allBlank hline, List.nil_append, ih hbody]
    | some imported =>
      rw [List.filter_cons_of_pos (by simp [isDirectiveLine_eq, himport]), List.map_cons,
        List.flatMap_cons, List.flatMap_cons, ih hbody, (directivesIn_of_lineImport? himport).1]

/-- What a part loses with its dropped fences is no directive. -/
theorem flatMap_directivesIn_keptLines {part : PagePart}
    (hfences : ∀ fence ∈ part.droppedFences, '}' ∉ fence) :
    part.keptLines.flatMap directivesIn = part.texts.flatMap directivesIn := by
  cases part with
  | prose line => rfl
  | unclosed block => rfl
  | closed block closer =>
    by_cases honly : OnlyDirectives block.body
    · rw [droppedFences, if_pos honly, List.forall_mem_cons, List.forall_mem_singleton] at hfences
      rw [PagePart.keptLines, if_pos honly, flatMap_directivesIn_filter honly.2, texts_closed,
        PendingBlock.lines, List.flatMap_append, List.flatMap_cons, List.flatMap_singleton,
        directivesIn_eq_nil (hasDirective_of_not_mem hfences.1),
        directivesIn_eq_nil (hasDirective_of_not_mem hfences.2), List.nil_append, List.append_nil]
    · rw [PagePart.keptLines, if_neg honly]

end PagePart

/-- **Both modes go by the same directives** on a tidy page. -/
theorem IsTidy.flatMap_directivesIn_keptLines {page : Text} (h : IsTidy page) :
    (keptLines page).flatMap directivesIn = directivesIn page := by
  rw [h.directivesIn_eq, ← flatMap_texts_pageParts, keptLines, List.flatMap_assoc,
    List.flatMap_assoc]
  exact List.flatMap_congr fun part hpart =>
    PagePart.flatMap_directivesIn_keptLines (h.fences part hpart)

/-! ## A line below lines without directive -/

namespace Include

open ImportedLines

/-- **A line below lines without directive** is the only one that changes. -/
theorem importLines_concat {above : List Text} (h : ∀ l ∈ above, hasDirective l = false)
    (line : Text) : importLines (above ++ [line]) = above ++ [importDirectives line] := by
  have htracks := tracks_run above
  have htaken := taken_run h
  rw [importLines, classifyFrom_concat, run_concat]
  generalize run (classifyFrom .prose above) = state at htracks htaken
  cases htracks with
  | @prose above written habove hwritten =>
    simp only [taken, Option.map_none, Option.getD_none, List.append_nil] at htaken
    subst htaken
    rw [show Region.afterAll .prose written = .prose from habove]
    cases hfence : isFence line with
    | true =>
      rw [Region.kindOf_prose_of_isFence hfence]
      rfl
    | false =>
      rw [Region.kindOf_prose_of_not_isFence hfence]
      simp [step, finish, write]
  | @block above written body opener habove hwritten hopener hbody =>
    have hlines : (opener :: body).map importDirectives = opener :: body :=
      map_importDirectives fun l hl => h l (List.mem_append_right _ hl)
    obtain rfl : written = above := List.append_cancel_right htaken
    rw [show Region.afterAll .prose (written ++ opener :: body) = .block from
      regionBehind_block habove hopener hbody]
    cases hfence : isFence line with
    | true =>
      have hnone : (PendingBlock.mk opener body).onlyDirectives = false :=
        PendingBlock.onlyDirectives_eq_false fun l hl =>
          h l (List.mem_append_right _ (List.mem_cons_of_mem _ hl))
      rw [Region.kindOf_block_of_isFence hfence]
      simp only [step, finish, write]
      rw [PendingBlock.close_of_not_onlyDirectives hnone, PendingBlock.lines, List.map_append,
        hlines]
      simp
    | false =>
      rw [Region.kindOf_block_of_not_isFence hfence]
      simp only [step, finish, Option.map_some, Option.getD_some, PendingBlock.abandon,
        PendingBlock.lines]
      rw [← List.cons_append, List.map_append, hlines]
      simp

/-- A page of one line. -/
theorem importPage_of_not_mem {line : Text} (h : '\n' ∉ line) :
    importPage line = importDirectives line := by
  rw [importPage_eq, Text.segments_of_not_mem h, ← List.nil_append [line],
    importLines_concat (by simp), List.nil_append, Text.unlines_singleton]

theorem importPage_append_line {above line : Text} (habove : hasDirective above = false)
    (hline : '\n' ∉ line) :
    importPage (above ++ '\n' :: line) = above ++ '\n' :: importDirectives line := by
  rw [importPage_eq, Text.segments_append_newline, Text.segments_of_not_mem hline,
    importLines_concat (hasDirective_of_mem_segments habove),
    Text.unlines_concat (Text.segments_ne_nil above), Text.unlines_segments]

end Include

/-! ## Directives that are not settled -/

namespace Include

/-- **The line end in a directive.**  Two more closing braces take the place of those that the last
line of the directive loses, if it is a directive of its own. -/
theorem importDirectives_append_closing {x : Text} (h : '}' ∉ x) :
    ∃ v rest, importDirectives (x ++ closing ++ closing) = v ++ closing ++ rest ∧ '}' ∉ v ∧
      (x ≠ [] → v ≠ []) := by
  induction x with
  | nil => exact ⟨[], closing, by decide, by simp, by simp⟩
  | cons c x ih =>
    rw [List.mem_cons, not_or] at h
    cases hfound : directive (c :: (x ++ closing ++ closing)) with
    | none =>
      obtain ⟨v, rest, himport, hv, -⟩ := ih h.2
      refine ⟨c :: v, rest, ?_, by simp [h.1, hv], by simp⟩
      exact (Text.replaceTokens_cons_of_none hfound).trans (congrArg (c :: ·) himport)
    | some r =>
      -- No brace ends the directive before the first two of the four do.
      obtain ⟨w, rest, heq, hw, -⟩ := exists_isDirective (show _ = some (r.1, r.2) from hfound)
      obtain ⟨opening, body, hopening, rfl, hbrace, -, htarget⟩ := hw.eq_append
      have hfront : '}' ∉ opening ++ body := by
        simp [(brace_not_mem_opening opening hopening).1, hbrace]
      have hcx : '}' ∉ c :: x := by simp [h]
      have hsame : (c :: x) ++ '}' :: '}' :: closing = (opening ++ body) ++ '}' :: '}' :: rest := by
        simpa [closing] using heq
      have hbehind := congrArg (List.dropWhile (· != '}')) hsame
      rw [Text.dropWhile_bne_append hcx, Text.dropWhile_bne_append hfront] at hbehind
      obtain rfl : closing = rest := (List.cons.inj (List.cons.inj hbehind).2).2
      have himport : importDirectives (c :: x ++ closing ++ closing) = r.1.toImport ++ closing := by
        rw [show c :: x ++ closing ++ closing = opening ++ (body ++ closing) ++ closing from heq,
          importDirectives_append hw]
        rfl
      obtain ⟨v, hv, hne, hv' | hv'⟩ := exists_toImport_eq hbrace
      · exact ⟨v, [], by rw [himport, htarget, hv', List.append_nil], hv, fun _ => hne⟩
      · exact ⟨v, ['}'], by rw [himport, htarget, hv']; simp [closing], hv, fun _ => hne⟩

theorem isBody_append_newline {y x v : Text} (h : isBody (y ++ '\n' :: x) = true)
    (hv : x ≠ [] → v ≠ []) : isBody (y ++ '\n' :: v) = true := by
  rcases y with _ | ⟨b, _ | ⟨e, y⟩⟩
  · obtain ⟨_, _, _, hcons, -⟩ := exists_of_isBody h
    obtain ⟨f, v, rfl⟩ := List.exists_cons_of_ne_nil (hv (by rintro rfl; cases hcons))
    rfl
  · exact h
  · exact h

/-- **A directive that runs over a line end**, with two more closing braces: it is still a directive
once its last line is changed. -/
theorem hasDirective_importPage_of_newline {d : Text} {target : Target} (h : IsDirective d target)
    (hnewline : '\n' ∈ d) : hasDirective (importPage (d ++ closing)) = true := by
  obtain ⟨opening, body, hopening, rfl, hbrace, hbody, -⟩ := h.eq_append
  have hopen : '\n' ∉ opening := fun hmem => (ne_of_mem_opening hopening _ hmem).2 rfl
  have hmem : '\n' ∈ body := by simpa [hopen, closing] using hnewline
  obtain ⟨after, before, hreverse, hafter⟩ :=
    List.eq_append_cons_of_mem (List.mem_reverse.mpr hmem)
  obtain ⟨y, x, rfl, hx⟩ : ∃ y x, body = y ++ '\n' :: x ∧ '\n' ∉ x := by
    refine ⟨before.reverse, after.reverse, ?_, by simpa using hafter⟩
    rw [← List.reverse_reverse body, hreverse]
    simp
  simp only [List.mem_append, List.mem_cons, not_or] at hbrace
  have habove : hasDirective (opening ++ y) = false :=
    hasDirective_of_not_mem (by simp [(brace_not_mem_opening opening hopening).1, hbrace.1])
  have hpage : opening ++ (y ++ '\n' :: x ++ closing) ++ closing =
      opening ++ y ++ '\n' :: (x ++ closing ++ closing) := by simp
  obtain ⟨v, rest, himport, hv, hne⟩ := importDirectives_append_closing hbrace.2.2
  rw [hpage, importPage_append_line habove (by simp [hx, closing]), himport]
  have hfound := directive_append hopening (by simp [hbrace.1, hv])
    (isBody_append_newline hbody hne) rest
  exact hasDirective_iff.mpr ⟨[], _, _, by simp, hfound⟩

/-! ### Imports that are not inert -/

/-- The rest of an opening and something to include. -/
theorem hasDirective_drop_opening : ∀ opening ∈ openings, ∀ n < opening.length,
    hasDirective (opening.drop (n + 1) ++ " a\x7d\x7d".toList) = false := by
  decide +kernel

/-- **A text that can be continued** within its line, by a text without directive, to one that
holds a directive. -/
def Continues (s : Text) : Prop :=
  ∃ more, '\n' ∉ more ∧ hasDirective more = false ∧ hasDirective (s ++ more) = true

section Continues

variable {opening : Text} (hopening : opening ∈ openings)

include hopening

theorem hasDirective_parts {body : Text} (hbrace : '}' ∉ body) (hbody : isBody body = true)
    (rest : Text) : hasDirective (opening ++ body ++ closing ++ rest) = true :=
  hasDirective_iff.mpr
    ⟨[], _, _, by simp, directive_append hopening hbrace hbody rest⟩

/-- A text that ends within an opening. -/
theorem continues_opening {s o : Text} (heq : opening = s ++ o) (hs : s ≠ []) : Continues s := by
  obtain ⟨c, s, rfl⟩ := List.exists_cons_of_ne_nil hs
  subst heq
  refine ⟨o ++ " a\x7d\x7d".toList, ?_, ?_, ?_⟩
  · have ho : '\n' ∉ o := fun hmem =>
      (ne_of_mem_opening hopening _ (List.mem_append_right _ hmem)).2 rfl
    simp [ho]
  · have hlength : s.length < (c :: s ++ o).length := by
      rw [List.length_append, List.length_cons]
      omega
    simpa using hasDirective_drop_opening _ hopening s.length hlength
  · simpa [closing] using hasDirective_parts hopening (show '}' ∉ " a".toList by decide) rfl []

/-- A text that ends within a body. -/
theorem continues_body {x y : Text} (hbrace : '}' ∉ x) (hbody : isBody (x ++ y) = true) :
    Continues (opening ++ x) := by
  have hbody' : isBody (x ++ " a".toList) = true := by
    rcases x with _ | ⟨b, _ | ⟨e, x⟩⟩
    · rfl
    · obtain ⟨_, _, _, hcons, hblank⟩ := exists_of_isBody hbody
      obtain ⟨rfl, -⟩ := List.cons.inj hcons
      exact hblank
    · exact hbody
  refine ⟨" a\x7d\x7d".toList, by decide, by decide, ?_⟩
  simpa [closing] using hasDirective_parts hopening (by simp [hbrace]) hbody' []

/-- A text that ends within the closing braces or behind them. -/
theorem continues_closing {body z more rest : Text} (hbrace : '}' ∉ body)
    (hbody : isBody body = true) (heq : closing ++ rest = z ++ more) :
    Continues (opening ++ body ++ z) := by
  have hfound := hasDirective_parts hopening hbrace hbody
  have hbraces : '}' :: '}' :: rest = z ++ more := heq
  rcases z with _ | ⟨b, _ | ⟨e, z⟩⟩
  · refine ⟨closing, by decide, by decide, ?_⟩
    simpa using hfound []
  · obtain ⟨rfl, -⟩ := List.cons.inj hbraces
    refine ⟨['}'], by decide, by decide, ?_⟩
    simpa [closing] using hfound []
  · obtain ⟨rfl, htail⟩ := List.cons.inj hbraces
    obtain ⟨rfl, -⟩ := List.cons.inj htail
    refine ⟨[], by simp, rfl, ?_⟩
    simpa [closing] using hfound z

end Continues

/-- **What a text begins** that more text makes a directive, a text in one line without directive
makes one too. -/
theorem continues_of_directive {s more : Text} {r : Target × Nat} (hs : s ≠ [])
    (h : directive (s ++ more) = some r) : Continues s := by
  obtain ⟨opening, body, rest, hopening, heq, hbrace, hbody, -⟩ :=
    eq_of_directive (show _ = some (r.1, r.2) from h)
  obtain ⟨o, ho, -⟩ | ⟨x, rfl, hx⟩ := List.append_eq_append_iff.mp heq
  · exact continues_opening hopening ho hs
  obtain ⟨z, rfl, hz⟩ | ⟨y, rfl, -⟩ := List.append_eq_append_iff.mp
    ((List.append_assoc body closing rest).symm.trans hx)
  · rw [← List.append_assoc]
    exact continues_closing hopening hbrace hbody hz
  · exact continues_body hopening (fun hmem => hbrace (List.mem_append_left _ hmem)) hbody

/-- **A directive in one line whose import is not inert** can be continued to a page on which
another directive is left. -/
theorem hasDirective_importPage_of_not_inert {d : Text} {target : Target}
    (h : IsDirective d target) (hline : '\n' ∉ d) (hinert : ¬ Inert target.toImport) :
    ∃ more, '\n' ∉ more ∧ hasDirective (importPage (d ++ more)) = true := by
  simp only [Inert, not_forall] at hinert
  obtain ⟨s, ⟨before, hbefore⟩, hs, more, hmore⟩ := hinert
  obtain ⟨r, hr⟩ := Option.ne_none_iff_exists'.mp hmore
  obtain ⟨more', hnewline, hnone, hfound⟩ := continues_of_directive hs hr
  refine ⟨more', hnewline, ?_⟩
  rw [importPage_of_not_mem (by simp [hline, hnewline]), importDirectives_append h,
    importDirectives_eq_self hnone, ← hbefore, List.append_assoc]
  exact hasDirective_of_isInfix (List.suffix_append before _).isInfix hfound

end Include

/-! ## The stage -/

/-- **When imports leave no directive.**  On a tidy page imports replace the directives that reading
the files at once replaces, and no directive is left.  Every directive that is not settled can be
continued, within its last line, to a page on which one is left. -/
theorem imports_leave_no_directive (fs : FileSystem) (path? : Option Path) :
    (∀ page, IsTidy page → ∃ out, (Stage.includes .translate).apply fs path? page = .ok out ∧
      out = Text.unlines ((keptLines page).map importDirectives) ∧
      (keptLines page).flatMap directivesIn = directivesIn page ∧ hasDirective out = false) ∧
    ∀ d target, IsDirective d target → ¬ IsSettled (d, target) →
      ∃ more out, '\n' ∉ more ∧ (Stage.includes .translate).apply fs path? (d ++ more) = .ok out ∧
        hasDirective out = true := by
  refine ⟨fun page h => ?_, fun d target h hsettled => ?_⟩
  · exact ⟨importPage page, apply_includes_translate fs path? page, importPage_eq_keptLines page,
      h.flatMap_directivesIn_keptLines, h.hasDirective_importPage⟩
  · by_cases hline : '\n' ∈ d
    · exact ⟨closing, _, by decide, apply_includes_translate fs path? _,
        hasDirective_importPage_of_newline h hline⟩
    · have hinert : ¬ Inert target.toImport := fun hinert => hsettled ⟨hline, hinert⟩
      obtain ⟨more, hmore, hleft⟩ := hasDirective_importPage_of_not_inert h hline hinert
      exact ⟨more, _, hmore, apply_includes_translate fs path? _, hleft⟩

theorem isTidy_pageOfDirectives : IsTidy pageOfDirectives where
  settled := by
    have hfound : directivesIn pageOfDirectives =
        [("\x7b\x7b#include a.rs:2\x7d\x7d".toList, ⟨"a.rs".toList, .starting 2⟩),
          ("\x7b\x7b#include b.rs\x7d\x7d".toList, ⟨"b.rs".toList, .all⟩)] := by decide +kernel
    rw [hfound, List.forall_mem_cons, List.forall_mem_singleton]
    exact ⟨⟨by decide, inert_toImport (by decide) (by simp)⟩,
      ⟨by decide, inert_toImport (by decide) (by simp)⟩⟩
  fences := by decide +kernel

/-- A directive that runs over a line end. -/
def directiveInTwoLines : Text := "\x7b\x7b#include\na.rs\x7d\x7d".toList

theorem imports_leave_no_directive_twoPages :
    IsTidy pageOfDirectives ∧
      (∃ out, (Stage.includes .translate).apply .empty none pageOfDirectives = .ok out ∧
        hasDirective out = false) ∧
      IsDirective directiveInTwoLines ⟨"a.rs".toList, .all⟩ ∧
      ¬ IsSettled (directiveInTwoLines, ⟨"a.rs".toList, .all⟩) ∧
      ∃ more out, '\n' ∉ more ∧
        (Stage.includes .translate).apply .empty none (directiveInTwoLines ++ more) = .ok out ∧
        hasDirective out = true := by
  have hstage := imports_leave_no_directive .empty none
  obtain ⟨out, happly, -, -, hleft⟩ := hstage.1 _ isTidy_pageOfDirectives
  have hdirective : IsDirective directiveInTwoLines ⟨"a.rs".toList, .all⟩ := by
    unfold IsDirective
    decide +kernel
  have hsettled : ¬ IsSettled (directiveInTwoLines, ⟨"a.rs".toList, .all⟩) :=
    fun h => h.oneLine (by decide)
  exact ⟨isTidy_pageOfDirectives, ⟨out, happly, hleft⟩, hdirective, hsettled,
    hstage.2 _ _ hdirective hsettled⟩

/-- A directive within the argument of another one. -/
def directiveInDirective : Text :=
  "\x7b\x7b#include \x7b\x7b#include a.rs\x7d\x7d\x7d\x7d".toList

/-- An opening in front of a block whose fence holds a closing brace. -/
def openingAboveBlock : Text :=
  "\x7b\x7b#include\n```\x7b.a\x7d\n\x7b\x7b#include x\x7d\x7d\n```\ny \x7d\x7d".toList

/-- **Imports leave a directive**: one in two lines, one that the argument of another one held, and
one that takes shape when fences are dropped. -/
theorem imports_leave_directive :
    ((Stage.includes .translate).apply .empty none directiveInTwoLines = .ok directiveInTwoLines ∧
      hasDirective directiveInTwoLines = true) ∧
    ((Stage.includes .translate).apply .empty none directiveInDirective =
        .ok "<<< \x7b\x7b#include a.rs\x7d\x7d".toList ∧
      hasDirective "<<< \x7b\x7b#include a.rs\x7d\x7d".toList = true) ∧
    ((Stage.includes .translate).apply .empty none openingAboveBlock =
        .ok "\x7b\x7b#include\n<<< x\ny \x7d\x7d".toList ∧
      directivesIn openingAboveBlock =
        [("\x7b\x7b#include x\x7d\x7d".toList, ⟨"x".toList, .all⟩)] ∧
      hasDirective "\x7b\x7b#include\n<<< x\ny \x7d\x7d".toList = true) := by
  decide +kernel

end BookSite
