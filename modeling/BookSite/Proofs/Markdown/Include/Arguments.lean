import BookSite.Proofs.Markdown.Include.BothModes

/-!
# Proofs/Markdown/Include/Arguments — arguments that are read back

The argument of a directive is the path and, behind a colon each, the bounds of the lines or the
name of an anchor.  Trimming and cutting at colons take such an argument apart again, so what is
asked for is what is imported (`arguments_read_back`).
-/

namespace BookSite

namespace Include

/-! ## Written arguments -/

/-- A selection as it is written behind the path. -/
def Selection.argument : Selection → Text
  | .all => []
  | .starting first => ':' :: Text.ofNat first
  | .ending last => ':' :: ':' :: Text.ofNat last
  | .range first last => ':' :: (Text.ofNat first ++ ':' :: Text.ofNat last)
  | .anchor name => ':' :: name

/-- **A target as it is asked for.** -/
def Target.argument (target : Target) : Text := target.path ++ target.selection.argument

/-- A text that can stand in an argument: it is trimmed and not empty, and holds neither a colon
nor a closing brace nor a line feed. -/
structure IsArgumentPart (t : Text) : Prop where
  ne_nil : t ≠ []
  trim_eq : t.trim = t
  colon : ':' ∉ t
  brace : '}' ∉ t
  newline : '\n' ∉ t

instance (t : Text) : Decidable (IsArgumentPart t) :=
  decidable_of_iff (t ≠ [] ∧ t.trim = t ∧ ':' ∉ t ∧ '}' ∉ t ∧ '\n' ∉ t)
    ⟨fun h => ⟨h.1, h.2.1, h.2.2.1, h.2.2.2.1, h.2.2.2.2⟩,
      fun h => ⟨h.ne_nil, h.trim_eq, h.colon, h.brace, h.newline⟩⟩

/-- Selections that can be asked for: line numbers are counts, and the name of an anchor is none. -/
def Selection.CanBeAskedFor : Selection → Prop
  | .all => True
  | .starting first => first ≤ maxCount
  | .ending last => last ≤ maxCount
  | .range first last => first ≤ maxCount ∧ last ≤ maxCount
  | .anchor name => IsArgumentPart name ∧ name.toCount? = none

instance (selection : Selection) : Decidable selection.CanBeAskedFor := by
  cases selection <;> unfold Selection.CanBeAskedFor <;> infer_instance

/-- **Targets that can be asked for.** -/
structure Target.CanBeAskedFor (target : Target) : Prop where
  path : IsArgumentPart target.path
  noDot : target.path.startsWith ['.', '/'] = false
  selection : target.selection.CanBeAskedFor

theorem isArgumentPart_ofNat (n : Nat) : IsArgumentPart (Text.ofNat n) where
  ne_nil := Text.ofNat_ne_nil n
  trim_eq := Text.trim_ofNat n
  colon := not_mem_ofNat rfl n
  brace := not_mem_ofNat rfl n
  newline := not_mem_ofNat rfl n

/-! ## Reading them -/

theorem IsArgumentPart.fields_eq {t : Text} (h : IsArgumentPart t) : t.fields ':' = [t] :=
  List.splitOn_eq_singleton h.colon

/-- What stands behind the first colon is read as the selection. -/
theorem Selection.exists_parse {selection : Selection} (h : selection.CanBeAskedFor) :
    selection = .all ∨
      ∃ suffix, selection.argument = ':' :: suffix ∧ Selection.parse suffix = selection := by
  have hfields : ∀ n, (Text.ofNat n).fields ':' = [Text.ofNat n] := fun n =>
    (isArgumentPart_ofNat n).fields_eq
  have hcut : ∀ s t : Text, Text.fields (s ++ ':' :: t) ':' = s.fields ':' ++ t.fields ':' :=
    List.splitOn_append_cons_self
  have hnumber : ∀ n, (Text.ofNat n).allBlank = false := fun n =>
    Text.not_allBlank_of_trim_eq (Text.trim_ofNat n) (Text.ofNat_ne_nil n)
  cases selection with
  | all => exact .inl rfl
  | starting first =>
    refine .inr ⟨_, rfl, ?_⟩
    simp only [Selection.parse, hfields, hnumber, Text.trim_ofNat, Text.toCount?_ofNat h]
    rfl
  | ending last =>
    have hparts : Text.fields (':' :: Text.ofNat last) ':' = [[], Text.ofNat last] := by
      rw [← List.nil_append (':' :: _), hcut, hfields]
      rfl
    have hopen : Text.allBlank [] = true := rfl
    refine .inr ⟨_, rfl, ?_⟩
    simp only [Selection.parse, hparts, hnumber, hopen, Text.trim_ofNat, Text.toCount?_ofNat h]
  | range first last =>
    have hparts : Text.fields (Text.ofNat first ++ ':' :: Text.ofNat last) ':' =
        [Text.ofNat first, Text.ofNat last] := by
      rw [hcut, hfields, hfields]
      rfl
    refine .inr ⟨_, rfl, ?_⟩
    simp only [Selection.parse, hparts, hnumber, Text.trim_ofNat, Text.toCount?_ofNat h.1,
      Text.toCount?_ofNat h.2]
  | anchor name =>
    have hname : IsArgumentPart name := h.1
    refine .inr ⟨_, rfl, ?_⟩
    simp only [Selection.parse, hname.fields_eq,
      Text.not_allBlank_of_trim_eq hname.trim_eq hname.ne_nil, hname.trim_eq, h.2]
    rfl

namespace Target.CanBeAskedFor

variable {target : Target} (h : target.CanBeAskedFor)

include h

theorem argument_ne_nil : target.argument ≠ [] := List.append_ne_nil_of_left_ne_nil h.path.ne_nil _

/-- A character that no part holds is not in the argument, unless it is the colon. -/
theorem not_mem_argument {x : Char} (hpart : ∀ {t : Text}, IsArgumentPart t → x ∉ t)
    (hcolon : x ≠ ':') : x ∉ target.argument := by
  obtain ⟨hpath, -, hselection⟩ := h
  obtain ⟨path, selection⟩ := target
  have hnumber : ∀ n, x ∉ Text.ofNat n := fun n => hpart (isArgumentPart_ofNat n)
  rw [argument, List.mem_append, not_or]
  refine ⟨hpart hpath, ?_⟩
  cases selection with
  | anchor name => simp [Selection.argument, hcolon, hpart hselection.1]
  | _ => simp [Selection.argument, hcolon, hnumber]

theorem brace_not_mem_argument : '}' ∉ target.argument :=
  h.not_mem_argument IsArgumentPart.brace (by decide)

theorem newline_not_mem_argument : '\n' ∉ target.argument :=
  h.not_mem_argument IsArgumentPart.newline (by decide)

/-- An argument ends like the part that stands last in it. -/
theorem isBlank_getLast?_argument : ∀ c ∈ target.argument.getLast?, isBlank c = false := by
  have hpart : ∀ {t : Text}, IsArgumentPart t → ∀ front : Text,
      ∀ c ∈ (front ++ t).getLast?, isBlank c = false := by
    intro t ht front c hc
    rw [List.getLast?_append_of_ne_nil _ ht.ne_nil] at hc
    exact (Text.trim_eq_self_iff.mp ht.trim_eq).2 c hc
  obtain ⟨hpath, -, hselection⟩ := h
  obtain ⟨path, selection⟩ := target
  rw [argument]
  cases selection with
  | all =>
    rw [Selection.argument, List.append_nil]
    exact hpart hpath []
  | starting first =>
    have hfirst := hpart (isArgumentPart_ofNat first) (path ++ [':'])
    simpa [Selection.argument] using hfirst
  | ending last =>
    have hlast := hpart (isArgumentPart_ofNat last) (path ++ [':', ':'])
    simpa [Selection.argument] using hlast
  | range first last =>
    have hlast := hpart (isArgumentPart_ofNat last) (path ++ ':' :: Text.ofNat first ++ [':'])
    simpa [Selection.argument] using hlast
  | anchor name =>
    have hname := hpart hselection.1 (path ++ [':'])
    simpa [Selection.argument] using hname

/-- An argument is trimmed, with and without a leading `./`. -/
theorem trim_append_argument {dot : Text} (hdot : dot = [] ∨ dot = ['.', '/']) :
    (dot ++ target.argument).trim = dot ++ target.argument := by
  obtain ⟨c, rest, hpath⟩ := List.exists_cons_of_ne_nil h.path.ne_nil
  have hc : isBlank c = false :=
    (Text.trim_eq_self_iff.mp h.path.trim_eq).1 c (by rw [hpath]; rfl)
  refine Text.trim_eq_self_iff.mpr ⟨fun d hd => ?_, fun d hd => ?_⟩
  · rcases hdot with rfl | rfl
    · rw [List.nil_append, argument, hpath] at hd
      cases hd
      exact hc
    · cases hd
      rfl
  · rw [List.getLast?_append_of_ne_nil _ h.argument_ne_nil] at hd
    exact h.isBlank_getLast?_argument d hd

/-- A leading `./` is dropped, and no other. -/
theorem dropLeading_append_argument {dot : Text} (hdot : dot = [] ∨ dot = ['.', '/']) :
    (dot ++ target.argument).dropLeading ['.', '/'] = target.argument := by
  rcases hdot with rfl | rfl
  · have hnone : target.argument.behind? ['.', '/'] = none := by
      have hpath : target.path.behind? ['.', '/'] = none := by
        rw [← Option.not_isSome_iff_eq_none, List.isSome_isPrefixOf?_eq_isPrefixOf]
        exact ne_true_of_eq_false h.noDot
      rw [argument]
      obtain hall | ⟨suffix, hsuffix, -⟩ := Selection.exists_parse h.selection
      · rw [hall, Selection.argument, List.append_nil, hpath]
      · rw [hsuffix, Text.behind?_append_cons (by decide), hpath, Option.map_none]
    rw [List.nil_append, Text.dropLeading, hnone, Option.getD_none]
  · have hsome : Text.behind? (['.', '/'] ++ target.argument) ['.', '/'] = some target.argument :=
      Text.behind?_eq_some_iff.mpr rfl
    rw [Text.dropLeading, hsome, Option.getD_some]

/-- **An argument is read back**, with blanks around it and with or without a leading `./`. -/
theorem parse_append_argument {dot before behind : Text} (hdot : dot = [] ∨ dot = ['.', '/'])
    (hbefore : ∀ c ∈ before, isBlank c = true) (hbehind : ∀ c ∈ behind, isBlank c = true) :
    parse (before ++ (dot ++ target.argument ++ behind)) = target := by
  have htrim := Text.trim_append_append (h.trim_append_argument hdot) hbefore hbehind
  rw [parse, htrim, h.dropLeading_append_argument hdot]
  obtain hall | ⟨suffix, hsuffix, hparse⟩ := Selection.exists_parse h.selection
  · have hargument : target.argument = target.path := by
      rw [argument, hall, Selection.argument, List.append_nil]
    have hcut : target.argument.splitOnce ':' = none := by
      rw [hargument, Text.splitOnce, List.dropWhile_eq_nil_iff.mpr fun c hc => by
        rw [bne_iff_ne]
        rintro rfl
        exact h.path.colon hc]
    rw [hcut, hargument, ← hall]
  · have hcut : target.argument.splitOnce ':' = some (target.path, suffix) := by
      rw [argument, hsuffix, Text.splitOnce_append h.path.colon]
    rw [hcut]
    exact congrArg (Target.mk target.path) hparse

end Target.CanBeAskedFor

/-! ## Directives around them -/

/-- Blanks of one line. -/
def AreSpaces (t : Text) : Prop := ∀ c ∈ t, isBlank c = true ∧ c ≠ '\n'

instance (t : Text) : Decidable (AreSpaces t) := List.decidableBAll _ t

theorem newline_not_mem_opening {opening : Text} (h : opening ∈ openings) : '\n' ∉ opening := by
  simp only [openings, List.mem_cons, List.not_mem_nil, or_false] at h
  rcases h with rfl | rfl <;> decide

section Directive

variable {target : Target} (h : target.CanBeAskedFor) {dot before behind : Text}
  (hdot : dot = [] ∨ dot = ['.', '/']) (hbefore : AreSpaces before) (hbehind : AreSpaces behind)

include hdot

/-- A character that none of its parts holds is not in a body. -/
theorem not_mem_body {x : Char} (hargument : x ∉ target.argument) (hx : x ∉ ['.', '/'])
    (hbefore : x ∉ before) (hbehind : x ∉ behind) :
    x ∉ before ++ (dot ++ target.argument ++ behind) := by
  have hdotted : x ∉ dot := by
    rcases hdot with rfl | rfl
    · exact List.not_mem_nil
    · exact hx
  simp only [List.mem_append, not_or]
  exact ⟨hbefore, ⟨hdotted, hargument⟩, hbehind⟩

include h hbefore hbehind

theorem newline_not_mem_body : '\n' ∉ before ++ (dot ++ target.argument ++ behind) :=
  not_mem_body hdot h.newline_not_mem_argument (by decide) (fun hc => (hbefore _ hc).2 rfl)
    fun hc => (hbehind _ hc).2 rfl

/-- **A directive around an argument** names the target. -/
theorem isDirective_argument {opening : Text} (hopening : opening ∈ openings)
    (hne : before ≠ []) :
    IsDirective (opening ++ (before ++ (dot ++ target.argument ++ behind) ++ closing)) target := by
  have hblank : ∀ t, AreSpaces t → '}' ∉ t := fun t ht hc =>
    absurd (ht _ hc).1 (by decide)
  have hbrace : '}' ∉ before ++ (dot ++ target.argument ++ behind) :=
    not_mem_body hdot h.brace_not_mem_argument (by decide) (hblank before hbefore)
      (hblank behind hbehind)
  have hbody : isBody (before ++ (dot ++ target.argument ++ behind)) = true := by
    obtain ⟨c, before, rfl⟩ := List.exists_cons_of_ne_nil hne
    obtain ⟨d, rest, hrest⟩ : ∃ d rest, before ++ (dot ++ target.argument ++ behind) = d :: rest :=
      List.exists_cons_of_ne_nil (by simp [h.argument_ne_nil])
    rw [List.cons_append, hrest]
    exact (hbefore c List.mem_cons_self).1
  have hdirective := isDirective_append hopening hbrace hbody
  rwa [h.parse_append_argument hdot (fun c hc => (hbefore c hc).1) fun c hc => (hbehind c hc).1]
    at hdirective

end Directive

/-- **Arguments are read back.**  A target that can be asked for is read from its argument, with or
without a leading `./`.  A page that is a directive of either sort around this argument, with any
blanks of one line on both sides of it, becomes the import of the target. -/
theorem arguments_read_back {target : Target} (h : target.CanBeAskedFor) {dot : Text}
    (hdot : dot = [] ∨ dot = ['.', '/']) :
    Target.parse (dot ++ target.argument) = target ∧
      ∀ opening ∈ openings, ∀ before behind, before ≠ [] → AreSpaces before → AreSpaces behind →
        ∀ fs path?, (Stage.includes .translate).apply fs path?
            (opening ++ (before ++ (dot ++ target.argument ++ behind) ++ closing)) =
          .ok target.toImport := by
  constructor
  · have hnone : ∀ c ∈ ([] : Text), isBlank c = true := List.forall_mem_nil _
    have hparse := h.parse_append_argument hdot hnone hnone
    rwa [List.nil_append, List.append_nil] at hparse
  · intro opening hopening before behind hne hbefore hbehind fs path?
    have hline : '\n' ∉ opening ++ (before ++ (dot ++ target.argument ++ behind) ++ closing) := by
      rw [List.mem_append, List.mem_append, not_or, not_or]
      exact ⟨newline_not_mem_opening hopening, newline_not_mem_body h hdot hbefore hbehind,
        by decide⟩
    have himport := importDirectives_append
      (isDirective_argument h hdot hbefore hbehind hopening hne) []
    rw [List.append_nil, importDirectives_nil, List.append_nil] at himport
    rw [apply_includes_translate, importPage_of_not_mem hline, himport]

/-- The greatest range of lines of a file whose name holds a blank and an opening brace. -/
theorem arguments_read_back_greatestRange :
    let target : Target := ⟨"my \x7b/a.rs".toList, .range 3 maxCount⟩
    target.CanBeAskedFor ∧
      Target.parse "./my \x7b/a.rs:3:18446744073709551615".toList = target ∧
      (Stage.includes .translate).apply .empty none
          "\x7b\x7b#rustdoc_include  ./my \x7b/a.rs:3:18446744073709551615\t \x7d\x7d".toList =
        .ok "<<< my \x7b/a.rs\x7b3-18446744073709551615\x7d".toList := by
  intro target
  have htarget : target.CanBeAskedFor :=
    { path := by decide, noDot := by decide, selection := by decide }
  have hdot : (['.', '/'] : Text) = [] ∨ ['.', '/'] = ['.', '/'] := .inr rfl
  obtain ⟨hparse, himport⟩ := arguments_read_back htarget hdot
  exact ⟨htarget, hparse,
    himport "\x7b\x7b#rustdoc_include".toList (by decide) [' ', ' '] ['\t', ' '] (by decide)
      (by decide) (by decide) .empty none⟩

end Include

end BookSite
