import BookSite.Markdown.Include.Directive
import BookSite.Proofs.Markdown.Regions
import BookSite.Proofs.Text.Digits
import BookSite.Proofs.Text.Scanning

/-!
# Proofs/Markdown/Include/Directives — replacing directives in a line

A directive begins with a brace and its import with `<`, so nothing in front of the first directive
changes.  In particular a line is a fence before its directives are replaced when it is one
afterwards, and the other way around.
-/

namespace BookSite.Include

/-! ## Finding a directive -/

theorem mem_openings {opening : Text} (h : opening ∈ openings) :
    ∃ word, opening = '{' :: '{' :: '#' :: word := by
  simp only [openings, List.mem_cons, List.not_mem_nil, or_false] at h
  rcases h with rfl | rfl
  · exact ⟨_, rfl⟩
  · exact ⟨_, rfl⟩

/-- **What a directive is made of**: an opening, a body without closing brace, the closing. -/
theorem eq_of_directive {s : Text} {target : Target} {n : Nat}
    (h : directive s = some (target, n)) :
    ∃ opening body rest, opening ∈ openings ∧ s = opening ++ (body ++ closing ++ rest) ∧
      '}' ∉ body ∧ isBody body = true ∧ target = .parse body ∧
      n = (opening ++ (body ++ closing)).length := by
  obtain ⟨opening, hopening, h⟩ := List.exists_of_findSome?_eq_some h
  obtain ⟨t, ht, h⟩ := Option.bind_eq_some_iff.mp h
  rw [Text.behind?_eq_some_iff] at ht
  simp only at h
  split at h
  · rename_i hbody
    cases h
    rw [Bool.and_eq_true, Text.startsWith, List.isPrefixOf_iff_prefix] at hbody
    obtain ⟨rest, hrest⟩ := hbody.2
    refine ⟨opening, t.takeWhile (· != '}'), rest, hopening, ?_, Text.not_mem_takeWhile_bne _ t,
      hbody.1, rfl, ?_⟩
    · rw [List.append_assoc, hrest, List.takeWhile_append_dropWhile, ← ht]
    · simp [Nat.add_assoc]
  · cases h

theorem directiveAfter_append {opening body : Text} (hbrace : '}' ∉ body)
    (hbody : isBody body = true) (rest : Text) :
    directiveAfter opening (opening ++ (body ++ closing ++ rest)) =
      some (.parse body, (opening ++ (body ++ closing)).length) := by
  have hbehind : Text.behind? (opening ++ (body ++ closing ++ rest)) opening =
      some (body ++ closing ++ rest) := Text.behind?_eq_some_iff.mpr rfl
  have htake : (body ++ closing ++ rest).takeWhile (· != '}') = body := by
    rw [List.append_assoc]
    exact Text.takeWhile_bne_append hbrace _
  have hdrop : (body ++ closing ++ rest).dropWhile (· != '}') = closing ++ rest := by
    rw [List.append_assoc]
    exact Text.dropWhile_bne_append hbrace _
  have hclosing : Text.startsWith (closing ++ rest) closing = true := rfl
  simp only [directiveAfter, hbehind, Option.bind_eq_bind, Option.bind_some, htake, hdrop, hbody,
    hclosing, Bool.and_self, if_true, List.length_append, Nat.add_assoc]

/-- **All directives are found** at the front of a text. -/
theorem directive_append {opening body : Text} (hopening : opening ∈ openings)
    (hbrace : '}' ∉ body) (hbody : isBody body = true) (rest : Text) :
    directive (opening ++ (body ++ closing ++ rest)) =
      some (.parse body, (opening ++ (body ++ closing)).length) := by
  have hfound : ∀ opening, directiveAfter opening (opening ++ (body ++ closing ++ rest)) =
      some (.parse body, (opening ++ (body ++ closing)).length) := fun _ =>
    directiveAfter_append hbrace hbody rest
  simp only [openings, List.mem_cons, List.not_mem_nil, or_false] at hopening
  rcases hopening with rfl | rfl
  · rw [directive, openings, List.findSome?_cons, hfound]
  · have hother : directiveAfter "\x7b\x7b#include".toList
        ("\x7b\x7b#rustdoc_include".toList ++ (body ++ closing ++ rest)) = none := rfl
    rw [directive, openings, List.findSome?_cons, hother]
    simp only
    rw [List.findSome?_cons, hfound]

/-- What follows a directive does not matter to it. -/
theorem directive_append_of_some {s : Text} {r : Target × Nat} (h : directive s = some r)
    (t : Text) : directive (s ++ t) = some r := by
  obtain ⟨opening, body, rest, hopening, rfl, hbrace, hbody, htarget, hn⟩ :=
    eq_of_directive (show directive s = some (r.1, r.2) from h)
  have hassoc : opening ++ (body ++ closing ++ rest) ++ t =
      opening ++ (body ++ closing ++ (rest ++ t)) := by simp
  rw [hassoc, directive_append hopening hbrace hbody]
  exact congrArg some (Prod.ext htarget.symm hn.symm)

/-- A text holds a directive when an end of it begins with one. -/
theorem hasDirective_iff {t : Text} :
    hasDirective t = true ↔ ∃ before s r, t = before ++ s ∧ directive s = some r := by
  constructor
  · intro h
    obtain ⟨⟨before, found, behind⟩, hfirst⟩ := Option.isSome_iff_exists.mp h
    obtain ⟨s, n, rfl, hfind, -⟩ := Text.eq_append_of_findFirst hfirst
    exact ⟨before, s, _, rfl, hfind⟩
  · rintro ⟨before, s, r, rfl, h⟩
    refine Text.finds_append_of_isSome before ?_ (by rw [h]; rfl)
    rintro rfl
    cases h

/-- **What holds a part with a directive** holds a directive. -/
theorem hasDirective_of_isInfix {part t : Text} (hpart : part <:+: t)
    (h : hasDirective part = true) : hasDirective t = true := by
  obtain ⟨before, s, r, rfl, hs⟩ := hasDirective_iff.mp h
  obtain ⟨front, back, rfl⟩ := hpart
  refine hasDirective_iff.mpr ⟨front ++ before, s ++ back, r, by simp, ?_⟩
  exact directive_append_of_some hs back

theorem hasDirective_of_isDirectiveLine {line : Text} (h : isDirectiveLine line = true) :
    hasDirective line = true := by
  refine hasDirective_of_isInfix line.trim_isInfix ?_
  unfold isDirectiveLine at h
  cases hdirective : directive line.trim with
  | none => simp [hdirective] at h
  | some r => exact hasDirective_iff.mpr ⟨[], line.trim, r, rfl, hdirective⟩

theorem directive_eq_none_of_ne {c : Char} (hc : c ≠ '{') (rest : Text) :
    directive (c :: rest) = none := by
  cases h : directive (c :: rest) with
  | none => rfl
  | some r =>
    obtain ⟨opening, body, t, hopening, hs, -⟩ := eq_of_directive h
    obtain ⟨word, rfl⟩ := mem_openings hopening
    exact absurd (List.cons.inj hs).1 hc

/-- A line that begins with another character than a brace is no directive line. -/
theorem not_isDirectiveLine_of_trimStart {line rest : Text} {c : Char}
    (h : line.trimStart = c :: rest) (hblank : isBlank c = false) (hbrace : c ≠ '{') :
    isDirectiveLine line = false := by
  obtain ⟨rest', hrest'⟩ := Text.trim_eq_cons h hblank
  rw [isDirectiveLine, hrest', directive_eq_none_of_ne hbrace]

/-! ## Replacing directives -/

@[simp] theorem importDirectives_nil : importDirectives [] = [] := rfl

theorem importDirectives_cons_of_ne {c : Char} (hc : c ≠ '{') (rest : Text) :
    importDirectives (c :: rest) = c :: importDirectives rest :=
  Text.replaceTokens_cons_of_none (directive_eq_none_of_ne hc rest)

/-- **A line without directive** stays as it is. -/
theorem importDirectives_eq_self {line : Text} (h : hasDirective line = false) :
    importDirectives line = line := Text.replaceTokens_eq_self h

/-- Behind a brace comes what followed it, or the import of a directive. -/
theorem importDirectives_brace (rest : Text) :
    ∃ c more, importDirectives ('{' :: rest) = c :: more ∧ (c = '{' ∨ c = '<') := by
  cases h : directive ('{' :: rest) with
  | none => exact ⟨'{', _, Text.replaceTokens_cons_of_none h, .inl rfl⟩
  | some r => exact ⟨'<', _, Text.replaceTokens_cons_of_some h, .inr rfl⟩

theorem trimStart_importDirectives (line : Text) :
    (importDirectives line).trimStart = importDirectives line.trimStart := by
  have hstop : ∀ {c : Char} (more : Text), isBlank c = false →
      Text.trimStart (c :: more) = c :: more := fun more hc => by
    rw [Text.trimStart, List.dropWhile_cons, hc]
    rfl
  induction line with
  | nil => rfl
  | cons c rest ih =>
    by_cases hbrace : c = '{'
    · subst hbrace
      obtain ⟨d, more, hd, hchar⟩ := importDirectives_brace rest
      have hblank : isBlank d = false := by rcases hchar with rfl | rfl <;> decide
      rw [hstop rest (by decide), hd, hstop more hblank]
    · rw [importDirectives_cons_of_ne hbrace]
      cases hc : isBlank c with
      | true =>
        have hskip : ∀ t : Text, Text.trimStart (c :: t) = t.trimStart := fun t => by
          rw [Text.trimStart, List.dropWhile_cons, hc]
          rfl
        rw [hskip, hskip, ih]
      | false => rw [hstop _ hc, hstop _ hc, importDirectives_cons_of_ne hbrace]

/-- A mark that neither a directive nor an import can begin is seen or not as before. -/
theorem startsWith_importDirectives {mark : Text} (h : ∀ c ∈ mark, c ≠ '{' ∧ c ≠ '<')
    (line : Text) : (importDirectives line).startsWith mark = line.startsWith mark := by
  induction mark generalizing line with
  | nil => simp [Text.startsWith]
  | cons m mark ih =>
    obtain ⟨hbrace, hangle⟩ := h m (by simp)
    cases line with
    | nil => rfl
    | cons c rest =>
      by_cases hc : c = '{'
      · subst hc
        obtain ⟨d, more, hd, hchar⟩ := importDirectives_brace rest
        have hne : m ≠ d := by rcases hchar with rfl | rfl <;> assumption
        rw [hd, Text.startsWith, Text.startsWith, List.isPrefixOf_cons_cons,
          List.isPrefixOf_cons_cons, beq_false_of_ne hne, beq_false_of_ne hbrace]
        rfl
      · rw [importDirectives_cons_of_ne hc, Text.startsWith, Text.startsWith,
          List.isPrefixOf_cons_cons, List.isPrefixOf_cons_cons]
        exact congrArg ((m == c) && ·) (ih (fun d hd => h d (by simp [hd])) rest)

/-- **Fences stay fences**, and nothing becomes one. -/
theorem isFence_importDirectives (line : Text) :
    isFence (importDirectives line) = isFence line := by
  rw [isFence, trimStart_importDirectives, startsWith_importDirectives, isFence]
  intro c hc
  have : c = backtick := by simpa using hc
  rw [this]
  decide

/-! ## Imports -/

/-- An anchor is named by all that stands behind the colon. -/
theorem Selection.eq_trim_of_parse_eq_anchor {suffix name : Text}
    (h : Selection.parse suffix = .anchor name) : name = suffix.trim := by
  unfold Selection.parse at h
  split at h
  · rename_i single hfields
    have hsingle : suffix = single := by
      have hjoin : [':'].intercalate (suffix.splitOn ':') = suffix := List.intercalate_splitOn ':'
      rw [Text.fields] at hfields
      rw [← hjoin, hfields, List.intercalate_singleton]
    split at h
    · cases h
    · split at h
      · cases h
      · cases h
        rw [hsingle]
  · split at h
    all_goals cases h
    rfl
  · cases h
    rfl

namespace Target

/-- **The texts of a target** are parts of the body that it was read from. -/
theorem subset_of_parse (body : Text) :
    (parse body).path ⊆ body ∧ ∀ name, (parse body).selection = .anchor name → name ⊆ body := by
  have hargument : body.trim.dropLeading ['.', '/'] ⊆ body :=
    List.Subset.trans (Text.dropLeading_subset _ _) body.trim_isInfix.subset
  rw [parse]
  split
  · exact ⟨hargument, fun name hname => by cases hname⟩
  · rename_i path suffix hsplit
    obtain ⟨hpath, hsuffix⟩ := Text.subset_of_splitOnce hsplit
    refine ⟨List.Subset.trans hpath hargument, fun name hname => ?_⟩
    rw [Selection.eq_trim_of_parse_eq_anchor hname]
    exact List.Subset.trans suffix.trim_isInfix.subset (List.Subset.trans hsuffix hargument)

theorem newline_not_mem_braced {inner : Text} (h : '\n' ∉ inner) : '\n' ∉ braced inner := by
  simp [braced, h]

theorem newline_not_mem_toImport {target : Target} (hpath : '\n' ∉ target.path)
    (hname : ∀ name, target.selection = .anchor name → '\n' ∉ name) : '\n' ∉ target.toImport := by
  obtain ⟨path, selection⟩ := target
  have hmark : '\n' ∉ "<<< ".toList := by decide
  unfold toImport
  rw [List.mem_append, List.mem_append, not_or, not_or]
  refine ⟨⟨hmark, hpath⟩, ?_⟩
  cases selection with
  | all => exact List.not_mem_nil
  | starting first => exact newline_not_mem_braced (by simp [Text.newline_not_mem_ofNat])
  | ending last => exact newline_not_mem_braced (by simp [Text.newline_not_mem_ofNat])
  | range first last => exact newline_not_mem_braced (by simp [Text.newline_not_mem_ofNat])
  | anchor name => simp [hname name rfl]

end Target

/-- **Replacing the directives of a line** leaves one line. -/
theorem newline_not_mem_importDirectives {line : Text} (h : '\n' ∉ line) :
    '\n' ∉ importDirectives line := by
  refine Text.not_mem_replaceTokens h fun s target n hs hfind => ?_
  obtain ⟨opening, body, rest, -, rfl, -, -, rfl, -⟩ := eq_of_directive hfind
  have hbody : '\n' ∉ body := fun hmem => hs (by simp [hmem])
  obtain ⟨hpath, hname⟩ := Target.subset_of_parse body
  exact Target.newline_not_mem_toImport (fun hmem => hbody (hpath hmem))
    fun name heq hmem => hbody (hname name heq hmem)

end BookSite.Include
