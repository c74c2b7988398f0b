import BookSite.Proofs.Markdown.ImageEdits

/-!
# Proofs/Markdown/FenceFree — images make no fence

Whether a line is a fence shows in its blanks and backticks up to the first other character, a
**stop**.  An image reference begins with a stop, and a stop stands behind each of its parts.  So
the only lines that a tag can add to a text are those that begin inside of one of its values, and
they begin in the text as well (`fenceFree_replaceTags`).
-/

namespace BookSite

/-! ## Stops -/

/-- Whether a character decides that its line is no fence: it is neither blank nor a backtick. -/
def isStop (c : Char) : Bool := !isBlank c && c != backtick

/-- The lines of the text are no fences. -/
def FenceFree (t : Text) : Prop := ∀ l ∈ t.segments, isFence l = false

/-- The lines that begin inside of the text are no fences: all lines but the first one. -/
def LaterFenceFree (t : Text) : Prop := ∀ l ∈ t.segments.tail, isFence l = false

theorem fenceFree_append_newline (s t : Text) :
    FenceFree (s ++ '\n' :: t) ↔ FenceFree s ∧ FenceFree t := by
  rw [FenceFree, Text.segments_append_newline, List.forall_mem_append, FenceFree, FenceFree]

section Stop

variable {c : Char} (hc : isStop c = true)

include hc

/-- **What follows a stop does not matter** to whether a line is a fence. -/
theorem isFence_append_stop (front rest : Text) : isFence (front ++ c :: rest) = isFence front := by
  rw [isStop, Bool.and_eq_true, Bool.not_eq_true', bne_iff_ne] at hc
  have htrim : Text.trimStart (front ++ c :: rest) = front.trimStart ++ c :: rest := by
    rw [Text.trimStart, Text.trimStart, List.dropWhile_append, List.dropWhile_cons, hc.1]
    split
    · rename_i hempty
      rw [List.isEmpty_iff.mp hempty]
      rfl
    · rfl
  rw [isFence, isFence, htrim]
  exact Text.startsWith_append_cons (by simp [hc.2]) _ _

/-- **A stop cuts a text in two**: the lines up to it, and those that begin behind it. -/
theorem fenceFree_append_stop (front rest : Text) :
    FenceFree (front ++ c :: rest) ↔ FenceFree front ∧ LaterFenceFree rest := by
  have hnewline : c ≠ '\n' := by
    rintro rfl
    cases hc
  induction h : front.length using Nat.strongRecOn generalizing front with
  | ind k ih =>
    by_cases hmem : '\n' ∈ front
    · obtain ⟨above, below, rfl, -⟩ := List.eq_append_cons_of_mem hmem
      have hlength : below.length < k := by
        rw [List.length_append, List.length_cons] at h
        omega
      have hbelow : FenceFree (below ++ c :: rest) ↔ FenceFree below ∧ LaterFenceFree rest :=
        ih below.length hlength below rfl
      rw [List.append_assoc, List.cons_append, fenceFree_append_newline, hbelow,
        fenceFree_append_newline, and_assoc]
    · obtain ⟨first, later, hsegments⟩ :=
        List.exists_cons_of_ne_nil (Text.segments_ne_nil rest)
      have hfront : '\n' ∉ front ++ [c] := by simp [hmem, Ne.symm hnewline]
      have hlines : (front ++ c :: rest).segments = (front ++ c :: first) :: later := by
        rw [List.append_cons, Text.segments_append hfront, hsegments, List.modifyHead_cons,
          List.append_assoc, List.singleton_append]
      rw [FenceFree, hlines, List.forall_mem_cons, isFence_append_stop hc, FenceFree,
        Text.segments_of_not_mem hmem, List.forall_mem_singleton, LaterFenceFree, hsegments,
        List.tail_cons]

theorem laterFenceFree_append_stop (front rest : Text) :
    LaterFenceFree (front ++ c :: rest) ↔ LaterFenceFree front ∧ LaterFenceFree rest := by
  have hlater : ∀ t : Text, LaterFenceFree t ↔ FenceFree (c :: t) := by
    intro t
    have hcut := fenceFree_append_stop hc [] t
    have hempty : FenceFree [] := List.forall_mem_singleton.mpr rfl
    rw [List.nil_append] at hcut
    rw [hcut, and_iff_right hempty]
  rw [hlater, ← List.cons_append, fenceFree_append_stop hc, ← hlater]

theorem laterFenceFree_cons_stop (rest : Text) :
    LaterFenceFree (c :: rest) ↔ LaterFenceFree rest := by
  have hcut := laterFenceFree_append_stop hc [] rest
  have hempty : LaterFenceFree [] := List.forall_mem_nil _
  rwa [List.nil_append, and_iff_right hempty] at hcut

end Stop

namespace Image

/-! ## Values of attributes -/

theorem isStop_of_isQuote {c : Char} (h : isQuote c = true) : isStop c = true := by
  rw [isQuote, Bool.or_eq_true, beq_iff_eq, beq_iff_eq] at h
  rcases h with rfl | rfl <;> rfl

/-- A text stands between two stops inside of another one. -/
def StandsBetweenStops (value t : Text) : Prop :=
  ∃ before c d behind, t = before ++ c :: (value ++ d :: behind) ∧ isStop c = true ∧ isStop d = true

theorem StandsBetweenStops.laterFenceFree {value t : Text} (h : StandsBetweenStops value t)
    (ht : LaterFenceFree t) : LaterFenceFree value := by
  obtain ⟨before, c, d, behind, rfl, hc, hd⟩ := h
  have hbehind := ((laterFenceFree_append_stop hc _ _).mp ht).2
  exact ((laterFenceFree_append_stop hd _ _).mp hbehind).1

theorem StandsBetweenStops.of_isInfix {value part t : Text} (h : StandsBetweenStops value part)
    (hpart : part <:+: t) : StandsBetweenStops value t := by
  obtain ⟨before, c, d, behind, rfl, hstops⟩ := h
  obtain ⟨front, back, rfl⟩ := hpart
  exact ⟨front ++ before, c, d, behind ++ back, by simp, hstops⟩

theorem standsBetweenStops_of_valueHere? {name t value : Text}
    (h : valueHere? name t = some value) :
    StandsBetweenStops value t := by
  unfold valueHere? at h
  cases t with
  | nil => cases h
  | cons c rest =>
    simp only [List.head?_cons, List.tail_cons, Option.map_some, Option.bind_eq_bind,
      Option.bind_some] at h
    split at h
    · cases h
    · obtain ⟨behindName, hname, h⟩ := Option.bind_eq_some_iff.mp h
      obtain ⟨behindSign, hsign, h⟩ := Option.bind_eq_some_iff.mp h
      rw [Text.behind?_eq_some_iff] at hname hsign
      split at h
      · rename_i quote quoted hquoted
        split at h
        · rename_i hvalue
          cases h
          rw [Bool.and_eq_true, decide_eq_true_eq] at hvalue
          obtain ⟨quote', behind, hquote', heq⟩ :=
            Text.exists_stop_of_length_takeWhile_lt hvalue.2
          rw [Bool.not_eq_false'] at hquote'
          have hbehindName : behindName = behindName.leadingBlanks ++ '=' :: behindSign := by
            rw [← List.singleton_append, ← hsign, Text.leadingBlanks_append_trimStart]
          have hbehindSign : behindSign = behindSign.leadingBlanks ++ quote :: quoted := by
            rw [← hquoted, Text.leadingBlanks_append_trimStart]
          generalize quoted.takeWhile (!isQuote ·) = value at heq ⊢
          subst heq
          refine ⟨c :: (name ++ behindName.leadingBlanks ++ '=' :: behindSign.leadingBlanks), quote,
            quote', behind, ?_, isStop_of_isQuote hvalue.1, isStop_of_isQuote hquote'⟩
          calc c :: rest = c :: (name ++ (behindName.leadingBlanks ++ '=' ::
                (behindSign.leadingBlanks ++ quote :: (value ++ quote' :: behind)))) := by
                rw [hname, ← hbehindSign, ← hbehindName]
            _ = c :: (name ++ behindName.leadingBlanks ++ '=' :: behindSign.leadingBlanks) ++
                quote :: (value ++ quote' :: behind) := by simp
        · cases h
      · cases h

theorem standsBetweenStops_of_value? {accept : Text → Bool} {name t value : Text}
    (h : value? accept name t = some value) : StandsBetweenStops value t := by
  induction t with
  | nil => cases h
  | cons c rest ih =>
    rw [value?, Option.or_eq_some_iff] at h
    rcases h with h | ⟨-, h⟩
    · exact standsBetweenStops_of_valueHere? (Option.filter_eq_some_iff.mp h).1
    · exact (ih h).of_isInfix (List.suffix_cons c rest).isInfix

/-! ## Tags -/

/-- **What a tag is made of**: its name, its attributes and its end. -/
theorem TagToken.eq_of_find {s attributes : Text} {n : Nat}
    (h : find s = some (.tag attributes, n)) :
    ∃ slash rest, s = "<img".toList ++ (attributes ++ (slash ++ '>' :: rest)) ∧
      s.drop (n - 1 + 1) = rest := by
  unfold find at h
  split at h
  · cases h
  · obtain ⟨inside, hinside, heq⟩ := Option.map_eq_some_iff.mp h
    cases heq
    obtain ⟨behindName, hname, hinside⟩ := Option.bind_eq_some_iff.mp hinside
    rw [Text.behind?_eq_some_iff] at hname
    simp only at hinside
    split at hinside
    · rename_i hend
      cases hinside
      rw [Bool.and_eq_true, decide_eq_true_eq] at hend
      obtain ⟨stop, rest, hstop, heq⟩ := Text.exists_stop_of_length_takeWhile_lt hend.2
      generalize behindName.takeWhile (· != '>') = inside at heq ⊢
      subst heq
      have hclose : stop = '>' := by simpa using hstop
      subst hclose
      have hslash : ∃ slash, inside = (Text.dropTrailing? inside ['/']).getD inside ++ slash := by
        cases hdrop : Text.dropTrailing? inside ['/'] with
        | none => exact ⟨[], by simp⟩
        | some start => exact ⟨['/'], Text.eq_append_of_dropTrailing? hdrop⟩
      obtain ⟨slash, hslash⟩ := hslash
      refine ⟨slash, rest, ?_, ?_⟩
      · rw [hname, ← List.append_assoc _ slash, ← hslash]
      · have hwording : s = ("<img".toList ++ inside ++ ['>']) ++ rest := by rw [hname]; simp
        rw [hwording]
        exact List.drop_left' (by simp)
    · cases hinside

theorem laterFenceFree_rootPath {path : Text} (h : LaterFenceFree path) :
    LaterFenceFree (rootPath path) := by
  unfold rootPath
  split
  · exact h
  · rw [laterFenceFree_cons_stop (c := '/') rfl, Text.dropLeading]
    cases hdot : path.behind? ['.', '/'] with
    | none => exact h
    | some rest =>
      rw [Text.behind?_eq_some_iff] at hdot
      subst hdot
      exact ((laterFenceFree_append_stop (c := '/') rfl ['.'] rest).mp h).2

/-- **The reference of a tag makes no fence**: where the tag stands without any, so does the
reference. -/
theorem fenceFree_append_tagReference {before attributes slash rest reference : Text}
    (hreference : tagReference? attributes = some reference)
    (h : FenceFree (before ++ ("<img".toList ++ (attributes ++ (slash ++ '>' :: rest))))) :
    FenceFree (before ++ (reference ++ rest)) := by
  obtain ⟨path, hpath, rfl⟩ := Option.map_eq_some_iff.mp hreference
  obtain ⟨hbefore, htag⟩ := (fenceFree_append_stop (c := '<') rfl before
    ("img".toList ++ (attributes ++ (slash ++ '>' :: rest)))).mp h
  have hattributes : attributes <:+: "img".toList ++ attributes ++ slash := ⟨_, _, rfl⟩
  rw [← List.append_assoc, ← List.append_assoc, laterFenceFree_append_stop (c := '>') rfl] at htag
  have hvalue : ∀ value, StandsBetweenStops value attributes → LaterFenceFree value :=
    fun _ hvalue => (hvalue.of_isInfix hattributes).laterFenceFree htag.1
  have halt : LaterFenceFree ((value? (fun _ => true) "alt".toList attributes).getD []) := by
    cases halt : value? (fun _ => true) "alt".toList attributes with
    | none => exact List.forall_mem_nil _
    | some alt => exact hvalue alt (standsBetweenStops_of_value? halt)
  have hroot := laterFenceFree_rootPath (hvalue path (standsBetweenStops_of_value? hpath))
  generalize (value? (fun _ => true) "alt".toList attributes).getD [] = alt at halt ⊢
  have hparts : before ++ (Image.reference alt (rootPath path) [] ++ rest) =
      before ++ '!' :: '[' :: (alt ++ ']' :: '(' :: (rootPath path ++ ')' :: rest)) := by
    simp [Image.reference]
  rw [hparts, fenceFree_append_stop (c := '!') rfl, laterFenceFree_cons_stop (c := '[') rfl,
    laterFenceFree_append_stop (c := ']') rfl, laterFenceFree_cons_stop (c := '(') rfl,
    laterFenceFree_append_stop (c := ')') rfl]
  exact ⟨hbefore, halt, hroot, htag.2⟩

theorem fenceFree_replaceTags {t : Text} (h : FenceFree t) : FenceFree (replaceTags t) := by
  refine Text.keeps_replaceTokens (fun before s found n hfind hs => ?_) h
  have hsame : FenceFree (before ++ (s.take (n - 1 + 1) ++ s.drop (n - 1 + 1))) := by
    rwa [List.take_append_drop]
  cases found with
  | codeSpan => exact hsame
  | tag attributes =>
    cases hreference : tagReference? attributes with
    | none =>
      simp only [hreference, Option.getD_none]
      exact hsame
    | some reference =>
      obtain ⟨slash, rest, rfl, hrest⟩ := TagToken.eq_of_find hfind
      simp only [hreference, Option.getD_some, hrest]
      exact fenceFree_append_tagReference hreference hs

/-! ## References -/

theorem ReferenceToken.eq_bang_cons_of_find {s alt path title : Text} {n : Nat}
    (h : find s = some (.image alt path title, n)) : ∃ rest, s = '!' :: rest := by
  unfold find at h
  split at h
  · cases h
  · split at h
    · rename_i himage
      obtain ⟨rest, hrest, -⟩ := Option.bind_eq_some_iff.mp himage
      exact ⟨_, Text.behind?_eq_some_iff.mp hrest⟩
    · cases h

/-- A line that is no fence is none with its references rooted. -/
theorem not_isFence_rootReferences {line : Text} (h : isFence line = false) :
    isFence (rootReferences line) = false := by
  refine Text.keeps_replaceTokens (P := fun t => isFence t = false)
    (fun before s found n hfind hs => ?_) h
  have hsame : isFence (before ++ (s.take (n - 1 + 1) ++ s.drop (n - 1 + 1))) = false := by
    rwa [List.take_append_drop]
  cases found with
  | codeSpan => exact hsame
  | image alt path title =>
    simp only
    split
    · exact hsame
    · obtain ⟨rest, rfl⟩ := ReferenceToken.eq_bang_cons_of_find hfind
      rw [isFence_append_stop (c := '!') rfl] at hs
      exact (isFence_append_stop (c := '!') rfl before _).trans hs

/-- **A run of prose becomes prose.** -/
theorem not_isFence_of_mem_convertRun {lines : List Text} (hlines : Text.ArePageLines lines)
    (hfence : ∀ l ∈ lines, isFence l = false) : ∀ l ∈ convertRun lines, isFence l = false := by
  have hfree : FenceFree (replaceTags (Text.unlines lines)) :=
    fenceFree_replaceTags (by rwa [FenceFree, hlines.segments_unlines])
  intro l hl
  obtain ⟨line, hline, rfl⟩ := List.mem_map.mp hl
  exact not_isFence_rootReferences (hfree line hline)

end Image

end BookSite
