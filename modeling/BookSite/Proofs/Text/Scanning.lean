import BookSite.Text.Scan
import Mathlib.Data.List.Basic
import Mathlib.Data.List.Lex
import Mathlib.Data.List.TakeWhile

/-!
# Proofs/Text/Scanning — what a scan finds and what it leaves alone

A scan passes over one character where its finder sees nothing, and over a whole token where it sees
one (`scan_induction`).  So a text in which nothing is found stays as it is, and two texts are
scanned one after the other when the second one changes nothing that is seen in the first
(`replaceTokens_append`).
-/

namespace BookSite.Text

variable {α : Type} {find : Finder α} {write : Text → α → Text}

/-! ## The front of a text

Finders look at a front that a stop ends, and nothing behind the stop changes what they see. -/

theorem takeWhile_append_cons {β : Type} {p : β → Bool} {stop : β} (h : p stop = false)
    (xs ys : List β) : (xs ++ stop :: ys).takeWhile p = xs.takeWhile p := by
  rw [List.takeWhile_append, List.takeWhile_cons, h]
  split
  · rename_i hlength
    rw [( List.takeWhile_prefix p).eq_of_length hlength]
    simp
  · rfl

/-- A stop comes first somewhere or not at all. -/
theorem forall_or_exists_stop {β : Type} (p : β → Bool) (xs : List β) :
    (∀ x ∈ xs, p x = true) ∨
      ∃ front stop rest, xs = front ++ stop :: rest ∧ (∀ x ∈ front, p x = true) ∧
        p stop = false := by
  induction xs with
  | nil => exact .inl (List.forall_mem_nil _)
  | cons y ys ih =>
    cases hy : p y with
    | false => exact .inr ⟨[], y, ys, rfl, List.forall_mem_nil _, hy⟩
    | true =>
      obtain hall | ⟨front, stop, rest, rfl, hfront, hstop⟩ := ih
      · exact .inl (List.forall_mem_cons.mpr ⟨hy, hall⟩)
      · exact .inr ⟨y :: front, stop, rest, rfl, List.forall_mem_cons.mpr ⟨hy, hfront⟩, hstop⟩

/-- A front that is not the whole text ends in front of a stop. -/
theorem exists_stop_of_length_takeWhile_lt {β : Type} {p : β → Bool} {xs : List β}
    (h : (xs.takeWhile p).length < xs.length) :
    ∃ stop rest, p stop = false ∧ xs = xs.takeWhile p ++ stop :: rest := by
  obtain hall | ⟨front, stop, rest, rfl, hfront, hstop⟩ := forall_or_exists_stop p xs
  · rw [List.takeWhile_eq_self_iff.mpr hall] at h
    exact absurd h (lt_irrefl _)
  · refine ⟨stop, rest, hstop, ?_⟩
    rw [takeWhile_append_cons hstop, List.takeWhile_eq_self_iff.mpr hfront]

/-- No stop is in front of the first one. -/
theorem not_mem_takeWhile_bne (stop : Char) (t : Text) : stop ∉ t.takeWhile (· != stop) :=
  fun hmem => by simpa using List.mem_takeWhile_imp hmem

section UpToStop

variable {stop : Char} {inner : Text} (h : stop ∉ inner)

include h

theorem takeWhile_bne : inner.takeWhile (· != stop) = inner := by
  rw [List.takeWhile_eq_self_iff]
  intro c hc
  rw [bne_iff_ne]
  rintro rfl
  exact h hc

/-- The text in front of its first stop. -/
theorem takeWhile_bne_append (rest : Text) :
    (inner ++ stop :: rest).takeWhile (· != stop) = inner := by
  rw [takeWhile_append_cons (p := (· != stop)) (bne_self_eq_false stop), takeWhile_bne h]

/-- A text without the stop stands in front of the first stop of what follows. -/
theorem takeWhile_bne_append_of_not_mem (rest : Text) :
    (inner ++ rest).takeWhile (· != stop) = inner ++ rest.takeWhile (· != stop) :=
  List.takeWhile_append_of_pos fun _ hc => bne_iff_ne.mpr (ne_of_mem_of_not_mem hc h)

/-- The text from its first stop on. -/
theorem dropWhile_bne_append (rest : Text) :
    (inner ++ stop :: rest).dropWhile (· != stop) = stop :: rest := by
  have hlength : (inner ++ stop :: rest).takeWhile (· != stop) ++
      (inner ++ stop :: rest).dropWhile (· != stop) = inner ++ stop :: rest :=
    List.takeWhile_append_dropWhile
  rwa [takeWhile_bne_append h, List.append_cancel_left_eq] at hlength

/-- A text is cut at the first mark. -/
theorem splitOnce_append (rest : Text) :
    splitOnce stop (inner ++ stop :: rest) = some (inner, rest) := by
  rw [splitOnce, dropWhile_bne_append h, takeWhile_bne_append h]

end UpToStop

/-- What is not in the front of two texts together. -/
theorem not_mem_takeWhile_append_iff {stop c : Char} {s t : Text} :
    c ∉ (s ++ t).takeWhile (· != stop) ↔
      c ∉ s.takeWhile (· != stop) ∧ (stop ∉ s → c ∉ t.takeWhile (· != stop)) := by
  by_cases hstop : stop ∈ s
  · obtain ⟨front, rest, rfl, hfront⟩ := List.eq_append_cons_of_mem hstop
    rw [List.append_assoc, List.cons_append, takeWhile_bne_append hfront,
      takeWhile_bne_append hfront]
    exact (and_iff_left fun hno => absurd hstop hno).symm
  · rw [takeWhile_bne_append_of_not_mem hstop, takeWhile_bne hstop, List.mem_append, not_or,
      forall_prop_of_true hstop]

/-- A mark without the stop is found in front of the stop or not at all. -/
theorem behind?_append_cons {mark : Text} {stop : Char} (h : stop ∉ mark) (t more : Text) :
    behind? (t ++ stop :: more) mark = (behind? t mark).map (· ++ stop :: more) := by
  induction mark generalizing t with
  | nil => rfl
  | cons m mark ih =>
    rw [List.mem_cons, not_or] at h
    cases t with
    | nil => exact if_neg (by simpa using Ne.symm h.1)
    | cons c t =>
      by_cases hm : m = c
      · subst hm
        have hcons : ∀ u : Text, behind? (m :: u) (m :: mark) = behind? u mark := fun _ =>
          if_pos (beq_self_eq_true m)
        rw [List.cons_append, hcons, hcons, ih h.2]
      · have hcons : ∀ u : Text, behind? (c :: u) (m :: mark) = none := fun _ =>
          if_neg (by simpa using hm)
        rw [List.cons_append, hcons, hcons]
        rfl

theorem startsWith_append_cons {mark : Text} {stop : Char} (h : stop ∉ mark) (t more : Text) :
    startsWith (t ++ stop :: more) mark = startsWith t mark := by
  have hsome : ∀ u : Text, u.startsWith mark = (behind? u mark).isSome := fun u =>
    (List.isSome_isPrefixOf?_eq_isPrefixOf mark u).symm
  rw [hsome, hsome, behind?_append_cons h, Option.isSome_map]

/-- **A mark without the stop** stands in front of the stop or behind it. -/
theorem isInfix_of_isInfix_append_cons {mark : Text} {stop : Char} (h : stop ∉ mark) {t more : Text}
    (hin : mark <:+: t ++ stop :: more) : mark <:+: t ∨ mark <:+: more := by
  have hstart : ∀ t : Text, mark <+: t ++ stop :: more → mark <+: t := by
    intro t hstart
    rw [← List.isPrefixOf_iff_prefix] at hstart ⊢
    exact (startsWith_append_cons h t more).symm.trans hstart
  induction t with
  | nil =>
    rcases List.infix_cons_iff.mp hin with hin | hin
    · exact .inl (hstart [] hin).isInfix
    · exact .inr hin
  | cons c t ih =>
    rcases List.infix_cons_iff.mp hin with hin | hin
    · exact .inl (hstart (c :: t) hin).isInfix
    · exact (ih hin).imp_left fun hin => hin.trans (List.suffix_cons c t).isInfix

/-- **A mark that begins with its only stop** stands in front of a stop, or begins there, or stands
behind it. -/
theorem isInfix_append_cons_cases {stop : Char} {mark : Text} (h : stop ∉ mark) {t more : Text}
    (hin : stop :: mark <:+: t ++ stop :: more) :
    stop :: mark <:+: t ∨ mark <+: more ∨ stop :: mark <:+: more := by
  induction t with
  | nil =>
    rcases List.infix_cons_iff.mp hin with hin | hin
    · exact .inr (.inl (List.cons_prefix_cons.mp hin).2)
    · exact .inr (.inr hin)
  | cons c t ih =>
    rcases List.infix_cons_iff.mp hin with hin | hin
    · obtain ⟨rfl, hmark⟩ := List.cons_prefix_cons.mp hin
      have hfront : mark <+: t := by
        rw [← List.isPrefixOf_iff_prefix] at hmark ⊢
        exact (startsWith_append_cons h t more).symm.trans hmark
      exact .inl (List.cons_prefix_cons.mpr ⟨rfl, hfront⟩).isInfix
    · exact (ih hin).imp_left fun hin => hin.trans (List.suffix_cons c t).isInfix

/-! ## One step of a scan -/

@[simp] theorem scan_nil : scan find [] = [] := rfl

theorem scan_cons_of_none {c : Char} {rest : Text} (h : find (c :: rest) = none) :
    scan find (c :: rest) = .char c :: scan find rest := by
  rw [scan, scanFrom, h]
  rfl

theorem scan_cons_of_some {c : Char} {rest : Text} {found : α} {n : Nat}
    (h : find (c :: rest) = some (found, n)) :
    scan find (c :: rest) =
      .token ((c :: rest).take (n - 1 + 1)) found :: scan find (rest.drop (n - 1)) := by
  rw [scan, scanFrom, h]
  simp only
  rw [scanFrom_eq_drop]
  rfl

@[simp] theorem replaceTokens_nil : replaceTokens find write [] = [] := rfl

theorem replaceTokens_cons_of_none {c : Char} {rest : Text} (h : find (c :: rest) = none) :
    replaceTokens find write (c :: rest) = c :: replaceTokens find write rest := by
  rw [replaceTokens, scan_cons_of_none h]
  rfl

theorem replaceTokens_cons_of_some {c : Char} {rest : Text} {found : α} {n : Nat}
    (h : find (c :: rest) = some (found, n)) :
    replaceTokens find write (c :: rest) =
      write ((c :: rest).take (n - 1 + 1)) found ++
        replaceTokens find write (rest.drop (n - 1)) := by
  rw [replaceTokens, scan_cons_of_some h]
  rfl

/-- **Induction over a scan**: past a character outside all tokens, or past a token. -/
theorem scan_induction (find : Finder α) {P : Text → Prop} (nil : P [])
    (char : ∀ c rest, find (c :: rest) = none → P rest → P (c :: rest))
    (token : ∀ c rest found n, find (c :: rest) = some (found, n) → P (rest.drop (n - 1)) →
      P (c :: rest)) (t : Text) : P t := by
  induction h : t.length using Nat.strongRecOn generalizing t with
  | ind k ih =>
    cases t with
    | nil => exact nil
    | cons c rest =>
      rw [List.length_cons] at h
      cases hfind : find (c :: rest) with
      | none => exact char c rest hfind (ih rest.length (by omega) rest rfl)
      | some r =>
        have hlength : (rest.drop (r.2 - 1)).length < k := by
          rw [List.length_drop]
          omega
        exact token c rest r.1 r.2 hfind (ih _ hlength _ rfl)

/-! ## The pieces -/

/-- **A piece** is a character of the text, or what the finder sees at the front of an end of it. -/
theorem mem_scan {t : Text} {piece : Piece α} (h : piece ∈ scan find t) :
    (∃ c ∈ t, piece = .char c) ∨
      ∃ s found n, s <:+ t ∧ find s = some (found, n) ∧
        piece = .token (s.take (n - 1 + 1)) found := by
  induction t using scan_induction find with
  | nil => simp at h
  | char c rest hfind ih =>
    rw [scan_cons_of_none hfind, List.mem_cons] at h
    rcases h with rfl | h
    · exact .inl ⟨c, by simp, rfl⟩
    · obtain ⟨d, hd, rfl⟩ | ⟨s, found, n, hs, hrest⟩ := ih h
      · exact .inl ⟨d, List.mem_cons_of_mem _ hd, rfl⟩
      · exact .inr ⟨s, found, n, hs.trans (List.suffix_cons c rest), hrest⟩
  | token c rest found n hfind ih =>
    rw [scan_cons_of_some hfind, List.mem_cons] at h
    rcases h with rfl | h
    · exact .inr ⟨_, found, n, List.suffix_refl _, hfind, rfl⟩
    · have hsuffix : rest.drop (n - 1) <:+ c :: rest :=
        (List.drop_suffix _ _).trans (List.suffix_cons c rest)
      obtain ⟨d, hd, rfl⟩ | ⟨s, found, n, hs, hrest⟩ := ih h
      · exact .inl ⟨d, hsuffix.mem hd, rfl⟩
      · exact .inr ⟨s, found, n, hs.trans hsuffix, hrest⟩

/-- The wording of a token is a part of the text. -/
theorem wording_isInfix {t wording : Text} {found : α} (h : .token wording found ∈ scan find t) :
    wording <:+: t := by
  have hpart := List.infix_of_mem_flatten (List.mem_map_of_mem (f := Piece.wording) h)
  rwa [← List.flatMap_def, flatMap_wording_scan] at hpart

/-- What is written for a token is a part of the result. -/
theorem write_isInfix {t wording : Text} {found : α} (h : .token wording found ∈ scan find t) :
    write wording found <:+: replaceTokens find write t := by
  rw [replaceTokens, List.flatMap_def]
  exact List.infix_of_mem_flatten (List.mem_map_of_mem h)

/-! ## The tokens -/

/-- What is found at a piece. -/
def Piece.found? : Piece α → Option α
  | .char _ => none
  | .token _ found => some found

/-- **What is found in a text**, from left to right. -/
def tokens (find : Finder α) (t : Text) : List α := (scan find t).filterMap Piece.found?

theorem mem_tokens_iff {t : Text} {found : α} :
    found ∈ tokens find t ↔ ∃ wording, .token wording found ∈ scan find t := by
  rw [tokens, List.mem_filterMap]
  constructor
  · rintro ⟨_ | ⟨wording, found'⟩, hpiece, hfound⟩
    · cases hfound
    · cases hfound
      exact ⟨wording, hpiece⟩
  · rintro ⟨wording, hpiece⟩
    exact ⟨_, hpiece, rfl⟩

theorem tokens_cons_of_none {c : Char} {rest : Text} (h : find (c :: rest) = none) :
    tokens find (c :: rest) = tokens find rest := by
  rw [tokens, scan_cons_of_none h]
  rfl

theorem tokens_cons_of_some {c : Char} {rest : Text} {found : α} {n : Nat}
    (h : find (c :: rest) = some (found, n)) :
    tokens find (c :: rest) = found :: tokens find (rest.drop (n - 1)) := by
  rw [tokens, scan_cons_of_some h]
  rfl

/-! ## Finding nothing -/

theorem finds_cons (c : Char) (rest : Text) :
    finds find (c :: rest) = ((find (c :: rest)).isSome || finds find rest) := by
  rw [finds, findFirst]
  cases find (c :: rest) with
  | none => simp [finds]
  | some r => rfl

/-- Something is found in a text when it is seen at the front of what follows some character. -/
theorem finds_append_of_isSome (before : Text) {t : Text} (hne : t ≠ []) (h : (find t).isSome) :
    finds find (before ++ t) = true := by
  induction before with
  | nil =>
    obtain ⟨c, rest, rfl⟩ := List.exists_cons_of_ne_nil hne
    rw [List.nil_append, finds_cons, h, Bool.true_or]
  | cons c before ih => rw [List.cons_append, finds_cons, ih, Bool.or_true]

/-- Where something is found the scan has a token. -/
theorem exists_token_of_finds {t : Text} (h : finds find t = true) :
    ∃ wording found, .token wording found ∈ scan find t := by
  induction t with
  | nil => cases h
  | cons c rest ih =>
    cases hfind : find (c :: rest) with
    | some r =>
      obtain ⟨found, n⟩ := r
      refine ⟨(c :: rest).take (n - 1 + 1), found, ?_⟩
      rw [scan_cons_of_some hfind]
      exact List.mem_cons_self
    | none =>
      rw [finds_cons, hfind, Option.isSome_none, Bool.false_or] at h
      obtain ⟨wording, found, hmem⟩ := ih h
      exact ⟨wording, found, by rw [scan_cons_of_none hfind]; simp [hmem]⟩

theorem finds_eq_false {t : Text} (h : ∀ s, s <:+ t → find s = none) : finds find t = false := by
  induction t with
  | nil => rfl
  | cons c rest ih =>
    rw [finds_cons, h _ (List.suffix_refl _),
      ih fun s hs => h s (hs.trans (List.suffix_cons c rest))]
    rfl

/-- **The first thing found** stands behind the text before it. -/
theorem eq_append_of_findFirst {t before behind : Text} {found : α}
    (h : findFirst find t = some (before, found, behind)) :
    ∃ s n, t = before ++ s ∧ find s = some (found, n) ∧ behind = s.drop n := by
  induction t generalizing before with
  | nil => cases h
  | cons c rest ih =>
    rw [findFirst] at h
    split at h
    · rename_i found' n hfind
      cases h
      exact ⟨_, n, rfl, hfind, rfl⟩
    · obtain ⟨⟨before', found', behind'⟩, hrest, heq⟩ := Option.map_eq_some_iff.mp h
      cases heq
      obtain ⟨s, n, rfl, hfind⟩ := ih hrest
      exact ⟨s, n, rfl, hfind⟩

/-- Nothing is found further to the front. -/
theorem find_eq_none_of_findFirst {t before behind : Text} {found : α}
    (h : findFirst find t = some (before, found, behind)) {before' s : Text} (ht : t = before' ++ s)
    (hlength : before'.length < before.length) : find s = none := by
  induction t generalizing before before' with
  | nil => cases h
  | cons c rest ih =>
    rw [findFirst] at h
    split at h
    · cases h
      cases hlength
    · rename_i hnone
      obtain ⟨⟨before'', found', behind'⟩, hrest, heq⟩ := Option.map_eq_some_iff.mp h
      cases heq
      cases before' with
      | nil => rwa [← List.nil_append s, ← ht]
      | cons d before' => exact ih hrest (List.cons.inj ht).2 (Nat.lt_of_succ_lt_succ hlength)

theorem find_eq_none_of_findFirst_eq_none {t : Text} (h : findFirst find t = none)
    {before' s : Text} (ht : t = before' ++ s) (hne : s ≠ []) : find s = none := by
  by_contra hsome
  have hfinds : finds find t = true :=
    ht ▸ finds_append_of_isSome before' hne (Option.isSome_iff_ne_none.mpr hsome)
  rw [finds, h] at hfinds
  cases hfinds

/-- **A text in which nothing is found stays as it is.** -/
theorem replaceTokens_eq_self {t : Text} (h : finds find t = false) :
    replaceTokens find write t = t := by
  induction t with
  | nil => rfl
  | cons c rest ih =>
    rw [finds_cons, Bool.or_eq_false_iff, Option.isSome_eq_false_iff, Option.isNone_iff_eq_none]
      at h
    rw [replaceTokens_cons_of_none h.1, ih h.2]

/-- Pieces are replaced by their wordings when each token is written as it was. -/
theorem flatMap_replace_eq_flatMap_wording (pieces : List (Piece α))
    (h : ∀ wording found, .token wording found ∈ pieces → write wording found = wording) :
    pieces.flatMap (Piece.replace write) = pieces.flatMap Piece.wording := by
  refine List.flatMap_congr fun piece hpiece => ?_
  cases piece with
  | char c => rfl
  | token wording found => exact h wording found hpiece

/-- A text stays as it is when each of its tokens is written as it was. -/
theorem replaceTokens_eq_self_of_tokens {t : Text}
    (h : ∀ wording found, .token wording found ∈ scan find t → write wording found = wording) :
    replaceTokens find write t = t := by
  rw [replaceTokens, flatMap_replace_eq_flatMap_wording _ h, flatMap_wording_scan]

/-! ## The first token that changes -/

/-- **The first token that changes decides** how the result compares with the text, when every
token that changes does so before it or what is written for it ends. -/
theorem lex_replaceTokens {r : Char → Char → Prop} {t : Text}
    (h : ∀ wording found, .token wording found ∈ scan find t →
      write wording found = wording ∨
        ∀ x y, List.Lex r (wording ++ x) (write wording found ++ y))
    {wording : Text} {found : α} (hmem : .token wording found ∈ scan find t)
    (hne : write wording found ≠ wording) : List.Lex r t (replaceTokens find write t) := by
  rw [replaceTokens]
  nth_rewrite 1 [← flatMap_wording_scan find t]
  generalize scan find t = pieces at h hmem
  induction pieces with
  | nil => cases hmem
  | cons piece pieces ih =>
    have hrest : ∀ wording found, .token wording found ∈ pieces →
        write wording found = wording ∨
          ∀ x y, List.Lex r (wording ++ x) (write wording found ++ y) :=
      fun wording found hmem => h wording found (List.mem_cons_of_mem _ hmem)
    rw [List.flatMap_cons, List.flatMap_cons]
    rcases List.mem_cons.mp hmem with rfl | hlater
    · exact (h wording found List.mem_cons_self).resolve_left hne _ _
    · cases piece with
      | char c => exact List.Lex.append_left r (ih hrest hlater) [c]
      | token wording' found' =>
        obtain hsame | hlex := h wording' found' List.mem_cons_self
        · rw [Piece.replace, hsame]
          exact List.Lex.append_left r (ih hrest hlater) wording'
        · exact hlex _ _

/-! ## The characters of the result -/

/-- A character that neither the text nor any replacement holds is not in the result. -/
theorem not_mem_replaceTokens {x : Char} {t : Text} (ht : x ∉ t)
    (hwrite : ∀ s found n, x ∉ s → find s = some (found, n) →
      x ∉ write (s.take (n - 1 + 1)) found) : x ∉ replaceTokens find write t := by
  induction t using scan_induction find with
  | nil => simp
  | char c rest hfind ih =>
    rw [List.mem_cons, not_or] at ht
    rw [replaceTokens_cons_of_none hfind, List.mem_cons, not_or]
    exact ⟨ht.1, ih ht.2⟩
  | token c rest found n hfind ih =>
    rw [replaceTokens_cons_of_some hfind, List.mem_append, not_or]
    refine ⟨hwrite _ _ _ ht hfind, ih fun hx => ht ?_⟩
    exact List.mem_cons_of_mem _ (List.mem_of_mem_drop hx)

section Keeps

variable {P : Text → Prop}
  (hwrite : ∀ before s found n, find s = some (found, n) → P (before ++ s) →
    P (before ++ (write (s.take (n - 1 + 1)) found ++ s.drop (n - 1 + 1))))

include hwrite

theorem keeps_append_replaceTokens {before t : Text} (h : P (before ++ t)) :
    P (before ++ replaceTokens find write t) := by
  induction t using scan_induction find generalizing before with
  | nil => exact h
  | char c rest hfind ih =>
    rw [replaceTokens_cons_of_none hfind]
    have hrest : P (before ++ [c] ++ rest) := by rwa [List.append_assoc]
    have hreplaced := ih hrest
    rwa [List.append_assoc] at hreplaced
  | token c rest found n hfind ih =>
    rw [replaceTokens_cons_of_some hfind, ← List.append_assoc]
    refine ih ?_
    rw [List.append_assoc]
    exact hwrite before (c :: rest) found n hfind h

/-- **What replacing one token keeps, replacing all of them keeps**: a property of texts that stays
when a token is replaced where it stands, whatever is in front of it. -/
theorem keeps_replaceTokens {t : Text} (h : P t) : P (replaceTokens find write t) := by
  have hempty : P ([] ++ t) := h
  exact keeps_append_replaceTokens hwrite hempty

end Keeps

/-! ## Scanning the result -/

/-- **In the result of an edit the same tokens are found**, each `again` in its place, when what is
written for a token is found as one, and no token is found where there was none. -/
theorem tokens_replaceTokens (again : α → α)
    (hchar : ∀ c rest, find (c :: rest) = none →
      find (c :: replaceTokens find write rest) = none)
    (htoken : ∀ s found n, find s = some (found, n) → ∃ c w,
      write (s.take (n - 1 + 1)) found = c :: w ∧
        ∀ more, find (c :: (w ++ more)) = some (again found, w.length + 1)) (t : Text) :
    tokens find (replaceTokens find write t) = (tokens find t).map again := by
  induction t using scan_induction find with
  | nil => rfl
  | char c rest hnone ih =>
    rw [replaceTokens_cons_of_none hnone, tokens_cons_of_none (hchar c rest hnone),
      tokens_cons_of_none hnone, ih]
  | token c rest found n hsome ih =>
    obtain ⟨d, w, hwritten, hfound⟩ := htoken _ _ _ hsome
    rw [replaceTokens_cons_of_some hsome, hwritten, List.cons_append,
      tokens_cons_of_some (hfound _), tokens_cons_of_some hsome, List.map_cons, ← ih]
    simp

/-! ## Two texts one after the other -/

/-- **Texts are scanned one after the other** when the second one changes nothing of what the finder
sees in the first, and no token is longer than the text it is seen in. -/
theorem replaceTokens_append {xs ys : Text}
    (hfind : ∀ s, s <:+ xs → s ≠ [] → find (s ++ ys) = find s)
    (hlength : ∀ s found n, find s = some (found, n) → n ≤ s.length) :
    replaceTokens find write (xs ++ ys) =
      replaceTokens find write xs ++ replaceTokens find write ys := by
  induction xs using scan_induction find with
  | nil => rfl
  | char c rest hnone ih =>
    have hboth : find (c :: (rest ++ ys)) = none :=
      (hfind (c :: rest) (List.suffix_refl _) (by simp)).trans hnone
    rw [List.cons_append, replaceTokens_cons_of_none hboth, replaceTokens_cons_of_none hnone,
      List.cons_append, ih fun s hs => hfind s (hs.trans (List.suffix_cons c rest))]
  | token c rest found n hsome ih =>
    have hboth : find (c :: (rest ++ ys)) = some (found, n) :=
      (hfind (c :: rest) (List.suffix_refl _) (by simp)).trans hsome
    have hn : n - 1 ≤ rest.length := by
      have := hlength _ _ _ hsome
      rw [List.length_cons] at this
      omega
    have htake : (c :: (rest ++ ys)).take (n - 1 + 1) = (c :: rest).take (n - 1 + 1) := by
      rw [List.take_succ_cons, List.take_succ_cons, List.take_append_of_le_length hn]
    have hdrop : (rest ++ ys).drop (n - 1) = rest.drop (n - 1) ++ ys :=
      List.drop_append_of_le_length hn
    have hsuffix : rest.drop (n - 1) <:+ c :: rest :=
      (List.drop_suffix _ _).trans (List.suffix_cons c rest)
    rw [List.cons_append, replaceTokens_cons_of_some hboth, replaceTokens_cons_of_some hsome, htake,
      hdrop, ih fun s hs => hfind s (hs.trans hsuffix), List.append_assoc]

end BookSite.Text
