import BookSite.Proofs.Outline.Print
import BookSite.Proofs.Text.Blanks

/-!
# Proofs/Outline/EntryLines — the lines that hold an entry

      12. [Install](guide/install.md)

A line holds an entry when it is made of an indentation, perhaps a list marker with blanks behind
it, a title in brackets and a target in parentheses, and blanks after them.  Each of these parts
ends where the next one begins, so no line is made of them in two ways.
-/

namespace BookSite.Outline

/-! ## The parts of a line -/

/-- **A list marker**: a bullet, or digits and a dot. -/
inductive IsMarker : Text → Prop
  | bullet {c : Char} (h : c ∈ ['-', '*', '+']) : IsMarker [c]
  | number {digits : Text} (hne : digits ≠ []) (h : ∀ c ∈ digits, isDigit c = true) :
      IsMarker (digits ++ ['.'])

/-- A list marker with the blanks behind it. -/
@[ext]
structure Marking where
  marker : Text
  blanks : Text
  isMarker : IsMarker marker
  blanks_ne_nil : blanks ≠ []
  isBlank_of_mem : ∀ c ∈ blanks, isBlank c = true

/-- A marker with its blanks as a text; without a marker there are none. -/
def markingText : Option Marking → Text
  | none => []
  | some m => m.marker ++ m.blanks

/-- **A line that holds an entry**, by its parts. -/
@[ext]
structure EntryLine where
  indentation : Text
  marking : Option Marking
  title : Text
  target : Text
  ending : Text
  space_or_tab : ∀ c ∈ indentation, c = ' ' ∨ c = '\t'
  title_ne_nil : title ≠ []
  bracket_not_mem : ']' ∉ title
  target_ne_nil : target ≠ []
  paren_not_mem : ')' ∉ target
  isBlank_of_mem_ending : ∀ c ∈ ending, isBlank c = true

namespace EntryLine

/-- What stands behind the opening bracket. -/
def link (l : EntryLine) : Text := l.title ++ "](".toList ++ l.target ++ ')' :: l.ending

/-- The parts put together. -/
def text (l : EntryLine) : Text := l.indentation ++ markingText l.marking ++ '[' :: l.link

/-- **The entry of a line**: a tab is as wide as two spaces, and two columns make a level. -/
def entry (l : EntryLine) : Entry where
  title := l.title
  link := l.target.trim
  level := (l.indentation.count ' ' + 2 * l.indentation.count '\t') / 2 + 1

end EntryLine

/-! ## Indentations -/

theorem isIndentation_iff {c : Char} : isIndentation c = true ↔ c = ' ' ∨ c = '\t' := by
  simp [isIndentation]

/-- The columns of an indentation, by its spaces and tabs. -/
theorem columns_eq_count {t : Text} (h : ∀ c ∈ t, c = ' ' ∨ c = '\t') :
    columns t = t.count ' ' + 2 * t.count '\t' := by
  induction t with
  | nil => rfl
  | cons c t ih =>
    obtain ⟨hc, ht⟩ := List.forall_mem_cons.mp h
    rw [columns, ih ht]
    rcases hc with rfl | rfl
    · simp [show (' ' : Char) ≠ '\t' by decide]
      omega
    · simp [show ('\t' : Char) ≠ ' ' by decide]
      omega

/-! ## Markers -/

/-- A bullet is neither a digit nor a part of an indentation. -/
theorem bullet_kind {c : Char} (h : c ∈ ['-', '*', '+']) :
    isDigit c = false ∧ isIndentation c = false := by
  simp only [List.mem_cons, List.not_mem_nil, or_false] at h
  obtain rfl | rfl | rfl := h <;> decide

/-- **What follows a marker**, which is told by where the digits end. -/
theorem behindMarker?_append {m : Text} (h : IsMarker m) (rest : Text) :
    behindMarker? (m ++ rest) = some rest := by
  cases h with
  | @bullet c h =>
    have hc : (c == '-' || c == '*' || c == '+') = true := by simpa [or_assoc] using h
    rw [List.singleton_append, behindMarker?, if_pos hc]
  | @number digits hne h =>
    obtain ⟨d, ds, rfl⟩ := List.exists_cons_of_ne_nil hne
    obtain ⟨hd, hds⟩ := List.forall_mem_cons.mp h
    have hbullet : ¬(d == '-' || d == '*' || d == '+') = true := by
      intro hc
      rw [(bullet_kind (by simpa [or_assoc] using hc)).1] at hd
      cases hd
    have hdrop : (ds ++ '.' :: rest).dropWhile isDigit = '.' :: rest := by
      rw [List.dropWhile_append_of_pos hds]
      rfl
    rw [show d :: ds ++ ['.'] ++ rest = d :: (ds ++ '.' :: rest) by simp, behindMarker?,
      if_neg hbullet, if_pos hd, hdrop]
    rfl

theorem exists_isMarker {t rest : Text} (h : behindMarker? t = some rest) :
    ∃ m, IsMarker m ∧ t = m ++ rest := by
  unfold behindMarker? at h
  split at h
  · cases h
  · rename_i c t
    split at h
    · rename_i hc
      cases h
      exact ⟨[c], .bullet (by simpa [or_assoc] using hc), rfl⟩
    · split at h
      · rename_i hd
        have hdot := Text.behind?_eq_some_iff.mp h
        refine ⟨c :: t.takeWhile isDigit ++ ['.'], .number (List.cons_ne_nil _ _) ?_, ?_⟩
        · exact List.forall_mem_cons.mpr ⟨hd, fun _ => List.mem_takeWhile_imp⟩
        · calc c :: t = c :: (t.takeWhile isDigit ++ t.dropWhile isDigit) := by
                rw [List.takeWhile_append_dropWhile]
            _ = c :: t.takeWhile isDigit ++ ['.'] ++ rest := by simp [hdot]
      · cases h

/-- **What follows a marker and its blanks.** -/
theorem behindMarkerBlanks?_append (marking : Option Marking) (more : Text) :
    behindMarkerBlanks? (markingText marking ++ '[' :: more) = some ('[' :: more) := by
  cases marking with
  | none => rfl
  | some m =>
    have hmarker : behindMarker? (m.marker ++ (m.blanks ++ '[' :: more)) =
        some (m.blanks ++ '[' :: more) := behindMarker?_append m.isMarker _
    have hblanks : (m.blanks ++ '[' :: more).leadingBlanks.isEmpty = false := by
      obtain ⟨b, bs, hb⟩ := List.exists_cons_of_ne_nil m.blanks_ne_nil
      have := m.isBlank_of_mem b (by simp [hb])
      simp [hb, Text.leadingBlanks, this]
    have htrim : (m.blanks ++ '[' :: more).trimStart = '[' :: more := by
      rw [Text.trimStart_append m.isBlank_of_mem]
      rfl
    simp [markingText, behindMarkerBlanks?, hmarker, hblanks, htrim]

theorem exists_marking {t more : Text} (h : behindMarkerBlanks? t = some ('[' :: more)) :
    ∃ marking, t = markingText marking ++ '[' :: more := by
  unfold behindMarkerBlanks? at h
  split at h
  · exact ⟨none, Option.some.inj h⟩
  · rename_i rest hrest
    obtain ⟨m, hm, rfl⟩ := exists_isMarker hrest
    split at h
    · cases h
    · rename_i hblanks
      have hne : rest.leadingBlanks ≠ [] := by simpa using hblanks
      refine ⟨some ⟨m, rest.leadingBlanks, hm, hne, fun c => Text.isBlank_of_mem_leadingBlanks⟩, ?_⟩
      rw [markingText, List.append_assoc, ← Option.some.inj h,
        Text.leadingBlanks_append_trimStart]

/-- **No text is a marker with blanks in two ways.** -/
theorem markingText_injective : Function.Injective markingText := by
  have hne : ∀ m : Marking, m.marker ++ m.blanks ≠ [] := fun m =>
    List.append_ne_nil_of_right_ne_nil _ m.blanks_ne_nil
  intro marking marking' h
  cases marking with
  | none =>
    cases marking' with
    | none => rfl
    | some m' => exact absurd h.symm (hne m')
  | some m =>
    cases marking' with
    | none => exact absurd h (hne m)
    | some m' =>
      -- What follows a marker is told by the text, so the blanks agree, and with them the markers.
      have happend : m.marker ++ m.blanks = m'.marker ++ m'.blanks := h
      have hbehind := behindMarker?_append m.isMarker m.blanks
      rw [happend, behindMarker?_append m'.isMarker] at hbehind
      have hblanks : m.blanks = m'.blanks := (Option.some.inj hbehind).symm
      rw [hblanks] at happend
      exact congrArg some (Marking.ext (List.append_cancel_right happend) hblanks)

/-! ## Titles and targets -/

/-- **The text up to a stop**: it is not empty, and the stop behind it is the first one. -/
theorem upTo?_eq_some_iff {stop : Char} {t inner rest : Text} :
    upTo? stop t = some (inner, rest) ↔ inner ≠ [] ∧ stop ∉ inner ∧ t = inner ++ stop :: rest := by
  constructor
  · intro h
    unfold upTo? at h
    split at h
    · rename_i c cs d rest' htake hdrop
      cases h
      have hstop := Text.not_mem_takeWhile_bne stop t
      have hd : d = stop := by
        have hhead := List.head?_dropWhile_not (· != stop) t
        rw [hdrop] at hhead
        simpa using hhead
      subst hd
      refine ⟨List.cons_ne_nil c cs, htake ▸ hstop, ?_⟩
      rw [← htake, ← hdrop, List.takeWhile_append_dropWhile]
    · cases h
  · rintro ⟨hne, hstop, rfl⟩
    exact upTo?_append hne hstop rest

/-! ## Whole lines -/

/-- No marker and no link begins with a space or a tab. -/
theorem exists_isIndentation_eq_false (marking : Option Marking) (more : Text) :
    ∃ c rest, markingText marking ++ '[' :: more = c :: rest ∧ isIndentation c = false := by
  cases marking with
  | none => exact ⟨'[', more, rfl, rfl⟩
  | some m =>
    obtain ⟨marker, blanks, hmarker, -, -⟩ := m
    cases hmarker with
    | @bullet c hc =>
      exact ⟨c, blanks ++ '[' :: more, rfl, (bullet_kind hc).2⟩
    | @number digits hne hdigits =>
      obtain ⟨d, ds, rfl⟩ := List.exists_cons_of_ne_nil hne
      refine ⟨d, ds ++ ['.'] ++ blanks ++ '[' :: more, by simp [markingText], ?_⟩
      rw [Bool.eq_false_iff]
      intro hd
      have hdigit := hdigits d List.mem_cons_self
      rcases isIndentation_iff.mp hd with rfl | rfl <;> cases hdigit

namespace EntryLine

variable (l : EntryLine)

theorem takeWhile_indentation (more : Text) :
    (l.indentation ++ markingText l.marking ++ '[' :: more).takeWhile isIndentation =
      l.indentation := by
  obtain ⟨c, rest, hrest, hc⟩ := exists_isIndentation_eq_false l.marking more
  rw [List.append_assoc, hrest, Text.takeWhile_append_cons hc, List.takeWhile_eq_self_iff]
  exact fun c hc => isIndentation_iff.mpr (l.space_or_tab c hc)

theorem dropWhile_indentation (more : Text) :
    (l.indentation ++ markingText l.marking ++ '[' :: more).dropWhile isIndentation =
      markingText l.marking ++ '[' :: more := by
  have happend := List.takeWhile_append_dropWhile (p := isIndentation)
    (l := l.indentation ++ markingText l.marking ++ '[' :: more)
  rw [takeWhile_indentation] at happend
  exact List.append_cancel_left (happend.trans (List.append_assoc _ _ _))

theorem takeWhile_text : l.text.takeWhile isIndentation = l.indentation :=
  l.takeWhile_indentation l.link

theorem dropWhile_text :
    l.text.dropWhile isIndentation = markingText l.marking ++ '[' :: l.link :=
  l.dropWhile_indentation l.link

theorem upTo?_link : upTo? ']' l.link = some (l.title, '(' :: (l.target ++ ')' :: l.ending)) :=
  upTo?_eq_some_iff.mpr ⟨l.title_ne_nil, l.bracket_not_mem, by simp [link]⟩

theorem upTo?_target : upTo? ')' (l.target ++ ')' :: l.ending) = some (l.target, l.ending) :=
  upTo?_append l.target_ne_nil l.paren_not_mem l.ending

theorem levelOf_indentation : levelOf l.indentation = l.entry.level := by
  rw [levelOf, columns_eq_count l.space_or_tab]
  rfl

/-- **A line put together from its parts** is read as its entry. -/
theorem parse?_text : Entry.parse? l.text = some l.entry := by
  have hbracket : ∀ t, Text.behind? ('[' :: t) ['['] = some t := fun _ => rfl
  have hparen : ∀ t, Text.behind? ('(' :: t) ['('] = some t := fun _ => rfl
  have hending : l.ending.allBlank = true := List.all_eq_true.mpr l.isBlank_of_mem_ending
  simp only [Entry.parse?, l.takeWhile_text, l.dropWhile_text, behindMarkerBlanks?_append,
    hbracket, l.upTo?_link, hparen, l.upTo?_target, hending, l.levelOf_indentation,
    Option.bind_eq_bind, Option.bind_some, if_true]
  rfl

/-- **The parts of a line are told by the line**: reading them one after another gives each. -/
theorem text_injective : Function.Injective text := by
  intro l l' h
  -- Each step of the reading takes the same part off both lines.
  have hindentation : l.indentation = l'.indentation := by
    rw [← l.takeWhile_text, h, l'.takeWhile_text]
  have hrest : markingText l.marking ++ '[' :: l.link =
      markingText l'.marking ++ '[' :: l'.link := by
    rw [← l.dropWhile_text, h, l'.dropWhile_text]
  have hlink : l.link = l'.link := by
    have hbehind := behindMarkerBlanks?_append l.marking l.link
    rw [hrest, behindMarkerBlanks?_append] at hbehind
    exact (List.cons.inj (Option.some.inj hbehind)).2.symm
  have hmarking : l.marking = l'.marking := by
    rw [hlink] at hrest
    exact markingText_injective (List.append_cancel_right hrest)
  have htitle := l.upTo?_link
  rw [hlink, l'.upTo?_link, Option.some.injEq, Prod.mk.injEq, List.cons.injEq] at htitle
  have htarget := l.upTo?_target
  rw [← htitle.2.2, l'.upTo?_target, Option.some.injEq, Prod.mk.injEq] at htarget
  exact EntryLine.ext hindentation hmarking htitle.1.symm htarget.1.symm htarget.2.symm

end EntryLine

/-- A line that is read as an entry is put together from its parts. -/
theorem exists_entryLine {line : Text} {e : Entry} (h : Entry.parse? line = some e) :
    ∃ l : EntryLine, l.text = line := by
  simp only [Entry.parse?, Option.bind_eq_bind, Option.bind_eq_some_iff] at h
  obtain ⟨rest, hmarker, link, hbracket, ⟨title, behindTitle⟩, htitle, behindParen, hparen,
    ⟨target, ending⟩, htarget, h⟩ := h
  split at h
  · rename_i hending
    have hparen : behindTitle = '(' :: behindParen := Text.behind?_eq_some_iff.mp hparen
    rw [Text.behind?_eq_some_iff.mp hbracket] at hmarker
    obtain ⟨marking, hmarking⟩ := exists_marking hmarker
    obtain ⟨htitle, hbracketFree, hlink⟩ := upTo?_eq_some_iff.mp htitle
    obtain ⟨htarget, hparenFree, hbehind⟩ := upTo?_eq_some_iff.mp htarget
    have hline : link = title ++ "](".toList ++ target ++ ')' :: ending := by
      rw [hlink, hparen, hbehind]
      simp
    refine ⟨⟨line.takeWhile isIndentation, marking, title, target, ending, ?_, htitle,
      hbracketFree, htarget, hparenFree, List.all_eq_true.mp hending⟩, ?_⟩
    · exact fun c hc => isIndentation_iff.mp (List.mem_takeWhile_imp hc)
    · rw [EntryLine.text, EntryLine.link, ← hline, List.append_assoc]
      exact (congrArg _ hmarking.symm).trans List.takeWhile_append_dropWhile
  · cases h

/-- **Lines are read by their grammar**: a line yields an entry exactly when it is put together from
the parts of a line, the entry is what the parts say, and no line has its parts in two ways. -/
theorem entries_read_by_grammar :
    (∀ line e, Entry.parse? line = some e ↔ ∃ l : EntryLine, l.text = line ∧ l.entry = e) ∧
      Function.Injective EntryLine.text := by
  refine ⟨fun line e => ⟨fun h => ?_, ?_⟩, EntryLine.text_injective⟩
  · obtain ⟨l, rfl⟩ := exists_entryLine h
    exact ⟨l, rfl, Option.some.inj (l.parse?_text.symm.trans h)⟩
  · rintro ⟨l, rfl, rfl⟩
    exact l.parse?_text

/-- A tab, digits of two scripts, and blanks around the target and behind the line. -/
example : Entry.parse? "\t1٢. [Install]( guide/[a].md )\u00A0".toList =
    some ⟨"Install".toList, "guide/[a].md".toList, 2⟩ := by decide +kernel

end BookSite.Outline
