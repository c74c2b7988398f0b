import BookSite.Proofs.Markdown.ImageEdits

/-!
# Proofs/Markdown/ReferenceParts — what an image reference is made of

A reference can be read character by character: where reading has got to is a `ReferenceState`, and
a reference stands at the front of a text just when reading the text ends in `whole`
(`isSome_image?_iff`).  So what changes nothing about these states changes no reference.
-/

namespace BookSite.Image

/-! ## Parts -/

/-- Whether a character can stand in the path of a reference. -/
def isPathChar (c : Char) : Bool := c != ')' && !isBlank c

/-- The titles that a reference can have: blanks and a quoted text, or none. -/
inductive IsTitle : Text → Prop
  | none : IsTitle []
  | quoted {blanks inner : Text} : blanks ≠ [] → (∀ c ∈ blanks, isBlank c = true) →
      '"' ∉ inner → IsTitle (blanks ++ '"' :: (inner ++ ['"']))

/-- **The parts of a reference.** -/
structure AreReferenceParts (alt path title : Text) : Prop where
  alt : ']' ∉ alt
  ne_nil : path ≠ []
  path : ∀ c ∈ path, isPathChar c = true
  title : IsTitle title

namespace ReferenceToken

theorem titleHere_append {title : Text} (h : IsTitle title) (behind : Text) :
    titleHere (title ++ ')' :: behind) = title := by
  cases h with
  | none => rfl
  | @quoted blanks inner hne hblanks hinner =>
    have hquote : isBlank '"' = false := rfl
    have hsplit : blanks ++ '"' :: (inner ++ ['"']) ++ ')' :: behind =
        blanks ++ '"' :: (inner ++ '"' :: ')' :: behind) := by simp
    have hleading : Text.leadingBlanks (blanks ++ '"' :: (inner ++ '"' :: ')' :: behind)) =
        blanks := by
      rw [Text.leadingBlanks, List.takeWhile_append_of_pos hblanks, List.takeWhile_cons, hquote,
        if_neg Bool.false_ne_true, List.append_nil]
    have hstart : Text.trimStart (blanks ++ '"' :: (inner ++ '"' :: ')' :: behind)) =
        '"' :: (inner ++ '"' :: ')' :: behind) := by
      rw [Text.trimStart_append hblanks, Text.trimStart, List.dropWhile_cons, hquote,
        if_neg Bool.false_ne_true]
    obtain ⟨b, blanks, rfl⟩ := List.exists_cons_of_ne_nil hne
    rw [hsplit, titleHere, hleading, hstart]
    simp only [Text.takeWhile_bne_append hinner]
    rw [if_pos (by simp)]
    simp

theorem isTitle_titleHere (t : Text) : IsTitle (titleHere t) := by
  unfold titleHere
  split
  · rename_i first more rest hblanks hrest
    rw [← hblanks]
    simp only
    split
    · rw [List.append_assoc, List.cons_append]
      exact .quoted (by rw [hblanks]; exact List.cons_ne_nil _ _)
        (fun c hc => Text.isBlank_of_mem_leadingBlanks hc) (Text.not_mem_takeWhile_bne _ _)
    · exact .none
  · exact .none

/-- The parts that are found are parts of a reference. -/
theorem areReferenceParts_of_image? {s alt path title : Text}
    (h : image? s = some (.image alt path title)) : AreReferenceParts alt path title := by
  have hne := (eq_append_of_image? h).1
  unfold image? at h
  obtain ⟨rest, -, h⟩ := Option.bind_eq_some_iff.mp h
  obtain ⟨rest', -, h⟩ := Option.bind_eq_some_iff.mp h
  simp only at h
  split at h
  · cases h
    exact ⟨Text.not_mem_takeWhile_bne _ _, hne, fun c hc => List.mem_takeWhile_imp hc,
      isTitle_titleHere _⟩
  · cases h

/-- An image that is found is found as a reference, with its length. -/
theorem image?_of_find {s alt path title : Text} {n : Nat}
    (h : find s = some (.image alt path title, n)) :
    image? s = some (.image alt path title) ∧ n = (reference alt path title).length := by
  unfold find at h
  split at h
  · cases h
  · split at h
    · rename_i himage
      cases h
      exact ⟨himage, rfl⟩
    · cases h

/-- **All references are found** at the front of a text. -/
theorem image?_append {alt path title : Text} (h : AreReferenceParts alt path title)
    (behind : Text) :
    image? (reference alt path title ++ behind) = some (.image alt path title) := by
  have hsplit : reference alt path title ++ behind =
      "![".toList ++ (alt ++ ']' :: '(' :: (path ++ (title ++ ')' :: behind))) := by
    simp [reference]
  have hbang : Text.behind? (reference alt path title ++ behind) "![".toList =
      some (alt ++ ']' :: '(' :: (path ++ (title ++ ')' :: behind))) :=
    Text.behind?_eq_some_iff.mpr hsplit
  have hpath : (path ++ (title ++ ')' :: behind)).takeWhile
      (fun c => c != ')' && !isBlank c) = path := by
    obtain ⟨stop, rest, hstop, hrest⟩ :
        ∃ stop rest, isPathChar stop = false ∧ title ++ ')' :: behind = stop :: rest := by
      cases h.title with
      | none => exact ⟨_, _, rfl, rfl⟩
      | @quoted blanks inner hne hblanks =>
        obtain ⟨b, blanks, rfl⟩ := List.exists_cons_of_ne_nil hne
        have hb := hblanks b List.mem_cons_self
        exact ⟨b, _, by simp [isPathChar, hb], rfl⟩
    change List.takeWhile isPathChar _ = path
    rw [hrest, Text.takeWhile_append_cons hstop]
    exact List.takeWhile_eq_self_iff.mpr h.path
  have hlink : Text.behind? (']' :: '(' :: (path ++ (title ++ ')' :: behind))) "](".toList =
      some (path ++ (title ++ ')' :: behind)) := Text.behind?_eq_some_iff.mpr rfl
  have hne : path.isEmpty = false := by simp [h.ne_nil]
  simp only [image?, hbang, Option.bind_eq_bind, Option.bind_some, Text.takeWhile_bne_append h.alt,
    List.drop_left, hlink, hpath, titleHere_append h.title, hne]
  simp

/-! ## Reading character by character -/

end ReferenceToken

/-- How far the reading of a reference has got. -/
inductive ReferenceState where
  | start
  /-- behind the exclamation mark -/
  | bang
  | alt
  /-- behind the bracket that closes the alternative text -/
  | altEnd
  /-- in front of the path -/
  | pathStart
  | path
  /-- in the blanks behind the path -/
  | gap
  | title
  /-- behind the quote that closes the title -/
  | titleEnd
  /-- the reference has been read to its end -/
  | whole
  | failed
  deriving DecidableEq

namespace ReferenceState

/-- Read one character. -/
def step : ReferenceState → Char → ReferenceState
  | start, c => if c = '!' then bang else failed
  | bang, c => if c = '[' then alt else failed
  | alt, c => if c = ']' then altEnd else alt
  | altEnd, c => if c = '(' then pathStart else failed
  | pathStart, c => if isPathChar c then path else failed
  | path, c => if isPathChar c then path else if c = ')' then whole else gap
  | gap, c => if isBlank c then gap else if c = '"' then title else failed
  | title, c => if c = '"' then titleEnd else title
  | titleEnd, c => if c = ')' then whole else failed
  | whole, _ => whole
  | failed, _ => failed

/-- **Read a text.** -/
def run (state : ReferenceState) (t : Text) : ReferenceState := t.foldl step state

@[simp] theorem run_cons (state : ReferenceState) (c : Char) (t : Text) :
    run state (c :: t) = run (state.step c) t := rfl

@[simp] theorem run_append (state : ReferenceState) (s t : Text) :
    run state (s ++ t) = run (run state s) t := List.foldl_append

/-- Characters at which reading stays where it is. -/
theorem run_eq_self {state : ReferenceState} {t : Text} (h : ∀ c ∈ t, state.step c = state) :
    run state t = state := by
  induction t with
  | nil => rfl
  | cons c t ih =>
    obtain ⟨hc, ht⟩ := List.forall_mem_cons.mp h
    rw [run_cons, hc, ih ht]

@[simp] theorem run_whole (t : Text) : run whole t = whole := run_eq_self fun _ _ => rfl

@[simp] theorem run_failed (t : Text) : run failed t = failed := run_eq_self fun _ _ => rfl

/-- **Where a state is left**: reading that gets on stays in a state up to some character. -/
theorem exists_exit {state : ReferenceState} (hne : state ≠ whole) {t : Text}
    (h : run state t = whole) :
    ∃ front c rest, (∀ d ∈ front, state.step d = state) ∧ state.step c ≠ state ∧
      t = front ++ c :: rest ∧ run (state.step c) rest = whole := by
  induction t with
  | nil => exact absurd h hne
  | cons c t ih =>
    by_cases hc : state.step c = state
    · rw [run_cons, hc] at h
      obtain ⟨front, d, rest, hfront, hd, rfl, hrest⟩ := ih h
      exact ⟨c :: front, d, rest, List.forall_mem_cons.mpr ⟨hc, hfront⟩, hd, rfl, hrest⟩
    · exact ⟨[], c, t, List.forall_mem_nil _, hc, rfl, h⟩

/-! ### What is still to be read -/

/-- A state that reads nothing but one mark. -/
theorem exists_of_run_mark {state next : ReferenceState} {mark : Char}
    (hstep : ∀ c, state.step c = if c = mark then next else failed) (hne : state ≠ whole) {t : Text}
    (h : run state t = whole) : ∃ rest, t = mark :: rest ∧ run next rest = whole := by
  cases t with
  | nil => exact absurd h hne
  | cons c t =>
    rw [run_cons, hstep] at h
    by_cases hc : c = mark
    · rw [if_pos hc] at h
      exact ⟨t, by rw [hc], h⟩
    · rw [if_neg hc, run_failed] at h
      cases h

theorem eq_of_run_title {t : Text} (h : run title t = whole) :
    ∃ inner behind, '"' ∉ inner ∧ t = inner ++ '"' :: ')' :: behind := by
  obtain ⟨inner, c, rest, hinner, hc, rfl, hrest⟩ := exists_exit (by decide) h
  have hquote : c = '"' := by
    by_contra hne
    exact hc (if_neg hne)
  subst hquote
  obtain ⟨behind, rfl, -⟩ := exists_of_run_mark (fun _ => rfl) (by decide) hrest
  exact ⟨inner, behind, fun hmem => absurd (hinner _ hmem) (by decide), rfl⟩

/-- In the blanks behind a path only a title and the end can follow. -/
theorem eq_of_run_gap {t : Text} (h : run gap t = whole) :
    ∃ blanks inner behind, (∀ c ∈ blanks, isBlank c = true) ∧ '"' ∉ inner ∧
      t = blanks ++ '"' :: (inner ++ '"' :: ')' :: behind) := by
  have hstay : ∀ c, gap.step c = gap ↔ isBlank c = true := by
    intro c
    rw [step]
    split
    · simp_all
    · split <;> simp_all
  obtain ⟨blanks, c, rest, hblanks, hc, rfl, hrest⟩ := exists_exit (by decide) h
  rw [ne_eq, hstay] at hc
  rw [step, if_neg hc] at hrest
  by_cases hquote : c = '"'
  · rw [if_pos hquote] at hrest
    obtain ⟨inner, behind, hinner, rfl⟩ := eq_of_run_title hrest
    exact ⟨blanks, inner, behind, fun d hd => (hstay d).mp (hblanks d hd), hinner, by rw [hquote]⟩
  · rw [if_neg hquote, run_failed] at hrest
    cases hrest

/-- In a path more of it, a title or none, and the end follow. -/
theorem eq_of_run_path {t : Text} (h : run path t = whole) :
    ∃ more written behind, (∀ c ∈ more, isPathChar c = true) ∧ IsTitle written ∧
      t = more ++ (written ++ ')' :: behind) := by
  have hstay : ∀ c, path.step c = path ↔ isPathChar c = true := by
    intro c
    rw [step]
    split
    · simp_all
    · split <;> simp_all
  obtain ⟨more, c, rest, hmore, hc, rfl, hrest⟩ := exists_exit (by decide) h
  have hpath : ∀ d ∈ more, isPathChar d = true := fun d hd => (hstay d).mp (hmore d hd)
  rw [ne_eq, hstay] at hc
  rw [step, if_neg hc] at hrest
  by_cases hend : c = ')'
  · exact ⟨more, [], rest, hpath, .none, by rw [hend, List.nil_append]⟩
  · rw [if_neg hend] at hrest
    have hblank : isBlank c = true := by simpa [isPathChar, hend] using hc
    obtain ⟨blanks, inner, behind, hblanks, hinner, rfl⟩ := eq_of_run_gap hrest
    have htitle : IsTitle (c :: blanks ++ '"' :: (inner ++ ['"'])) :=
      .quoted (List.cons_ne_nil c blanks) (List.forall_mem_cons.mpr ⟨hblank, hblanks⟩) hinner
    exact ⟨more, _, behind, hpath, htitle, by simp⟩

/-- **What is read to its end** is a reference and what follows it. -/
theorem eq_of_run_start {t : Text} (h : run start t = whole) :
    ∃ alt path title behind, AreReferenceParts alt path title ∧
      t = reference alt path title ++ behind := by
  obtain ⟨afterBang, rfl, hbang⟩ := exists_of_run_mark (fun _ => rfl) (by decide) h
  obtain ⟨inBrackets, rfl, halt⟩ := exists_of_run_mark (fun _ => rfl) (by decide) hbang
  obtain ⟨alt, close, afterAlt, hstay, hclose, rfl, hend⟩ := exists_exit (by decide) halt
  have hbracket : close = ']' := by
    by_contra hne
    exact hclose (if_neg hne)
  subst hbracket
  obtain ⟨link, rfl, hlink⟩ := exists_of_run_mark (fun _ => rfl) (by decide) hend
  cases link with
  | nil => cases hlink
  | cons c link =>
    rw [run_cons, step] at hlink
    by_cases hc : isPathChar c = true
    · rw [if_pos hc] at hlink
      obtain ⟨more, title, behind, hmore, htitle, rfl⟩ := eq_of_run_path hlink
      refine ⟨alt, c :: more, title, behind, ⟨fun hmem => ?_, List.cons_ne_nil c more,
        List.forall_mem_cons.mpr ⟨hc, hmore⟩, htitle⟩, by simp [reference]⟩
      exact absurd (hstay _ hmem) (by decide)
    · rw [if_neg hc, run_failed] at hlink
      cases hlink

/-- A title is read to the end of the reference. -/
theorem run_path_append {title : Text} (h : IsTitle title) (behind : Text) :
    run path (title ++ ')' :: behind) = whole := by
  cases h with
  | none => exact run_whole behind
  | @quoted blanks inner hne hblanks hinner =>
    obtain ⟨b, blanks, rfl⟩ := List.exists_cons_of_ne_nil hne
    obtain ⟨hb, hblanks⟩ := List.forall_mem_cons.mp hblanks
    have hopen : path.step b = gap := by
      have hpath : isPathChar b = false := by simp [isPathChar, hb]
      have hend : b ≠ ')' := by
        rintro rfl
        cases hb
      rw [step, hpath, if_neg Bool.false_ne_true, if_neg hend]
    have hgap : run gap blanks = gap := run_eq_self fun c hc => by rw [step, if_pos (hblanks c hc)]
    have hinner : run .title inner = .title := run_eq_self fun c hc => by
      rw [step, if_neg]
      rintro rfl
      exact hinner hc
    have hquote : gap.step '"' = .title := rfl
    have hclose : (ReferenceState.title.step '"').step ')' = whole := rfl
    simp only [List.cons_append, List.append_assoc, run_cons, run_append, hopen, hgap, hquote,
      hinner, hclose, List.nil_append, run_whole]

/-- **A reference is read to its end.** -/
theorem run_start_append {alt path title : Text} (h : AreReferenceParts alt path title)
    (behind : Text) : run start (reference alt path title ++ behind) = whole := by
  have halt : run .alt alt = .alt := run_eq_self fun c hc => by
    rw [step, if_neg]
    rintro rfl
    exact h.alt hc
  obtain ⟨c, more, rfl⟩ := List.exists_cons_of_ne_nil h.ne_nil
  obtain ⟨hc, hmore⟩ := List.forall_mem_cons.mp h.path
  have hfirst : pathStart.step c = .path := if_pos hc
  have hpath : run .path more = .path := run_eq_self fun d hd => by rw [step, if_pos (hmore d hd)]
  have hsplit : reference alt (c :: more) title ++ behind =
      '!' :: '[' :: (alt ++ ']' :: '(' :: c :: (more ++ (title ++ ')' :: behind))) := by
    simp [reference]
  have hbang : (start.step '!').step '[' = .alt := rfl
  have hlink : (ReferenceState.alt.step ']').step '(' = pathStart := rfl
  rw [hsplit, run_cons, run_cons, hbang, run_append, halt, run_cons, run_cons, hlink, run_cons,
    hfirst, run_append, hpath, run_path_append h.title]

end ReferenceState

namespace ReferenceToken

open ReferenceState

/-- What is found as a reference is an image. -/
theorem exists_image_of_image? {t : Text} {found : ReferenceToken} (h : image? t = some found) :
    ∃ alt path title, found = .image alt path title := by
  obtain ⟨rest, -, h⟩ := Option.bind_eq_some_iff.mp h
  obtain ⟨rest', -, h⟩ := Option.bind_eq_some_iff.mp h
  simp only at h
  split at h
  · cases h
    exact ⟨_, _, _, rfl⟩
  · cases h

/-- **A reference is found just when it is read to its end.** -/
theorem isSome_image?_iff {t : Text} : (image? t).isSome ↔ run start t = whole := by
  constructor
  · intro h
    obtain ⟨found, hfound⟩ := Option.isSome_iff_exists.mp h
    obtain ⟨alt, path, title, rfl⟩ := exists_image_of_image? hfound
    obtain ⟨-, behind, rfl⟩ := eq_append_of_image? hfound
    exact run_start_append (areReferenceParts_of_image? hfound) behind
  · intro h
    obtain ⟨alt, path, title, behind, hparts, rfl⟩ := eq_of_run_start h
    rw [image?_append hparts]
    rfl

end ReferenceToken

end BookSite.Image
