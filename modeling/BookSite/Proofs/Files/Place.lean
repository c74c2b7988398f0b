import BookSite.Files.System
import BookSite.Migration.FileKind
import BookSite.Proofs.Text.Lines

/-!
# Proofs/Files/Place — where the spelling of a path leads

The **place** of a path is read off from its segments alone: a name leads down, `..` leads up.  What
a path leads to is at its place if there is anything.  Joining paths is going on from the place of
the first.
-/

namespace BookSite

/-- Two steps succeed when the first one does and then the second one. -/
theorem bind_eq_ok {ε α β : Type} {step : Except ε α} {next : α → Except ε β} {b : β} :
    (step >>= next) = .ok b ↔ ∃ a, step = .ok a ∧ next a = .ok b := by
  cases step with
  | error e => exact ⟨fun h => (by cases h), fun ⟨a, h, _⟩ => (by cases h)⟩
  | ok a => exact ⟨fun h => ⟨a, rfl, h⟩, fun ⟨a', h, hb⟩ => (by cases h; exact hb)⟩

theorem map_eq_ok {ε α β : Type} {f : α → β} {step : Except ε α} {b : β}
    (h : step.map f = .ok b) : ∃ a, step = .ok a ∧ b = f a := by
  cases step with
  | error e => cases h
  | ok a => exact ⟨a, rfl, (Except.ok.inj h).symm⟩

/-- **A plain name**: one segment that is a name. -/
structure IsPlain (name : Text) : Prop where
  ne_nil : name ≠ []
  ne_here : name ≠ ['.']
  ne_up : name ≠ ['.', '.']
  slash_not_mem : '/' ∉ name

instance (name : Text) : Decidable (IsPlain name) :=
  decidable_of_iff (name ≠ [] ∧ name ≠ ['.'] ∧ name ≠ ['.', '.'] ∧ '/' ∉ name)
    ⟨fun ⟨h₁, h₂, h₃, h₄⟩ => ⟨h₁, h₂, h₃, h₄⟩, fun ⟨h₁, h₂, h₃, h₄⟩ => ⟨h₁, h₂, h₃, h₄⟩⟩

namespace Path

/-! ## Segments -/

theorem slash_not_mem_of_mem_segments {p : Path} {segment : Text} (h : segment ∈ p.segments) :
    '/' ∉ segment := by
  rw [segments, Text.fields, List.splitOn_eq_splitOnP] at h
  intro hmem
  simpa using Text.not_of_mem_splitOnP h _ hmem

theorem segments_append_slash (s t : Text) :
    segments ⟨s ++ '/' :: t⟩ = segments ⟨s⟩ ++ segments ⟨t⟩ :=
  List.splitOn_append_cons_self s t

theorem segments_of_isPlain {name : Text} (h : IsPlain name) : segments ⟨name⟩ = [name] :=
  List.splitOn_eq_singleton h.slash_not_mem

/-- The segments of some names are the names. -/
theorem segments_ofNames {names : List Text} (h : ∀ n ∈ names, IsPlain n) (hne : names ≠ []) :
    (ofNames names).segments = names :=
  List.splitOn_intercalate '/' (fun n hn => (h n hn).slash_not_mem) hne

/-! ## Absolute paths -/

theorem isAbsolute_append {s : Text} (hne : s ≠ []) (t : Text) :
    isAbsolute ⟨s ++ t⟩ = isAbsolute ⟨s⟩ := by
  obtain ⟨c, s, rfl⟩ := List.exists_cons_of_ne_nil hne
  rfl

theorem isAbsolute_of_head {c : Char} (hc : c ≠ '/') (t : Text) : isAbsolute ⟨c :: t⟩ = false := by
  rw [isAbsolute, Text.startsWith, List.isPrefixOf_cons_cons, beq_false_of_ne (Ne.symm hc)]
  rfl

theorem isAbsolute_of_isPlain {name : Text} (h : IsPlain name) (t : Text) :
    isAbsolute ⟨name ++ t⟩ = false := by
  obtain ⟨c, rest, rfl⟩ := List.exists_cons_of_ne_nil h.ne_nil
  refine isAbsolute_of_head ?_ _
  rintro rfl
  exact h.slash_not_mem List.mem_cons_self

theorem isAbsolute_ofNames {names : List Text} (h : ∀ n ∈ names, IsPlain n) :
    (ofNames names).isAbsolute = false := by
  cases names with
  | nil => rfl
  | cons name rest =>
    have hname := h name List.mem_cons_self
    rw [ofNames, Text.joinWith]
    by_cases hrest : rest = []
    · subst hrest
      have habsolute := isAbsolute_of_isPlain hname []
      rw [List.append_nil] at habsolute
      rwa [List.intercalate_singleton]
    · rw [List.intercalate_cons_of_ne_nil hrest, List.append_assoc]
      exact isAbsolute_of_isPlain hname _

end Path

/-! ## Going along segments -/

/-- One step along a path. -/
def stepTo (place : List Text) (segment : Text) : List Text :=
  if segment.isEmpty || segment == ['.'] then place
  else if segment == ['.', '.'] then place.dropLast
  else place ++ [segment]

/-- **Where segments lead** from a place, by their spelling. -/
def placeFrom (place : List Text) (segments : List Text) : List Text := segments.foldl stepTo place

@[simp] theorem placeFrom_nil (place : List Text) : placeFrom place [] = place := rfl

@[simp] theorem placeFrom_cons (place : List Text) (segment : Text) (rest : List Text) :
    placeFrom place (segment :: rest) = placeFrom (stepTo place segment) rest := rfl

theorem placeFrom_append (place first more : List Text) :
    placeFrom place (first ++ more) = placeFrom (placeFrom place first) more := List.foldl_append

theorem stepTo_of_isPlain {name : Text} (h : IsPlain name) (place : List Text) :
    stepTo place name = place ++ [name] := by
  simp [stepTo, h.ne_nil, h.ne_here, h.ne_up]

@[simp] theorem stepTo_nil (place : List Text) : stepTo place [] = place := rfl

/-- Plain names lead down. -/
theorem placeFrom_of_isPlain {names : List Text} (h : ∀ n ∈ names, IsPlain n)
    (place : List Text) : placeFrom place names = place ++ names := by
  induction names generalizing place with
  | nil => simp
  | cons name names ih =>
    obtain ⟨hname, hnames⟩ := List.forall_mem_cons.mp h
    rw [placeFrom_cons, stepTo_of_isPlain hname, ih hnames, List.append_assoc]
    rfl

/-- Empty segments lead nowhere. -/
theorem placeFrom_replicate_nil (place : List Text) (n : Nat) :
    placeFrom place (List.replicate n []) = place := by
  induction n with
  | zero => rfl
  | succ n ih => rw [List.replicate_succ, placeFrom_cons, stepTo_nil, ih]

namespace FileSystem

variable (fs : FileSystem)

/-- **The place that the spelling of a path leads to.** -/
def place (p : Path) : List Text := placeFrom (fs.origin p) p.segments

/-! ## Joined paths -/

/-- **Joining is going on** from the place of the first path. -/
theorem place_join (p : Path) {q : Path} (hq : q.isAbsolute = false) :
    fs.place (p.join q) = placeFrom (fs.place p) q.segments := by
  obtain ⟨s⟩ := p
  obtain ⟨t⟩ := q
  rw [Path.join, hq, Bool.false_or]
  by_cases hs : s = []
  · subst hs
    have hempty : fs.place ⟨[]⟩ = fs.workDir := rfl
    have hjoin : fs.place ⟨t⟩ = placeFrom fs.workDir (Path.segments ⟨t⟩) := by
      rw [place, origin, hq]
      rfl
    rw [hempty]
    exact hjoin
  · rw [if_neg (by simpa using hs)]
    split
    · rename_i hlast
      rw [beq_iff_eq] at hlast
      obtain ⟨front, hfront⟩ := List.getLast?_eq_some_iff.mp hlast
      obtain rfl : s = front ++ ['/'] := hfront
      rw [place, place, origin, origin, Path.isAbsolute_append hs, List.append_assoc,
        List.singleton_append, Path.segments_append_slash, Path.segments_append_slash,
        placeFrom_append, placeFrom_append]
      rfl
    · rw [place, place, origin, origin, Path.isAbsolute_append hs, Path.segments_append_slash,
        placeFrom_append]

theorem place_join_of_isPlain (p : Path) {name : Text} (h : IsPlain name) :
    fs.place (p.join ⟨name⟩) = fs.place p ++ [name] := by
  have hrelative := Path.isAbsolute_of_isPlain h []
  rw [List.append_nil] at hrelative
  rw [fs.place_join p hrelative, Path.segments_of_isPlain h, placeFrom_cons, stepTo_of_isPlain h,
    placeFrom_nil]

theorem place_joinNames (p : Path) {names : List Text} (h : ∀ n ∈ names, IsPlain n) :
    fs.place (p.joinNames names) = fs.place p ++ names := by
  induction names generalizing p with
  | nil => simp [Path.joinNames]
  | cons name names ih =>
    obtain ⟨hname, hnames⟩ := List.forall_mem_cons.mp h
    have hrest := ih (p.join ⟨name⟩) hnames
    rw [fs.place_join_of_isPlain p hname, List.append_assoc, List.singleton_append] at hrest
    exact hrest

theorem place_join_ofNames (p : Path) {names : List Text} (h : ∀ n ∈ names, IsPlain n) :
    fs.place (p.join (.ofNames names)) = fs.place p ++ names := by
  rw [fs.place_join p (Path.isAbsolute_ofNames h)]
  by_cases hne : names = []
  · subst hne
    rw [List.append_nil]
    rfl
  · rw [Path.segments_ofNames h hne, placeFrom_of_isPlain h]

/-! ## What paths lead to -/

/-- **One step of following a path**: from a directory, which must hold a segment that is a name. -/
theorem follow_cons_eq_ok_iff {start rest found : List Text} {segment : Text} :
    fs.follow start (segment :: rest) = .ok found ↔
      ∃ entries, fs.root.get? start = some (.directory entries) ∧
        (segment ≠ [] ∧ segment ≠ ['.'] ∧ segment ≠ ['.', '.'] →
          byteCount segment ≤ maxNameBytes ∧ (entries.lookup segment).isSome) ∧
        fs.follow (stepTo start segment) rest = .ok found := by
  rw [follow, stepTo]
  rcases fs.root.get? start with _ | (content | entries)
  · simp
  · simp
  · simp only [Option.some.injEq, Node.directory.injEq, exists_eq_left']
    grind

/-- **A path that can be followed** leads to its place. -/
theorem eq_placeFrom_of_follow {start segments found : List Text}
    (h : fs.follow start segments = .ok found) : found = placeFrom start segments := by
  induction segments generalizing start with
  | nil =>
    cases h
    rfl
  | cons segment rest ih =>
    obtain ⟨entries, -, -, hrest⟩ := fs.follow_cons_eq_ok_iff.mp h
    exact ih hrest

theorem eq_place_of_locate {p : Path} {found : List Text} (h : fs.locate p = .ok found) :
    found = fs.place p := by
  obtain ⟨_, -, hfollow⟩ := bind_eq_ok.mp h
  exact fs.eq_placeFrom_of_follow hfollow

/-- **A path that leads to something**: it can be used and followed, and this is at its place. -/
theorem node_eq_ok_iff {p : Path} {node : Node} :
    fs.node p = .ok node ↔
      checkPath p = .ok () ∧ fs.follow (fs.origin p) p.segments = .ok (fs.place p) ∧
        fs.root.get? (fs.place p) = some node := by
  constructor
  · intro h
    obtain ⟨found, hlocate, hget⟩ := bind_eq_ok.mp h
    obtain rfl := fs.eq_place_of_locate hlocate
    obtain ⟨_, hcheck, hfollow⟩ := bind_eq_ok.mp hlocate
    refine ⟨hcheck, hfollow, ?_⟩
    split at hget
    · rename_i hnode
      cases hget
      exact hnode
    · cases hget
  · rintro ⟨hcheck, hfollow, hget⟩
    exact bind_eq_ok.mpr ⟨_, bind_eq_ok.mpr ⟨_, hcheck, hfollow⟩, by rw [hget]⟩

/-- What a path leads to lies at its place. -/
theorem get?_place_of_node {p : Path} {node : Node} (h : fs.node p = .ok node) :
    fs.root.get? (fs.place p) = some node := (fs.node_eq_ok_iff.mp h).2.2

theorem get?_place_of_readText {p : Path} {t : Text} (h : fs.readText p = .ok t) :
    fs.root.get? (fs.place p) = some (.file (.text t)) := by
  obtain ⟨node, hnode, hread⟩ := bind_eq_ok.mp h
  have hget := fs.get?_place_of_node hnode
  rcases node with (_ | _) | _
  · cases hread
    exact hget
  · cases hread
  · cases hread

end FileSystem

/-! ## The name of a path -/

namespace Path

theorem isPlain_of_component? {segment name : Text} (h : component? segment = some (.name name))
    (hslash : '/' ∉ segment) : IsPlain name := by
  unfold component? at h
  split at h
  · cases h
  · split at h
    · cases h
    · rename_i hskip hup
      cases h
      simp only [Bool.or_eq_true, List.isEmpty_iff, beq_iff_eq, not_or] at hskip hup
      exact ⟨hskip.1, hskip.2, hup, hslash⟩

theorem component?_of_isPlain {name : Text} (h : IsPlain name) :
    component? name = some (.name name) := by
  simp [component?, h.ne_nil, h.ne_here, h.ne_up]

/-- The name of a path is plain. -/
theorem isPlain_of_fileName? {p : Path} {name : Text} (h : p.fileName? = some name) :
    IsPlain name := by
  have hmem : Component.name name ∈ p.components := by
    unfold fileName? at h
    split at h
    · rename_i hlast
      cases h
      exact List.mem_of_getLast? hlast
    · cases h
  have hinner : ∀ {segments : List Text}, (∀ s ∈ segments, s ∈ p.segments) →
      Component.name name ∈ segments.filterMap component? → IsPlain name := by
    intro segments hsegments hname
    obtain ⟨segment, hsegment, hcomponent⟩ := List.mem_filterMap.mp hname
    exact isPlain_of_component? hcomponent (slash_not_mem_of_mem_segments (hsegments _ hsegment))
  unfold components at hmem
  split at hmem
  · exact hinner (fun s hs => hs) (by simpa using hmem)
  · rename_i segments hsplit
    exact hinner (fun s hs => hsplit ▸ List.mem_cons_of_mem _ hs) (by simpa using hmem)
  · exact hinner (fun s hs => hs) hmem

/-- A plain name at the end is the name of the path. -/
theorem fileName?_of_segments {p : Path} {front : List Text} {name : Text}
    (h : p.segments = front ++ [name]) (hname : IsPlain name) : p.fileName? = some name := by
  have hinner : ∀ segments : List Text, (segments ++ [name]).filterMap component? =
      segments.filterMap component? ++ [.name name] := fun segments => by
    rw [List.filterMap_append]
    simp [component?_of_isPlain hname]
  have hlast : p.components.getLast? = some (.name name) := by
    unfold components
    rw [h]
    split
    · rw [hinner, ← List.cons_append, List.getLast?_concat]
    · rename_i segments _ hsplit
      cases front with
      | nil =>
        obtain ⟨rfl, -⟩ := List.cons.inj hsplit
        exact absurd rfl hname.ne_here
      | cons first front =>
        have hrest : front ++ [name] = segments := (List.cons.inj hsplit).2
        rw [← hrest, hinner, ← List.cons_append, List.getLast?_concat]
    · rw [hinner, List.getLast?_concat]
  rw [fileName?, hlast]

theorem fileName?_of_isPlain {name : Text} (h : IsPlain name) :
    fileName? ⟨name⟩ = some name := by
  have hsegments : segments ⟨name⟩ = [] ++ [name] := segments_of_isPlain h
  exact fileName?_of_segments hsegments h

theorem fileName?_join_of_isPlain (p : Path) {name : Text} (h : IsPlain name) :
    (p.join ⟨name⟩).fileName? = some name := by
  have hrelative := isAbsolute_of_isPlain h []
  rw [List.append_nil] at hrelative
  have hsegments := segments_of_isPlain h
  obtain ⟨front, hfront⟩ : ∃ front, (p.join ⟨name⟩).segments = front ++ [name] := by
    rw [join, hrelative, Bool.false_or]
    split
    · exact ⟨[], hsegments⟩
    · split
      · rename_i hlast
        rw [beq_iff_eq] at hlast
        obtain ⟨front, hfront⟩ := List.getLast?_eq_some_iff.mp hlast
        rw [hfront, List.append_assoc, List.singleton_append]
        exact ⟨_, (segments_append_slash front name).trans (by rw [hsegments])⟩
      · exact ⟨_, (segments_append_slash p.text name).trans (by rw [hsegments])⟩
  exact fileName?_of_segments hfront h

theorem fileName?_joinNames (p : Path) (names : List Text) {name : Text} (h : IsPlain name) :
    (p.joinNames (names ++ [name])).fileName? = some name := by
  rw [joinNames, List.foldl_append]
  exact fileName?_join_of_isPlain _ h

end Path

/-- **The sort of a file** depends on its name only. -/
theorem FileKind.classify_congr {p q : Path} (h : p.fileName? = q.fileName?) :
    classify p = classify q := by
  rw [classify, classify, Path.extension?, Path.extension?, h]

end BookSite
