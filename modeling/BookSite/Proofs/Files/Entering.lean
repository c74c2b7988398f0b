import BookSite.Proofs.Files.Change
import BookSite.Proofs.Files.Steps

/-!
# Proofs/Files/Entering — the directories that a path goes through

Every name of a path leads **into** a place (`entered`).  The directory at the end of some segments
can be reached just when all these places are directories with names of a proper length
(`Opens`), and this is all that a lookup depends on (`dirAlong_eq_ok_iff`).
-/

namespace BookSite

/-! ## Places entered -/

/-- A segment that leads down. -/
def IsName (segment : Text) : Prop := segment ≠ [] ∧ segment ≠ ['.'] ∧ segment ≠ ['.', '.']

instance (segment : Text) : Decidable (IsName segment) := inferInstanceAs (Decidable (_ ∧ _))

theorem IsPlain.isName {name : Text} (h : IsPlain name) : IsName name :=
  ⟨h.ne_nil, h.ne_here, h.ne_up⟩

theorem IsName.isStep {name : Text} (h : IsName name) : IsStep name := ⟨h.1, h.2.1⟩

theorem stepTo_of_isName {name : Text} (h : IsName name) (place : List Text) :
    stepTo place name = place ++ [name] := by
  simp [stepTo, h.1, h.2.1, h.2.2]

/-- **The places that names along segments lead into.** -/
def entered (place : List Text) : List Text → List (List Text)
  | [] => []
  | segment :: rest =>
    if IsName segment then (place ++ [segment]) :: entered (place ++ [segment]) rest
    else entered (stepTo place segment) rest

theorem entered_cons_of_isName {name : Text} (h : IsName name) (place rest : List Text) :
    entered place (name :: rest) = (place ++ [name]) :: entered (place ++ [name]) rest := by
  rw [entered, if_pos h]

theorem entered_cons_of_not {segment : Text} (h : ¬ IsName segment) (place rest : List Text) :
    entered place (segment :: rest) = entered (stepTo place segment) rest := by
  rw [entered, if_neg h]

theorem entered_append (place first more : List Text) :
    entered place (first ++ more) = entered place first ++ entered (placeFrom place first) more := by
  induction first generalizing place with
  | nil => rfl
  | cons segment first ih =>
    rw [List.cons_append, placeFrom_cons]
    by_cases hname : IsName segment
    · rw [entered_cons_of_isName hname, entered_cons_of_isName hname, ih, stepTo_of_isName hname,
        List.cons_append]
    · rw [entered_cons_of_not hname, entered_cons_of_not hname, ih]

theorem entered_namesAlong (place segments : List Text) :
    entered place (namesAlong segments) = entered place segments := by
  induction segments generalizing place with
  | nil => rfl
  | cons segment rest ih =>
    rw [namesAlong_cons]
    split
    · rename_i hskip
      have hname : ¬ IsName segment := fun hname => by
        simp [hname.1, hname.2.1] at hskip
      rw [entered_cons_of_not hname, stepTo, if_pos hskip, ih]
    · by_cases hname : IsName segment
      · rw [entered_cons_of_isName hname, entered_cons_of_isName hname, ih]
      · rw [entered_cons_of_not hname, entered_cons_of_not hname, ih]

/-- Plain names lead into all places on the way down. -/
theorem mem_entered_iff {names : List Text} (h : ∀ n ∈ names, IsPlain n) {place y : List Text} :
    y ∈ entered place names ↔ ∃ front, front ≠ [] ∧ front <+: names ∧ y = place ++ front := by
  induction names generalizing place with
  | nil =>
    constructor
    · intro hy
      cases hy
    · rintro ⟨front, hne, hfront, -⟩
      exact absurd (List.prefix_nil.mp hfront) hne
  | cons name names ih =>
    obtain ⟨hname, hnames⟩ := List.forall_mem_cons.mp h
    rw [entered_cons_of_isName hname.isName, List.mem_cons, ih hnames]
    constructor
    · rintro (rfl | ⟨front, -, hfront, rfl⟩)
      · exact ⟨[name], by simp, by simp, rfl⟩
      · exact ⟨name :: front, by simp, (List.prefix_cons_inj name).mpr hfront, by simp⟩
    · rintro ⟨front, hne, hfront, rfl⟩
      obtain ⟨first, front, rfl⟩ := List.exists_cons_of_ne_nil hne
      obtain ⟨rfl, hbelow⟩ := List.cons_prefix_cons.mp hfront
      by_cases hnil : front = []
      · exact .inl (by rw [hnil])
      · exact .inr ⟨front, hnil, hbelow, by simp⟩

/-! ## Directories along segments -/

namespace FileSystem

variable {fs : FileSystem} {place segments : List Text}

/-- The directory that segments lead to from a place, with its entries. -/
def dirAlong (fs : FileSystem) (place segments : List Text) :
    Except FileError (List Text × List (Text × Node)) := do
  let place ← fs.follow place segments
  match fs.root.get? place with
  | some (.directory entries) => .ok (place, entries)
  | some (.file _) => .error .notADirectory
  | none => .error .notFound

theorem parentPlace_eq (p : Path) (before : List Text) :
    fs.parentPlace p before = fs.dirAlong (fs.origin p) before := rfl

/-- From what is no directory nothing can be reached. -/
theorem dirAlong_of_get?_eq_none (h : fs.root.get? place = none) (segments : List Text) :
    fs.dirAlong place segments = .error .notFound := by
  cases segments with
  | nil => simp [dirAlong, follow, h, bind, Except.bind]
  | cons segment rest => simp [dirAlong, follow, h, bind, Except.bind]

theorem dirAlong_of_file {content : Content} (h : fs.root.get? place = some (.file content))
    (segments : List Text) : fs.dirAlong place segments = .error .notADirectory := by
  cases segments with
  | nil => simp [dirAlong, follow, h, bind, Except.bind]
  | cons segment rest => simp [dirAlong, follow, h, bind, Except.bind]

section Directory

variable {entries : List (Text × Node)} (h : fs.root.get? place = some (.directory entries))

include h

theorem dirAlong_nil : fs.dirAlong place [] = .ok (place, entries) := by
  simp [dirAlong, follow, h, bind, Except.bind]

/-- `.`, `..` and nothing can always be followed. -/
theorem dirAlong_cons_of_not {segment : Text} (hname : ¬ IsName segment) (rest : List Text) :
    fs.dirAlong place (segment :: rest) = fs.dirAlong (stepTo place segment) rest := by
  rw [dirAlong, dirAlong, follow, stepTo, h]
  simp only
  split
  · rfl
  · rename_i hskip
    split
    · rfl
    · rename_i hup
      simp only [Bool.or_eq_true, List.isEmpty_iff, beq_iff_eq, not_or] at hskip hup
      exact absurd ⟨hskip.1, hskip.2, hup⟩ hname

/-- **A name can be followed** if the directory holds it. -/
theorem dirAlong_cons_of_isName {name : Text} (hname : IsName name) (rest : List Text) :
    fs.dirAlong place (name :: rest) =
      if byteCount name > maxNameBytes then .error .nameTooLong
      else fs.dirAlong (place ++ [name]) rest := by
  obtain ⟨hne, hhere, hup⟩ := hname
  rw [dirAlong, follow, h]
  simp only [List.isEmpty_eq_false_iff.mpr hne, beq_false_of_ne hhere, beq_false_of_ne hup,
    Bool.or_self, Bool.false_eq_true, if_false]
  split
  · rfl
  · rcases hlookup : entries.lookup name with _ | child
    · have hget := (Node.get?_concat h name).trans hlookup
      rw [dirAlong_of_get?_eq_none hget]
      rfl
    · rfl

end Directory

/-- A name that a directory can hold is at the end of a place. -/
def IsShort (place : List Text) : Prop := byteCount (place.getLastD []) ≤ maxNameBytes

instance (place : List Text) : Decidable (IsShort place) := inferInstanceAs (Decidable (_ ≤ _))

theorem isShort_concat {place : List Text} {name : Text} :
    IsShort (place ++ [name]) ↔ byteCount name ≤ maxNameBytes := by
  rw [IsShort, List.getLastD_concat]

/-- A place that a directory is at or can be made at: its name is short, and no file is there. -/
def isFree (fs : FileSystem) (place : List Text) : Bool :=
  (fs.fileAt place).isNone && decide (IsShort place)

theorem isFree_iff : fs.isFree place = true ↔ fs.fileAt place = none ∧ IsShort place := by
  rw [isFree, Bool.and_eq_true, Option.isNone_iff_eq_none, decide_eq_true_iff]

/-- **Segments that lead through directories** from a place. -/
def Opens (fs : FileSystem) (place segments : List Text) : Prop :=
  fs.IsDirAt place ∧ ∀ y ∈ entered place segments, fs.IsDirAt y ∧ IsShort y

theorem isDirAt_stepTo {segment : Text} (hname : ¬ IsName segment) (h : fs.IsDirAt place) :
    fs.IsDirAt (stepTo place segment) := by
  rw [stepTo]
  split
  · exact h
  · rename_i hskip
    split
    · rcases List.eq_nil_or_concat place with rfl | ⟨front, last, rfl⟩
      · exact h
      · rw [List.concat_eq_append] at h ⊢
        rw [List.dropLast_concat]
        exact isDirAt_of_has (has_iff.mpr (.inr h)) (by simp)
    · rename_i hup
      simp only [Bool.or_eq_true, List.isEmpty_iff, beq_iff_eq, not_or] at hskip hup
      exact absurd ⟨hskip.1, hskip.2, hup⟩ hname

theorem opens_nil : fs.Opens place [] ↔ fs.IsDirAt place := by
  simp [Opens, entered]

theorem opens_cons_of_not {segment : Text} (hname : ¬ IsName segment) {rest : List Text} :
    fs.Opens place (segment :: rest) ↔ fs.IsDirAt place ∧ fs.Opens (stepTo place segment) rest := by
  rw [Opens, Opens, entered_cons_of_not hname]
  exact ⟨fun ⟨h, hall⟩ => ⟨h, isDirAt_stepTo hname h, hall⟩, fun ⟨h, _, hall⟩ => ⟨h, hall⟩⟩

theorem opens_cons_of_isName {name : Text} (hname : IsName name) {rest : List Text} :
    fs.Opens place (name :: rest) ↔
      fs.IsDirAt place ∧ byteCount name ≤ maxNameBytes ∧ fs.Opens (place ++ [name]) rest := by
  rw [Opens, Opens, entered_cons_of_isName hname, List.forall_mem_cons, isShort_concat]
  tauto

theorem opens_append {first more : List Text} :
    fs.Opens place (first ++ more) ↔
      fs.Opens place first ∧ fs.Opens (placeFrom place first) more := by
  induction first generalizing place with
  | nil =>
    rw [List.nil_append, placeFrom_nil, opens_nil]
    exact ⟨fun h => ⟨h.1, h⟩, fun h => h.2⟩
  | cons segment first ih =>
    rw [List.cons_append, placeFrom_cons]
    by_cases hname : IsName segment
    · rw [opens_cons_of_isName hname, opens_cons_of_isName hname, ih, stepTo_of_isName hname]
      tauto
    · rw [opens_cons_of_not hname, opens_cons_of_not hname, ih]
      tauto

/-- **The directory at the end** can be reached when all on the way are directories. -/
theorem dirAlong_eq_ok_iff {found : List Text} {entries : List (Text × Node)} :
    fs.dirAlong place segments = .ok (found, entries) ↔
      fs.Opens place segments ∧ found = placeFrom place segments ∧
        fs.root.get? found = some (.directory entries) := by
  induction segments generalizing place with
  | nil =>
    rw [opens_nil, placeFrom_nil]
    rcases hnode : fs.root.get? place with _ | (content | below)
    · rw [dirAlong_of_get?_eq_none hnode]
      simp [IsDirAt, hnode]
    · rw [dirAlong_of_file hnode]
      simp [IsDirAt, hnode]
    · rw [dirAlong_nil hnode]
      simp only [Except.ok.injEq, Prod.mk.injEq, IsDirAt, hnode]
      constructor
      · rintro ⟨rfl, rfl⟩
        exact ⟨⟨_, rfl⟩, rfl, hnode⟩
      · rintro ⟨-, rfl, hentries⟩
        rw [hnode] at hentries
        cases hentries
        exact ⟨rfl, rfl⟩
  | cons segment rest ih =>
    rcases hnode : fs.root.get? place with _ | (content | below)
    · rw [dirAlong_of_get?_eq_none hnode]
      simp [Opens, IsDirAt, hnode]
    · rw [dirAlong_of_file hnode]
      simp [Opens, IsDirAt, hnode]
    · have hdir : fs.IsDirAt place := ⟨below, hnode⟩
      by_cases hname : IsName segment
      · rw [dirAlong_cons_of_isName hnode hname, opens_cons_of_isName hname, placeFrom_cons,
          stepTo_of_isName hname]
        split
        · rename_i hlong
          simp only [reduceCtorEq, false_iff]
          rintro ⟨⟨-, hshort, -⟩, -⟩
          omega
        · rename_i hshort
          rw [ih]
          simp only [hdir, true_and, Nat.le_of_not_lt hshort]
      · rw [dirAlong_cons_of_not hnode hname, opens_cons_of_not hname, placeFrom_cons, ih]
        simp only [hdir, true_and]

theorem exists_dirAlong (h : fs.Opens place segments) :
    ∃ entries, fs.dirAlong place segments = .ok (placeFrom place segments, entries) ∧
      fs.root.get? (placeFrom place segments) = some (.directory entries) := by
  have hdir : fs.IsDirAt (placeFrom place segments) := by
    have happend := opens_append.mp ((List.append_nil segments).symm ▸ h)
    exact opens_nil.mp happend.2
  obtain ⟨entries, hentries⟩ := hdir
  exact ⟨entries, dirAlong_eq_ok_iff.mpr ⟨h, rfl, hentries⟩, hentries⟩

/-- **What keeps a directory from being reached**: if nothing is missing on the way, then something
is in the way, and all places before it are directories. -/
theorem exists_blocked_of_dirAlong {e : FileError} (hdir : fs.IsDirAt place)
    (h : fs.dirAlong place segments = .error e) (he : e ≠ .notFound) :
    (∃ y ∈ entered place segments, fs.isFree y = false) ∧
      ∀ y ∈ (entered place segments).takeWhile fs.isFree, fs.IsDirAt y := by
  induction segments generalizing place with
  | nil =>
    obtain ⟨entries, hentries⟩ := hdir
    rw [dirAlong_nil hentries] at h
    cases h
  | cons segment rest ih =>
    obtain ⟨entries, hentries⟩ := id hdir
    by_cases hname : IsName segment
    · rw [dirAlong_cons_of_isName hentries hname] at h
      rw [entered_cons_of_isName hname]
      by_cases hfree : fs.isFree (place ++ [segment]) = true
      · obtain ⟨hfile, hshort⟩ := isFree_iff.mp hfree
        rw [isShort_concat] at hshort
        rw [if_neg (by omega)] at h
        rcases hnode : fs.root.get? (place ++ [segment]) with _ | (content | below)
        · rw [dirAlong_of_get?_eq_none hnode] at h
          cases h
          exact absurd rfl he
        · rw [fileAt_of_get? hnode] at hfile
          cases hfile
        · obtain ⟨⟨y, hy, hblocked⟩, hdirs⟩ := ih ⟨below, hnode⟩ h
          rw [List.takeWhile_cons_of_pos hfree, List.forall_mem_cons]
          exact ⟨⟨y, List.mem_cons_of_mem _ hy, hblocked⟩, ⟨below, hnode⟩, hdirs⟩
      · rw [List.takeWhile_cons_of_neg hfree]
        exact ⟨⟨_, List.mem_cons_self, by simpa using hfree⟩, by simp⟩
    · rw [dirAlong_cons_of_not hentries hname] at h
      rw [entered_cons_of_not hname]
      exact ih (isDirAt_stepTo hname hdir) h

end FileSystem

end BookSite
