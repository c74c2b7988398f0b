import BookSite.Proofs.Files.Change
import BookSite.Proofs.Files.Steps

/-!
# Proofs/Files/Reading — what reading a file depends on

A path is followed from place to place (`passed`).  Two file systems that agree at these places
answer the same when the file is read (`readText_congr`).
-/

namespace BookSite

/-- **The places that segments pass through**, from the first to the last one. -/
def passed (place : List Text) : List Text → List (List Text)
  | [] => [place]
  | segment :: rest => place :: passed (stepTo place segment) rest

theorem mem_passed_self (place segments : List Text) : place ∈ passed place segments := by
  cases segments with
  | nil => exact List.mem_singleton_self _
  | cons segment rest => exact List.mem_cons_self

theorem placeFrom_mem_passed (place segments : List Text) :
    placeFrom place segments ∈ passed place segments := by
  induction segments generalizing place with
  | nil => exact List.mem_singleton_self _
  | cons segment rest ih => exact List.mem_cons_of_mem _ (ih _)

theorem mem_passed_append {place first more y : List Text} :
    y ∈ passed place (first ++ more) ↔
      y ∈ passed place first ∨ y ∈ passed (placeFrom place first) more := by
  induction first generalizing place with
  | nil =>
    rw [List.nil_append, placeFrom_nil, passed, List.mem_singleton]
    exact ⟨.inr, fun h => h.elim (fun heq => heq ▸ mem_passed_self place more) id⟩
  | cons segment first ih =>
    rw [List.cons_append, passed, passed, List.mem_cons, List.mem_cons, ih, placeFrom_cons,
      or_assoc]

/-- Only steps lead to other places. -/
theorem mem_passed_namesAlong {place segments y : List Text} :
    y ∈ passed place (namesAlong segments) ↔ y ∈ passed place segments := by
  induction segments generalizing place with
  | nil => rfl
  | cons segment rest ih =>
    rw [namesAlong_cons, passed, List.mem_cons]
    split
    · rename_i hskip
      rw [stepTo, if_pos hskip, ih]
      exact ⟨.inr, fun h => h.elim (fun heq => heq ▸ mem_passed_self place rest) id⟩
    · rw [passed, List.mem_cons, ih]

namespace FileSystem

/-- **A joined path** passes through the places of the first path and goes on from its place. -/
theorem mem_passed_join (fs : FileSystem) (p : Path) {q : Path} (hq : q.isAbsolute = false)
    {y : List Text} :
    y ∈ passed (fs.origin (p.join q)) (p.join q).segments ↔
      y ∈ passed (fs.origin p) p.segments ∨ y ∈ passed (fs.place p) q.segments := by
  obtain ⟨habsolute, front, hsegments, hfront⟩ := Path.exists_segments_join p hq
  have horigin : fs.origin (p.join q) = fs.origin p := by rw [origin, origin, habsolute]
  rw [horigin, hsegments, mem_passed_append, ← mem_passed_namesAlong, ← placeFrom_namesAlong,
    hfront, Path.steps, mem_passed_namesAlong, placeFrom_namesAlong]
  rfl

/-- **Names below a path** lead down from its place. -/
theorem mem_passed_joinNames (fs : FileSystem) (p : Path) {names : List Text}
    (h : ∀ n ∈ names, IsPlain n) {y : List Text}
    (hy : y ∈ passed (fs.origin (p.joinNames names)) (p.joinNames names).segments) :
    y ∈ passed (fs.origin p) p.segments ∨ ∃ front, front <+: names ∧ y = fs.place p ++ front := by
  induction names generalizing p with
  | nil => exact .inl hy
  | cons name names ih =>
    obtain ⟨hname, hnames⟩ := List.forall_mem_cons.mp h
    have hrelative := Path.isAbsolute_of_isPlain hname []
    rw [List.append_nil] at hrelative
    obtain hjoined | ⟨front, hfront, rfl⟩ := ih (p.join ⟨name⟩) hnames hy
    · rw [fs.mem_passed_join p hrelative, Path.segments_of_isPlain hname, passed, passed,
        stepTo_of_isPlain hname] at hjoined
      obtain hbefore | hlast := hjoined
      · exact .inl hbefore
      · rcases List.mem_cons.mp hlast with rfl | hlast
        · exact .inl (placeFrom_mem_passed _ _)
        · exact .inr ⟨[name], by simp, List.mem_singleton.mp hlast⟩
    · refine .inr ⟨name :: front, (List.prefix_cons_inj name).mpr hfront, ?_⟩
      rw [fs.place_join_of_isPlain p hname, List.append_assoc, List.singleton_append]

/-- **The same at a place**: the same file, or in both cases a directory, or nothing. -/
structure AgreeAt (fs fs' : FileSystem) (place : List Text) : Prop where
  fileAt_eq : fs'.fileAt place = fs.fileAt place
  isDirAt_iff : fs'.IsDirAt place ↔ fs.IsDirAt place

variable {fs fs' : FileSystem} {place : List Text}

namespace AgreeAt

variable (h : AgreeAt fs fs' place)

include h

theorem has_iff : fs'.Has place ↔ fs.Has place := by
  rw [FileSystem.has_iff, FileSystem.has_iff, h.fileAt_eq, h.isDirAt_iff]

theorem get?_eq_none (hnone : fs.root.get? place = none) : fs'.root.get? place = none := by
  have hhas := h.has_iff
  rw [Has, Has, hnone] at hhas
  simpa using hhas

theorem get?_file {content : Content} (hfile : fs.root.get? place = some (.file content)) :
    fs'.root.get? place = some (.file content) :=
  fileAt_eq_some_iff.mp (h.fileAt_eq.trans (fileAt_of_get? hfile))

/-- The same file, or a directory in both, or nothing. -/
theorem content_eq :
    (fs'.root.get? place).map Node.content? = (fs.root.get? place).map Node.content? := by
  rcases hget : fs.root.get? place with _ | (content | entries)
  · rw [h.get?_eq_none hget]
  · rw [h.get?_file hget]
  · obtain ⟨entries', hget'⟩ := h.isDirAt_iff.mpr ⟨entries, hget⟩
    rw [hget']
    rfl

end AgreeAt

/-- **Following a path** takes the same way where file systems agree. -/
theorem follow_congr {segments : List Text}
    (h : ∀ y ∈ passed place segments, AgreeAt fs fs' y) :
    fs'.follow place segments = fs.follow place segments := by
  induction segments generalizing place with
  | nil => rfl
  | cons segment rest ih =>
    obtain ⟨hplace, hrest⟩ := List.forall_mem_cons.mp h
    have hnext := ih hrest
    rw [follow, follow]
    rcases hnode : fs.root.get? place with _ | (content | entries)
    · rw [hplace.get?_eq_none hnode]
    · rw [hplace.get?_file hnode]
    · obtain ⟨entries', hnode'⟩ := hplace.isDirAt_iff.mpr ⟨entries, hnode⟩
      rw [hnode']
      dsimp only
      rw [stepTo] at hnext hrest
      split
      · rename_i hskip
        rwa [if_pos hskip] at hnext
      · rename_i hskip
        rw [if_neg hskip] at hnext hrest
        split
        · rename_i hup
          rwa [if_pos hup] at hnext
        · rename_i hup
          rw [if_neg hup] at hnext hrest
          have hhas := (hrest _ (mem_passed_self _ _)).has_iff
          rw [Has, Has, Node.get?_concat hnode, Node.get?_concat hnode'] at hhas
          rw [hnext]
          simp only [hhas]

/-- **Reading a file** gives the same where file systems agree. -/
theorem readText_congr {p : Path} (hworkDir : fs'.workDir = fs.workDir)
    (h : ∀ y ∈ passed (fs.origin p) p.segments, AgreeAt fs fs' y) :
    fs'.readText p = fs.readText p := by
  have horigin : fs'.origin p = fs.origin p := by rw [origin, origin, hworkDir]
  have hlocate : fs'.locate p = fs.locate p := by
    rw [locate, locate, horigin, follow_congr h]
  rw [readText, readText, node, node, hlocate]
  rcases hfound : fs.locate p with e | found
  · rfl
  · obtain ⟨_, -, hfollow⟩ := bind_eq_ok.mp hfound
    have hagree := h found (fs.eq_placeFrom_of_follow hfollow ▸ placeFrom_mem_passed _ _)
    simp only [bind, Except.bind]
    rcases hnode : fs.root.get? found with _ | (content | entries)
    · rw [hagree.get?_eq_none hnode]
    · rw [hagree.get?_file hnode]
    · obtain ⟨entries', hnode'⟩ := hagree.isDirAt_iff.mpr ⟨entries, hnode⟩
      rw [hnode']

end FileSystem

end BookSite
