import BookSite.Proofs.Files.MadeDirectories
import BookSite.Proofs.Files.Reading

/-!
# Proofs/Files/Lookup — files below a directory

A file below a directory is found by its path when no name on the way is too long and the path as a
whole is not (`isFile_joinNames_iff`).  So whether a file is found depends on nothing but the
directory and the file.
-/

namespace BookSite

/-! ## Paths of names -/

namespace Path

theorem isAbsolute_of_isPlain_self {name : Text} (h : IsPlain name) :
    isAbsolute ⟨name⟩ = false := by
  have hrelative := isAbsolute_of_isPlain h []
  rwa [List.append_nil] at hrelative

/-- A joined path begins with the first one. -/
theorem text_isPrefix_join (p : Path) {q : Path} (hq : q.isAbsolute = false) :
    ∃ more, (p.join q).text = p.text ++ more ∧ q.text.length ≤ more.length := by
  rw [join, hq, Bool.false_or]
  split
  · rename_i hempty
    rw [List.isEmpty_iff.mp hempty]
    exact ⟨q.text, rfl, le_refl _⟩
  · split
    · exact ⟨q.text, rfl, le_refl _⟩
    · exact ⟨'/' :: q.text, rfl, by simp⟩

theorem joinNames_append (p : Path) (names more : List Text) :
    p.joinNames (names ++ more) = (p.joinNames names).joinNames more := List.foldl_append

theorem joinNames_concat (p : Path) (names : List Text) (name : Text) :
    p.joinNames (names ++ [name]) = (p.joinNames names).join ⟨name⟩ := joinNames_append p names [name]

theorem join_of_isAbsolute (p : Path) {q : Path} (hq : q.isAbsolute = true) : p.join q = q := by
  rw [join, hq]
  rfl

theorem join_of_text_nil {p : Path} (hp : p.text = []) (q : Path) : p.join q = q := by
  rw [join, hp]
  simp

/-- What a path is joined to begins with it, and with a slash behind it. -/
theorem join_of_relative {p q : Path} (hp : p.text ≠ []) (hq : q.isAbsolute = false) :
    p.join q = ⟨p.text ++ (if p.text.getLast? = some '/' then [] else ['/']) ++ q.text⟩ := by
  rw [join, hq, Bool.false_or, if_neg (by simpa using hp)]
  split
  · rename_i hslash
    rw [if_pos (by simpa using hslash), List.append_nil]
  · rename_i hslash
    rw [if_neg (by simpa using hslash), List.append_assoc, List.singleton_append]

/-- **Joining three paths**, in whatever order. -/
theorem join_assoc (p q r : Path) : (p.join q).join r = p.join (q.join r) := by
  by_cases hp : p.text = []
  · rw [join_of_text_nil hp, join_of_text_nil hp]
  rcases hr : r.isAbsolute with _ | _
  · rcases hq : q.isAbsolute with _ | _
    · have habsolute : (q.join r).isAbsolute = false := (exists_segments_join q hr).1.trans hq
      rw [join_of_relative hp habsolute, join_of_relative hp hq]
      by_cases hempty : q.text = []
      · rw [hempty, List.append_nil, join_of_relative (by simp [hp]) hr, join_of_text_nil hempty]
        split <;> simp [*]
      · rw [join_of_relative (by simp [hempty]) hr, join_of_relative hempty hr,
          List.getLast?_append_of_ne_nil _ hempty]
        simp
    · rw [p.join_of_isAbsolute hq,
        p.join_of_isAbsolute ((exists_segments_join q hr).1.trans hq)]
  · rw [join_of_isAbsolute _ hr, join_of_isAbsolute q hr, join_of_isAbsolute p hr]

theorem join_ofNames_cons {name : Text} {names : List Text} (hname : IsPlain name)
    (hnames : ∀ n ∈ names, IsPlain n) (hne : names ≠ []) :
    Path.join ⟨name⟩ (ofNames names) = ofNames (name :: names) := by
  have hslash : (Path.mk name).text.getLast? ≠ some '/' := fun hlast =>
    hname.slash_not_mem (List.mem_of_getLast? hlast)
  rw [join_of_relative hname.ne_nil (isAbsolute_ofNames hnames), if_neg hslash, ofNames,
    Text.joinWith, ofNames, Text.joinWith, List.intercalate_cons_of_ne_nil hne]

/-- **Names below names.** -/
theorem join_joinNames_ofNames (p : Path) {names more : List Text} (h : ∀ n ∈ names, IsPlain n)
    (hmore : ∀ n ∈ more, IsPlain n) (hne : more ≠ []) :
    (p.joinNames names).join (ofNames more) = p.join (ofNames (names ++ more)) := by
  induction names generalizing p with
  | nil => rfl
  | cons name names ih =>
    obtain ⟨hname, hnames⟩ := List.forall_mem_cons.mp h
    have hrest : ∀ n ∈ names ++ more, IsPlain n := List.forall_mem_append.mpr ⟨hnames, hmore⟩
    rw [List.cons_append, ← join_ofNames_cons hname hrest (by simp [hne]), ← join_assoc]
    exact ih (p.join ⟨name⟩) hnames

section Names

variable (p : Path) {names : List Text} (h : ∀ n ∈ names, IsPlain n)

include h

theorem text_isPrefix_joinNames : p.text <+: (p.joinNames names).text := by
  induction names generalizing p with
  | nil => exact List.prefix_rfl
  | cons name names ih =>
    obtain ⟨hname, hnames⟩ := List.forall_mem_cons.mp h
    obtain ⟨more, hmore, -⟩ := text_isPrefix_join p (isAbsolute_of_isPlain_self hname)
    exact (hmore ▸ List.prefix_append p.text more).trans (ih (p.join ⟨name⟩) hnames)

theorem length_le_joinNames : names.length ≤ (p.joinNames names).text.length := by
  suffices hlength : p.text.length + names.length ≤ (p.joinNames names).text.length by omega
  induction names generalizing p with
  | nil => exact le_refl _
  | cons name names ih =>
    obtain ⟨hname, hnames⟩ := List.forall_mem_cons.mp h
    obtain ⟨more, hmore, hlength⟩ := text_isPrefix_join p (isAbsolute_of_isPlain_self hname)
    have hrest := ih (p.join ⟨name⟩) hnames
    have hpos := List.length_pos_of_ne_nil hname.ne_nil
    rw [hmore, List.length_append] at hrest
    dsimp only at hlength
    rw [List.length_cons]
    exact Nat.le_trans (by omega) hrest

theorem isAbsolute_joinNames : (p.joinNames names).isAbsolute = p.isAbsolute := by
  induction names generalizing p with
  | nil => rfl
  | cons name names ih =>
    obtain ⟨hname, hnames⟩ := List.forall_mem_cons.mp h
    exact (ih (p.join ⟨name⟩) hnames).trans
      (exists_segments_join p (isAbsolute_of_isPlain_self hname)).1

theorem steps_joinNames : (p.joinNames names).steps = p.steps ++ names := by
  induction names generalizing p with
  | nil => exact (List.append_nil _).symm
  | cons name names ih =>
    obtain ⟨hname, hnames⟩ := List.forall_mem_cons.mp h
    obtain ⟨-, front, hsegments, hfront⟩ :=
      exists_segments_join p (isAbsolute_of_isPlain_self hname)
    have hjoin : (p.join ⟨name⟩).steps = p.steps ++ [name] := by
      rw [steps, hsegments, namesAlong_append, hfront, segments_of_isPlain hname,
        namesAlong_of_isStep hname.isStep]
    have hrest := ih (p.join ⟨name⟩) hnames
    rw [hjoin, List.append_assoc, List.singleton_append] at hrest
    exact hrest

end Names

end Path

namespace FileSystem

variable {fs : FileSystem} {p : Path}

theorem length_le_byteCount (t : Text) : t.length ≤ byteCount t := by
  induction t with
  | nil => exact le_refl _
  | cons c t ih =>
    have hcons := byteCount_append [c] t
    have hpos := c.utf8Size_pos
    rw [List.singleton_append] at hcons
    rw [hcons, List.length_cons]
    have hone : byteCount [c] = c.utf8Size := by simp [byteCount]
    omega

/-! ## Going along joined paths -/

theorem follow_append_eq_ok_iff {start first more found : List Text} :
    fs.follow start (first ++ more) = .ok found ↔
      ∃ middle, fs.follow start first = .ok middle ∧ fs.follow middle more = .ok found := by
  induction first generalizing start with
  | nil => simp [follow]
  | cons segment first ih =>
    rw [List.cons_append, follow_cons_eq_ok_iff]
    simp only [follow_cons_eq_ok_iff, ih]
    constructor
    · rintro ⟨entries, hentries, hname, middle, hfirst, hmore⟩
      exact ⟨middle, ⟨entries, hentries, hname, hfirst⟩, hmore⟩
    · rintro ⟨middle, ⟨entries, hentries, hname, hfirst⟩, hmore⟩
      exact ⟨entries, hentries, hname, middle, hfirst, hmore⟩

/-- **Following a path to a name** in a directory that opens. -/
theorem follow_concat_eq_ok_iff {start front found : List Text} {name : Text} (hname : IsName name) :
    fs.follow start (front ++ [name]) = .ok found ↔
      fs.Opens start front ∧ byteCount name ≤ maxNameBytes ∧
        fs.Has (placeFrom start front ++ [name]) ∧ found = placeFrom start front ++ [name] := by
  rw [follow_append_eq_ok_iff]
  constructor
  · rintro ⟨middle, hfront, hlast⟩
    obtain ⟨entries, hentries, hshort, hfound⟩ := fs.follow_cons_eq_ok_iff.mp hlast
    obtain ⟨hshort, hsome⟩ := hshort hname
    have hdir : fs.dirAlong start front = .ok (middle, entries) :=
      bind_eq_ok.mpr ⟨middle, hfront, by rw [hentries]⟩
    obtain ⟨hopens, rfl, -⟩ := dirAlong_eq_ok_iff.mp hdir
    rw [stepTo_of_isName hname] at hfound
    exact ⟨hopens, hshort, by rwa [Has, Node.get?_concat hentries], (Except.ok.inj hfound).symm⟩
  · rintro ⟨hopens, hshort, hhas, rfl⟩
    obtain ⟨entries, hdir, hentries⟩ := exists_dirAlong hopens
    obtain ⟨middle, hfront, -⟩ := bind_eq_ok.mp hdir
    obtain rfl := fs.eq_placeFrom_of_follow hfront
    rw [Has, Node.get?_concat hentries] at hhas
    refine ⟨_, hfront, fs.follow_cons_eq_ok_iff.mpr
      ⟨entries, hentries, fun _ => ⟨hshort, hhas⟩, ?_⟩⟩
    rw [stepTo_of_isName hname]
    rfl

section Segments

variable {front : List Text} {name : Text}

theorem place_of_segments (h : p.segments = front ++ [name]) (hname : IsName name) :
    fs.place p = placeFrom (fs.origin p) front ++ [name] := by
  rw [place, h, placeFrom_append, placeFrom_cons, stepTo_of_isName hname, placeFrom_nil]

theorem text_ne_nil_of_segments (h : p.segments = front ++ [name]) (hname : name ≠ []) :
    p.text ≠ [] := fun hempty => by
  obtain ⟨text⟩ := p
  obtain rfl : text = [] := hempty
  have hconcat : [] ++ [[]] = front ++ [name] := h
  exact hname (List.singleton_inj.mp (List.append_inj' hconcat rfl).2).symm

theorem checkPath_concat_eq_ok_iff (h : p.segments = front ++ [name]) (hname : name ≠ []) :
    checkPath p = .ok () ↔ IsUsable p :=
  checkPath_eq_ok_iff.trans (and_iff_left (text_ne_nil_of_segments h hname))

/-- **What a path to a name leads to.** -/
theorem node_concat_eq_ok_iff (h : p.segments = front ++ [name]) (hname : IsName name)
    {node : Node} :
    fs.node p = .ok node ↔
      IsUsable p ∧ fs.Opens (fs.origin p) front ∧ byteCount name ≤ maxNameBytes ∧
        fs.root.get? (fs.place p) = some node := by
  rw [node_eq_ok_iff, checkPath_concat_eq_ok_iff h hname.1, h, follow_concat_eq_ok_iff hname,
    ← place_of_segments h hname]
  refine and_congr_right fun _ => ⟨?_, ?_⟩
  · rintro ⟨⟨hopens, hshort, -, -⟩, hget⟩
    exact ⟨hopens, hshort, hget⟩
  · rintro ⟨hopens, hshort, hget⟩
    exact ⟨⟨hopens, hshort, by rw [Has, hget]; rfl, rfl⟩, hget⟩

end Segments

/-- **What a name below a path leads to.** -/
theorem node_join_eq_ok_iff {name : Text} (hname : IsPlain name) {node : Node} :
    fs.node (p.join ⟨name⟩) = .ok node ↔
      IsUsable (p.join ⟨name⟩) ∧ fs.Opens (fs.origin p) p.segments ∧
        byteCount name ≤ maxNameBytes ∧ fs.root.get? (fs.place p ++ [name]) = some node := by
  obtain ⟨habsolute, front, hsegments, hfront⟩ :=
    Path.exists_segments_join p (Path.isAbsolute_of_isPlain_self hname)
  rw [Path.segments_of_isPlain hname] at hsegments
  have hopens : fs.Opens (fs.origin p) front ↔ fs.Opens (fs.origin p) p.segments := by
    rw [Opens, Opens, ← entered_namesAlong, hfront, Path.steps, entered_namesAlong]
  have horigin : fs.origin (p.join ⟨name⟩) = fs.origin p := by rw [origin, origin, habsolute]
  rw [node_concat_eq_ok_iff hsegments hname.isName, horigin, hopens,
    fs.place_join_of_isPlain p hname]

theorem isFile_iff : fs.isFile p = true ↔ ∃ content, fs.node p = .ok (.file content) := by
  unfold isFile
  split
  · rename_i content hnode
    exact ⟨fun _ => ⟨content, hnode⟩, fun _ => rfl⟩
  · rename_i hno
    exact ⟨fun h => (by cases h), fun ⟨content, hnode⟩ => absurd hnode (hno content)⟩

/-! ## Files below a directory -/

section Below

variable {names : List Text} (hplain : ∀ n ∈ names, IsPlain n)

include hplain

theorem origin_joinNames : fs.origin (p.joinNames names) = fs.origin p := by
  rw [origin, origin, p.isAbsolute_joinNames hplain]

/-- The places that names below a path lead into. -/
theorem entered_joinNames :
    entered (fs.origin (p.joinNames names)) (p.joinNames names).segments =
      entered (fs.origin p) p.segments ++ entered (fs.place p) names := by
  rw [origin_joinNames hplain, ← entered_namesAlong, ← Path.steps, p.steps_joinNames hplain,
    entered_append, Path.steps, entered_namesAlong, placeFrom_namesAlong]
  rfl

theorem opens_joinNames_iff :
    fs.Opens (fs.origin (p.joinNames names)) (p.joinNames names).segments ↔
      fs.Opens (fs.origin p) p.segments ∧ ∀ front name, front ++ [name] <+: names →
        fs.IsDirAt (fs.place p ++ (front ++ [name])) ∧ byteCount name ≤ maxNameBytes := by
  rw [Opens, Opens, entered_joinNames hplain, origin_joinNames hplain, List.forall_mem_append,
    and_assoc]
  refine and_congr_right fun _ => and_congr_right fun _ => ?_
  constructor
  · intro hall front name hfront
    obtain ⟨hdir, hshort⟩ := hall (fs.place p ++ (front ++ [name]))
      ((mem_entered_iff hplain).mpr ⟨_, by simp, hfront, rfl⟩)
    rw [← List.append_assoc, isShort_concat] at hshort
    exact ⟨hdir, hshort⟩
  · intro hall y hy
    obtain ⟨front, hne, hfront, rfl⟩ := (mem_entered_iff hplain).mp hy
    obtain ⟨front, name, rfl⟩ := List.eq_nil_or_concat' front |>.resolve_left hne
    obtain ⟨hdir, hshort⟩ := hall front name hfront
    exact ⟨hdir, by rwa [← List.append_assoc, isShort_concat]⟩

variable (hdir : fs.isDir p = true)

include hdir

/-- Above what is there the way is open. -/
theorem opens_joinNames_of_has {more : List Text} (hne : more ≠ [])
    (hshort : ∀ n ∈ names, byteCount n ≤ maxNameBytes)
    (hhas : fs.Has (fs.place p ++ (names ++ more))) :
    fs.Opens (fs.origin (p.joinNames names)) (p.joinNames names).segments := by
  refine (opens_joinNames_iff hplain).mpr ⟨(isDir_iff.mp hdir).2, fun front name hfront =>
    ⟨?_, hshort name (hfront.subset (by simp))⟩⟩
  obtain ⟨rest, rfl⟩ := hfront
  rw [List.append_assoc, ← List.append_assoc] at hhas
  exact isDirAt_of_has hhas (by simp [hne])

/-- **A file below a directory is found** by its path, if that is not too long. -/
theorem isFile_joinNames_iff :
    fs.isFile (p.joinNames names) = true ↔
      IsUsable (p.joinNames names) ∧ (∀ n ∈ names, byteCount n ≤ maxNameBytes) ∧
        (fs.fileAt (fs.place p ++ names)).isSome := by
  have hp := (isDir_iff.mp hdir).2
  rcases List.eq_nil_or_concat' names with rfl | ⟨front, name, rfl⟩
  · have hfile : fs.fileAt (fs.place p ++ []) = none := by
      rw [List.append_nil]
      exact (isDirAt_of_isDir hdir).fileAt_eq_none
    have hno : ¬ fs.isFile (p.joinNames []) = true := fun hyes => by
      obtain ⟨content, hnode⟩ := isFile_iff.mp hyes
      have hget := fileAt_of_get? (fs.get?_place_of_node hnode)
      rw [fs.place_joinNames p hplain, hfile] at hget
      cases hget
    rw [hfile]
    exact ⟨fun hyes => absurd hyes hno, fun h => by cases h.2.2⟩
  obtain ⟨hfront, hname⟩ := List.forall_mem_append.mp hplain
  rw [List.forall_mem_singleton] at hname
  rw [isFile_iff, Path.joinNames_concat]
  constructor
  · rintro ⟨content, hnode⟩
    obtain ⟨husable, hopens, hshort, hget⟩ := (node_join_eq_ok_iff hname).mp hnode
    rw [fs.place_joinNames p hfront, List.append_assoc] at hget
    refine ⟨husable, ?_, by rw [fileAt_of_get? hget]; rfl⟩
    rw [List.forall_mem_append, List.forall_mem_singleton]
    refine ⟨fun n hn => ?_, hshort⟩
    obtain ⟨first, more, rfl⟩ := List.append_of_mem hn
    exact (((opens_joinNames_iff hfront).mp hopens).2 first n ⟨more, by simp⟩).2
  · rintro ⟨husable, hshort, hfile⟩
    obtain ⟨content, hcontent⟩ := Option.isSome_iff_exists.mp hfile
    rw [fileAt_eq_some_iff] at hcontent
    rw [List.forall_mem_append, List.forall_mem_singleton] at hshort
    refine ⟨content, (node_join_eq_ok_iff hname).mpr ⟨husable, ?_, hshort.2, ?_⟩⟩
    · refine opens_joinNames_of_has hfront hdir (List.cons_ne_nil name []) hshort.1 ?_
      rw [Has, hcontent]
      rfl
    · rwa [fs.place_joinNames p hfront, List.append_assoc]

/-- **Above a file** that is found there are directories that are found. -/
theorem isDir_joinNames_of_isFile {more : List Text} (hmore : ∀ n ∈ more, IsPlain n)
    (hne : more ≠ []) (hfile : fs.isFile (p.joinNames (names ++ more)) = true) :
    fs.isDir (p.joinNames names) = true := by
  have hall : ∀ n ∈ names ++ more, IsPlain n := List.forall_mem_append.mpr ⟨hplain, hmore⟩
  obtain ⟨husable, hshort, hsome⟩ := (isFile_joinNames_iff hall hdir).mp hfile
  rw [Path.joinNames_append] at husable
  have hbegin := p.text_isPrefix_joinNames hplain
  have hne' : (p.joinNames names).text ≠ [] := fun hempty => by
    rw [hempty] at hbegin
    exact (checkPath_eq_ok_iff.mp (isDir_iff.mp hdir).1).2 (List.prefix_nil.mp hbegin)
  have hopens := opens_joinNames_of_has hplain hdir hne (List.forall_mem_append.mp hshort).1
    (has_iff.mpr (.inl hsome))
  exact isDir_iff.mpr ⟨checkPath_eq_ok_iff.mpr
    ⟨husable.of_prefix (Path.text_isPrefix_joinNames _ hmore), hne'⟩, hopens⟩

/-- No file that is found lies deeper than a path can be long. -/
theorem length_le_of_isFile (hfile : fs.isFile (p.joinNames names) = true) :
    names.length ≤ maxPathBytes := by
  have hshort := ((isFile_joinNames_iff hplain hdir).mp hfile).1.short
  exact (p.length_le_joinNames hplain).trans ((length_le_byteCount _).trans hshort)

end Below

/-! ## Reading below a directory -/

/-- The way to a directory leads through directories. -/
theorem isDirAt_of_mem_passed {place segments y : List Text} (hopens : fs.Opens place segments)
    (hy : y ∈ passed place segments) : fs.IsDirAt y := by
  induction segments generalizing place with
  | nil =>
    rw [passed, List.mem_singleton] at hy
    exact hy ▸ opens_nil.mp hopens
  | cons segment rest ih =>
    rcases List.mem_cons.mp hy with rfl | hy
    · exact hopens.1
    · refine ih ?_ hy
      by_cases hname : IsName segment
      · rw [stepTo_of_isName hname]
        exact ((opens_cons_of_isName hname).mp hopens).2.2
      · exact ((opens_cons_of_not hname).mp hopens).2

/-- **A file below a directory** is read the same if all is the same on the way down to it. -/
theorem readText_joinNames_congr (hworkDir : fs'.workDir = fs.workDir)
    (hdirs : ∀ y, fs.IsDirAt y → fs'.IsDirAt y) (hdir : fs.isDir p = true) {names : List Text}
    (hplain : ∀ n ∈ names, IsPlain n)
    (h : ∀ front, front <+: names → AgreeAt fs fs' (fs.place p ++ front)) :
    fs'.readText (p.joinNames names) = fs.readText (p.joinNames names) := by
  refine readText_congr hworkDir fun y hy => ?_
  obtain hway | ⟨front, hfront, rfl⟩ := fs.mem_passed_joinNames p hplain hy
  · have hopen := isDirAt_of_mem_passed (isDir_iff.mp hdir).2 hway
    have hopen' := hdirs y hopen
    exact ⟨by rw [hopen.fileAt_eq_none, hopen'.fileAt_eq_none], iff_of_true hopen' hopen⟩
  · exact h front hfront

/-- What is there and not written stays the same. -/
theorem Changes.agreeAt {W : List Text → Content → Prop} (h : Changes W fs fs') {y : List Text}
    (hhas : fs.Has y) (hkept : ∀ content, ¬ W y content) : AgreeAt fs fs' y where
  fileAt_eq := h.fileAt_eq hkept
  isDirAt_iff := by
    refine ⟨fun hdir => (has_iff.mp hhas).resolve_left fun hfile => ?_, h.dir y⟩
    have hfile' := h.isSome_fileAt hfile
    rw [hdir.fileAt_eq_none] at hfile'
    cases hfile'

/-- **A file below a directory where none is written** is read the same. -/
theorem Changes.readText_eq {W : List Text → Content → Prop} (h : Changes W fs fs')
    (hdir : fs.isDir p = true) (hkept : ∀ names content, ¬ W (fs.place p ++ names) content)
    {names : List Text} (hplain : ∀ n ∈ names, IsPlain n)
    (hfile : (fs.fileAt (fs.place p ++ names)).isSome) :
    fs'.readText (p.joinNames names) = fs.readText (p.joinNames names) := by
  refine readText_joinNames_congr h.workDir h.dir hdir hplain fun front hfront => ?_
  obtain ⟨more, rfl⟩ := hfront
  rw [← List.append_assoc] at hfile
  exact h.agreeAt (has_of_has_append (has_iff.mpr (.inl hfile))) (hkept front)

end FileSystem

end BookSite
