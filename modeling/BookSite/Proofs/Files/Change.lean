import BookSite.Proofs.Files.Place
import BookSite.Proofs.Files.Tree
import Mathlib.Data.List.TakeWhile

/-!
# Proofs/Files/Change — what operations on files change

Every operation writes certain files and creates directories; nothing is ever taken away.  That is
the relation `Changes`: it says which files may have been written with which content, and it is kept
along a run.
-/

namespace BookSite

/-- A node below which there is nothing. -/
def Node.IsLeaf (node : Node) : Prop := ∀ names, names ≠ [] → node.get? names = none

theorem Node.isLeaf_file (content : Content) : (Node.file content).IsLeaf := fun names hne => by
  obtain ⟨name, names, rfl⟩ := List.exists_cons_of_ne_nil hne
  rfl

theorem Node.isLeaf_directory_nil : (Node.directory []).IsLeaf := fun names hne => by
  obtain ⟨name, names, rfl⟩ := List.exists_cons_of_ne_nil hne
  rfl

theorem Node.not_isLeaf_directory_cons (entry : Text × Node) (rest : List (Text × Node)) :
    ¬ (Node.directory (entry :: rest)).IsLeaf := fun h => by
  have hfirst := h [entry.1] (List.cons_ne_nil _ _)
  simp [get?_directory_cons] at hfirst

instance : (node : Node) → Decidable node.IsLeaf
  | .file content => .isTrue (Node.isLeaf_file content)
  | .directory [] => .isTrue Node.isLeaf_directory_nil
  | .directory (entry :: rest) => .isFalse (Node.not_isLeaf_directory_cons entry rest)

theorem Node.IsLeaf.ordered {node : Node} (h : node.IsLeaf) : node.Ordered := by
  cases node with
  | file content => exact ordered_file content
  | directory entries =>
    cases entries with
    | nil => exact ordered_directory_nil
    | cons entry rest => exact absurd h (not_isLeaf_directory_cons entry rest)

namespace FileSystem

/-! ## What is at a place -/

/-- Whether there is something at a place. -/
def Has (fs : FileSystem) (place : List Text) : Prop := (fs.root.get? place).isSome

instance (fs : FileSystem) (place : List Text) : Decidable (fs.Has place) :=
  inferInstanceAs (Decidable (_ = true))

/-- The content of the file at a place. -/
def fileAt (fs : FileSystem) (place : List Text) : Option Content := fs.root.fileAt place

/-- Whether there is a directory at a place. -/
def IsDirAt (fs : FileSystem) (place : List Text) : Prop :=
  ∃ entries, fs.root.get? place = some (.directory entries)

section Views

variable {fs : FileSystem} {place : List Text}

theorem fileAt_of_get? {content : Content} (h : fs.root.get? place = some (.file content)) :
    fs.fileAt place = some content := by
  rw [fileAt, Node.fileAt, h]
  rfl

theorem fileAt_eq_some_iff {content : Content} :
    fs.fileAt place = some content ↔ fs.root.get? place = some (.file content) := by
  refine ⟨fun h => ?_, fileAt_of_get?⟩
  obtain ⟨node, hnode, hcontent⟩ := Option.bind_eq_some_iff.mp h
  cases node with
  | file c => cases hcontent; exact hnode
  | directory entries => cases hcontent

theorem IsDirAt.fileAt_eq_none (h : fs.IsDirAt place) : fs.fileAt place = none := by
  obtain ⟨entries, hentries⟩ := h
  rw [fileAt, Node.fileAt, hentries]
  rfl

theorem fileAt_eq_none_of_get? (h : fs.root.get? place = none) : fs.fileAt place = none := by
  rw [fileAt, Node.fileAt, h]
  rfl

/-- Below a place with nothing there is no file. -/
theorem fileAt_eq_none_of_prefix {y : List Text} (h : fs.root.get? place = none)
    (hy : place <+: y) : fs.fileAt y = none := by
  obtain ⟨rest, rfl⟩ := hy
  refine fileAt_eq_none_of_get? ?_
  rw [Node.get?_append, h, Option.bind_none]

theorem has_iff : fs.Has place ↔ (fs.fileAt place).isSome ∨ fs.IsDirAt place := by
  unfold Has
  rcases hnode : fs.root.get? place with _ | (content | entries)
  · rw [fileAt_eq_none_of_get? hnode]
    simp [IsDirAt, hnode]
  · rw [fileAt_of_get? hnode]
    simp
  · simp [IsDirAt, hnode]

/-- Above what is there stand directories. -/
theorem isDirAt_of_has {more : List Text} (h : fs.Has (place ++ more)) (hne : more ≠ []) :
    fs.IsDirAt place := by
  rw [Has, Node.get?_append] at h
  rcases hnode : fs.root.get? place with _ | (content | entries)
  · rw [hnode] at h
    cases h
  · rw [hnode, Option.bind_some, Node.isLeaf_file content more hne] at h
    cases h
  · exact ⟨entries, hnode⟩

theorem has_of_has_append {more : List Text} (h : fs.Has (place ++ more)) : fs.Has place := by
  by_cases hne : more = []
  · rwa [hne, List.append_nil] at h
  · exact has_iff.mpr (.inr (isDirAt_of_has h hne))

/-- There is nothing below a place if what stands there, when something does, is a leaf. -/
theorem forall_not_has_append_iff :
    (∀ more, more ≠ [] → ¬ fs.Has (place ++ more)) ↔
      ∀ node ∈ fs.root.get? place, node.IsLeaf := by
  have hnone : ∀ more, ¬ fs.Has (place ++ more) ↔
      ∀ node ∈ fs.root.get? place, node.get? more = none := fun more => by
    rw [Has, Node.get?_append, Option.not_isSome_iff_eq_none, Option.bind_eq_none_iff]
    rfl
  simp only [hnone]
  exact ⟨fun h node hnode more hne => h more hne node hnode,
    fun h more hne node hnode => h node hnode more hne⟩

theorem exists_node_of_isDir {p : Path} (h : fs.isDir p = true) :
    ∃ entries, fs.node p = .ok (.directory entries) := by
  unfold isDir at h
  split at h
  · exact ⟨_, ‹_›⟩
  · cases h

/-- At the place of a path to a directory there is one. -/
theorem isDirAt_of_isDir {p : Path} (h : fs.isDir p = true) : fs.IsDirAt (fs.place p) :=
  (exists_node_of_isDir h).imp fun _ hnode => fs.get?_place_of_node hnode

end Views

/-! ## Changes -/

/-- **What may have changed** from one file system to another: files that `W` allows were written,
and directories were created.  What was there is still there, and what is new has a plain name. -/
structure Changes (W : List Text → Content → Prop) (fs fs' : FileSystem) : Prop where
  workDir : fs'.workDir = fs.workDir
  dir : ∀ y, fs.IsDirAt y → fs'.IsDirAt y
  file : ∀ y, fs'.fileAt y = fs.fileAt y ∨ ∃ content, fs'.fileAt y = some content ∧ W y content
  name : ∀ y n, fs'.Has (y ++ [n]) → fs.Has (y ++ [n]) ∨ IsPlain n
  ordered : fs.root.Ordered → fs'.root.Ordered

namespace Changes

variable {W W' : List Text → Content → Prop} {fs fs' fs'' : FileSystem}

theorem refl (W : List Text → Content → Prop) (fs : FileSystem) : Changes W fs fs where
  workDir := rfl
  dir _ h := h
  file _ := .inl rfl
  name _ _ h := .inl h
  ordered h := h

theorem trans (h : Changes W fs fs') (h' : Changes W fs' fs'') : Changes W fs fs'' where
  workDir := h'.workDir.trans h.workDir
  dir y hy := h'.dir y (h.dir y hy)
  file y := by
    rcases h'.file y with heq | hwritten
    · rw [heq]
      exact h.file y
    · exact .inr hwritten
  name y n hy := (h'.name y n hy).elim (h.name y n) .inr
  ordered hordered := h'.ordered (h.ordered hordered)

theorem mono (h : Changes W fs fs') (hW : ∀ y content, W y content → W' y content) :
    Changes W' fs fs' :=
  { h with file := fun y => (h.file y).imp_right fun ⟨content, hc, hw⟩ => ⟨content, hc, hW _ _ hw⟩ }

variable (h : Changes W fs fs')

include h

theorem isSome_fileAt {y : List Text} (hy : (fs.fileAt y).isSome) : (fs'.fileAt y).isSome := by
  rcases h.file y with heq | ⟨content, hcontent, -⟩
  · rwa [heq]
  · rw [hcontent]
    rfl

theorem has {y : List Text} (hy : fs.Has y) : fs'.Has y := by
  rw [has_iff] at hy ⊢
  exact hy.imp h.isSome_fileAt (h.dir y)

/-- **A file that is not written** stays as it is, or as absent. -/
theorem fileAt_eq {y : List Text} (hy : ∀ content, ¬ W y content) : fs'.fileAt y = fs.fileAt y :=
  (h.file y).resolve_right fun ⟨content, _, hw⟩ => hy content hw

/-- A file that was not there was written. -/
theorem written {y : List Text} {content : Content} (hy : fs.fileAt y = none)
    (hy' : fs'.fileAt y = some content) : W y content := by
  rcases h.file y with heq | ⟨content', hcontent, hw⟩
  · rw [heq, hy] at hy'
    cases hy'
  · rw [hcontent] at hy'
    cases hy'
    exact hw

/-- What can be followed can still be followed. -/
theorem follow {start segments found : List Text} (hfollow : fs.follow start segments = .ok found) :
    fs'.follow start segments = .ok found := by
  induction segments generalizing start with
  | nil => exact hfollow
  | cons segment rest ih =>
    obtain ⟨entries, hnode, hsegment, hrest⟩ := fs.follow_cons_eq_ok_iff.mp hfollow
    obtain ⟨entries', hnode'⟩ := h.dir start ⟨entries, hnode⟩
    refine fs'.follow_cons_eq_ok_iff.mpr ⟨entries', hnode', fun hplain => ?_, ih hrest⟩
    have hhas := h.has (y := start ++ [segment])
    rw [Has, Has, Node.get?_concat hnode, Node.get?_concat hnode'] at hhas
    exact (hsegment hplain).imp_right hhas

theorem origin_eq (p : Path) : fs'.origin p = fs.origin p := by rw [origin, origin, h.workDir]

theorem place_eq (p : Path) : fs'.place p = fs.place p := by rw [place, place, h.origin_eq]

/-- **A path that leads to something** leads to what is at its place now. -/
theorem node {p : Path} {node node' : Node} (hnode : fs.node p = .ok node)
    (hnow : fs'.root.get? (fs.place p) = some node') : fs'.node p = .ok node' := by
  obtain ⟨hcheck, hfollow, -⟩ := fs.node_eq_ok_iff.mp hnode
  rw [← h.origin_eq, ← h.place_eq] at hfollow
  rw [← h.place_eq] at hnow
  exact fs'.node_eq_ok_iff.mpr ⟨hcheck, h.follow hfollow, hnow⟩

/-- **A file that a path leads to** and that is not written stays there. -/
theorem node_file {p : Path} {content : Content} (hnode : fs.node p = .ok (.file content))
    (hkept : ∀ c, ¬ W (fs.place p) c) : fs'.node p = .ok (.file content) := by
  have hfile := fileAt_of_get? (fs.get?_place_of_node hnode)
  exact h.node hnode (fileAt_eq_some_iff.mp ((h.fileAt_eq hkept).trans hfile))

/-- What a path leads to is not lost. -/
theorem pathExists {p : Path} (hthere : fs.pathExists p = true) : fs'.pathExists p = true := by
  unfold FileSystem.pathExists at hthere
  rcases hnode : fs.node p with e | node
  · rw [hnode] at hthere
    cases hthere
  · have hhas : fs'.Has (fs.place p) := h.has (by rw [Has, fs.get?_place_of_node hnode]; rfl)
    obtain ⟨node', hnow⟩ := Option.isSome_iff_exists.mp hhas
    rw [FileSystem.pathExists, h.node hnode hnow]
    rfl

/-- **A directory that a path leads to** stays there. -/
theorem isDir {p : Path} (hdir : fs.isDir p = true) : fs'.isDir p = true := by
  obtain ⟨entries, hnode⟩ := exists_node_of_isDir hdir
  obtain ⟨entries', hnow⟩ := h.dir (fs.place p) ⟨entries, fs.get?_place_of_node hnode⟩
  rw [FileSystem.isDir, h.node hnode hnow]

end Changes

/-- **Plain names below a place**, so that paths can lead to all that is there. -/
def PlainBelow (fs : FileSystem) (place : List Text) : Prop :=
  ∀ names, fs.Has (place ++ names) → ∀ n ∈ names, IsPlain n

/-- The names below a place are those that a walk lists. -/
theorem plainBelow_of_nodes {fs : FileSystem} {place : List Text} {node : Node}
    (hnode : fs.root.get? place = some node)
    (h : ∀ found ∈ node.nodes, ∀ n ∈ found.1, IsPlain n) : fs.PlainBelow place := by
  intro names hhas
  obtain ⟨found, hfound⟩ := Option.isSome_iff_exists.mp hhas
  rw [Node.get?_append, hnode, Option.bind_some] at hfound
  exact h _ (Node.mem_nodes_of_get? hfound)

theorem PlainBelow.of_prefix {fs : FileSystem} {place below : List Text}
    (h : fs.PlainBelow place) (hbelow : place <+: below) : fs.PlainBelow below := by
  obtain ⟨more, rfl⟩ := hbelow
  intro names hhas n hn
  rw [List.append_assoc] at hhas
  exact h _ hhas n (List.mem_append_right _ hn)

/-- **The files below a directory** have plain names, and some name. -/
theorem PlainBelow.names_plain {fs : FileSystem} {p : Path} (h : fs.PlainBelow (fs.place p))
    (hdir : fs.isDir p = true) {names : List Text}
    (hfile : (fs.fileAt (fs.place p ++ names)).isSome) : (∀ n ∈ names, IsPlain n) ∧ names ≠ [] := by
  refine ⟨h names (has_iff.mpr (.inl hfile)), ?_⟩
  rintro rfl
  rw [List.append_nil, (isDirAt_of_isDir hdir).fileAt_eq_none] at hfile
  cases hfile

/-- Names below a place stay plain. -/
theorem PlainBelow.later {W : List Text → Content → Prop} {fs fs' : FileSystem}
    {place : List Text} (h : fs.PlainBelow place) (hchanges : Changes W fs fs') :
    fs'.PlainBelow place := by
  intro names hhas n hn
  obtain ⟨before, after, rfl⟩ := List.append_of_mem hn
  have hfront : fs'.Has (place ++ before ++ [n]) := by
    have hwhole : fs'.Has (place ++ before ++ [n] ++ after) := by simpa using hhas
    exact has_of_has_append hwhole
  rcases hchanges.name _ _ hfront with hold | hplain
  · rw [List.append_assoc] at hold
    exact h _ hold n (by simp)
  · exact hplain

/-! ## Putting a leaf -/

theorem get?_append_of_not_isDirAt {fs : FileSystem} {place rest : List Text}
    (hdir : ¬ fs.IsDirAt place) (hne : rest ≠ []) : fs.root.get? (place ++ rest) = none := by
  by_contra hsome
  exact hdir (isDirAt_of_has (Option.isSome_iff_ne_none.mpr hsome) hne)

section Put

variable {fs : FileSystem} {parent : List Text} {name : Text} {entries : List (Text × Node)}
  {new : Node} (hparent : fs.root.get? parent = some (.directory entries))

include hparent

/-- **A place after a node is put**: it is that of the node or lies below, it is that of a directory
above, or it is left alone. -/
theorem cases_put (name : Text) (new : Node) (y : List Text) :
    (∃ rest, y = parent ++ [name] ++ rest ∧
      (fs.put (parent ++ [name]) new).root.get? y = new.get? rest) ∨
    (fs.IsDirAt y ∧ (fs.put (parent ++ [name]) new).IsDirAt y) ∨
    (fs.put (parent ++ [name]) new).root.get? y = fs.root.get? y := by
  by_cases hbelow : parent ++ [name] <+: y
  · obtain ⟨rest, rfl⟩ := hbelow
    refine .inl ⟨rest, rfl, ?_⟩
    rw [List.append_assoc]
    exact Node.get?_put_append hparent rest
  · by_cases habove : y <+: parent
    · obtain ⟨below, rfl⟩ := habove
      obtain ⟨before, after, hbefore, hafter, -⟩ := Node.get?_put_above new name hparent rfl
      exact .inr (.inl ⟨⟨before, hbefore⟩, ⟨after, hafter⟩⟩)
    · exact .inr (.inr (Node.get?_put_elsewhere hparent habove hbelow))

variable (hdir : ¬ fs.IsDirAt (parent ++ [name]))

include hdir

theorem isDirAt_put {y : List Text} (hy : fs.IsDirAt y) :
    (fs.put (parent ++ [name]) new).IsDirAt y := by
  obtain ⟨rest, rfl, -⟩ | ⟨-, hafter⟩ | hsame := cases_put hparent name new y
  · obtain ⟨below, hget⟩ := hy
    by_cases hne : rest = []
    · rw [hne, List.append_nil] at hget
      exact absurd ⟨below, hget⟩ hdir
    · rw [get?_append_of_not_isDirAt hdir hne] at hget
      cases hget
  · exact hafter
  · exact hy.imp fun below hget => hsame.trans hget

variable (hleaf : new.IsLeaf)

include hleaf

theorem fileAt_put (hfile : new.content? = none → fs.fileAt (parent ++ [name]) = none)
    (y : List Text) :
    (fs.put (parent ++ [name]) new).fileAt y = fs.fileAt y ∨
      ∃ content, (fs.put (parent ++ [name]) new).fileAt y = some content ∧
        y = parent ++ [name] ∧ new.content? = some content := by
  obtain ⟨rest, rfl, hget⟩ | ⟨hbefore, hafter⟩ | hsame :=
    cases_put hparent name new y
  · by_cases hne : rest = []
    · subst hne
      rw [List.append_nil] at hget ⊢
      rw [fileAt, Node.fileAt, hget, Node.get?_nil, Option.bind_some]
      cases hcontent : new.content? with
      | none => exact .inl (hfile hcontent).symm
      | some content => exact .inr ⟨content, rfl, rfl, rfl⟩
    · rw [fileAt_eq_none_of_get? (get?_append_of_not_isDirAt hdir hne),
        fileAt_eq_none_of_get? (hget.trans (hleaf rest hne))]
      exact .inl rfl
  · rw [hbefore.fileAt_eq_none, hafter.fileAt_eq_none]
    exact .inl rfl
  · exact .inl (congrArg (Option.bind · Node.content?) hsame)

omit hdir

theorem has_put {y : List Text} {n : Text}
    (hy : (fs.put (parent ++ [name]) new).Has (y ++ [n])) : fs.Has (y ++ [n]) ∨ n = name := by
  obtain ⟨rest, heq, hget⟩ | ⟨hbefore, -⟩ | hsame :=
    cases_put hparent name new (y ++ [n])
  · rw [Has, hget] at hy
    by_cases hne : rest = []
    · rw [hne, List.append_nil] at heq
      exact .inr (List.singleton_inj.mp (List.append_inj' heq rfl).2)
    · rw [hleaf rest hne] at hy
      cases hy
  · exact .inl (has_iff.mpr (.inr hbefore))
  · rw [Has, hsame] at hy
    exact .inl hy

/-- **A file or an empty directory put at a free place**, or a file in the place of another. -/
theorem changes_put (hdir : ¬ fs.IsDirAt (parent ++ [name])) (hname : IsPlain name)
    (hfile : new.content? = none → fs.fileAt (parent ++ [name]) = none) :
    Changes (fun y content => y = parent ++ [name] ∧ new.content? = some content) fs
      (fs.put (parent ++ [name]) new) where
  workDir := rfl
  dir _ hy := isDirAt_put hparent hdir hy
  file := fileAt_put hparent hdir hleaf hfile
  name _ n hy := (has_put hparent hleaf hy).imp_right fun (hn : n = _) => hn ▸ hname
  ordered hordered := hordered.put hleaf.ordered hparent name

end Put

/-! ## Operations -/

section Operations

variable {fs fs' : FileSystem} {p : Path}

/-- A path is the segments before the last one that is not empty, that one, and empty ones. -/
theorem segments_eq_of_lastSegment {before : List Text} {last : Text} {slashed : Bool}
    (h : lastSegment p = (before, last, slashed)) :
    ∃ n, p.segments = before ++ last :: List.replicate n [] := by
  unfold lastSegment at h
  simp only at h
  have hsegments := List.takeWhile_append_dropWhile (p := List.isEmpty) (l := p.segments.reverse)
  obtain ⟨n, hempty⟩ : ∃ n, p.segments.reverse.takeWhile List.isEmpty = List.replicate n [] :=
    ⟨_, List.eq_replicate_iff.mpr
      ⟨rfl, fun s hs => List.isEmpty_iff.mp (List.mem_takeWhile_imp hs)⟩⟩
  have hreverse := congrArg List.reverse hsegments
  rw [hempty, List.reverse_reverse, List.reverse_append, List.reverse_replicate] at hreverse
  split at h
  · rename_i hdrop
    cases h
    rw [hdrop] at hreverse
    obtain ⟨m, rfl⟩ : ∃ m, n = m + 1 := Nat.exists_eq_succ_of_ne_zero fun hn => by
      rw [hn] at hreverse
      exact List.splitOn_ne_nil '/' p.text hreverse.symm
    exact ⟨m, hreverse.symm⟩
  · rename_i hdrop
    cases h
    rw [hdrop, List.reverse_cons, List.append_assoc, List.singleton_append] at hreverse
    exact ⟨n, hreverse.symm⟩

/-- The directory before the last segment, and the place of the path. -/
theorem exists_of_parentPlace {before : List Text} {last : Text} {slashed : Bool}
    {parent : List Text} {entries : List (Text × Node)}
    (hlast : lastSegment p = (before, last, slashed))
    (hparent : fs.parentPlace p before = .ok (parent, entries))
    (hplain : ¬ (last.isEmpty || last == ['.'] || last == ['.', '.']) = true) :
    fs.root.get? parent = some (.directory entries) ∧ IsPlain last ∧
      fs.place p = parent ++ [last] := by
  simp only [Bool.or_eq_true, List.isEmpty_iff, beq_iff_eq, not_or] at hplain
  obtain ⟨n, hsegments⟩ := segments_eq_of_lastSegment hlast
  have hname : IsPlain last :=
    ⟨hplain.1.1, hplain.1.2, hplain.2, Path.slash_not_mem_of_mem_segments (p := p)
      (by rw [hsegments]; simp)⟩
  obtain ⟨found, hfollow, hget⟩ := bind_eq_ok.mp hparent
  split at hget
  · rename_i hnode
    cases hget
    refine ⟨hnode, hname, ?_⟩
    rw [place, hsegments, placeFrom_append, ← fs.eq_placeFrom_of_follow hfollow, placeFrom_cons,
      stepTo_of_isPlain hname, placeFrom_replicate_nil]
  · cases hget
  · cases hget

/-- **The place of a file to be written** is that of its path, and no directory. -/
theorem exists_of_filePlace {found : List Text} (h : fs.filePlace p = .ok found) :
    ∃ parent name entries, found = parent ++ [name] ∧ fs.place p = parent ++ [name] ∧
      fs.root.get? parent = some (.directory entries) ∧ IsPlain name ∧
      ¬ fs.IsDirAt (parent ++ [name]) := by
  obtain ⟨_, -, h⟩ := bind_eq_ok.mp h
  rcases hlast : lastSegment p with ⟨before, last, slashed⟩
  rw [hlast] at h
  obtain ⟨⟨parent, entries⟩, hparent, h⟩ := bind_eq_ok.mp h
  dsimp only at h
  split at h
  · cases h
  · rename_i hplain
    obtain ⟨hentries, hname, hplace⟩ := exists_of_parentPlace hlast hparent hplain
    have hlookup := Node.get?_concat hentries last
    suffices hfree : found = parent ++ [last] ∧
        ∀ below, entries.lookup last ≠ some (.directory below) from
      ⟨parent, last, entries, hfree.1, hplace, hentries, hname, fun ⟨below, hbelow⟩ =>
        hfree.2 below (hlookup.symm.trans hbelow)⟩
    split at h
    · cases h
    · split at h
      · cases h
      · rename_i hentry
        cases slashed <;> cases h
        exact ⟨rfl, fun below hbelow => by rw [hentry] at hbelow; cases hbelow⟩
      · rename_i hentry
        cases slashed <;> cases h
        exact ⟨rfl, fun below hbelow => by rw [hentry] at hbelow; cases hbelow⟩

/-- **Writing a file** writes that file only. -/
theorem changes_writeFile {content : Content} (h : fs.writeFile p content = .ok fs') :
    Changes (fun y c => y = fs.place p ∧ c = content) fs fs' ∧
      fs'.fileAt (fs.place p) = some content := by
  obtain ⟨found, hfound, h⟩ := bind_eq_ok.mp h
  cases h
  obtain ⟨parent, name, entries, rfl, hplace, hparent, hname, hdir⟩ := exists_of_filePlace hfound
  rw [hplace]
  refine ⟨(changes_put hparent (Node.isLeaf_file content) hdir hname (by simp [Node.content?])).mono
    fun y c ⟨hy, hc⟩ => ⟨hy, (Option.some.inj hc).symm⟩, fileAt_of_get? ?_⟩
  exact (Node.get?_put_append hparent []).trans (Node.get?_nil _)

/-- A file only is copied. -/
theorem exists_node_of_copyFile {source dest : Path} (h : fs.copyFile source dest = .ok fs') :
    ∃ content, fs.node source = .ok (.file content) := by
  obtain ⟨_, -, h⟩ := bind_eq_ok.mp h
  obtain ⟨node, hnode, h⟩ := bind_eq_ok.mp h
  rcases node with content | entries
  · exact ⟨content, hnode⟩
  · cases h

/-- **Copying a file** writes the copy only, with the content of the file copied. -/
theorem changes_copyFile {source dest : Path} (h : fs.copyFile source dest = .ok fs') :
    ∃ content, fs.fileAt (fs.place source) = some content ∧
      Changes (fun y c => y = fs.place dest ∧ (fs.place dest ≠ fs.place source → c = content))
        fs fs' ∧
      ∃ copy, fs'.fileAt (fs.place dest) = some copy ∧
        (fs.place dest ≠ fs.place source → copy = content) := by
  obtain ⟨sourcePlace, hsource, h⟩ := bind_eq_ok.mp h
  obtain rfl := fs.eq_place_of_locate hsource
  obtain ⟨node, hnode, h⟩ := bind_eq_ok.mp h
  have hget := fs.get?_place_of_node hnode
  rcases node with content | entries
  · obtain ⟨_, hcontent, h⟩ := bind_eq_ok.mp h
    cases hcontent
    obtain ⟨found, hfound, h⟩ := bind_eq_ok.mp h
    cases h
    obtain ⟨parent, name, entries, rfl, hplace, hparent, hname, hdir⟩ := exists_of_filePlace hfound
    rw [hplace]
    refine ⟨content, fileAt_of_get? hget,
      (changes_put hparent (Node.isLeaf_file _) hdir hname (by simp [Node.content?])).mono ?_,
      _, fileAt_of_get? ((Node.get?_put_append hparent []).trans (Node.get?_nil _)), ?_⟩
    · rintro y c ⟨rfl, hc⟩
      refine ⟨rfl, fun hne => ?_⟩
      rw [if_neg hne] at hc
      exact (Option.some.inj hc).symm
    · exact fun hne => if_neg hne
  · cases h

/-- **Copying a file** to another place is writing what it holds. -/
theorem copyFile_eq_writeFile {source dest : Path} {content : Content}
    (hnode : fs.node source = .ok (.file content)) (hne : fs.place dest ≠ fs.place source) :
    fs.copyFile source dest = fs.writeFile dest content := by
  obtain ⟨found, hlocate, -⟩ := bind_eq_ok.mp hnode
  have hfound := fs.eq_place_of_locate hlocate
  rw [copyFile, writeFile, hlocate, hnode]
  rcases hplace : fs.filePlace dest with _ | place
  · rfl
  · obtain ⟨_, _, _, rfl, hdest, -⟩ := exists_of_filePlace hplace
    rw [← hdest, hfound]
    simp only [bind, Except.bind, if_neg hne]

/-- **A directory that is created** is an empty one at a free place. -/
theorem exists_of_createDir (h : fs.createDir p = .ok fs') :
    ∃ parent name entries, fs.place p = parent ++ [name] ∧
      fs.root.get? parent = some (.directory entries) ∧ IsPlain name ∧
      entries.lookup name = none ∧ fs' = fs.put (parent ++ [name]) (.directory []) := by
  obtain ⟨_, -, h⟩ := bind_eq_ok.mp h
  rcases hlast : lastSegment p with ⟨before, last, slashed⟩
  rw [hlast] at h
  obtain ⟨⟨parent, entries⟩, hparent, h⟩ := bind_eq_ok.mp h
  dsimp only at h
  split at h
  · cases h
  · rename_i hplain
    obtain ⟨hentries, hname, hplace⟩ := exists_of_parentPlace hlast hparent hplain
    split at h
    · cases h
    · split at h
      · cases h
      · rename_i hentry
        exact ⟨parent, last, entries, hplace, hentries, hname, hentry, (Except.ok.inj h).symm⟩

/-- **Creating a directory** writes no file. -/
theorem changes_createDir (h : fs.createDir p = .ok fs') : Changes (fun _ _ => False) fs fs' := by
  obtain ⟨parent, name, entries, -, hentries, hname, hentry, rfl⟩ := exists_of_createDir h
  have hfree : fs.root.get? (parent ++ [name]) = none :=
    (Node.get?_concat hentries name).trans hentry
  refine (changes_put hentries Node.isLeaf_directory_nil ?_ hname
    fun _ => fileAt_eq_none_of_get? hfree).mono fun y c ⟨_, hc⟩ => by cases hc
  rintro ⟨below, hbelow⟩
  rw [hfree] at hbelow
  cases hbelow

/-- Creating several directories writes no file, even when it fails. -/
theorem changes_createDirs (fs : FileSystem) (paths : List Path) :
    Changes (fun _ _ => False) fs (fs.createDirs paths).2 := by
  induction paths with
  | nil => exact .refl _ fs
  | cons p above ih =>
    rw [createDirs]
    split
    · exact .refl _ fs
    · split
      · rename_i created hcreated
        exact changes_createDir hcreated
      · split
        · rename_i e created habove
          rwa [habove] at ih
        · rename_i created habove
          rw [habove] at ih
          split
          · rename_i done hdone
            exact ih.trans (changes_createDir hdone)
          · exact ih
      · exact .refl _ fs

theorem changes_createDirAll (fs : FileSystem) (p : Path) :
    Changes (fun _ _ => False) fs (fs.createDirAll p).2 := changes_createDirs fs _

end Operations

/-! ## Listings -/

/-- **The files below a path** are those that names lead to from its place. -/
theorem fileAt_of_mem_filesBelow {fs : FileSystem} (hordered : fs.root.Ordered) {p : Path}
    {enter : Text → Bool} {found : Found} (h : found ∈ fs.filesBelow enter p) :
    found.path = p.joinNames found.names ∧
      fs.fileAt (fs.place p ++ found.names) = some found.content := by
  unfold filesBelow at h
  split at h
  · rename_i node hnode
    obtain ⟨⟨names, content⟩, hfile, rfl⟩ := List.mem_map.mp h
    have hplace := fs.get?_place_of_node hnode
    refine ⟨rfl, fileAt_of_get? ?_⟩
    rw [Node.get?_append, hplace, Option.bind_some]
    exact ((hordered.of_get? hplace).mem_files_iff.mp hfile).1
  · cases h

theorem fileAt_of_mem_allFiles {fs : FileSystem} (hordered : fs.root.Ordered) {p : Path}
    {found : Found} (h : found ∈ fs.allFiles p) :
    found.path = p.joinNames found.names ∧
      fs.fileAt (fs.place p ++ found.names) = some found.content :=
  fileAt_of_mem_filesBelow hordered h

/-- **The files below a directory** are all that names lead to from its place. -/
theorem mem_allFiles_iff {fs : FileSystem} (hordered : fs.root.Ordered) {p : Path}
    (hdir : fs.isDir p = true) {found : Found} :
    found ∈ fs.allFiles p ↔ found.path = p.joinNames found.names ∧
      fs.fileAt (fs.place p ++ found.names) = some found.content := by
  refine ⟨fileAt_of_mem_allFiles hordered, fun ⟨hpath, hfile⟩ => ?_⟩
  obtain ⟨path, names, content⟩ := found
  obtain rfl : path = p.joinNames names := hpath
  obtain ⟨entries, hnode⟩ := exists_node_of_isDir hdir
  have hplace := fs.get?_place_of_node hnode
  rw [fileAt_eq_some_iff, Node.get?_append, hplace, Option.bind_some] at hfile
  rw [allFiles, filesBelow, hnode]
  exact List.mem_map.mpr ⟨(names, content), (hordered.of_get? hplace).mem_files_iff.mpr
    ⟨hfile, fun _ _ => rfl⟩, rfl⟩

/-- **The same files** are listed below a directory where none is written. -/
theorem Changes.filesBelow_eq {W : List Text → Content → Prop} {fs fs' : FileSystem}
    (h : Changes W fs fs') (hordered : fs.root.Ordered) {p : Path} (hdir : fs.isDir p = true)
    (hkept : ∀ names content, ¬ W (fs.place p ++ names) content) (enter : Text → Bool) :
    fs'.filesBelow enter p = fs.filesBelow enter p := by
  obtain ⟨entries, hnode⟩ := exists_node_of_isDir hdir
  obtain ⟨entries', hnode'⟩ := exists_node_of_isDir (h.isDir hdir)
  have hplace := fs.get?_place_of_node hnode
  have hplace' := fs'.get?_place_of_node hnode'
  have hfiles : (Node.directory entries').files enter = (Node.directory entries).files enter := by
    refine (hordered.of_get? hplace).files_eq ((h.ordered hordered).of_get? hplace')
      fun names content => ?_
    have hsame := h.fileAt_eq (hkept names)
    have hget : ∀ (fs : FileSystem) (node : Node), fs.root.get? (fs.place p) = some node →
        (node.get? names = some (.file content) ↔
          fs.fileAt (fs.place p ++ names) = some content) := fun fs node hnode => by
      rw [fileAt_eq_some_iff, Node.get?_append, hnode, Option.bind_some]
    rw [hget fs' _ hplace', hget fs _ hplace, h.place_eq, hsame]
  rw [filesBelow, filesBelow, hnode, hnode']
  dsimp only
  rw [hfiles]

theorem Changes.allFiles_eq {W : List Text → Content → Prop} {fs fs' : FileSystem}
    (h : Changes W fs fs') (hordered : fs.root.Ordered) {p : Path} (hdir : fs.isDir p = true)
    (hkept : ∀ names content, ¬ W (fs.place p ++ names) content) :
    fs'.allFiles p = fs.allFiles p := h.filesBelow_eq hordered hdir hkept _

/-- **The nodes of a directory** that a path leads to have plain names, and its files are among
them. -/
theorem exists_nodes_of_isDir {fs : FileSystem} (hordered : fs.root.Ordered) {p : Path}
    (hplain : fs.PlainBelow (fs.place p)) (hdir : fs.isDir p = true) :
    ∃ node, fs.node p = .ok node ∧ (∀ x ∈ node.nodes, ∀ n ∈ x.1, IsPlain n) ∧
      ∀ names content, fs.fileAt (fs.place p ++ names) = some content →
        (names, .file content) ∈ node.nodes := by
  obtain ⟨entries, hnode⟩ := exists_node_of_isDir hdir
  have hplace := fs.get?_place_of_node hnode
  have hget : ∀ names, fs.root.get? (fs.place p ++ names) =
      (Node.directory entries).get? names := fun names => by
    rw [Node.get?_append, hplace, Option.bind_some]
  refine ⟨_, hnode, fun x hx => ?_, fun names content hcontent => ?_⟩
  · refine hplain x.1 ?_
    rw [Has, hget, (hordered.of_get? hplace).mem_nodes_iff.mp hx]
    rfl
  · rw [fileAt_eq_some_iff, hget] at hcontent
    exact Node.mem_nodes_of_get? hcontent

end FileSystem

end BookSite
