import BookSite.Proofs.Files.CreatedDirectories
import BookSite.Proofs.Files.Writing

/-!
# Proofs/Files/Repetition — doing the same again

A run is done again on the files that it has left.  While the first run goes on to its end, the
second one goes through file systems in which nothing is missing any more and every file is as the
first run has it at that point, or as it will be at the end (`Again`).  Single operations done again
keep to this: directories that were created are there, and a file that was written is written to the
same place.
-/

namespace BookSite.FileSystem

variable {fs fs' : FileSystem} {p : Path}

/-! ## What is there already -/

/-- **A directory that is there** is not created. -/
theorem createDirAll_of_opens (husable : IsUsable p)
    (hopens : fs.Opens (fs.origin p) p.segments) : fs.createDirAll p = (.ok (), fs) := by
  obtain ⟨above, hall, -⟩ := exists_ancestorsUpTo p.text.length p
  rw [createDirAll, Path.ancestors, hall]
  by_cases hne : p.text = []
  · rw [createDirs, if_pos (by simpa using hne)]
  have hcheck := checkPath_eq_ok_iff.mpr ⟨husable, hne⟩
  rcases hlast : lastSegment p with ⟨before, last, slashed⟩
  obtain ⟨hbefore, hinside⟩ := (opens_of_lastSegment hlast).mp hopens
  obtain ⟨entries, hdir, hentries⟩ := exists_dirAlong hbefore
  have hthere : fs.createDir p = .error .alreadyExists := by
    rw [createDir_of_dirAlong hlast hcheck hdir]
    split
    · rename_i hname
      obtain ⟨-, hshort, hlastOpens⟩ := (opens_cons_of_isName hname).mp hinside
      obtain ⟨below, hbelow⟩ := opens_nil.mp hlastOpens
      rw [if_neg (by omega), (Node.get?_concat hentries last).symm.trans hbelow]
    · rfl
  rw [createDirs_cons hne (by rw [hthere]; simp), settle, hthere]
  exact congrArg (·, fs) (if_pos (isDir_iff.mpr ⟨hcheck, hopens⟩))

/-- **Creating a directory** makes that directory only. -/
theorem makes_createDir (h : fs.createDir p = .ok fs') : Makes (· = fs.place p) fs fs' := by
  obtain ⟨parent, name, entries, hplace, hentries, -, hentry, rfl⟩ := exists_of_createDir h
  rw [hplace]
  exact makes_put hentries hentry

/-- A directory that was created is found. -/
theorem pathExists_of_createDir (h : fs.createDir p = .ok fs') : fs'.pathExists p = true := by
  rcases hlast : lastSegment p with ⟨before, last, slashed⟩
  obtain ⟨hcheck, -⟩ := opens_of_createDir h hlast
  have hopens : fs'.Opens (fs.origin p) p.segments := opens_of_settle (by rw [settle, h])
  rw [← (changes_createDir h).origin_eq] at hopens
  obtain ⟨entries, hnode⟩ := exists_node_of_isDir (isDir_iff.mpr ⟨hcheck, hopens⟩)
  rw [pathExists, hnode]
  rfl

/-- The directories that paths begin at. -/
theorem isDirAt_origin (h : fs.IsDirAt fs.workDir) (p : Path) : fs.IsDirAt (fs.origin p) := by
  rw [origin]
  split
  · by_cases hne : fs.workDir = []
    · exact hne ▸ h
    · have hhas : fs.Has ([] ++ fs.workDir) := has_iff.mpr (.inr h)
      exact isDirAt_of_has hhas hne
  · exact h

/-! ## A second run -/

/-- **The second of two runs** has come to `now` when the first was at `fs`; that one ended at
`last`. -/
structure Again (fs last now : FileSystem) : Prop where
  changes : Changes (fun y content => last.fileAt y = some content) fs now
  there : ∀ y, (last.fileAt y).isSome → (now.fileAt y).isSome
  isDirAt_iff : ∀ y, now.IsDirAt y ↔ last.IsDirAt y
  ordered : now.root.Ordered

namespace Again

variable {last now : FileSystem} {L : List Text → Content → Prop}

/-- It begins where the first one ended. -/
theorem start (hordered : fs.root.Ordered) (h : Changes L fs last) :
    Again fs last last where
  changes :=
    { h with
      file := fun y => (h.file y).imp_right fun ⟨content, hcontent, _⟩ =>
        ⟨content, hcontent, hcontent⟩ }
  there _ hy := hy
  isDirAt_iff _ := .rfl
  ordered := h.ordered hordered

/-- **It ends there too.** -/
theorem eq_last (h : Again last last now) (hordered : last.root.Ordered) : now = last := by
  have hfile : ∀ y, now.fileAt y = last.fileAt y := fun y =>
    (h.changes.file y).elim id fun ⟨content, hnow, hlast⟩ => hnow.trans hlast.symm
  have hroot : now.root = last.root := Node.Ordered.eq_of_content last.root now.root hordered
    h.ordered fun y => AgreeAt.content_eq ⟨hfile y, h.isDirAt_iff y⟩
  obtain ⟨root, workDir⟩ := now
  obtain ⟨root', workDir'⟩ := last
  cases hroot
  cases h.changes.workDir
  rfl

/-- **Both runs go on**: each file stays as it is in both, or is the same in both. -/
theorem step {W W' : List Text → Content → Prop} {now' : FileSystem} (h : Again fs last now)
    (hfirst : Changes W fs fs') (hlater : Changes L fs' last)
    (hsecond : Changes W' now now') (hdirs : ∀ y, now'.IsDirAt y → now.IsDirAt y)
    (hfiles : ∀ y, now'.fileAt y = now.fileAt y ∧ fs'.fileAt y = fs.fileAt y ∨
      now'.fileAt y = fs'.fileAt y) : Again fs' last now' where
  changes :=
    { workDir := by rw [hsecond.workDir, h.changes.workDir, hfirst.workDir]
      dir := fun y hy => hsecond.dir y ((h.isDirAt_iff y).mpr (hlater.dir y hy))
      file := fun y => by
        obtain ⟨hnow, hfs⟩ | hsame := hfiles y
        · rw [hnow, hfs]
          exact h.changes.file y
        · exact .inl hsame
      name := fun y n hy => by
        obtain hold | hplain := hsecond.name y n hy
        · exact (h.changes.name y n hold).imp_left hfirst.has
        · exact .inr hplain
      ordered := fun _ => hsecond.ordered h.ordered }
  there y hy := hsecond.isSome_fileAt (h.there y hy)
  isDirAt_iff y := ⟨fun hy => (h.isDirAt_iff y).mp (hdirs y hy),
    fun hy => hsecond.dir y ((h.isDirAt_iff y).mpr hy)⟩
  ordered := hsecond.ordered h.ordered

/-- **The first run goes on**, and the second one has what it brings already. -/
theorem step_first {W : List Text → Content → Prop} (h : Again fs last now)
    (hfirst : Changes W fs fs') (hlater : Changes L fs' last)
    (hfiles : ∀ y, fs'.fileAt y = fs.fileAt y ∨ now.fileAt y = last.fileAt y) :
    Again fs' last now where
  changes :=
    { workDir := by rw [h.changes.workDir, hfirst.workDir]
      dir := fun y hy => (h.isDirAt_iff y).mpr (hlater.dir y hy)
      file := fun y => by
        have hold : fs'.fileAt y = fs.fileAt y → now.fileAt y = fs'.fileAt y ∨
            ∃ content, now.fileAt y = some content ∧ last.fileAt y = some content := fun hkept => by
          rw [hkept]
          exact h.changes.file y
        obtain hkept | hlast := hfiles y
        · exact hold hkept
        · rcases hcontent : last.fileAt y with _ | content
          · have hnone : fs'.fileAt y = none := Option.not_isSome_iff_eq_none.mp fun hsome => by
              have hthere := hlater.isSome_fileAt hsome
              rw [hcontent] at hthere
              cases hthere
            exact .inl (by rw [hlast, hcontent, hnone])
          · exact .inr ⟨content, hlast.trans hcontent, rfl⟩
      name := fun y n hy => (h.changes.name y n hy).imp_left hfirst.has
      ordered := fun _ => h.ordered }
  there := h.there
  isDirAt_iff := h.isDirAt_iff
  ordered := h.ordered

/-- **What the first run does not write** below a place, neither writes. -/
theorem changes_of {start : FileSystem} {W : List Text → Content → Prop} (h : Again fs last now)
    (hbefore : Changes W start fs) (hwhole : Changes W start last) : Changes W start now where
  workDir := h.changes.workDir.trans hbefore.workDir
  dir y hy := h.changes.dir y (hbefore.dir y hy)
  file y := by
    obtain hsame | ⟨content, hnow, hlast⟩ := h.changes.file y
    · rw [hsame]
      exact hbefore.file y
    · rw [hnow, ← hlast]
      exact hwhole.file y
  name y n hy := (h.changes.name y n hy).elim (hbefore.name y n) .inr
  ordered _ := h.ordered

section Beside

variable {base : List Text} (h : Again fs last now)
  (hlater : Changes (fun y _ => base <+: y) fs last)
  (hnew : ∀ y, last.IsDirAt y → fs.IsDirAt y ∨ base <+: y)

include h hlater hnew

/-- **Beside what the first run still changes** nothing differs. -/
theorem agreeAt {y : List Text} (hy : ¬ base <+: y) : AgreeAt fs now y where
  fileAt_eq := (h.changes_of (.refl _ fs) hlater).fileAt_eq fun _ => hy
  isDirAt_iff :=
    ⟨fun hdir => (hnew y ((h.isDirAt_iff y).mp hdir)).resolve_right hy, h.changes.dir y⟩

/-- **A directory beside it** is the same. -/
theorem node_eq (hordered : fs.root.Ordered) (hdir : fs.isDir p = true)
    (hapart : ∀ names, ¬ base <+: fs.place p ++ names) : now.node p = fs.node p := by
  obtain ⟨entries, hnode⟩ := exists_node_of_isDir hdir
  obtain ⟨entries', hnode'⟩ := exists_node_of_isDir (h.changes.isDir hdir)
  have hplace := fs.get?_place_of_node hnode
  have hplace' := now.get?_place_of_node hnode'
  rw [h.changes.place_eq] at hplace'
  have hsame := Node.Ordered.eq_of_content (.directory entries) (.directory entries')
    (hordered.of_get? hplace) (h.ordered.of_get? hplace') fun names => by
      have hcontent := (h.agreeAt hlater hnew (hapart names)).content_eq
      rwa [Node.get?_append, Node.get?_append, hplace, hplace', Option.bind_some,
        Option.bind_some] at hcontent
  rw [hnode, hnode', hsame]

end Beside

section Operations

variable (h : Again fs last now)

include h

/-- **A directory is created** in the first run, and is there in the second. -/
theorem createDirAll (hwork : fs.IsDirAt fs.workDir) (hmade : fs.createDirAll p = (.ok (), fs'))
    (hlater : Changes L fs' last) :
    now.createDirAll p = (.ok (), now) ∧ Again fs' last now := by
  have hchanges := fs.changes_createDirAll p
  rw [hmade] at hchanges
  have hnow : Again fs' last now :=
    h.step_first hchanges hlater fun y => .inl (hchanges.fileAt_eq (by simp))
  refine ⟨createDirAll_of_opens (isUsable_of_createDirAll hmade) ?_, hnow⟩
  rw [h.changes.origin_eq]
  exact (opens_of_createDirAll hwork hmade).later hnow.changes

/-- A single directory. -/
theorem pathExists_of_createDir (hmade : fs.createDir p = .ok fs')
    (hlater : Changes L fs' last) :
    now.pathExists p = true ∧ Again fs' last now := by
  have hchanges := changes_createDir hmade
  have hnow : Again fs' last now :=
    h.step_first hchanges hlater fun y => .inl (hchanges.fileAt_eq (by simp))
  exact ⟨hnow.changes.pathExists (FileSystem.pathExists_of_createDir hmade), hnow⟩

section Write

variable {before : List Text} {name : Text} (hsegments : p.segments = before ++ [name])
  (hname : IsName name) {content : Content} (hwrite : fs.writeFile p content = .ok fs')
  (hlater : Changes L fs' last)

include hsegments hname hwrite hlater

/-- **A file is written** in both runs. -/
theorem writeFile : ∃ now', now.writeFile p content = .ok now' ∧ Again fs' last now' := by
  obtain ⟨hfirst, hwritten⟩ := changes_writeFile hwrite
  obtain ⟨_, hfound, -⟩ := bind_eq_ok.mp hwrite
  obtain ⟨husable, hopens, hshort, -, rfl⟩ := (filePlace_eq_ok_iff hsegments hname).mp hfound
  have hnoDir : ¬ now.IsDirAt (fs.place p) := fun hdir => by
    have hthere := hlater.isSome_fileAt (y := fs.place p) (by rw [hwritten]; rfl)
    rw [((h.isDirAt_iff _).mp hdir).fileAt_eq_none] at hthere
    cases hthere
  rw [← h.changes.place_eq] at hshort hnoDir hwritten hfirst
  rw [← h.changes.origin_eq] at hopens
  have hplace := (filePlace_eq_ok_iff hsegments hname).mpr
    ⟨husable, hopens.later h.changes, hshort, hnoDir, rfl⟩
  obtain ⟨now', hnow'⟩ : ∃ now', now.writeFile p content = .ok now' :=
    ⟨_, bind_eq_ok.mpr ⟨_, hplace, rfl⟩⟩
  obtain ⟨hsecond, hrewritten⟩ := changes_writeFile hnow'
  refine ⟨now', hnow', h.step hfirst hlater hsecond
    (fun y => (isDirAt_writeFile_iff hsegments hname hnow').mp) fun y => ?_⟩
  by_cases hy : y = now.place p
  · rw [hy]
    exact .inr (hrewritten.trans hwritten.symm)
  · exact .inl ⟨hsecond.fileAt_eq fun _ hc => hy hc.1, hfirst.fileAt_eq fun _ hc => hy hc.1⟩

/-- **A file that was not there** before the first run wrote it is there in the second one. -/
theorem pathExists_of_writeFile (hmissing : fs.pathExists p = false) :
    now.pathExists p = true ∧ Again fs' last now := by
  obtain ⟨hfirst, hwritten⟩ := changes_writeFile hwrite
  obtain ⟨_, hfound, -⟩ := bind_eq_ok.mp hwrite
  obtain ⟨husable, hopens, hshort, -, -⟩ := (filePlace_eq_ok_iff hsegments hname).mp hfound
  have hthere : (last.fileAt (fs.place p)).isSome :=
    hlater.isSome_fileAt (by rw [hwritten]; rfl)
  have hnow := h.there _ hthere
  have hnone : fs.fileAt (fs.place p) = none := Option.not_isSome_iff_eq_none.mp fun hsome => by
    rw [pathExists_of_opens hsegments hname husable hopens hshort hsome] at hmissing
    cases hmissing
  constructor
  · rw [← h.changes.place_eq] at hshort hnow
    rw [← h.changes.origin_eq] at hopens
    exact pathExists_of_opens hsegments hname husable (hopens.later h.changes) hshort hnow
  · refine h.step_first hfirst hlater fun y => ?_
    by_cases hy : y = fs.place p
    · obtain hsame | ⟨content', hcontent, hlast⟩ := h.changes.file y
      · rw [hy, hnone] at hsame
        rw [hsame] at hnow
        cases hnow
      · exact .inr (hcontent.trans hlast.symm)
    · exact .inl (hfirst.fileAt_eq fun _ hc => hy hc.1)

end Write

end Operations

end Again

end BookSite.FileSystem
