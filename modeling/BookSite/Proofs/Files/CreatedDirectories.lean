import BookSite.Proofs.Files.MadeDirectories

/-!
# Proofs/Files/CreatedDirectories — a directory that was created

However its path is spelled, a directory that was created can be gone into
(`opens_of_createDirAll`), and all that was made for it are places that the path goes into
(`isDirAt_of_createDirAll`).
-/

namespace BookSite.FileSystem

variable {fs fs' : FileSystem} {p : Path} {y : List Text}

/-! ## One directory -/

/-- **A directory is only created** where the way to it is open. -/
theorem opens_of_createDir (h : fs.createDir p = .ok fs') {before : List Text} {last : Text}
    {slashed : Bool} (hlast : lastSegment p = (before, last, slashed)) :
    checkPath p = .ok () ∧ fs.Opens (fs.origin p) before := by
  obtain ⟨_, hcheck, -⟩ := bind_eq_ok.mp h
  refine ⟨hcheck, ?_⟩
  rcases hdir : fs.dirAlong (fs.origin p) before with e | ⟨place, entries⟩
  · rw [createDir_of_error hlast hcheck hdir] at h
    cases h
  · exact (dirAlong_eq_ok_iff.mp hdir).1

/-- What is created is a place that the path goes into. -/
theorem isDirAt_of_settle (hy : (fs.settle p).2.IsDirAt y) :
    fs.IsDirAt y ∨ y ∈ entered (fs.origin p) p.segments := by
  rcases hcreate : fs.createDir p with e | created
  · rw [settle, hcreate] at hy
    exact .inl hy
  · rcases hlast : lastSegment p with ⟨before, last, slashed⟩
    obtain ⟨hcheck, hopens⟩ := opens_of_createDir hcreate hlast
    have hway := makesWay_settle hlast hcheck hopens
    refine ((hway.makes.isDirAt_iff y).mp hy).imp_right fun hnew => ?_
    rw [entered_of_lastSegment hlast]
    exact List.mem_append_right _ ((List.takeWhile_sublist _).subset hnew)

/-- **A directory that is settled** can be gone into. -/
theorem opens_of_settle (h : fs.settle p = (.ok (), fs')) :
    fs'.Opens (fs.origin p) p.segments := by
  rcases hcreate : fs.createDir p with e | created
  · rw [settle, hcreate] at h
    obtain ⟨hok, rfl⟩ := Prod.mk.inj h
    split at hok
    · exact (isDir_iff.mp ‹_›).2
    · cases hok
  · rcases hlast : lastSegment p with ⟨before, last, slashed⟩
    obtain ⟨hcheck, hopens⟩ := opens_of_createDir hcreate hlast
    have hway := makesWay_settle hlast hcheck hopens
    obtain ⟨_, -, hentries⟩ := exists_dirAlong hopens
    have hlastOpens := hway.opens (by rw [h]) ⟨_, hentries⟩
    rw [h] at hway hlastOpens
    have hkept : ∀ y, fs.IsDirAt y → fs'.IsDirAt y := fun y hy =>
      (hway.makes.isDirAt_iff y).mpr (.inl hy)
    exact (opens_of_lastSegment hlast).mpr
      ⟨⟨hkept _ hopens.1, fun y hy => (hopens.2 y hy).imp_left (hkept y)⟩, hlastOpens⟩

/-! ## All directories above -/

theorem exists_ancestorsUpTo (n : Nat) (p : Path) :
    ∃ above, p.ancestorsUpTo (n + 1) = p :: above ∧
      (above = [] ∨ ∃ parent, p.parent? = some parent ∧ above = parent.ancestorsUpTo n) := by
  rw [Path.ancestorsUpTo]
  rcases hparent : p.parent? with _ | parent
  · exact ⟨[], rfl, .inl rfl⟩
  · exact ⟨_, rfl, .inr ⟨parent, rfl, rfl⟩⟩

/-- The way to the parent is the front of the way to a path. -/
theorem entered_parent_subset {parent : Path} (h : parent.IsParent p) :
    entered (fs.origin parent) parent.segments ⊆ entered (fs.origin p) p.segments := by
  obtain ⟨more, hmore⟩ := List.dropLast_prefix p.steps
  have horigin : fs.origin parent = fs.origin p := by rw [origin, origin, h.isAbsolute]
  have hwhole : entered (fs.origin p) p.segments =
      entered (fs.origin p) (p.steps.dropLast ++ more) := by
    rw [hmore, Path.steps, entered_namesAlong]
  rw [horigin, ← entered_namesAlong, ← Path.steps, h.steps, hwhole, entered_append]
  exact List.subset_append_left _ _

theorem isDirAt_of_createDirs {n : Nat}
    (hy : (fs.createDirs (p.ancestorsUpTo n)).2.IsDirAt y) :
    fs.IsDirAt y ∨ y ∈ entered (fs.origin p) p.segments := by
  induction n generalizing p y with
  | zero => exact .inl hy
  | succ n ih =>
    obtain ⟨above, hall, habove⟩ := exists_ancestorsUpTo n p
    rw [hall] at hy
    by_cases hne : p.text = []
    · rw [createDirs, if_pos (by simpa using hne)] at hy
      exact .inl hy
    by_cases hcreate : fs.createDir p = .error .notFound
    · have hmade : ∀ y, (fs.createDirs above).2.IsDirAt y →
          fs.IsDirAt y ∨ y ∈ entered (fs.origin p) p.segments := fun y hy => by
        obtain rfl | ⟨parent, hparent, rfl⟩ := habove
        · exact .inl hy
        · exact (ih hy).imp_right (entered_parent_subset (Path.isParent_of_parent? hparent) ·)
      have horigin := (changes_createDirs fs above).origin_eq p
      rw [createDirs_cons_of_notFound hne hcreate] at hy
      rcases hcreated : fs.createDirs above with ⟨e | _, created⟩
      · rw [hcreated] at hy hmade
        exact hmade y hy
      · rw [hcreated] at hy hmade horigin
        obtain hbefore | hnew := isDirAt_of_settle hy
        · exact hmade y hbefore
        · exact .inr (horigin ▸ hnew)
    · rw [createDirs_cons hne hcreate] at hy
      exact isDirAt_of_settle hy

/-- **All that is made for a directory** are places that its path goes into. -/
theorem isDirAt_of_createDirAll {outcome : Except FileError Unit}
    (h : fs.createDirAll p = (outcome, fs')) (hy : fs'.IsDirAt y) :
    fs.IsDirAt y ∨ y ∈ entered (fs.origin p) p.segments :=
  isDirAt_of_createDirs (n := p.text.length + 1) (by rwa [← Path.ancestors, ← createDirAll, h])

/-- **A directory that was created** can be gone into. -/
theorem opens_of_createDirAll (hdir : fs.IsDirAt fs.workDir)
    (h : fs.createDirAll p = (.ok (), fs')) : fs'.Opens (fs.origin p) p.segments := by
  by_cases hne : p.text = []
  · obtain ⟨text⟩ := p
    obtain rfl : text = [] := hne
    cases h
    exact ⟨hdir, fun y hy => by cases hy⟩
  obtain ⟨above, hall, -⟩ := exists_ancestorsUpTo p.text.length p
  rw [createDirAll, Path.ancestors, hall] at h
  by_cases hcreate : fs.createDir p = .error .notFound
  · have horigin := (changes_createDirs fs above).origin_eq p
    rw [createDirs_cons_of_notFound hne hcreate] at h
    rcases hcreated : fs.createDirs above with ⟨e | _, created⟩
    · rw [hcreated] at h
      cases h
    · rw [hcreated] at h horigin
      exact horigin ▸ opens_of_settle h
  · rw [createDirs_cons hne hcreate] at h
    exact opens_of_settle h

/-- A directory that was created has a path that can be used. -/
theorem isUsable_of_createDirAll (h : fs.createDirAll p = (.ok (), fs')) : IsUsable p := by
  by_contra husable
  obtain ⟨above, hall, -⟩ := exists_ancestorsUpTo p.text.length p
  obtain ⟨e, herror⟩ : ∃ e, fs.createDirs (p :: above) = (.error e, fs) :=
    exists_createDirs_of_not_isUsable husable above
  rw [createDirAll, Path.ancestors, hall, herror] at h
  cases h

end BookSite.FileSystem
