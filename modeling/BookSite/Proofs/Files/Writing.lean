import BookSite.Proofs.Files.Lookup

/-!
# Proofs/Files/Writing — where a file can be written

A path to a file ends in a name.  The file can be written if the directory opens and no directory
has that name, and writing it makes no directory.
-/

namespace BookSite.FileSystem

variable {fs : FileSystem} {p : Path} {before : List Text} {name : Text}

/-- **Directories stay open.** -/
theorem Opens.later {W : List Text → Content → Prop} {fs' : FileSystem} {place segments : List Text}
    (h : fs.Opens place segments) (hchanges : Changes W fs fs') : fs'.Opens place segments :=
  ⟨hchanges.dir _ h.1, fun y hy => (h.2 y hy).imp_left (hchanges.dir y)⟩

theorem lastSegment_of_segments (h : p.segments = before ++ [name]) (hname : name ≠ []) :
    lastSegment p = (before, name, false) := by
  simp [lastSegment, h, hname]

/-- Whether a name in a directory is that of a directory. -/
theorem isDirAt_concat_iff {parent : List Text} {entries : List (Text × Node)}
    (hparent : fs.root.get? parent = some (.directory entries)) :
    fs.IsDirAt (parent ++ [name]) ↔ ∃ below, entries.lookup name = some (.directory below) := by
  rw [IsDirAt, Node.get?_concat hparent]

/-- **A file can be written** where its directory is and no directory has its name. -/
theorem filePlace_eq_ok_iff (h : p.segments = before ++ [name]) (hname : IsName name)
    {found : List Text} :
    fs.filePlace p = .ok found ↔
      IsUsable p ∧ fs.Opens (fs.origin p) before ∧ IsShort (fs.place p) ∧
        ¬ fs.IsDirAt (fs.place p) ∧ found = fs.place p := by
  have hlast := lastSegment_of_segments h hname.1
  have hplace : fs.place p = placeFrom (fs.origin p) before ++ [name] := place_of_segments h hname
  have hcheck : checkPath p = .ok () ↔ IsUsable p := checkPath_concat_eq_ok_iff h hname.1
  have hskip : ¬ (name.isEmpty || name == ['.'] || name == ['.', '.']) = true := by
    simp [hname.1, hname.2.1, hname.2.2]
  rw [filePlace, hlast, hplace, isShort_concat]
  constructor
  · intro hok
    obtain ⟨_, husable, hok⟩ := bind_eq_ok.mp hok
    obtain ⟨⟨place, entries⟩, hdir, hok⟩ := bind_eq_ok.mp hok
    obtain ⟨hopens, rfl, hentries⟩ := dirAlong_eq_ok_iff.mp hdir
    rw [isDirAt_concat_iff hentries]
    dsimp only at hok
    rw [if_neg hskip] at hok
    split at hok
    · cases hok
    · rename_i hshort
      split at hok
      · cases hok
      · rename_i content hlookup
        cases hok
        exact ⟨hcheck.mp husable, hopens, by omega, by simp [hlookup], rfl⟩
      · rename_i hlookup
        cases hok
        exact ⟨hcheck.mp husable, hopens, by omega, by simp [hlookup], rfl⟩
  · rintro ⟨husable, hopens, hshort, hnoDir, rfl⟩
    obtain ⟨entries, hdir, hentries⟩ := exists_dirAlong hopens
    rw [isDirAt_concat_iff hentries] at hnoDir
    refine bind_eq_ok.mpr ⟨_, hcheck.mpr husable, bind_eq_ok.mpr ⟨_, hdir, ?_⟩⟩
    dsimp only
    rw [if_neg hskip, if_neg (by omega)]
    rcases hlookup : entries.lookup name with _ | (content | below)
    · rfl
    · rfl
    · exact absurd ⟨below, hlookup⟩ hnoDir

theorem exists_writeFile_iff (h : p.segments = before ++ [name]) (hname : IsName name)
    {content : Content} :
    (∃ written, fs.writeFile p content = .ok written) ↔
      IsUsable p ∧ fs.Opens (fs.origin p) before ∧ IsShort (fs.place p) ∧
        ¬ fs.IsDirAt (fs.place p) := by
  constructor
  · rintro ⟨written, hwritten⟩
    obtain ⟨found, hfound, -⟩ := bind_eq_ok.mp hwritten
    obtain ⟨husable, hopens, hshort, hnoDir, -⟩ := (filePlace_eq_ok_iff h hname).mp hfound
    exact ⟨husable, hopens, hshort, hnoDir⟩
  · rintro ⟨husable, hopens, hshort, hnoDir⟩
    have hfound := (filePlace_eq_ok_iff h hname).mpr ⟨husable, hopens, hshort, hnoDir, rfl⟩
    exact ⟨_, bind_eq_ok.mpr ⟨_, hfound, rfl⟩⟩

/-- A file put in a directory makes no directory. -/
theorem isDirAt_put_file_iff {parent : List Text} {entries : List (Text × Node)}
    {content : Content} (hparent : fs.root.get? parent = some (.directory entries))
    (hnoDir : ¬ fs.IsDirAt (parent ++ [name])) {y : List Text} :
    (fs.put (parent ++ [name]) (.file content)).IsDirAt y ↔ fs.IsDirAt y := by
  refine ⟨fun hy => ?_, isDirAt_put hparent hnoDir⟩
  obtain ⟨rest, rfl, hget⟩ | ⟨hbefore, -⟩ | hsame := cases_put hparent name (.file content) y
  · obtain ⟨below, hbelow⟩ := hy
    rw [hget] at hbelow
    by_cases hrest : rest = []
    · rw [hrest, Node.get?_nil] at hbelow
      cases hbelow
    · rw [Node.isLeaf_file content rest hrest] at hbelow
      cases hbelow
  · exact hbefore
  · exact hy.imp fun below hbelow => hsame.symm.trans hbelow

/-- **What writing a file leaves.** -/
theorem isDirAt_writeFile_iff (h : p.segments = before ++ [name]) (hname : IsName name)
    {content : Content} {fs' : FileSystem} (hwrite : fs.writeFile p content = .ok fs')
    {y : List Text} : fs'.IsDirAt y ↔ fs.IsDirAt y := by
  obtain ⟨found, hfound, hok⟩ := bind_eq_ok.mp hwrite
  cases hok
  obtain ⟨-, hopens, -, hnoDir, rfl⟩ := (filePlace_eq_ok_iff h hname).mp hfound
  obtain ⟨entries, -, hentries⟩ := exists_dirAlong hopens
  rw [place_of_segments h hname] at hnoDir ⊢
  exact isDirAt_put_file_iff hentries hnoDir

/-- **A file in a directory that opens** is found by its path. -/
theorem pathExists_of_opens (h : p.segments = before ++ [name]) (hname : IsName name)
    (husable : IsUsable p) (hopens : fs.Opens (fs.origin p) before) (hshort : IsShort (fs.place p))
    (hfile : (fs.fileAt (fs.place p)).isSome) : fs.pathExists p = true := by
  obtain ⟨content, hcontent⟩ := Option.isSome_iff_exists.mp hfile
  rw [place_of_segments h hname, isShort_concat] at hshort
  have hnode : fs.node p = .ok (.file content) := (node_concat_eq_ok_iff h hname).mpr
    ⟨husable, hopens, hshort, fileAt_eq_some_iff.mp hcontent⟩
  rw [pathExists, hnode]
  rfl

/-- **A file that is written** is found by the same path. -/
theorem pathExists_of_writeFile (h : p.segments = before ++ [name]) (hname : IsName name)
    {content : Content} {fs' : FileSystem} (hwrite : fs.writeFile p content = .ok fs') :
    fs'.pathExists p = true := by
  obtain ⟨hchanges, hwritten⟩ := changes_writeFile hwrite
  obtain ⟨found, hfound, -⟩ := bind_eq_ok.mp hwrite
  obtain ⟨husable, hopens, hshort, -, -⟩ := (filePlace_eq_ok_iff h hname).mp hfound
  rw [← hchanges.place_eq] at hshort hwritten
  rw [← hchanges.origin_eq] at hopens
  exact pathExists_of_opens h hname husable (hopens.later hchanges) hshort (by rw [hwritten]; rfl)

end BookSite.FileSystem
