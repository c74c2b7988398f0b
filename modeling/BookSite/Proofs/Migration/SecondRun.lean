import BookSite.Proofs.Migration.Repeats

/-!
# Proofs/Migration/SecondRun — migrating the same book again

A migration that succeeded is run again on the files that it has left.  Where the book and its
included files lie apart from the target, everything they are read for is as it was, each step of
the run is done again, and the second run leaves every file and directory as it found it.
-/

namespace BookSite.Migration

open FileSystem (Again)

/-! ## Included files -/

section Steps

variable {fs fs' last : FileSystem} {activity : Activity} {source dest : Path} {base : List Text}

/-- A directory is created or something is there already. -/
theorem createMissing_eq_ok {u : Unit}
    (hrun : (createMissing activity dest).runOn fs = (.ok u, fs')) :
    fs.pathExists dest = true ∧ fs' = fs ∨ fs.createDir dest = .ok fs' := by
  rw [createMissing, FileAction.runOn_get_bind] at hrun
  split at hrun
  · rename_i hthere
    cases hrun
    exact .inl ⟨hthere, rfl⟩
  · rw [FileAction.runOn_get_bind] at hrun
    split at hrun
    · rename_i created hcreated
      cases hrun
      exact .inr hcreated
    · cases hrun

theorem changes_of_createMissing {u : Unit}
    (hrun : (createMissing activity dest).runOn fs = (.ok u, fs')) :
    FileSystem.Changes (fun _ _ => False) fs fs' := by
  have hchanges := changes_createMissing activity dest fs
  rwa [hrun] at hchanges

theorem runOn_createMissing_of_pathExists (h : fs.pathExists dest = true) :
    (createMissing activity dest).runOn fs = (.ok (), fs) := by
  rw [createMissing, FileAction.runOn_get_bind, if_pos h]
  rfl

/-- **A directory that was missing** is there in the second run. -/
theorem repeats_createMissing {L : List Text → Content → Prop} {u : Unit}
    (hrun : (createMissing activity dest).runOn fs = (.ok u, fs'))
    (hlater : FileSystem.Changes L fs' last) :
    FileAction.Repeats last (createMissing activity dest) fs fs' := by
  intro now h
  obtain ⟨hthere, rfl⟩ | hcreated := createMissing_eq_ok hrun
  · exact ⟨(), now, runOn_createMissing_of_pathExists (h.changes.pathExists hthere), h⟩
  · obtain ⟨hthere, hnow⟩ := h.pathExists_of_createDir hcreated hlater
    exact ⟨(), now, runOn_createMissing_of_pathExists hthere, hnow⟩

/-- What a directory that was missing adds. -/
theorem isDirAt_of_createMissing {u : Unit}
    (hrun : (createMissing activity dest).runOn fs = (.ok u, fs')) {y : List Text}
    (hy : fs'.IsDirAt y) : fs.IsDirAt y ∨ y = fs.place dest := by
  obtain ⟨-, rfl⟩ | hcreated := createMissing_eq_ok hrun
  · exact .inl hy
  · exact ((FileSystem.makes_createDir hcreated).isDirAt_iff y).mp hy

section CopyOver

variable (hne : fs.place dest ≠ fs.place source)

include hne

/-- A file that is copied over is its source written to another place. -/
theorem copyOver_eq_ok {u : Unit} (hrun : (copyOver activity source dest).runOn fs = (.ok u, fs')) :
    ∃ content, fs.node source = .ok (.file content) ∧ fs.writeFile dest content = .ok fs' := by
  rw [copyOver, FileAction.runOn_get_bind] at hrun
  split at hrun
  · rename_i copied hcopied
    cases hrun
    obtain ⟨content, hnode⟩ := FileSystem.exists_node_of_copyFile hcopied
    exact ⟨content, hnode, (FileSystem.copyFile_eq_writeFile hnode hne).symm.trans hcopied⟩
  · cases hrun

theorem runOn_copyOver_of_ok {content : Content} (hnode : fs.node source = .ok (.file content))
    (hwrite : fs.writeFile dest content = .ok fs') :
    (copyOver activity source dest).runOn fs = (.ok (), fs') := by
  rw [copyOver, FileAction.runOn_get_bind, FileSystem.copyFile_eq_writeFile hnode hne, hwrite]
  rfl

end CopyOver

end Steps

/-- **A directory that is copied below a base**, from beside it. -/
structure CopiesBeside (fs₀ : FileSystem) (base : List Text) (source dest : Path) : Prop where
  ordered : fs₀.root.Ordered
  plain : fs₀.PlainBelow (fs₀.place source)
  apart : Apart (fs₀.place source) base
  dest : base <+: fs₀.place dest

section Included

variable {fs₀ fs fs' last : FileSystem} {activity : Activity} {source dest : Path}
  {base : List Text} (h : CopiesBeside fs₀ base source dest)

include h

section Step

variable {names : List Text} (hplain : ∀ n ∈ names, IsPlain n)
  (hbefore : FileSystem.Changes (fun y _ => base <+: y) fs₀ fs)

include hplain hbefore

theorem CopiesBeside.isPrefix : base <+: fs.place (dest.join (.ofNames names)) := by
  rw [fs.place_join_ofNames dest hplain, hbefore.place_eq]
  exact h.dest.trans (List.prefix_append _ _)

theorem CopiesBeside.not_isPrefix : ¬ base <+: fs.place (source.joinNames names) := by
  rw [fs.place_joinNames source hplain, hbefore.place_eq]
  exact h.apart.not_prefix_append names

theorem CopiesBeside.place_ne :
    fs.place (dest.join (.ofNames names)) ≠ fs.place (source.joinNames names) := fun heq =>
  h.not_isPrefix hplain hbefore (heq ▸ h.isPrefix hplain hbefore)

variable (hne : names ≠ []) {u : Unit}
  (hrun : (copyOver activity (source.joinNames names) (dest.join (.ofNames names))).runOn fs =
    (.ok u, fs'))

include hrun

theorem CopiesBeside.changes_copyOver : FileSystem.Changes (fun y _ => base <+: y) fs fs' := by
  obtain ⟨content, -, hwrite⟩ := copyOver_eq_ok (h.place_ne hplain hbefore) hrun
  refine (FileSystem.changes_writeFile hwrite).1.mono ?_
  rintro y c ⟨rfl, -⟩
  exact h.isPrefix hplain hbefore

include hne

theorem CopiesBeside.isDirAt_copyOver {y : List Text} (hy : fs'.IsDirAt y) : fs.IsDirAt y := by
  obtain ⟨content, -, hwrite⟩ := copyOver_eq_ok (h.place_ne hplain hbefore) hrun
  obtain ⟨before, name, hsegments, hname⟩ := namesFile_join dest hplain hne
  exact (FileSystem.isDirAt_writeFile_iff hsegments hname hwrite).mp hy

/-- **An included file** is copied again. -/
theorem CopiesBeside.repeats_copyOver
    (hlater : FileSystem.Changes (fun y _ => base <+: y) fs' last) :
    FileAction.Repeats last
      (copyOver activity (source.joinNames names) (dest.join (.ofNames names))) fs fs' := by
  intro now hnow
  obtain ⟨content, hnode, hwrite⟩ := copyOver_eq_ok (h.place_ne hplain hbefore) hrun
  obtain ⟨before, name, hsegments, hname⟩ := namesFile_join dest hplain hne
  obtain ⟨now', hwrite', hnow'⟩ := hnow.writeFile hsegments hname hwrite hlater
  have hbelow : FileSystem.Changes (fun y _ => base <+: y) fs now :=
    hnow.changes_of (.refl _ fs) ((h.changes_copyOver hplain hbefore hrun).trans hlater)
  exact ⟨(), now', runOn_copyOver_of_ok (h.place_ne hplain (hbefore.trans hbelow))
    (hbelow.node_file hnode fun _ => h.not_isPrefix hplain hbefore) hwrite', hnow'⟩

end Step

section Tree

variable (hbefore : FileSystem.Changes (fun y _ => base <+: y) fs₀ fs)
  (hdir : fs.isDir source = true)

include hbefore hdir

/-- What there is to copy has plain names, and each file some name. -/
theorem CopiesBeside.exists_node : ∃ node, fs.node source = .ok node ∧ ∀ x ∈ node.nodes,
    (∀ n ∈ x.1, IsPlain n) ∧ ((!x.2.isDirectory) = true → x.1 ≠ []) := by
  obtain ⟨node, hnode, hplain, -⟩ := FileSystem.exists_nodes_of_isDir (hbefore.ordered h.ordered)
    (hbefore.place_eq source ▸ h.plain.later hbefore) hdir
  refine ⟨node, hnode, fun x hx => ⟨hplain x hx, fun hfile hnil => ?_⟩⟩
  obtain ⟨entries, hentries⟩ := FileSystem.exists_node_of_isDir hdir
  rw [hnode] at hentries
  cases hentries
  have hordered := (hbefore.ordered h.ordered).of_get? (fs.get?_place_of_node hnode)
  have hget := hordered.mem_nodes_iff.mp hx
  rw [hnil, Node.get?_nil] at hget
  rw [← Option.some.inj hget] at hfile
  cases hfile

variable {u : Unit} (hrun : (copyTree activity source dest).runOn fs = (.ok u, fs'))

include hrun

/-- The directories are made before the files are copied. -/
theorem CopiesBeside.exists_made : ∃ node made,
    fs.node source = .ok node ∧
    (∀ x ∈ node.nodes, (∀ n ∈ x.1, IsPlain n) ∧ ((!x.2.isDirectory) = true → x.1 ≠ [])) ∧
    (FileAction.forChosen node.nodes (fun x => x.2.isDirectory) fun x =>
      createMissing activity (dest.join (.ofNames x.1))).runOn fs = (.ok ⟨⟩, made) ∧
    (FileAction.forChosen node.nodes (fun x => !x.2.isDirectory) fun x =>
      copyOver activity (source.joinNames x.1) (dest.join (.ofNames x.1))).runOn made =
        (.ok ⟨⟩, fs') ∧
    FileSystem.Changes (fun y _ => base <+: y) fs made ∧
    FileSystem.Changes (fun y _ => base <+: y) made fs' := by
  obtain ⟨node, hnode, hnames⟩ := h.exists_node hbefore hdir
  rw [runOn_copyTree hnode] at hrun
  obtain ⟨_, made, hdirs, hrun⟩ := FileAction.runOn_bind_eq_ok.mp hrun
  obtain ⟨_, copied, hfiles, hrun⟩ := FileAction.runOn_bind_eq_ok.mp hrun
  cases hrun
  have hmade : FileSystem.Changes (fun y _ => base <+: y) fs made := by
    refine (FileAction.forChosen_runOn (Q := fun _ _ => True) hbefore ?_
      (fun _ _ _ _ _ => trivial) hdirs).1
    exact fun x _ _ before after _ _ hmake =>
      ⟨(changes_of_createMissing hmake).mono fun _ _ h => h.elim, trivial⟩
  have hcopied : FileSystem.Changes (fun y _ => base <+: y) made fs' := by
    refine (FileAction.forChosen_runOn (Q := fun _ _ => True) (hbefore.trans hmade) ?_
      (fun _ _ _ _ _ => trivial) hfiles).1
    exact fun x hx _ before after _ hstart hcopy =>
      ⟨h.changes_copyOver (hnames x hx).1 hstart hcopy, trivial⟩
  exact ⟨node, made, hnode, hnames, hdirs, hfiles, hmade, hcopied⟩

/-- **Copying a directory** writes below the base only. -/
theorem CopiesBeside.changes_copyTree : FileSystem.Changes (fun y _ => base <+: y) fs fs' := by
  obtain ⟨_, _, -, -, -, -, hmade, hcopied⟩ := h.exists_made hbefore hdir hrun
  exact hmade.trans hcopied

/-- **New directories** lie below the base. -/
theorem CopiesBeside.isDirAt_copyTree {y : List Text} (hy : fs'.IsDirAt y) :
    fs.IsDirAt y ∨ base <+: y := by
  obtain ⟨node, made, -, hnames, hdirs, hfiles, hmade, -⟩ := h.exists_made hbefore hdir hrun
  have hfirst : ∀ y, made.IsDirAt y → fs.IsDirAt y ∨ base <+: y := by
    refine (FileAction.keeps_forChosen (P := fun now => FileSystem.Changes (fun y _ => base <+: y)
      fs₀ now ∧ ∀ y, now.IsDirAt y → fs.IsDirAt y ∨ base <+: y) ⟨hbefore, fun _ => .inl⟩
      ?_ hdirs).2
    rintro x hx - before after _ ⟨hstart, hold⟩ hmake
    refine ⟨hstart.trans ((changes_of_createMissing hmake).mono fun _ _ h => h.elim),
      fun z hz => ?_⟩
    obtain hz | rfl := isDirAt_of_createMissing hmake hz
    · exact hold z hz
    · exact .inr (h.isPrefix (hnames x hx).1 hstart)
  refine hfirst y ((FileAction.keeps_forChosen (P := fun now =>
    FileSystem.Changes (fun y _ => base <+: y) fs₀ now ∧ ∀ y, now.IsDirAt y → made.IsDirAt y)
    ⟨hbefore.trans hmade, fun _ => id⟩ ?_ hfiles).2 y hy)
  rintro x hx hfile before after _ ⟨hstart, hold⟩ hcopy
  exact ⟨hstart.trans (h.changes_copyOver (hnames x hx).1 hstart hcopy), fun z hz =>
    hold z (h.isDirAt_copyOver (hnames x hx).1 hstart ((hnames x hx).2 hfile) hcopy hz)⟩

/-- **A directory is copied** again. -/
theorem CopiesBeside.repeats_copyTree :
    FileAction.Repeats fs' (copyTree activity source dest) fs fs' := by
  have hall := h.changes_copyTree hbefore hdir hrun
  have hnew := fun y => h.isDirAt_copyTree hbefore hdir hrun (y := y)
  obtain ⟨node, made, hnode, hnames, hdirs, hfiles, hmade, hcopied⟩ :=
    h.exists_made hbefore hdir hrun
  have hdirsAgain : FileAction.Repeats fs' (FileAction.forChosen node.nodes
      (fun x => x.2.isDirectory) fun x => createMissing activity (dest.join (.ofNames x.1)))
      fs made :=
    .forChosen hbefore (fun x _ _ before after _ _ hmake =>
      ⟨(changes_of_createMissing hmake).mono fun _ _ h => h.elim, repeats_createMissing hmake⟩)
      hdirs hcopied
  have hfilesAgain : FileAction.Repeats fs' (FileAction.forChosen node.nodes
      (fun x => !x.2.isDirectory) fun x =>
        copyOver activity (source.joinNames x.1) (dest.join (.ofNames x.1))) made fs' :=
    .forChosen (hbefore.trans hmade) (fun x hx hfile before after _ hstart hcopy =>
      ⟨h.changes_copyOver (hnames x hx).1 hstart hcopy,
        h.repeats_copyOver (hnames x hx).1 hstart ((hnames x hx).2 hfile) hcopy⟩)
      hfiles (.refl _ fs')
  intro now hnow
  have hnode' : now.node source = .ok node := by
    rw [hnow.node_eq hall hnew (hbefore.ordered h.ordered) hdir fun names => by
      rw [hbefore.place_eq]
      exact h.apart.not_prefix_append names, hnode]
  obtain ⟨_, now', hrun', hnow'⟩ :=
    (hdirsAgain.bind fun _ => hfilesAgain.bind fun _ => .pure () fs') now hnow
  exact ⟨(), now', (runOn_copyTree hnode').trans hrun', hnow'⟩

end Tree

end Included

/-! ## Where included files are copied to -/

/-- No segment makes the root. -/
theorem root_not_mem_filterMap (segments : List Text) :
    Component.root ∉ segments.filterMap Path.component? := by
  intro hmem
  obtain ⟨segment, -, hsegment⟩ := List.mem_filterMap.mp hmem
  unfold Path.component? at hsegment
  split_ifs at hsegment <;> cases hsegment

theorem isAbsolute_of_root_mem {p : Path} (h : Component.root ∈ p.components) :
    p.isAbsolute = true := by
  have hno := root_not_mem_filterMap
  unfold Path.components at h
  split at h
  · assumption
  · simp [hno] at h
  · exact absurd h (hno _)

/-- A path whose last component is the root leads there. -/
theorem place_eq_nil_of_root (fs : FileSystem) {p : Path} (h : p.components.getLast? = some .root) :
    fs.place p = [] := by
  have habsolute := isAbsolute_of_root_mem (List.mem_of_getLast? h)
  have hnone : p.segments.filterMap Path.component? = [] := by
    by_contra hsome
    rw [Path.components, habsolute] at h
    have hlast : (p.segments.filterMap Path.component?).getLast? = some .root := by
      rwa [List.getLast?_cons_of_ne_nil hsome] at h
    exact root_not_mem_filterMap _ (List.mem_of_getLast? hlast)
  have hnames : namesAlong p.segments = [] := by
    refine List.filter_eq_nil_iff.mpr fun segment hsegment => ?_
    have hno := List.filterMap_eq_nil_iff.mp hnone segment hsegment
    rw [← Path.isNone_component?, hno]
    simp
  rw [FileSystem.place, FileSystem.origin, if_pos habsolute, ← placeFrom_namesAlong, hnames,
    placeFrom_nil]

/-- **The copy of a directory** lies in the target, unless the directory is named by `..`. -/
theorem isPrefix_place_join {fs : FileSystem} {p target : Path}
    (hup : p.components.getLast? ≠ some .up) (hroot : fs.place p ≠ []) :
    fs.place target <+: fs.place (target.join ⟨lastComponentText p⟩) := by
  rcases hlast : p.components.getLast? with _ | (_ | _ | _ | name)
  · have hplace : fs.place (target.join ⟨lastComponentText p⟩) = fs.place target := by
      rw [lastComponentText, hlast]
      exact fs.place_join target rfl
    exact hplace ▸ List.prefix_rfl
  · exact absurd (place_eq_nil_of_root fs hlast) hroot
  · have hplace : fs.place (target.join ⟨lastComponentText p⟩) = fs.place target := by
      rw [lastComponentText, hlast]
      exact fs.place_join target rfl
    exact hplace ▸ List.prefix_rfl
  · exact absurd hlast hup
  · have hname : p.fileName? = some name := by rw [Path.fileName?, hlast]
    rw [lastComponentText_of_fileName? hname,
      fs.place_join_of_isPlain target (Path.isPlain_of_fileName? hname)]
    exact List.prefix_append _ _

/-! ## What a run reads -/

/-- **Where a run reads**: the directory that the book is searched in, that of its pages, and that
of the included files. -/
def sourcesOf (settings : Settings) (source : Source) : List Path :=
  [settings.sourceDir.getD (.ofString "."), source.src] ++
    (includedDir? settings source.root).toList

/-- **A target apart from all that is read.** -/
structure ReadsBeside (fs : FileSystem) (settings : Settings) (source : Source) (target : Path) :
    Prop where
  ordered : fs.root.Ordered
  workDir : fs.IsDirAt fs.workDir
  plain : ∀ p ∈ sourcesOf settings source, fs.PlainBelow (fs.place p)
  apart : ∀ p ∈ sourcesOf settings source, Apart (fs.place p) (fs.place target)

/-- A file beside the base is read the same, and so is one that is not there. -/
theorem readText_toOption_eq {fs fs' : FileSystem} {base : List Text} {dir : Path}
    {names : List Text} (h : FileSystem.Changes (fun y _ => base <+: y) fs fs')
    (hdir : fs.isDir dir = true) (hplain : ∀ n ∈ names, IsPlain n)
    (hapart : Apart (fs.place dir) base) :
    (fs'.readText (dir.joinNames names)).toOption =
      (fs.readText (dir.joinNames names)).toOption := by
  have hkept : ∀ names content, ¬ (fun y (_ : Content) => base <+: y)
      (fs.place dir ++ names) content := fun names _ => hapart.not_prefix_append names
  by_cases hsome : (fs.fileAt (fs.place dir ++ names)).isSome
  · rw [h.readText_eq hdir hkept hplain hsome]
  · have hnone : ∀ now : FileSystem, now.place dir = fs.place dir →
        now.fileAt (fs.place dir ++ names) = none →
          (now.readText (dir.joinNames names)).toOption = none := fun now hplace hfile => by
      rcases hread : now.readText (dir.joinNames names) with _ | t
      · rfl
      · have hget := FileSystem.fileAt_of_get? (now.get?_place_of_readText hread)
        rw [now.place_joinNames dir hplain, hplace, hfile] at hget
        cases hget
    have hfile := Option.not_isSome_iff_eq_none.mp hsome
    rw [hnone fs rfl hfile,
      hnone fs' (h.place_eq dir) ((h.fileAt_eq (hkept names)).trans hfile)]

/-- **The sidebar** is the same while only files below the base are written. -/
theorem loadSidebar_eq {fs fs' : FileSystem} {base : List Text} {src : Path}
    (h : FileSystem.Changes (fun y _ => base <+: y) fs fs') (hdir : fs.isDir src = true)
    (hapart : Apart (fs.place src) base) (link? : Option Text) :
    loadSidebar fs' src link? = loadSidebar fs src link? := by
  have hview : ∀ now : FileSystem, loadSidebar now src link? =
      ((now.readText (src.joinNames [outlineName])).toOption.map fun t =>
        Site.sidebar link? (Outline.parse t)).getD [] := fun now => by
    unfold loadSidebar
    change _ = ((now.readText (src.join ⟨outlineName⟩)).toOption.map _).getD []
    rcases now.readText (src.join ⟨outlineName⟩) <;> rfl
  rw [hview, hview, readText_toOption_eq h hdir (by decide) hapart]

/-- The description of a book lies below the directory that is searched. -/
theorem exists_names_of_find? {fs : FileSystem} {dir file : Path} (hordered : fs.root.Ordered)
    (hplain : fs.PlainBelow (fs.place dir)) (hfound : Book.find? fs dir = some file) :
    ∃ names, (∀ n ∈ names, IsPlain n) ∧ file = dir.joinNames names := by
  unfold Book.find? at hfound
  dsimp only at hfound
  split at hfound
  · exact ⟨[Book.fileName], by decide, (Option.some.inj hfound).symm⟩
  · obtain ⟨found, hfirst, rfl⟩ := Option.map_eq_some_iff.mp hfound
    obtain ⟨hpath, hfile⟩ :=
      FileSystem.fileAt_of_mem_filesBelow hordered (List.mem_of_find?_eq_some hfirst)
    refine ⟨found.names, hplain _ (FileSystem.has_iff.mpr (.inl ?_)), hpath⟩
    rw [hfile]
    rfl

section Book

variable {fs fs' : FileSystem} {base : List Text} {dir : Path}
  (h : FileSystem.Changes (fun y _ => base <+: y) fs fs') (hdir : fs.isDir dir = true)
  (hordered : fs.root.Ordered) (hplain : fs.PlainBelow (fs.place dir))
  (hapart : Apart (fs.place dir) base)

include h hdir hordered hapart

/-- **The same description of the book** is found. -/
theorem find?_eq : Book.find? fs' dir = Book.find? fs dir := by
  have hname : ∀ n ∈ [Book.fileName], IsPlain n := by decide
  have hdirect : fs'.isFile (dir.joinNames [Book.fileName]) =
      fs.isFile (dir.joinNames [Book.fileName]) := Bool.eq_iff_iff.mpr (by
    rw [FileSystem.isFile_joinNames_iff hname (h.isDir hdir),
      FileSystem.isFile_joinNames_iff hname hdir, h.place_eq,
      h.fileAt_eq fun _ => hapart.not_prefix_append _])
  have hsearch := h.filesBelow_eq hordered hdir (fun names _ => hapart.not_prefix_append names)
    Book.isSearched
  unfold Book.find?
  change (if fs'.isFile (dir.joinNames [Book.fileName]) = true then _ else _) =
    if fs.isFile (dir.joinNames [Book.fileName]) = true then _ else _
  rw [hdirect, hsearch]

include hplain

/-- **The same book** is found. -/
theorem load_eq : Book.load fs' dir = Book.load fs dir := by
  unfold Book.load
  rw [find?_eq h hdir hordered hapart]
  rcases hfound : Book.find? fs dir with _ | file
  · rfl
  · obtain ⟨names, hnames, rfl⟩ := exists_names_of_find? hordered hplain hfound
    have hread := readText_toOption_eq h hdir hnames hapart
    dsimp only
    unfold Book.ofFile
    generalize fs'.readText (dir.joinNames names) = read' at hread ⊢
    generalize fs.readText (dir.joinNames names) = read at hread ⊢
    cases read' <;> cases read <;> cases hread <;> rfl

end Book

/-- **The same source** is found. -/
theorem findSource_eq {fs fs' : FileSystem} {settings : Settings} {source : Source} {target : Path}
    (hbeside : ReadsBeside fs settings source target)
    (h : FileSystem.Changes (fun y _ => fs.place target <+: y) fs fs')
    (hsource : findSource settings fs = .ok source) : findSource settings fs' = .ok source := by
  have hmem : settings.sourceDir.getD (.ofString ".") ∈ sourcesOf settings source :=
    List.mem_append_left _ List.mem_cons_self
  unfold findSource at hsource ⊢
  dsimp only at hsource ⊢
  split at hsource
  · cases hsource
  · rename_i hdir
    have hdir' : fs.isDir (settings.sourceDir.getD (.ofString ".")) = true := by simpa using hdir
    rw [if_neg (by simp [h.isDir hdir']), load_eq h hdir' hbeside.ordered (hbeside.plain _ hmem)
      (hbeside.apart _ hmem)]
    split at hsource
    · cases hsource
    · rename_i hsrc
      rw [if_neg (by simpa using h.isDir (by simpa using hsrc))]
      exact hsource

/-! ## Files of the site's own -/

section Own

variable {fs fs' : FileSystem} {target written : Path}

theorem changes_below_of_writeDefinition {definition : Site.Definition}
    (hrun : (writeDefinition (docsDir target) definition).runOn fs = (.ok written, fs')) :
    FileSystem.Changes (fun y _ => fs.place target <+: y) fs fs' :=
  (changes_writeDefinition hrun).mono fun y _ hy => by
    rw [hy.1, place_definition]
    exact List.prefix_append _ _

theorem changes_below_of_writeManifest {manifest : Site.Manifest}
    (hrun : (writeManifest target manifest).runOn fs = (.ok written, fs')) :
    FileSystem.Changes (fun y _ => fs.place target <+: y) fs fs' :=
  (changes_writeManifest hrun).mono fun y _ hy => by
    rw [hy.1, place_manifest]
    exact List.prefix_append _ _

theorem changes_below_of_writeHomePage {page : Site.HomePage} {overwrite home : Bool}
    (hrun : (writeHomePage (docsDir target) page overwrite).runOn fs = (.ok home, fs')) :
    FileSystem.Changes (fun y _ => fs.place target <+: y) fs fs' :=
  (changes_writeHomePage hrun).mono fun y _ hy => by
    rw [hy.2.1, place_homePage]
    exact List.prefix_append _ _

end Own

/-! ## The whole run -/

/-- **Included files** are copied again, as the last step of a run. -/
theorem repeats_copyIncluded {fs₀ fs fs' : FileSystem} {root dir target : Path}
    (hordered : fs₀.root.Ordered) (hwork : fs₀.IsDirAt fs₀.workDir)
    (hplain : fs₀.PlainBelow (fs₀.place (root.join dir)))
    (hapart : Apart (fs₀.place (root.join dir)) (fs₀.place target))
    (hup : (root.join dir).components.getLast? ≠ some .up)
    (hbefore : FileSystem.Changes (fun y _ => fs₀.place target <+: y) fs₀ fs)
    {copied? : Option Path} (hrun : (copyIncluded root dir target).runOn fs = (.ok copied?, fs')) :
    FileSystem.Changes (fun y _ => fs₀.place target <+: y) fs fs' ∧
      FileAction.Repeats fs' (copyIncluded root dir target) fs fs' := by
  have hfull := hrun
  rw [copyIncluded, FileAction.runOn_get_bind] at hrun
  split at hrun
  · cases hrun
    refine ⟨.refl _ fs, fun now h => ?_⟩
    obtain rfl := h.eq_last (hbefore.ordered hordered)
    exact ⟨_, now, hfull, h⟩
  · rename_i hthere
    have hdir : fs.isDir (root.join dir) = true := by simpa using hthere
    have hcopies : CopiesBeside fs₀ (fs₀.place target) (root.join dir)
        (target.join ⟨lastComponentText (root.join dir)⟩) :=
      ⟨hordered, hplain, hapart, isPrefix_place_join hup fun hnil =>
        hapart.left (hnil ▸ List.nil_prefix)⟩
    obtain ⟨_, made, hmade, hrun⟩ := FileAction.runOn_bind_eq_ok.mp hrun
    obtain ⟨_, copied, hcopied, hrun⟩ := FileAction.runOn_bind_eq_ok.mp hrun
    cases hrun
    have hdirs := FileAction.changes_createDirAll (.createDir target) target fs
    rw [hmade] at hdirs
    have hbegun : FileSystem.Changes (fun y _ => fs₀.place target <+: y) fs made :=
      hdirs.mono fun _ _ h => h.elim
    have hstart := hbefore.trans hbegun
    have hchanges := hcopies.changes_copyTree hstart (hdirs.isDir hdir) hcopied
    refine ⟨hbegun.trans hchanges, FileAction.Repeats.get_bind fun now h => ?_⟩
    rw [if_neg (by simp [h.changes.isDir hdir])]
    exact (FileAction.Repeats.createDirAll (hbefore.workDir ▸ hbefore.dir _ hwork) hmade
      hchanges).bind fun _ =>
        (hcopies.repeats_copyTree hstart (hdirs.isDir hdir) hcopied).bind fun _ => .pure _ _

section Run

variable {settings : Settings} {source : Source} {target : Path} {fs fs' : FileSystem}
  {report : Report} (hbeside : ReadsBeside fs settings source target)
  (hsource : findSource settings fs = .ok source) (hmode : settings.includeMode = .translate)

theorem src_mem_sourcesOf (settings : Settings) (source : Source) :
    source.src ∈ sourcesOf settings source :=
  List.mem_append_left _ (List.mem_cons_of_mem _ List.mem_cons_self)

include hbeside

theorem ReadsBeside.isSetUp : IsSetUp fs source.src target none where
  ordered := hbeside.ordered
  plain := hbeside.plain _ (src_mem_sourcesOf settings source)
  apart := hbeside.apart _ (src_mem_sourcesOf settings source)
  included _ hnone := by cases hnone

theorem ReadsBeside.repeats_copyIncludedOf
    (hup : ∀ dir, includedDir? settings source.root = some dir →
      dir.components.getLast? ≠ some .up) {fs₁ : FileSystem}
    (hbefore : FileSystem.Changes (fun y _ => fs.place target <+: y) fs fs₁) {copied? : Option Path}
    (hrun : (copyIncludedOf settings source.root target).runOn fs₁ = (.ok copied?, fs')) :
    FileSystem.Changes (fun y _ => fs.place target <+: y) fs₁ fs' ∧
      FileAction.Repeats fs' (copyIncludedOf settings source.root target) fs₁ fs' := by
  unfold copyIncludedOf at hrun ⊢
  rcases hsetting : settings.includingFilesDir with _ | dir
  · rw [hsetting] at hrun
    cases hrun
    exact ⟨.refl _ _, .pure _ _⟩
  · rw [hsetting] at hrun
    have hdir : includedDir? settings source.root = some (source.root.join dir) := by
      rw [includedDir?, hsetting, Option.map_some]
    have hmem : source.root.join dir ∈ sourcesOf settings source := by
      rw [sourcesOf, hdir]
      exact List.mem_append_right _ List.mem_cons_self
    exact repeats_copyIncluded hbeside.ordered hbeside.workDir (hbeside.plain _ hmem)
      (hbeside.apart _ hmem) (hup _ hdir) hbefore hrun

include hsource

/-- The sidebar is the same at any two times of a run. -/
theorem ReadsBeside.loadSidebar_eq {fs₁ now : FileSystem}
    (h₁ : FileSystem.Changes (fun y _ => fs.place target <+: y) fs fs₁)
    (h : FileSystem.Changes (fun y _ => fs.place target <+: y) fs₁ now) :
    loadSidebar now source.src settings.basePath = loadSidebar fs₁ source.src settings.basePath :=
  Migration.loadSidebar_eq h (h₁.isDir (isDir_of_findSource hsource))
    (h₁.place_eq source.src ▸ hbeside.isSetUp.apart) _

include hmode

/-- **The files of a site** are put to their places again. -/
theorem ReadsBeside.repeats_migrateSiteFiles {last : FileSystem}
    (hrun : (migrateSiteFiles (.standard settings.includeMode) source.src target).runOn fs =
      (.ok report, fs')) :
    FileSystem.Changes (fun y _ => fs.place target <+: y) fs fs' ∧
      (FileSystem.Changes (fun y _ => fs.place target <+: y) fs' last → FileAction.Repeats last
        (migrateSiteFiles (.standard settings.includeMode) source.src target) fs fs') := by
  obtain ⟨_, made, hmade, hrun⟩ := FileAction.runOn_bind_eq_ok.mp hrun
  have hdirs := FileAction.changes_createDirAll (.createTargetDir (docsDir target))
    ((docsDir target).join (.ofString ".vitepress")) fs
  rw [hmade] at hdirs
  have hbegun : FileSystem.Changes (fun y _ => fs.place target <+: y) fs made :=
    hdirs.mono fun _ _ h => h.elim
  obtain ⟨hchanges, hagain⟩ := hbeside.isSetUp.keepsApart.repeats_migrateFiles
    (isDir_of_findSource hsource) hbeside.workDir (hmode ▸ readsNothing_standard) hbegun hrun
  exact ⟨hbegun.trans hchanges, fun hlater =>
    (FileAction.Repeats.createDirAll hbeside.workDir hmade (hchanges.trans hlater)).bind fun _ =>
      hagain hlater⟩

/-- **Building the site** is done again. -/
theorem ReadsBeside.repeats_migrateSite
    (hup : ∀ dir, includedDir? settings source.root = some dir →
      dir.components.getLast? ≠ some .up)
    (hrun : (migrateSite settings source target).runOn fs = (.ok report, fs')) :
    FileSystem.Changes (fun y _ => fs.place target <+: y) fs fs' ∧
      FileAction.Repeats fs' (migrateSite settings source target) fs fs' := by
  obtain ⟨run⟩ := exists_siteRun hrun
  obtain ⟨h₁, hfilesAgain⟩ := hbeside.repeats_migrateSiteFiles hsource hmode run.book
  have h₂ : FileSystem.Changes (fun y _ => fs.place target <+: y) run.withBook
      run.withDefinition :=
    h₁.place_eq target ▸ changes_below_of_writeDefinition run.definition
  have h₃ : FileSystem.Changes (fun y _ => fs.place target <+: y) run.withDefinition
      run.withManifest :=
    (h₁.trans h₂).place_eq target ▸ changes_below_of_writeManifest run.manifest
  have h₄ : FileSystem.Changes (fun y _ => fs.place target <+: y) run.withManifest
      run.withHomePage :=
    ((h₁.trans h₂).trans h₃).place_eq target ▸ changes_below_of_writeHomePage run.homePage
  obtain ⟨h₅, hincludedAgain⟩ :=
    hbeside.repeats_copyIncludedOf hup (((h₁.trans h₂).trans h₃).trans h₄) run.included
  have hlater₁ := ((h₂.trans h₃).trans h₄).trans h₅
  refine ⟨h₁.trans hlater₁, (hfilesAgain hlater₁).bind fun _ =>
    FileAction.Repeats.get_bind fun now h => ?_⟩
  -- The outline is read as it was, so that the same site is described.
  dsimp only
  rw [hbeside.loadSidebar_eq hsource h₁ (h.changes_of (.refl _ run.withBook) hlater₁)]
  refine (repeats_writeDefinition (h₁.workDir ▸ h₁.dir _ hbeside.workDir) run.definition
    ((h₃.trans h₄).trans h₅)).bind fun _ => ?_
  refine (repeats_writeManifest run.manifest (h₄.trans h₅)).bind fun _ => ?_
  exact (repeats_writeHomePage run.homePage h₅).bind fun _ => hincludedAgain.bind fun _ => .pure _ _

/-- **Migrating** is done again. -/
theorem ReadsBeside.repeats_migrate (htarget : settings.targetDir = some target)
    (hup : settings.filesOnly = false → ∀ dir, includedDir? settings source.root = some dir →
      dir.components.getLast? ≠ some .up)
    (hrun : (migrate settings).runOn fs = (.ok report, fs')) :
    FileSystem.Changes (fun y _ => fs.place target <+: y) fs fs' ∧
      FileAction.Repeats fs' (migrate settings) fs fs' := by
  rw [runOn_migrate_eq htarget hsource] at hrun
  have hboth : FileSystem.Changes (fun y _ => fs.place target <+: y) fs fs' ∧
      FileAction.Repeats fs' (if settings.filesOnly then
        migrateFiles (.standard settings.includeMode) source.src target target
      else migrateSite settings source target) fs fs' := by
    split at hrun
    · rename_i hfiles
      rw [if_pos hfiles]
      have hapart : KeepsApart fs ⟨source.src, target, target⟩ (fs.place target) :=
        ⟨hbeside.ordered, hbeside.isSetUp.plain, hbeside.isSetUp.apart, List.prefix_rfl,
          List.prefix_rfl⟩
      obtain ⟨hchanges, hagain⟩ := hapart.repeats_migrateFiles (isDir_of_findSource hsource)
        hbeside.workDir (hmode ▸ readsNothing_standard) (.refl _ fs) hrun
      exact ⟨hchanges, hagain (.refl _ fs')⟩
    · rename_i hsite
      rw [if_neg hsite]
      exact hbeside.repeats_migrateSite hsource hmode (hup (by simpa using hsite)) hrun
  obtain ⟨hchanges, hagain⟩ := hboth
  refine ⟨hchanges, fun now h => ?_⟩
  have hfound := findSource_eq hbeside (h.changes_of (.refl _ fs) hchanges) hsource
  rw [runOn_migrate_eq htarget hfound]
  exact hagain now h

end Run

/-- **Migrating again changes nothing**: where the book and its included files lie apart from the
target, and the directory of included files is not named by `..`, a second run succeeds and leaves
every file and directory as the first one left it. -/
theorem second_run_changes_nothing {settings : Settings} {source : Source} {target : Path}
    {fs fs' : FileSystem} {report : Report} (hmode : settings.includeMode = .translate)
    (htarget : settings.targetDir = some target) (hsource : findSource settings fs = .ok source)
    (hbeside : ReadsBeside fs settings source target)
    (hup : settings.filesOnly = false → ∀ dir, includedDir? settings source.root = some dir →
      dir.components.getLast? ≠ some .up)
    (hrun : (migrate settings).runOn fs = (.ok report, fs')) :
    ∃ report', (migrate settings).runOn fs' = (.ok report', fs') := by
  obtain ⟨hchanges, hagain⟩ := hbeside.repeats_migrate hsource hmode htarget hup hrun
  obtain ⟨report', now, hrun', hnow⟩ := hagain fs' (.start hbeside.ordered hchanges)
  obtain rfl := hnow.eq_last (hchanges.ordered hbeside.ordered)
  exact ⟨report', hrun'⟩

/-! ## Two books -/

/-- Settings to migrate a book with a directory of included files. -/
def bookWithFiles (dir : Path) : Settings := { bookToSite with includingFilesDir := some dir }

/-- The book and its included files are read in one directory. -/
theorem isPrefix_place_sourcesOf {entries : List (Text × Node)} {dir p : Path}
    (hdir : ["work".toList, "book".toList] <+:
      (filesOfBook entries).place (plainBook.root.join dir))
    (hp : p ∈ sourcesOf (bookWithFiles dir) plainBook) :
    ["work".toList, "book".toList] <+: (filesOfBook entries).place p := by
  simp only [sourcesOf, includedDir?, bookWithFiles, List.cons_append, List.nil_append,
    List.mem_cons, Option.map_some, Option.toList_some, List.not_mem_nil, or_false] at hp
  rcases hp with rfl | rfl | rfl
  · exact List.prefix_rfl
  · exact List.prefix_append _ ["src".toList]
  · exact hdir

/-- The site lies beside such a book. -/
theorem readsBeside_filesOfBook {entries : List (Text × Node)} {dir : Path}
    (hordered : ∀ found ∈ (filesOfBook entries).root.nodes, found.2.HasOrder)
    (hplain : ∀ found ∈ (Node.directory entries).nodes, ∀ n ∈ found.1, IsPlain n)
    (hdir : ["work".toList, "book".toList] <+:
      (filesOfBook entries).place (plainBook.root.join dir)) :
    ReadsBeside (filesOfBook entries) (bookWithFiles dir) plainBook (.ofString "site") where
  ordered := Node.ordered_of_nodes hordered
  workDir := ⟨_, rfl⟩
  plain p hp := by
    have hbelow : (filesOfBook entries).PlainBelow ["work".toList, "book".toList] :=
      FileSystem.plainBelow_of_nodes rfl hplain
    exact hbelow.of_prefix (isPrefix_place_sourcesOf hdir hp)
  apart p hp :=
    have hapart : Apart ["work".toList, "book".toList] ["work".toList, "site".toList] :=
      ⟨by decide, by decide⟩
    hapart.of_prefix (isPrefix_place_sourcesOf hdir hp)

/-- A book with included files. -/
def listedBook : FileSystem := filesOfBook
  [("listings".toList, .directory [("m.rs".toList, .file (.text "fn m".toList))]),
    ("src".toList, .directory [("a.md".toList, .file (.text "a".toList))])]

theorem second_run_changes_nothing_listedBook :
    ∃ report fs', (migrate (bookWithFiles (.ofString "listings"))).runOn listedBook =
        (.ok report, fs') ∧
      (report.converted, report.includedFiles) =
        ([.ofString "site/docs/a.md"], some (.ofString "site/listings")) ∧
      ReadsBeside listedBook (bookWithFiles (.ofString "listings")) plainBook (.ofString "site") ∧
      ∃ report', (migrate (bookWithFiles (.ofString "listings"))).runOn fs' = (.ok report', fs') := by
  obtain ⟨report, hrun, hlisted⟩ := exists_report_of_view (bookWithFiles (.ofString "listings"))
    listedBook (fun report => (report.converted, report.includedFiles))
    ([.ofString "site/docs/a.md"], some (.ofString "site/listings")) (by decide +kernel)
  have hbeside : ReadsBeside listedBook (bookWithFiles (.ofString "listings")) plainBook
      (.ofString "site") :=
    readsBeside_filesOfBook (by decide +kernel) (by decide +kernel) (by decide +kernel)
  refine ⟨report, _, hrun, hlisted, hbeside, ?_⟩
  have hsource : findSource (bookWithFiles (.ofString "listings")) listedBook = .ok plainBook := rfl
  refine second_run_changes_nothing rfl rfl hsource hbeside (fun _ dir hdir => ?_) hrun
  cases hdir
  decide

/-- A run that leaves a file where none was is no run that changes nothing. -/
theorem not_same_of_fileAt {settings : Settings} {fs : FileSystem} (place : List Text)
    (hnone : fs.fileAt place = none)
    (hsome : (((migrate settings).runOn fs).2.fileAt place).isSome = true) :
    ¬ ∃ report, (migrate settings).runOn fs = (.ok report, fs) := by
  rintro ⟨report, hrun⟩
  rw [hrun, hnone] at hsome
  cases hsome

/-- A book whose root holds another directory of its own name. -/
def foldedBook : FileSystem := filesOfBook
  [("book".toList, .directory
      [("src".toList, .directory [("b.md".toList, .file (.text "b".toList))])]),
    ("src".toList, .directory [("a.md".toList, .file (.text "a".toList))])]

/-- **Included files named by `..`** are copied beside the target, here into the book itself: the
second run finds another page and converts it. -/
theorem second_run_changes_foldedBook :
    ∃ report fs', (migrate (bookWithFiles (.ofString "src/.."))).runOn foldedBook =
        (.ok report, fs') ∧
      ReadsBeside foldedBook (bookWithFiles (.ofString "src/..")) plainBook (.ofString "site") ∧
      ¬ ∃ report', (migrate (bookWithFiles (.ofString "src/.."))).runOn fs' = (.ok report', fs') := by
  obtain ⟨report, hrun, -⟩ := exists_report_of_view (bookWithFiles (.ofString "src/.."))
    foldedBook Report.converted [.ofString "site/docs/a.md"] (by decide +kernel)
  refine ⟨report, _, hrun, readsBeside_filesOfBook (by decide +kernel) (by decide +kernel)
    (by decide +kernel), not_same_of_fileAt ["work".toList, "site".toList, "docs".toList,
      "b.md".toList] (by decide +kernel) (by decide +kernel)⟩

end BookSite.Migration
