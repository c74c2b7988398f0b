import BookSite.Proofs.Files.Writing
import BookSite.Proofs.Migration.BookFiles

/-!
# Proofs/Migration/Deposit — files put where they belong

Pages and copies are put to their places in the same way: the directories above are made and then
the file is written.  Whether a file `Fits` depends on what was there before, and files that are
`Independent` of each other fit or do not fit in whatever order they are put (`Deposited.deposit`).
-/

namespace BookSite

namespace FileSystem

variable {fs : FileSystem} {p : Path}

/-! ## Putting a file -/

/-- **The places that a path goes into** before its last step. -/
def above (fs : FileSystem) (p : Path) : List (List Text) :=
  entered (fs.origin p) p.steps.dropLast

/-- **A file fits** where a path leads: the directories above are there or can be made, and no
directory has its name. -/
structure Fits (fs : FileSystem) (p : Path) : Prop where
  usable : IsUsable p
  dir : fs.IsDirAt (fs.origin p)
  free : ∀ y ∈ fs.above p, fs.isFree y = true
  short : IsShort (fs.place p)
  noDir : ¬ fs.IsDirAt (fs.place p)
  not_mem_above : fs.place p ∉ fs.above p

/-- The directories that are made above a file. -/
def MadeAbove (fs : FileSystem) (p : Path) (y : List Text) : Prop :=
  (∀ parent, p.parent? = some parent → IsUsable parent) ∧ fs.IsDirAt (fs.origin p) ∧
    y ∈ (fs.above p).takeWhile fs.isFree

theorem MadeAbove.mem_above {y : List Text} (h : fs.MadeAbove p y) : y ∈ fs.above p :=
  (List.takeWhile_sublist _).subset h.2.2

end FileSystem

namespace Migration

/-- Put a file where a path leads, and create the directories that are missing above. -/
def deposit (dest : Path) (content : Content) (fs : FileSystem) : Bool × FileSystem :=
  match makeAbove dest fs with
  | (.error _, made) => (false, made)
  | (.ok (), made) =>
    match made.writeFile dest content with
    | .error _ => (false, made)
    | .ok written => (true, written)

/-- **What several files leave** that are put one after another: those that fit are there, all other
files are as they were, and the directories above are made as far as they can be. -/
structure Deposited (fs : FileSystem) (files : List (Path × Content)) (fs' : FileSystem) :
    Prop where
  workDir : fs'.workDir = fs.workDir
  written : ∀ file ∈ files, fs.Fits file.1 → fs'.fileAt (fs.place file.1) = some file.2
  kept : ∀ y, (∀ file ∈ files, fs.Fits file.1 → y ≠ fs.place file.1) →
    fs'.fileAt y = fs.fileAt y
  isDirAt_iff : ∀ y, fs'.IsDirAt y ↔ fs.IsDirAt y ∨ ∃ file ∈ files, fs.MadeAbove file.1 y

/-- A path to a file has a plain name. -/
def NamesFile (dest : Path) : Prop := ∃ before name, dest.segments = before ++ [name] ∧ IsName name

theorem namesFile_join (dir : Path) {names : List Text} (hplain : ∀ n ∈ names, IsPlain n)
    (hne : names ≠ []) : NamesFile (dir.join (.ofNames names)) := by
  obtain ⟨-, before, hsegments, -⟩ :=
    Path.exists_segments_join dir (Path.isAbsolute_ofNames hplain)
  obtain ⟨front, name, rfl⟩ := (List.eq_nil_or_concat' names).resolve_left hne
  rw [Path.segments_ofNames hplain hne, ← List.append_assoc] at hsegments
  exact ⟨before ++ front, name, hsegments, (hplain name (by simp)).isName⟩

section Deposit

variable {fs : FileSystem} {dest : Path}

/-- **The directories above** are made as far as the way to them is clear. -/
theorem makes_makeAbove (hdest : NamesFile dest) (fs : FileSystem) :
    fs.Makes (fs.MadeAbove dest) (makeAbove dest fs).2 ∧
      ((makeAbove dest fs).1 = .ok () ↔ ∃ parent, dest.parent? = some parent ∧
        (parent.text = [] ∨ fs.IsClear parent)) := by
  obtain ⟨before, name, hsegments, hname⟩ := hdest
  have hsteps : dest.steps = namesAlong before ++ [name] := by
    rw [Path.steps, hsegments, namesAlong_append, namesAlong_of_isStep hname.isStep]
  obtain ⟨parent, hparent⟩ := Path.exists_parent? (p := dest) (by simp [hsteps])
  have hisParent := Path.isParent_of_parent? hparent
  obtain ⟨hmakes, hok⟩ := fs.makes_createDirAll hisParent.trimmed
  have horigin : fs.origin parent = fs.origin dest := by
    rw [FileSystem.origin, FileSystem.origin, hisParent.isAbsolute]
  have habove : entered (fs.origin parent) parent.segments = fs.above dest := by
    rw [FileSystem.above, ← hisParent.steps, horigin, Path.steps, entered_namesAlong]
  rw [makeAbove, hparent]
  refine ⟨hmakes.congr fun y => ?_, hok.trans ?_⟩
  · rw [FileSystem.MadeAlong, FileSystem.MadeAbove, habove, horigin, hparent]
    simp
  · simp

theorem above_of_segments {before : List Text} {name : Text}
    (h : dest.segments = before ++ [name]) (hname : IsName name) :
    fs.above dest = entered (fs.origin dest) before := by
  rw [FileSystem.above, Path.steps, h, namesAlong_append, namesAlong_of_isStep hname.isStep,
    List.dropLast_concat, entered_namesAlong]

/-- **The way above a file that fits** is clear. -/
theorem exists_clear_parent (hdest : NamesFile dest) (h : fs.Fits dest) :
    ∃ parent, dest.parent? = some parent ∧ fs.IsClear parent := by
  obtain ⟨before, name, hsegments, hname⟩ := hdest
  obtain ⟨parent, hparent⟩ := Path.exists_parent? (p := dest) (by
    simp [Path.steps, hsegments, namesAlong_append, namesAlong_of_isStep hname.isStep])
  have hisParent := Path.isParent_of_parent? hparent
  have horigin : fs.origin parent = fs.origin dest := by
    rw [FileSystem.origin, FileSystem.origin, hisParent.isAbsolute]
  refine ⟨parent, hparent, h.usable.of_prefix hisParent.text, horigin ▸ h.dir, ?_⟩
  rw [horigin, ← entered_namesAlong, ← Path.steps, hisParent.steps]
  exact h.free

/-- All the directories above a file that fits are made. -/
theorem madeAbove_of_fits (hdest : NamesFile dest) (h : fs.Fits dest) {y : List Text}
    (hy : y ∈ fs.above dest) : fs.MadeAbove dest y := by
  obtain ⟨parent, hparent, hclear⟩ := exists_clear_parent hdest h
  refine ⟨fun q hq => ?_, h.dir, by rwa [List.takeWhile_eq_self_iff.mpr h.free]⟩
  obtain rfl : parent = q := Option.some.inj (hparent.symm.trans hq)
  exact hclear.usable

/-- **A file fits** just when the directories above can be made and then the file can be written. -/
theorem fits_iff (hdest : NamesFile dest) (content : Content) (fs : FileSystem) :
    fs.Fits dest ↔ (makeAbove dest fs).1 = .ok () ∧
      ∃ written, (makeAbove dest fs).2.writeFile dest content = .ok written := by
  obtain ⟨hmakes, hok⟩ := makes_makeAbove hdest fs
  have hmade (y : List Text) := hmakes.isDirAt_iff y
  obtain ⟨before, name, hsegments, hname⟩ := id hdest
  have habove : fs.above dest = entered (fs.origin dest) before := above_of_segments hsegments hname
  rw [hok, FileSystem.exists_writeFile_iff hsegments hname, hmakes.place_eq, hmakes.origin_eq]
  constructor
  · intro h
    obtain ⟨parent, hparent, hclear⟩ := exists_clear_parent hdest h
    refine ⟨⟨parent, hparent, .inr hclear⟩, h.usable, ⟨(hmade _).mpr (.inl h.dir), fun y hy => ?_⟩,
      h.short, fun hdir => ?_⟩
    · rw [← habove] at hy
      exact ⟨(hmade y).mpr (.inr (madeAbove_of_fits hdest h hy)),
        (FileSystem.isFree_iff.mp (h.free y hy)).2⟩
    · exact ((hmade _).mp hdir).elim h.noDir fun hnew => h.not_mem_above hnew.mem_above
  · rintro ⟨-, husable, ⟨hdir, hopens⟩, hshort, hnoDir⟩
    rw [← habove] at hopens
    refine ⟨husable, ?_, fun y hy => ?_, hshort, fun hold => hnoDir ((hmade _).mpr (.inl hold)),
      fun hmem => hnoDir (hopens _ hmem).1⟩
    · exact ((hmade _).mp hdir).elim id fun hnew => hnew.2.1
    · obtain ⟨hmadeDir, hname⟩ := hopens y hy
      exact FileSystem.isFree_iff.mpr
        ⟨(hmakes.fileAt_eq y).symm.trans hmadeDir.fileAt_eq_none, hname⟩

/-- **A file that is put** is there if it fits. -/
theorem deposited_deposit (hdest : NamesFile dest) (content : Content) (fs : FileSystem) :
    ((deposit dest content fs).1 = true ↔ fs.Fits dest) ∧
      Deposited fs [(dest, content)] (deposit dest content fs).2 := by
  have hfits := fits_iff hdest content fs
  have hmakes := (makes_makeAbove hdest fs).1
  have hnothing : ¬ fs.Fits dest → Deposited fs [(dest, content)] (makeAbove dest fs).2 :=
    fun hno => ⟨hmakes.workDir, by simp [hno], fun y _ => hmakes.fileAt_eq y, fun y => by
      simpa using hmakes.isDirAt_iff y⟩
  unfold deposit
  rcases hmade : makeAbove dest fs with ⟨e | _, made⟩
  · rw [hmade] at hfits hnothing
    have hno : ¬ fs.Fits dest := fun h => by cases (hfits.mp h).1
    exact ⟨by simp [hno], hnothing hno⟩
  · rw [hmade] at hfits hnothing hmakes
    dsimp only at hfits hnothing hmakes ⊢
    rcases hwrite : made.writeFile dest content with e | written
    · have hno : ¬ fs.Fits dest := fun h => by
        obtain ⟨-, written, hwritten⟩ := hfits.mp h
        rw [hwrite] at hwritten
        cases hwritten
      exact ⟨by simp [hno], hnothing hno⟩
    · have hyes : fs.Fits dest := hfits.mpr ⟨rfl, written, hwrite⟩
      obtain ⟨hchanges, hthere⟩ := FileSystem.changes_writeFile hwrite
      rw [hmakes.place_eq] at hchanges hthere
      obtain ⟨before, name, hsegments, hname⟩ := hdest
      refine ⟨by simp [hyes], hchanges.workDir.trans hmakes.workDir, ?_, fun y hy => ?_,
        fun y => ?_⟩
      · simpa [hyes] using hthere
      · rw [← hmakes.fileAt_eq]
        exact hchanges.fileAt_eq fun c hc => hy _ (List.mem_singleton_self _) hyes hc.1
      · rw [FileSystem.isDirAt_writeFile_iff hsegments hname hwrite, hmakes.isDirAt_iff]
        simp

/-- A file that was put is found by its path. -/
theorem pathExists_of_deposit (hdest : NamesFile dest) {content : Content}
    (h : (deposit dest content fs).1 = true) :
    (deposit dest content fs).2.pathExists dest = true := by
  obtain ⟨before, name, hsegments, hname⟩ := hdest
  unfold deposit at h ⊢
  rcases hmade : makeAbove dest fs with ⟨_ | _, made⟩
  · rw [hmade] at h
    cases h
  · rw [hmade] at h
    dsimp only at h ⊢
    rcases hwrite : made.writeFile dest content with e | written
    · rw [hwrite] at h
      cases h
    · exact FileSystem.pathExists_of_writeFile hsegments hname hwrite

end Deposit

/-! ## Pages and copies -/

/-- **A text written below its directories** is a file put to its place. -/
theorem runOn_writeBelow (mkdir : Path → Activity) (activity : Activity) (file : Path) (t : Text)
    (fs : FileSystem) :
    ((FileAction.writeBelow mkdir activity file t).runOn fs).1.isOk = (deposit file (.text t) fs).1 ∧
      ((FileAction.writeBelow mkdir activity file t).runOn fs).2 =
        (deposit file (.text t) fs).2 := by
  unfold FileAction.writeBelow deposit makeAbove
  rcases file.parent? with _ | dir
  · dsimp only
    rw [FileAction.writeText, FileAction.runOn_change]
    rcases fs.writeFile file (.text t) with _ | _ <;> exact ⟨rfl, rfl⟩
  · dsimp only
    rw [FileAction.runOn_bind, FileAction.runOn_createDirAll]
    rcases fs.createDirAll dir with ⟨_ | _, made⟩
    · exact ⟨rfl, rfl⟩
    · dsimp only [Except.mapError]
      rw [FileAction.writeText, FileAction.runOn_change]
      rcases made.writeFile file (.text t) with _ | _ <;> exact ⟨rfl, rfl⟩

/-- **A page that cannot be converted** leaves everything as it is. -/
theorem convertPageTo_of_error {pipeline : Pipeline} {page dest : Path} {fs : FileSystem}
    {e : Failure} (h : convertedPage pipeline page fs = .error e) :
    (convertPageTo pipeline page dest).runOn fs = (.error e, fs) := by
  rw [convertPageTo_eq, FileAction.runOn_bind, FileAction.runOn_inspect, h]

/-- **A page that is converted** is put to its place. -/
theorem convertPageTo_of_ok {pipeline : Pipeline} {page dest : Path} {fs : FileSystem}
    {converted : Text} (h : convertedPage pipeline page fs = .ok converted) :
    ((convertPageTo pipeline page dest).runOn fs).1.isOk =
        (deposit dest (.text converted) fs).1 ∧
      ((convertPageTo pipeline page dest).runOn fs).2 =
        (deposit dest (.text converted) fs).2 := by
  rw [convertPageTo_eq, FileAction.runOn_bind, FileAction.runOn_inspect, h]
  exact runOn_writeBelow .createOutputDir (.writeFile dest) dest converted fs

/-- A page that was converted is found by its path. -/
theorem pathExists_of_convertPageTo {pipeline : Pipeline} {page dest : Path} {fs fs' : FileSystem}
    (hdest : NamesFile dest) (h : (convertPageTo pipeline page dest).runOn fs = (.ok (), fs')) :
    fs'.pathExists dest = true := by
  rcases hconverted : convertedPage pipeline page fs with e | converted
  · rw [convertPageTo_of_error hconverted] at h
    cases h
  · obtain ⟨hok, hfiles⟩ : ((convertPageTo pipeline page dest).runOn fs).1.isOk =
        (deposit dest (.text converted) fs).1 ∧
          ((convertPageTo pipeline page dest).runOn fs).2 =
            (deposit dest (.text converted) fs).2 := convertPageTo_of_ok hconverted
    rw [h] at hok hfiles
    obtain rfl : fs' = _ := hfiles
    exact pathExists_of_deposit hdest hok.symm

/-- **A copy** is the content of its source put to its place. -/
theorem copyTo_eq_deposit {source dest : Path} {fs : FileSystem} {content : Content}
    (hnode : fs.node source = .ok (.file content)) (hne : fs.place dest ≠ fs.place source) :
    copyTo source dest fs = deposit dest content fs := by
  have hmade := changes_makeAbove dest fs
  have hnode' := hmade.node_file hnode fun _ h => h
  rw [copyTo_eq, deposit]
  rcases hdirs : makeAbove dest fs with ⟨_ | _, made⟩
  · rfl
  · rw [hdirs] at hmade hnode'
    dsimp only at hmade hnode' ⊢
    have hcopied : made.copyFile source dest = made.writeFile dest content :=
      FileSystem.copyFile_eq_writeFile hnode' (by rwa [hmade.place_eq, hmade.place_eq])
    rcases hwritten : made.writeFile dest content with _ | _ <;> simp only [hcopied, hwritten]

/-- A copy is made of a file only. -/
theorem isFile_of_copyTo {source dest : Path} {fs : FileSystem}
    (h : (copyTo source dest fs).1 = true) : (makeAbove dest fs).2.isFile source = true := by
  rw [copyTo_eq] at h
  split at h
  · cases h
  · rename_i made hmade
    rw [hmade]
    split at h
    · cases h
    · rename_i copied hcopied
      exact FileSystem.isFile_iff.mpr (FileSystem.exists_node_of_copyFile hcopied)

/-! ## Several files -/

/-- **Files that are put independently** of each other: to different places, none of which the path
of the other one goes into unless its own path does. -/
structure Independent (fs : FileSystem) (p q : Path) : Prop where
  isAbsolute : p.isAbsolute = q.isAbsolute
  ne : fs.place p ≠ fs.place q
  left : fs.place p ∈ fs.above q → fs.place p ∈ fs.above p
  right : fs.place q ∈ fs.above p → fs.place q ∈ fs.above q

/-- **Above a file below a directory** are the places on the way to the directory and those further
down. -/
theorem above_join (fs : FileSystem) (dir : Path) {names : List Text}
    (hplain : ∀ n ∈ names, IsPlain n) (hne : names ≠ []) :
    fs.above (dir.join (.ofNames names)) =
      entered (fs.origin dir) dir.segments ++ entered (fs.place dir) names.dropLast := by
  have horigin : fs.origin (dir.join (.ofNames names)) = fs.origin dir := by
    rw [FileSystem.origin, FileSystem.origin,
      (Path.exists_segments_join dir (Path.isAbsolute_ofNames hplain)).1]
  rw [FileSystem.above, horigin, dir.steps_join_ofNames hplain, List.dropLast_append_of_ne_nil hne,
    entered_append, Path.steps, entered_namesAlong, placeFrom_namesAlong]
  rfl

theorem mem_above_join {fs : FileSystem} {dir : Path} {names : List Text}
    (hplain : ∀ n ∈ names, IsPlain n) (hne : names ≠ []) {y : List Text} :
    y ∈ fs.above (dir.join (.ofNames names)) ↔ y ∈ entered (fs.origin dir) dir.segments ∨
      ∃ front, front ≠ [] ∧ front <+: names.dropLast ∧ y = fs.place dir ++ front := by
  rw [above_join fs dir hplain hne, List.mem_append,
    mem_entered_iff fun n hn => hplain n ((List.dropLast_prefix names).subset hn)]

/-- **Files of a tree** are independent of each other wherever they go together. -/
theorem independent_join {fs : FileSystem} {dir : Path} {names names' : List Text}
    (hplain : ∀ n ∈ names, IsPlain n) (hplain' : ∀ n ∈ names', IsPlain n)
    (hapart : Apart names names') :
    Independent fs (dir.join (.ofNames names)) (dir.join (.ofNames names')) := by
  have hne : names ≠ [] := fun hnil => hapart.left (hnil ▸ List.nil_prefix)
  have hne' : names' ≠ [] := fun hnil => hapart.right (hnil ▸ List.nil_prefix)
  refine ⟨?_, ?_, ?_, ?_⟩
  · rw [(Path.exists_segments_join dir (Path.isAbsolute_ofNames hplain)).1,
      (Path.exists_segments_join dir (Path.isAbsolute_ofNames hplain')).1]
  · rw [fs.place_join_ofNames _ hplain, fs.place_join_ofNames _ hplain']
    intro heq
    exact hapart.left (List.append_cancel_left heq ▸ List.prefix_rfl)
  · rw [mem_above_join hplain' hne', mem_above_join hplain hne, fs.place_join_ofNames _ hplain]
    rintro (hway | ⟨front, -, hfront, heq⟩)
    · exact .inl hway
    · exact absurd (List.append_cancel_left heq ▸ hfront.trans (List.dropLast_prefix _))
        hapart.left
  · rw [mem_above_join hplain hne, mem_above_join hplain' hne', fs.place_join_ofNames _ hplain']
    rintro (hway | ⟨front, -, hfront, heq⟩)
    · exact .inl hway
    · exact absurd (List.append_cancel_left heq ▸ hfront.trans (List.dropLast_prefix _))
        hapart.right

/-- No file lies below another one. -/
theorem apart_of_files {fs : FileSystem} {place names names' : List Text}
    (hfile : (fs.fileAt (place ++ names)).isSome) (hfile' : (fs.fileAt (place ++ names')).isSome)
    (hne : names ≠ names') : Apart names names' := by
  have hnot : ∀ first second, (fs.fileAt (place ++ first)).isSome →
      (fs.fileAt (place ++ second)).isSome → first ≠ second → ¬ first <+: second := by
    rintro first _ hfirst hsecond hdiffer ⟨more, rfl⟩
    have hmore : more ≠ [] := fun hnil => hdiffer (by rw [hnil, List.append_nil])
    rw [← List.append_assoc] at hsecond
    rw [(FileSystem.isDirAt_of_has (FileSystem.has_iff.mpr (.inl hsecond)) hmore).fileAt_eq_none]
      at hfirst
    cases hfirst
  exact ⟨hnot _ _ hfile hfile' hne, hnot _ _ hfile' hfile hne.symm⟩

namespace Deposited

variable {fs fs' fs'' : FileSystem} {files : List (Path × Content)} {dest : Path}
  {content : Content}

theorem nil (fs : FileSystem) : Deposited fs [] fs := ⟨rfl, by simp, fun _ _ => rfl, by simp⟩

variable (h : Deposited fs files fs')

include h

theorem origin_eq (p : Path) : fs'.origin p = fs.origin p := by
  rw [FileSystem.origin, FileSystem.origin, h.workDir]

theorem place_eq (p : Path) : fs'.place p = fs.place p := by
  rw [FileSystem.place, FileSystem.place, h.origin_eq]

theorem above_eq (p : Path) : fs'.above p = fs.above p := by
  rw [FileSystem.above, FileSystem.above, h.origin_eq]

variable (hindependent : ∀ file ∈ files, Independent fs file.1 dest)

include hindependent

/-- Files that were put before are not in the way. -/
theorem isFree_eq {y : List Text} (hy : y ∈ fs.above dest) : fs'.isFree y = fs.isFree y := by
  rw [FileSystem.isFree, FileSystem.isFree]
  congr 2
  refine h.kept y fun file hfile hfits heq => ?_
  exact hfits.not_mem_above ((hindependent file hfile).left (heq ▸ hy))

theorem isDirAt_origin_iff : fs'.IsDirAt (fs.origin dest) ↔ fs.IsDirAt (fs.origin dest) := by
  rw [h.isDirAt_iff]
  refine ⟨fun hdir => hdir.elim id ?_, .inl⟩
  rintro ⟨file, hfile, hmade⟩
  have horigin : fs.origin file.1 = fs.origin dest := by
    rw [FileSystem.origin, FileSystem.origin, (hindependent file hfile).isAbsolute]
  exact horigin ▸ hmade.2.1

theorem takeWhile_above :
    (fs.above dest).takeWhile fs'.isFree = (fs.above dest).takeWhile fs.isFree := by
  have hsame : ∀ y ∈ fs.above dest, fs'.isFree y = fs.isFree y :=
    fun y hy => h.isFree_eq hindependent hy
  generalize fs.above dest = places at hsame ⊢
  induction places with
  | nil => rfl
  | cons y places ih =>
    obtain ⟨hy, hplaces⟩ := List.forall_mem_cons.mp hsame
    rw [List.takeWhile_cons, List.takeWhile_cons, hy, ih hplaces]

theorem madeAbove_iff {y : List Text} : fs'.MadeAbove dest y ↔ fs.MadeAbove dest y := by
  rw [FileSystem.MadeAbove, FileSystem.MadeAbove, h.origin_eq, h.above_eq,
    h.isDirAt_origin_iff hindependent, h.takeWhile_above hindependent]

/-- **A file fits after others** just when it fits before them. -/
theorem fits_iff : fs'.Fits dest ↔ fs.Fits dest := by
  have hdir := h.isDirAt_origin_iff hindependent
  have hfree : (∀ y ∈ fs.above dest, fs'.isFree y = true) ↔
      ∀ y ∈ fs.above dest, fs.isFree y = true :=
    forall₂_congr fun y hy => by rw [h.isFree_eq hindependent hy]
  have hplace : fs.place dest ∉ fs.above dest →
      (fs'.IsDirAt (fs.place dest) ↔ fs.IsDirAt (fs.place dest)) := fun hnot => by
    rw [h.isDirAt_iff]
    refine ⟨fun hdir => hdir.elim id ?_, .inl⟩
    rintro ⟨file, hfile, hmade⟩
    exact absurd ((hindependent file hfile).right hmade.mem_above) hnot
  constructor
  · rintro ⟨husable, hstart, hall, hshort, hnoDir, hnot⟩
    rw [h.place_eq, h.above_eq] at hnot
    rw [h.place_eq] at hshort hnoDir
    rw [h.origin_eq] at hstart
    rw [h.above_eq] at hall
    exact ⟨husable, hdir.mp hstart, hfree.mp hall, hshort, fun h => hnoDir ((hplace hnot).mpr h),
      hnot⟩
  · rintro ⟨husable, hstart, hall, hshort, hnoDir, hnot⟩
    refine ⟨husable, ?_, ?_, ?_, ?_, ?_⟩
    · rw [h.origin_eq]
      exact hdir.mpr hstart
    · rw [h.above_eq]
      exact hfree.mpr hall
    · rwa [h.place_eq]
    · rw [h.place_eq]
      exact fun h => hnoDir ((hplace hnot).mp h)
    · rwa [h.place_eq, h.above_eq]

/-- **One file more** is put as it would be before all others. -/
theorem concat (h' : Deposited fs' [(dest, content)] fs'') :
    Deposited fs (files ++ [(dest, content)]) fs'' where
  workDir := h'.workDir.trans h.workDir
  written file hfile hfits := by
    rcases List.mem_append.mp hfile with hfile | hfile
    · rw [h'.kept _ fun new hnew _ heq => ?_]
      · exact h.written file hfile hfits
      · obtain rfl := List.mem_singleton.mp hnew
        rw [h.place_eq] at heq
        exact (hindependent file hfile).ne heq
    · obtain rfl := List.mem_singleton.mp hfile
      have hthere := h'.written _ (List.mem_singleton_self _) ((h.fits_iff hindependent).mpr hfits)
      rwa [h.place_eq] at hthere
  kept y hy := by
    rw [h'.kept y fun new hnew hfits => ?_]
    · exact h.kept y fun file hfile => hy file (List.mem_append_left _ hfile)
    · obtain rfl := List.mem_singleton.mp hnew
      rw [h.place_eq]
      exact hy _ (List.mem_append_right _ hnew) ((h.fits_iff hindependent).mp hfits)
  isDirAt_iff y := by
    rw [h'.isDirAt_iff, h.isDirAt_iff]
    simp only [List.mem_append, List.mem_singleton, exists_eq_left, or_and_right, exists_or,
      h.madeAbove_iff hindependent, or_assoc]

/-- **Putting one file more.** -/
theorem deposit (hdest : NamesFile dest) (content : Content) :
    ((Migration.deposit dest content fs').1 = true ↔ fs.Fits dest) ∧
      Deposited fs (files ++ [(dest, content)]) (Migration.deposit dest content fs').2 := by
  obtain ⟨hok, hdeposited⟩ := deposited_deposit hdest content fs'
  exact ⟨hok.trans (h.fits_iff hindependent), h.concat hindependent hdeposited⟩

end Deposited

/-- **The same tree**: the same files with the same content, and the same directories. -/
structure SameTree (fs fs' : FileSystem) : Prop where
  workDir : fs'.workDir = fs.workDir
  fileAt_eq : ∀ y, fs'.fileAt y = fs.fileAt y
  isDirAt_iff : ∀ y, fs'.IsDirAt y ↔ fs.IsDirAt y

/-- **The order does not matter**: the same files leave the same tree. -/
theorem Deposited.sameTree {fs fs₁ fs₂ : FileSystem} {files files' : List (Path × Content)}
    (h₁ : Deposited fs files fs₁) (h₂ : Deposited fs files' fs₂) (hperm : files.Perm files') :
    SameTree fs₁ fs₂ where
  workDir := h₂.workDir.trans h₁.workDir.symm
  fileAt_eq y := by
    by_cases hy : ∃ file ∈ files, fs.Fits file.1 ∧ y = fs.place file.1
    · obtain ⟨file, hfile, hfits, rfl⟩ := hy
      rw [h₁.written file hfile hfits, h₂.written file (hperm.mem_iff.mp hfile) hfits]
    · have hother : ∀ file ∈ files, fs.Fits file.1 → y ≠ fs.place file.1 :=
        fun file hfile hfits heq => hy ⟨file, hfile, hfits, heq⟩
      rw [h₁.kept y hother, h₂.kept y fun file hfile => hother file (hperm.mem_iff.mpr hfile)]
  isDirAt_iff y := by
    rw [h₁.isDirAt_iff, h₂.isDirAt_iff]
    simp only [hperm.mem_iff]

end Migration

end BookSite
