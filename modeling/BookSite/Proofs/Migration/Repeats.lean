import BookSite.Proofs.Files.Repetition
import BookSite.Proofs.Markdown.Include.ReadPaths
import BookSite.Proofs.Migration.Accounting
import BookSite.Proofs.Migration.Layout

/-!
# Proofs/Migration/Repeats — the steps of a migration done again

A step that a first run took succeeds in a second one too, and the second run is then where the
first one was behind it (`Repeats`).  Such steps follow one another.  The files of a book read the
same in both runs, so that the same pages and copies are put to the same places.
-/

namespace BookSite

open FileSystem (Again)

namespace FileAction

variable {α β : Type} {fs fs₁ fs' last : FileSystem} {L : List Text → Content → Prop}

/-- **An action that is done again**: the first run took it from `fs` to `fs'`. -/
def Repeats (last : FileSystem) (action : FileAction α) (fs fs' : FileSystem) : Prop :=
  ∀ now, Again fs last now → ∃ a now', action.runOn now = (.ok a, now') ∧ Again fs' last now'

namespace Repeats

theorem pure (a : α) (fs : FileSystem) : Repeats last (Pure.pure a) fs fs :=
  fun now h => ⟨a, now, rfl, h⟩

/-- **Steps that are done again** one after another. -/
theorem bind {action : FileAction α} {next : α → FileAction β} (h : Repeats last action fs fs₁)
    (hnext : ∀ a, Repeats last (next a) fs₁ fs') : Repeats last (action >>= next) fs fs' := by
  intro now hnow
  obtain ⟨a, now₁, hfirst, hnow₁⟩ := h now hnow
  obtain ⟨b, now', hrest, hnow'⟩ := hnext a now₁ hnow₁
  exact ⟨b, now', runOn_bind_eq_ok.mpr ⟨a, now₁, hfirst, hrest⟩, hnow'⟩

/-- What is done with the files that are there. -/
theorem get_bind {next : FileSystem → FileAction α}
    (h : ∀ now, Again fs last now → Repeats last (next now) fs fs') :
    Repeats last (get >>= next) fs fs' := by
  intro now hnow
  rw [runOn_get_bind]
  exact h now hnow now hnow

theorem createDirAll {activity : Activity} {dir : Path} (hwork : fs.IsDirAt fs.workDir) {u : Unit}
    (hrun : (FileAction.createDirAll activity dir).runOn fs = (.ok u, fs'))
    (hlater : FileSystem.Changes L fs' last) :
    Repeats last (FileAction.createDirAll activity dir) fs fs' := by
  intro now h
  obtain ⟨hmade, hnow⟩ := h.createDirAll hwork (createDirAll_eq_ok hrun) hlater
  exact ⟨(), now, by rw [runOn_createDirAll, hmade]; rfl, hnow⟩

/-- **A loop** over steps that are done again. -/
theorem forChosen {W : List Text → Content → Prop} {fs₀ : FileSystem} {xs : List α}
    {chosen : α → Bool} {step : α → FileAction Unit} {u : PUnit}
    (hstart : FileSystem.Changes W fs₀ fs)
    (hstep : ∀ x ∈ xs, chosen x = true → ∀ before after done, FileSystem.Changes W fs₀ before →
      (step x).runOn before = (.ok done, after) → FileSystem.Changes W before after ∧
        (FileSystem.Changes W after last → Repeats last (step x) before after))
    (h : (FileAction.forChosen xs chosen step).runOn fs = (.ok u, fs'))
    (hlater : FileSystem.Changes W fs' last) :
    Repeats last (FileAction.forChosen xs chosen step) fs fs' := by
  induction xs generalizing fs with
  | nil =>
    rw [forChosen_nil] at h ⊢
    cases h
    exact pure _ _
  | cons x xs ih =>
    rw [forChosen_cons] at h ⊢
    obtain ⟨done, fs₁, hfirst, hrest⟩ := runOn_bind_eq_ok.mp h
    obtain ⟨hx, hxs⟩ := List.forall_mem_cons.mp hstep
    have hothers : FileSystem.Changes W fs₀ fs₁ → FileSystem.Changes W fs₁ fs' := fun hstart₁ =>
      (forChosen_runOn (Q := fun _ _ => True) hstart₁
        (fun y hy hchosen before after done hbefore hrun =>
          ⟨(hxs y hy hchosen before after done hbefore hrun).1, trivial⟩)
        (fun _ _ _ _ _ => trivial) hrest).1
    split at hfirst
    · rename_i hchosen
      obtain ⟨hchanges, hrepeats⟩ := hx hchosen fs fs₁ done hstart hfirst
      have hstart₁ := hstart.trans hchanges
      rw [if_pos hchosen]
      exact (hrepeats ((hothers hstart₁).trans hlater)).bind fun _ => ih hstart₁ hxs hrest
    · rename_i hpassed
      cases hfirst
      rw [if_neg hpassed]
      exact (pure () fs).bind fun _ => ih hstart hxs hrest

end Repeats

end FileAction

namespace Migration

/-! ## Putting a file again -/

section Deposit

variable {fs last now : FileSystem} {dest : Path} {content : Content}
  {L : List Text → Content → Prop}

/-- **Putting a file** writes at one place only. -/
theorem changes_deposit (dest : Path) (content : Content) (fs : FileSystem) :
    FileSystem.Changes (fun y c => y = fs.place dest ∧ c = content) fs
      (deposit dest content fs).2 := by
  have hmade : FileSystem.Changes (fun y c => y = fs.place dest ∧ c = content) fs
      (makeAbove dest fs).2 := (changes_makeAbove dest fs).mono fun _ _ h => h.elim
  unfold deposit
  rcases habove : makeAbove dest fs with ⟨_ | _, made⟩
  · rwa [habove] at hmade
  · rw [habove] at hmade
    dsimp only at hmade ⊢
    rcases hwrite : made.writeFile dest content with _ | written
    · exact hmade
    · have hwritten := (FileSystem.changes_writeFile hwrite).1
      rw [hmade.place_eq] at hwritten
      exact hmade.trans hwritten

/-- A stricter condition takes less from the front. -/
theorem mem_takeWhile_of_imp {α : Type} {p q : α → Bool} (h : ∀ a, p a = true → q a = true)
    {xs : List α} {x : α} (hx : x ∈ xs.takeWhile p) : x ∈ xs.takeWhile q := by
  have htwice : (xs.takeWhile q).takeWhile p = xs.takeWhile p := by
    rw [List.takeWhile_takeWhile]
    exact congrArg (xs.takeWhile ·) (funext fun a => by simpa using h a)
  rw [← htwice] at hx
  exact (List.takeWhile_prefix p).subset hx

theorem above_eq (h : Again fs last now) (p : Path) : now.above p = fs.above p := by
  rw [FileSystem.above, FileSystem.above, h.changes.origin_eq]

/-- A name that is free in the second run was free in the first one. -/
theorem isFree_of_again (h : Again fs last now) {y : List Text} (hy : now.isFree y = true) :
    fs.isFree y = true := by
  obtain ⟨hnone, hshort⟩ := FileSystem.isFree_iff.mp hy
  refine FileSystem.isFree_iff.mpr ⟨Option.not_isSome_iff_eq_none.mp fun hsome => ?_, hshort⟩
  have hthere := h.changes.isSome_fileAt hsome
  rw [hnone] at hthere
  cases hthere

variable (h : Again fs last now) (hdest : NamesFile dest)
  (hlater : FileSystem.Changes L (deposit dest content fs).2 last)
  (hdir : fs.IsDirAt (fs.origin dest))

include h hdest hlater

/-- The directories that were made above a file are there in the second run. -/
theorem isDirAt_of_made_before {y : List Text} (hy : fs.MadeAbove dest y) : now.IsDirAt y := by
  obtain ⟨-, hdeposited⟩ := deposited_deposit hdest content fs
  have hleft := (hdeposited.isDirAt_iff y).mpr (.inr ⟨_, List.mem_singleton_self _, hy⟩)
  exact (h.isDirAt_iff y).mpr (hlater.dir y hleft)

include hdir

/-- **A file fits** in the second run just when it did in the first one. -/
theorem fits_again_iff : now.Fits dest ↔ fs.Fits dest := by
  constructor
  · rintro ⟨husable, -, hfree, hshort, hnoDir, hnot⟩
    rw [h.changes.place_eq] at hshort hnoDir hnot
    rw [above_eq h] at hfree hnot
    exact ⟨husable, hdir, fun y hy => isFree_of_again h (hfree y hy), hshort,
      fun hold => hnoDir (h.changes.dir _ hold), hnot⟩
  · intro hfits
    obtain ⟨-, hdeposited⟩ := deposited_deposit hdest content fs
    have hwritten : (last.fileAt (fs.place dest)).isSome :=
      hlater.isSome_fileAt (by
        rw [hdeposited.written _ (List.mem_singleton_self _) hfits]
        rfl)
    refine ⟨hfits.usable, ?_, ?_, ?_, ?_, ?_⟩
    · rw [h.changes.origin_eq]
      exact h.changes.dir _ hdir
    · rw [above_eq h]
      intro y hy
      have hthere := isDirAt_of_made_before h hdest hlater (madeAbove_of_fits hdest hfits hy)
      exact FileSystem.isFree_iff.mpr
        ⟨hthere.fileAt_eq_none, (FileSystem.isFree_iff.mp (hfits.free y hy)).2⟩
    · rw [h.changes.place_eq]
      exact hfits.short
    · rw [h.changes.place_eq]
      intro hold
      rw [((h.isDirAt_iff _).mp hold).fileAt_eq_none] at hwritten
      cases hwritten
    · rw [h.changes.place_eq, above_eq h]
      exact hfits.not_mem_above

/-- **The directories above a file** are there in the second run as far as it would make them. -/
theorem isDirAt_of_madeAbove {y : List Text} (hy : now.MadeAbove dest y) : now.IsDirAt y := by
  obtain ⟨husable, -, hmem⟩ := hy
  rw [above_eq h] at hmem
  exact isDirAt_of_made_before h hdest hlater
    ⟨husable, hdir, mem_takeWhile_of_imp (fun _ => isFree_of_again h) hmem⟩

/-- **A file is put** in both runs, or in neither. -/
theorem deposit_again :
    Again (deposit dest content fs).2 last (deposit dest content now).2 := by
  have hfits := fits_again_iff h hdest hlater hdir
  have hmade := fun y => isDirAt_of_madeAbove h hdest hlater hdir (y := y)
  obtain ⟨-, hfirst⟩ := deposited_deposit hdest content fs
  obtain ⟨-, hsecond⟩ := deposited_deposit hdest content now
  refine h.step (changes_deposit dest content fs) hlater (changes_deposit dest content now)
    (fun y hy => ?_) fun y => ?_
  · obtain hold | ⟨file, hfile, hnew⟩ := (hsecond.isDirAt_iff y).mp hy
    · exact hold
    · obtain rfl := List.mem_singleton.mp hfile
      exact hmade y hnew
  · by_cases hy : fs.Fits dest ∧ y = fs.place dest
    · obtain ⟨hyes, rfl⟩ := hy
      have hnow := hsecond.written _ (List.mem_singleton_self _) (hfits.mpr hyes)
      rw [h.changes.place_eq] at hnow
      exact .inr (hnow.trans (hfirst.written _ (List.mem_singleton_self _) hyes).symm)
    · refine .inl ⟨hsecond.kept y ?_, hfirst.kept y ?_⟩
      · rintro file hfile hyes rfl
        obtain rfl := List.mem_singleton.mp hfile
        exact hy ⟨hfits.mp hyes, h.changes.place_eq dest⟩
      · rintro file hfile hyes rfl
        obtain rfl := List.mem_singleton.mp hfile
        exact hy ⟨hyes, rfl⟩

end Deposit

/-! ## The files of the book -/

/-- **A pipeline that reads nothing** includes no files. -/
def ReadsNothing (pipeline : Pipeline) : Prop :=
  ∀ stage ∈ pipeline.stages, stage ≠ .includes .inline

theorem readsNothing_standard : ReadsNothing (.standard .translate) := by
  intro stage hstage
  simp only [Pipeline.standard, List.mem_cons, List.not_mem_nil, or_false] at hstage
  rintro rfl
  simp at hstage

theorem ReadsNothing.readPaths_eq_nil {pipeline : Pipeline} (h : ReadsNothing pipeline)
    (fs : FileSystem) (path? : Option Path) (page : Text) :
    pipeline.readPaths fs path? page = [] := by
  unfold ReadsNothing at h
  unfold Pipeline.readPaths
  generalize pipeline.stages = stages at h ⊢
  induction stages generalizing page with
  | nil => rfl
  | cons stage rest ih =>
    obtain ⟨hstage, hrest⟩ := List.forall_mem_cons.mp h
    have hnone : stage.readPaths path? page = [] := by
      unfold Stage.readPaths
      split
      · exact absurd rfl hstage
      · rfl
    rw [Pipeline.readPathsFrom, hnone, List.nil_append]
    split
    · exact ih _ hrest
    · rfl

/-- What is left of a page that is converted. -/
theorem convertPageBelow_snd {pipeline : Pipeline} {out : Path} {page : FileSystem.Found}
    {fs : FileSystem} :
    (convertPageBelow pipeline out page fs).2 =
      match convertedPage pipeline page.path fs with
      | .error _ => fs
      | .ok converted => (deposit (pageDest out page) (.text converted) fs).2 := by
  have hrun : (convertPageBelow pipeline out page fs).2 =
      ((convertPageTo pipeline page.path (pageDest out page)).runOn fs).2 := rfl
  rw [hrun]
  rcases hconverted : convertedPage pipeline page.path fs with e | converted
  · rw [convertPageTo_of_error hconverted]
  · exact (convertPageTo_of_ok hconverted).2

/-- **A change that is done again**: it writes below the base only, and the second run does it as
the first one did. -/
structure DoneAgain (fs₀ last : FileSystem) (base : List Text) (change : FileSystem → FileSystem) :
    Prop where
  changes : ∀ fs, FileSystem.Changes (fun y _ => base <+: y) fs₀ fs →
    FileSystem.Changes (fun y _ => base <+: y) fs (change fs)
  again : ∀ fs now, FileSystem.Changes (fun y _ => base <+: y) fs₀ fs →
    FileSystem.Changes (fun y _ => base <+: y) (change fs) last → Again fs last now →
      Again (change fs) last (change now)

namespace DoneAgain

variable {fs₀ last : FileSystem} {base : List Text} {change other : FileSystem → FileSystem}

theorem id : DoneAgain fs₀ last base fun fs => fs where
  changes fs _ := .refl _ fs
  again _ _ _ _ h := h

/-- Only the files that a run can meet count. -/
theorem congr (h : DoneAgain fs₀ last base change)
    (hsame : ∀ fs, FileSystem.Changes (fun y _ => base <+: y) fs₀ fs → other fs = change fs) :
    DoneAgain fs₀ last base other where
  changes fs hbefore := by
    rw [hsame fs hbefore]
    exact h.changes fs hbefore
  again fs now hbefore hlater hnow := by
    rw [hsame fs hbefore] at hlater ⊢
    rw [hsame now (hnow.changes_of hbefore
      ((hbefore.trans (h.changes fs hbefore)).trans hlater))]
    exact h.again fs now hbefore hlater hnow

theorem comp (h : DoneAgain fs₀ last base change) (h' : DoneAgain fs₀ last base other) :
    DoneAgain fs₀ last base fun fs => other (change fs) where
  changes fs hbefore :=
    (h.changes fs hbefore).trans (h'.changes _ (hbefore.trans (h.changes fs hbefore)))
  again fs now hbefore hlater hnow := by
    have hnext := hbefore.trans (h.changes fs hbefore)
    exact h'.again _ _ hnext hlater
      (h.again fs now hbefore ((h'.changes _ hnext).trans hlater) hnow)

/-- **Several changes**, one after another. -/
theorem foldl {α : Type} {step : FileSystem → α → FileSystem} {xs : List α}
    (h : ∀ x ∈ xs, DoneAgain fs₀ last base fun fs => step fs x) :
    DoneAgain fs₀ last base fun fs => xs.foldl step fs := by
  induction xs with
  | nil => exact id
  | cons x xs ih =>
    obtain ⟨hx, hxs⟩ := List.forall_mem_cons.mp h
    exact hx.comp (ih hxs)

end DoneAgain

/-- What is copied does not depend on what was copied before. -/
theorem copyMet_snd {plan : CopyPlan} (names : List Text) (copied : CopiedFiles)
    (fs : FileSystem) : (plan.copyMet names (copied, fs)).2 = (plan.copyMet names ({}, fs)).2 := by
  rcases hdir : plan.dirFor? (FileKind.classify (plan.src.joinNames names)) with _ | dir
  · rw [copyMet_of_eq_none hdir, copyMet_of_eq_none hdir]
  · rw [copyMet_of_eq_some hdir, copyMet_of_eq_some hdir]

theorem copyEach_snd {plan : CopyPlan} (met : List (List Text)) (copied : CopiedFiles)
    (fs : FileSystem) :
    (copyEach plan met (copied, fs)).2 =
      met.foldl (fun fs names => (plan.copyMet names ({}, fs)).2) fs := by
  induction met generalizing copied fs with
  | nil => rfl
  | cons names met ih =>
    rw [copyEach_cons, List.foldl_cons, ← copyMet_snd names copied fs]
    exact ih _ _

section Book

variable {fs₀ fs last now : FileSystem} {plan : CopyPlan} {base : List Text}
  {pipeline : Pipeline} (hapart : KeepsApart fs₀ plan base) (hsrc : fs₀.isDir plan.src = true)
  (hwork : fs₀.IsDirAt fs₀.workDir)

include hapart

theorem KeepsApart.not_isPrefix (names : List Text) : ¬ base <+: fs₀.place plan.src ++ names :=
  hapart.apart.not_prefix_append names

include hsrc

/-- **The pages** are the same while only files below the base are written. -/
theorem KeepsApart.pages_eq (h : FileSystem.Changes (fun y _ => base <+: y) fs₀ fs) :
    pages fs plan.src = pages fs₀ plan.src := by
  rw [pages, pages, markdownFiles, markdownFiles,
    h.allFiles_eq hapart.ordered hsrc fun names _ => hapart.not_isPrefix names]

/-- **A page becomes the same** while only files below the base are written. -/
theorem KeepsApart.convertedPage_eq (hreads : ReadsNothing pipeline)
    (h : FileSystem.Changes (fun y _ => base <+: y) fs₀ fs) {page : FileSystem.Found}
    (hpage : page ∈ pages fs₀ plan.src) :
    convertedPage pipeline page.path fs = convertedPage pipeline page.path fs₀ := by
  obtain ⟨hpath, hfile, -, -⟩ := (mem_pages_iff hapart.ordered hsrc).mp hpage
  have hsome : (fs₀.fileAt (fs₀.place plan.src ++ page.names)).isSome := by
    rw [hfile]
    rfl
  have hread : fs.readText page.path = fs₀.readText page.path := by
    rw [hpath]
    exact h.readText_eq hsrc (fun names _ => hapart.not_isPrefix names)
      (hapart.names_plain hsrc hsome).1 hsome
  rw [convertedPage, convertedPage, hread]
  rcases fs₀.readText page.path with e | t
  · rfl
  · have hsame : pipeline.convert fs (some page.path) t = pipeline.convert fs₀ (some page.path) t :=
      Pipeline.convert_congr fun p hp => by
        rw [hreads.readPaths_eq_nil] at hp
        cases hp
    dsimp only
    rw [hsame]

include hwork

/-- **Putting a file of the book** below the base. -/
theorem KeepsApart.doneAgain_deposit {dir : Path} {names : List Text}
    (hdir : base <+: fs₀.place dir)
    (hfile : (fs₀.fileAt (fs₀.place plan.src ++ names)).isSome) (content : Content) :
    DoneAgain fs₀ last base fun fs => (deposit (dir.join (.ofNames names)) content fs).2 := by
  obtain ⟨hplain, hne⟩ := hapart.names_plain hsrc hfile
  refine ⟨fun fs hbefore => (changes_deposit _ content fs).mono ?_,
    fun fs now hbefore hlater h => ?_⟩
  · rintro y c ⟨rfl, -⟩
    rw [fs.place_join_ofNames dir hplain, hbefore.place_eq]
    exact hdir.trans (List.prefix_append _ _)
  · have hstart : fs.IsDirAt fs.workDir := hbefore.workDir ▸ hbefore.dir _ hwork
    exact deposit_again h (namesFile_join dir hplain hne) hlater
      (FileSystem.isDirAt_origin hstart _)

/-- **The pages are converted** in both runs. -/
theorem KeepsApart.doneAgain_convertEach (hreads : ReadsNothing pipeline)
    {turns : List FileSystem.Found} (hturns : ∀ page ∈ turns, page ∈ pages fs₀ plan.src) :
    DoneAgain fs₀ last base fun fs =>
      (Migration.convertEach pipeline plan.documents turns fs).2 := by
  have hfold : ∀ fs, (Migration.convertEach pipeline plan.documents turns fs).2 =
      turns.foldl (fun fs page => (Migration.convertPageBelow pipeline plan.documents page fs).2)
        fs := by
    intro fs
    induction turns generalizing fs with
    | nil => rfl
    | cons page turns ih => exact ih (List.forall_mem_cons.mp hturns).2 _
  refine (DoneAgain.foldl fun page hpage => ?_).congr fun fs _ => hfold fs
  obtain ⟨-, hfile, -, -⟩ := (mem_pages_iff hapart.ordered hsrc).mp (hturns page hpage)
  have hpage' : ∀ fs, FileSystem.Changes (fun y _ => base <+: y) fs₀ fs →
      (Migration.convertPageBelow pipeline plan.documents page fs).2 =
        match convertedPage pipeline page.path fs₀ with
        | .error _ => fs
        | .ok converted => (deposit (pageDest plan.documents page) (.text converted) fs).2 :=
    fun fs hbefore => by
      rw [convertPageBelow_snd, hapart.convertedPage_eq hsrc hreads hbefore (hturns page hpage)]
  refine DoneAgain.congr ?_ hpage'
  split
  · exact .id
  · exact hapart.doneAgain_deposit hsrc hwork hapart.documents (by rw [hfile]; rfl) _

/-- **The assets and documents are copied** in both runs. -/
theorem KeepsApart.doneAgain_copyEach {met : List (List Text)}
    (hmet : ∀ names ∈ met, IsMet fs₀ plan.src names) :
    DoneAgain fs₀ last base fun fs => (copyEach plan met ({}, fs)).2 := by
  refine (DoneAgain.foldl fun names hnames => ?_).congr fun fs _ => copyEach_snd met {} fs
  obtain ⟨content, hfile⟩ := Option.isSome_iff_exists.mp (hmet names hnames).file
  rcases hdir : plan.dirFor? (plan.kindOf names) with _ | dir
  · exact DoneAgain.id.congr fun fs _ => congrArg Prod.snd (copyMet_of_eq_none hdir)
  · have hbase := hapart.dirFor? hdir
    refine (hapart.doneAgain_deposit hsrc hwork hbase (hmet names hnames).file content).congr
      fun fs hbefore => ?_
    exact hapart.copyMet_eq hsrc hbefore (hmet names hnames) hdir hfile

/-- **The files of the book are put to their places** in both runs. -/
theorem KeepsApart.doneAgain_files (hreads : ReadsNothing pipeline) :
    DoneAgain fs₀ last base fun fs => (plan.copyAll
      (Migration.convertEach pipeline plan.documents (pages fs plan.src) fs).2).2 := by
  obtain ⟨met, -, horder, hmet⟩ := hapart.exists_copyAll_eq hsrc (.refl _ fs₀)
  have hcopies : DoneAgain fs₀ last base fun fs => (plan.copyAll fs).2 := by
    refine (hapart.doneAgain_copyEach hsrc hwork fun names => (hmet names).mp).congr
      fun fs hbefore => ?_
    obtain ⟨met', hwalk, horder', hmet'⟩ := hapart.exists_copyAll_eq hsrc hbefore
    rw [hwalk, Node.eq_of_comesBefore horder horder' fun names =>
      (hmet' names).trans (hmet names).symm]
  have hpages : DoneAgain fs₀ last base fun fs =>
      (Migration.convertEach pipeline plan.documents (pages fs₀ plan.src) fs).2 :=
    hapart.doneAgain_convertEach hsrc hwork hreads fun _ hpage => hpage
  refine (hpages.comp hcopies).congr fun fs hbefore => ?_
  rw [hapart.pages_eq hsrc hbefore]

end Book

/-! ## The actions of a run -/

section Files

variable {fs₀ fs fs' last : FileSystem} {plan : CopyPlan} {base : List Text} {pipeline : Pipeline}

/-- **What a run leaves** that converts the pages and copies the assets and documents. -/
theorem runOn_migrateFiles (pipeline : Pipeline) {begun : FileSystem}
    (hmade : fs.createDirAll plan.documents = (.ok (), begun)) :
    ∃ report, (migrateFiles pipeline plan.src plan.documents plan.assets).runOn fs = (.ok report,
      (plan.copyAll (convertEach pipeline plan.documents (pages begun plan.src) begun).2).2) := by
  refine ⟨_, FileAction.runOn_bind_eq_ok.mpr ⟨(), begun, ?_, rfl⟩⟩
  rw [FileAction.runOn_createDirAll, hmade]
  rfl

/-- Converting and copying begins with the directory of the pages. -/
theorem exists_begun {report : Report}
    (hrun : (migrateFiles pipeline plan.src plan.documents plan.assets).runOn fs =
      (.ok report, fs')) :
    ∃ begun, fs.createDirAll plan.documents = (.ok (), begun) ∧ fs' =
      (plan.copyAll (convertEach pipeline plan.documents (pages begun plan.src) begun).2).2 := by
  obtain ⟨_, begun, hdirs, -⟩ := FileAction.runOn_bind_eq_ok.mp hrun
  have hmade := FileAction.createDirAll_eq_ok hdirs
  obtain ⟨report', hrun'⟩ := runOn_migrateFiles pipeline hmade
  rw [hrun] at hrun'
  cases hrun'
  exact ⟨begun, hmade, rfl⟩

/-- **Converting and copying** is done again. -/
theorem KeepsApart.repeats_migrateFiles (hapart : KeepsApart fs₀ plan base)
    (hsrc : fs₀.isDir plan.src = true) (hwork : fs₀.IsDirAt fs₀.workDir)
    (hreads : ReadsNothing pipeline)
    (hbefore : FileSystem.Changes (fun y _ => base <+: y) fs₀ fs) {report : Report}
    (hrun : (Migration.migrateFiles pipeline plan.src plan.documents plan.assets).runOn fs =
      (.ok report, fs')) :
    FileSystem.Changes (fun y _ => base <+: y) fs fs' ∧
      (FileSystem.Changes (fun y _ => base <+: y) fs' last → FileAction.Repeats last
        (Migration.migrateFiles pipeline plan.src plan.documents plan.assets) fs fs') := by
  obtain ⟨begun, hmade, rfl⟩ := exists_begun hrun
  have hdirs := fs.changes_createDirAll plan.documents
  rw [hmade] at hdirs
  have hbegun : FileSystem.Changes (fun y _ => base <+: y) fs begun :=
    hdirs.mono fun _ _ h => h.elim
  have hfiles : DoneAgain fs₀ last base fun fs => (plan.copyAll
      (Migration.convertEach pipeline plan.documents (pages fs plan.src) fs).2).2 :=
    hapart.doneAgain_files hsrc hwork hreads
  have hchanges := hfiles.changes begun (hbefore.trans hbegun)
  refine ⟨hbegun.trans hchanges, fun hlater now h => ?_⟩
  have hstart : fs.IsDirAt fs.workDir := hbefore.workDir ▸ hbefore.dir _ hwork
  obtain ⟨hthere, hnow⟩ := h.createDirAll hstart hmade (hchanges.trans hlater)
  obtain ⟨report', hrun'⟩ := runOn_migrateFiles pipeline hthere
  exact ⟨report', _, hrun', hfiles.again begun now (hbefore.trans hbegun) hlater hnow⟩

end Files

section Own

variable {fs fs' last : FileSystem} {file : Path} {t : Text} {L : List Text → Content → Prop}

theorem writeFile_of_writeText {activity : Activity} {u : Unit}
    (hrun : (FileAction.writeText activity file t).runOn fs = (.ok u, fs')) :
    fs.writeFile file (.text t) = .ok fs' := by
  rw [FileAction.writeText, FileAction.runOn_change] at hrun
  split at hrun
  · rename_i written hwrite
    cases hrun
    exact hwrite
  · cases hrun

theorem runOn_writeText_of_ok {activity : Activity}
    (hwrite : fs.writeFile file (.text t) = .ok fs') :
    (FileAction.writeText activity file t).runOn fs = (.ok (), fs') := by
  rw [FileAction.writeText, FileAction.runOn_change, hwrite]

/-- **A text is written** again. -/
theorem repeats_writeText {activity : Activity} {u : Unit} (hfile : NamesFile file)
    (hrun : (FileAction.writeText activity file t).runOn fs = (.ok u, fs'))
    (hlater : FileSystem.Changes L fs' last) :
    FileAction.Repeats last (FileAction.writeText activity file t) fs fs' := by
  intro now h
  obtain ⟨before, name, hsegments, hname⟩ := hfile
  obtain ⟨now', hwrite, hnow'⟩ :=
    h.writeFile hsegments hname (writeFile_of_writeText hrun) hlater
  exact ⟨(), now', runOn_writeText_of_ok hwrite, hnow'⟩

theorem namesFile_definition (docs : Path) : NamesFile (docs.join definitionPath) := by
  have hpath : definitionPath = .ofNames [".vitepress".toList, "config.mts".toList] := by decide
  rw [hpath]
  exact namesFile_join docs (by decide) (by decide)

theorem namesFile_manifest (target : Path) : NamesFile (target.join manifestPath) := by
  have hpath : manifestPath = .ofNames ["package.json".toList] := by decide
  rw [hpath]
  exact namesFile_join target (by decide) (by decide)

theorem namesFile_homePage (docs : Path) : NamesFile (docs.join homePagePath) := by
  have hpath : homePagePath = .ofNames ["index.md".toList] := by decide
  rw [hpath]
  exact namesFile_join docs (by decide) (by decide)

/-- **The definition of the site** is written again. -/
theorem repeats_writeDefinition {docs written : Path} {definition : Site.Definition}
    (hwork : fs.IsDirAt fs.workDir)
    (hrun : (writeDefinition docs definition).runOn fs = (.ok written, fs'))
    (hlater : FileSystem.Changes L fs' last) :
    FileAction.Repeats last (writeDefinition docs definition) fs fs' := by
  rw [writeDefinition_eq] at hrun ⊢
  obtain ⟨_, fs₁, hbelow, hrun⟩ := FileAction.runOn_bind_eq_ok.mp hrun
  cases hrun
  refine FileAction.Repeats.bind ?_ fun _ => .pure _ _
  unfold FileAction.writeBelow at hbelow ⊢
  split at hbelow
  · obtain ⟨_, made, hmade, hwrite⟩ := FileAction.runOn_bind_eq_ok.mp hbelow
    have hwritten := FileAction.changes_writeText (.writeFile (docs.join definitionPath))
      (docs.join definitionPath) definition.render made
    rw [hwrite] at hwritten
    have hmadeLater := (hwritten.mono fun _ _ _ => trivial).trans (hlater.mono fun _ _ _ => trivial)
    exact (FileAction.Repeats.createDirAll hwork hmade hmadeLater).bind fun _ =>
      repeats_writeText (namesFile_definition docs) hwrite hlater
  · exact repeats_writeText (namesFile_definition docs) hbelow hlater

/-- **The manifest** is written again. -/
theorem repeats_writeManifest {target written : Path} {manifest : Site.Manifest}
    (hrun : (writeManifest target manifest).runOn fs = (.ok written, fs'))
    (hlater : FileSystem.Changes L fs' last) :
    FileAction.Repeats last (writeManifest target manifest) fs fs' := by
  obtain ⟨_, fs₁, hwrite, hrun⟩ := FileAction.runOn_bind_eq_ok.mp hrun
  cases hrun
  exact (repeats_writeText (namesFile_manifest target) hwrite hlater).bind fun _ => .pure _ _

/-- **The home page** is kept, or is written again. -/
theorem repeats_writeHomePage {docs : Path} {page : Site.HomePage} {overwrite written : Bool}
    (hrun : (writeHomePage docs page overwrite).runOn fs = (.ok written, fs'))
    (hlater : FileSystem.Changes L fs' last) :
    FileAction.Repeats last (writeHomePage docs page overwrite) fs fs' := by
  refine FileAction.Repeats.get_bind fun now h => ?_
  rw [writeHomePage, FileAction.runOn_get_bind] at hrun
  split at hrun
  · rename_i hkept
    cases hrun
    obtain ⟨hthere, hover⟩ := Bool.and_eq_true_iff.mp hkept
    rw [h.changes.pathExists hthere, hover]
    exact .pure _ _
  · rename_i hwritten
    obtain ⟨_, fs₁, hwrite, hrun⟩ := FileAction.runOn_bind_eq_ok.mp hrun
    cases hrun
    split
    · -- The page was not there when the first run wrote it.
      rename_i hkept
      obtain ⟨before, name, hsegments, hname⟩ := namesFile_homePage docs
      obtain ⟨-, hover⟩ := Bool.and_eq_true_iff.mp hkept
      have hmissing : fs.pathExists (docs.join homePagePath) = false := by
        simpa [hover] using hwritten
      intro now' h'
      exact ⟨false, now', rfl, (h'.pathExists_of_writeFile hsegments hname
        (writeFile_of_writeText hwrite) hlater hmissing).2⟩
    · exact (repeats_writeText (namesFile_homePage docs) hwrite hlater).bind fun _ => .pure _ _

end Own

end Migration

end BookSite
