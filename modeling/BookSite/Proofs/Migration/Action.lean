import BookSite.Migration.FileAction
import BookSite.Proofs.Files.Change

/-!
# Proofs/Migration/Action — taking a run apart

A run that succeeds is a run of its first step that succeeds, and then one of the others on the
files that the first step left behind.  What every step keeps is kept by the run, even if it fails.
-/

namespace BookSite.FileAction

variable {α β : Type}

@[simp] theorem runOn_get (fs : FileSystem) :
    (get : FileAction FileSystem).runOn fs = (.ok fs, fs) := rfl

/-- A run without failure has a result. -/
theorem exists_runOn_eq_ok {action : FileAction α} {fs : FileSystem}
    (h : (action.runOn fs).1.isOk = true) :
    ∃ a, action.runOn fs = (.ok a, (action.runOn fs).2) := by
  rcases hrun : action.runOn fs with ⟨_ | a, fs'⟩
  · rw [hrun] at h
    cases h
  · exact ⟨a, rfl⟩

/-- A step that fails ends the run. -/
theorem runOn_bind (action : FileAction α) (next : α → FileAction β) (fs : FileSystem) :
    (action >>= next).runOn fs =
      match action.runOn fs with
      | (.ok a, fs') => (next a).runOn fs'
      | (.error e, fs') => (.error e, fs') := by
  change ExceptT.bindCont next (action.runOn fs).1 (action.runOn fs).2 = _
  rcases action.runOn fs with ⟨_ | _, _⟩ <;> rfl

/-- Looking at the files and going on is going on with the files. -/
theorem runOn_get_bind (next : FileSystem → FileAction α) (fs : FileSystem) :
    (get >>= next).runOn fs = (next fs).runOn fs := by rw [runOn_bind, runOn_get]

/-- **A run of two steps succeeds** when both do. -/
theorem runOn_bind_eq_ok {action : FileAction α} {next : α → FileAction β} {fs fs' : FileSystem}
    {b : β} :
    (action >>= next).runOn fs = (.ok b, fs') ↔
      ∃ a fs₁, action.runOn fs = (.ok a, fs₁) ∧ (next a).runOn fs₁ = (.ok b, fs') := by
  rw [runOn_bind]
  constructor
  · intro h
    split at h
    · next a fs₁ hfirst => exact ⟨a, fs₁, hfirst, h⟩
    · cases h
  · rintro ⟨a, fs₁, hfirst, h⟩
    rw [hfirst]
    exact h

/-- **What both steps keep** is kept by a run of the two, whether it succeeds or not. -/
theorem keeps_bind {action : FileAction α} {next : α → FileAction β} {fs : FileSystem}
    {P : FileSystem → Prop} (hfirst : P (action.runOn fs).2)
    (hnext : ∀ a fs₁, action.runOn fs = (.ok a, fs₁) → P fs₁ → P ((next a).runOn fs₁).2) :
    P ((action >>= next).runOn fs).2 := by
  rw [runOn_bind]
  rcases hrun : action.runOn fs with ⟨e | a, fs₁⟩
  · rw [hrun] at hfirst
    exact hfirst
  · rw [hrun] at hfirst
    exact hnext a fs₁ hrun hfirst

/-! ## Single steps -/

theorem runOn_inspect (look : FileSystem → Except Failure α) (fs : FileSystem) :
    (inspect look).runOn fs = (look fs, fs) := by
  rw [inspect, runOn_get_bind]
  cases look fs <;> rfl

theorem runOn_change (activity : Activity) (operation : FileSystem → Except FileError FileSystem)
    (fs : FileSystem) :
    (change activity operation).runOn fs =
      match operation fs with
      | .ok fs' => (.ok (), fs')
      | .error e => (.error (.during activity (.file e)), fs) := by
  rw [change, runOn_get_bind]
  cases operation fs <;> rfl

theorem runOn_createDirAll (activity : Activity) (dir : Path) (fs : FileSystem) :
    (createDirAll activity dir).runOn fs =
      ((fs.createDirAll dir).1.mapError fun e => .during activity (.file e),
        (fs.createDirAll dir).2) := by
  rw [createDirAll, runOn_get_bind]
  rcases fs.createDirAll dir with ⟨_ | _, fs'⟩ <;> rfl

theorem createDirAll_eq_ok {activity : Activity} {dir : Path} {fs fs' : FileSystem}
    (h : (createDirAll activity dir).runOn fs = (.ok (), fs')) :
    fs.createDirAll dir = (.ok (), fs') := by
  rw [runOn_createDirAll] at h
  rcases hmade : fs.createDirAll dir with ⟨e | _, made⟩
  · rw [hmade] at h
    cases h
  · rw [hmade] at h
    cases h
    rfl

/-- Creating directories writes no file. -/
theorem changes_createDirAll (activity : Activity) (dir : Path) (fs : FileSystem) :
    FileSystem.Changes (fun _ _ => False) fs ((createDirAll activity dir).runOn fs).2 := by
  rw [runOn_createDirAll]
  exact fs.changes_createDirAll dir

/-- **Writing a text** writes one file, or nothing when it fails. -/
theorem changes_writeText (activity : Activity) (file : Path) (t : Text) (fs : FileSystem) :
    FileSystem.Changes (fun y content => y = fs.place file ∧ content = .text t) fs
      ((writeText activity file t).runOn fs).2 := by
  rw [writeText, runOn_change]
  split
  · rename_i fs' hwrite
    exact (FileSystem.changes_writeFile hwrite).1
  · exact .refl _ fs

/-- A text that is written is there. -/
theorem fileAt_of_writeText {activity : Activity} {file : Path} {t : Text} {fs fs' : FileSystem}
    (h : (writeText activity file t).runOn fs = (.ok (), fs')) :
    fs'.fileAt (fs.place file) = some (.text t) := by
  rw [writeText, runOn_change] at h
  split at h
  · rename_i written hwrite
    cases h
    exact (FileSystem.changes_writeFile hwrite).2
  · cases h

/-! ## Loops -/

/-- A step for each element that is chosen. -/
def forChosen (xs : List α) (chosen : α → Bool) (step : α → FileAction Unit) : FileAction PUnit :=
  forIn xs ⟨⟩ fun x _ =>
    if chosen x = true then do
      step x
      pure (.yield ⟨⟩)
    else pure (.yield ⟨⟩)

section Loops

variable {xs : List α} {chosen : α → Bool} {step : α → FileAction Unit}

theorem forChosen_nil : forChosen [] chosen step = pure ⟨⟩ := List.forIn_nil

theorem forChosen_cons (x : α) :
    forChosen (x :: xs) chosen step =
      (if chosen x = true then step x else pure ()) >>= fun _ => forChosen xs chosen step := by
  rw [forChosen, List.forIn_cons]
  split
  · rw [bind_assoc]
    rfl
  · rfl

/-- **What every step keeps** is kept by a loop that succeeds. -/
theorem keeps_forChosen {P : FileSystem → Prop} {fs fs' : FileSystem} {u : PUnit} (hstart : P fs)
    (hstep : ∀ x ∈ xs, chosen x = true → ∀ before after done, P before →
      (step x).runOn before = (.ok done, after) → P after)
    (h : (forChosen xs chosen step).runOn fs = (.ok u, fs')) : P fs' := by
  induction xs generalizing fs with
  | nil =>
    rw [forChosen_nil] at h
    cases h
    exact hstart
  | cons x xs ih =>
    rw [forChosen_cons] at h
    obtain ⟨done, fs₁, hfirst, hrest⟩ := runOn_bind_eq_ok.mp h
    obtain ⟨hx, hxs⟩ := List.forall_mem_cons.mp hstep
    refine ih ?_ hxs hrest
    split at hfirst
    · rename_i hchosen
      exact hx hchosen fs fs₁ done hstart hfirst
    · cases hfirst
      exact hstart

/-- **A loop that succeeds** has taken a step for each element chosen.  What the steps keep holds
all along, and what a step has brought about is not undone by later ones. -/
theorem forChosen_runOn {W : List Text → Content → Prop} {fs₀ fs fs' : FileSystem}
    {Q : α → FileSystem → Prop} {u : PUnit} (hstart : FileSystem.Changes W fs₀ fs)
    (hstep : ∀ x ∈ xs, chosen x = true → ∀ before after done, FileSystem.Changes W fs₀ before →
      (step x).runOn before = (.ok done, after) → FileSystem.Changes W before after ∧ Q x after)
    (hlater : ∀ x before after, Q x before → FileSystem.Changes W before after → Q x after)
    (h : (forChosen xs chosen step).runOn fs = (.ok u, fs')) :
    FileSystem.Changes W fs fs' ∧ ∀ x ∈ xs, chosen x = true → Q x fs' := by
  induction xs generalizing fs with
  | nil =>
    rw [forChosen_nil] at h
    cases h
    exact ⟨.refl _ _, fun _ h => by cases h⟩
  | cons x xs ih =>
    rw [forChosen_cons] at h
    obtain ⟨done, fs₁, hfirst, hrest⟩ := runOn_bind_eq_ok.mp h
    obtain ⟨hx, hxs⟩ := List.forall_mem_cons.mp hstep
    have hdone : FileSystem.Changes W fs fs₁ ∧ (chosen x = true → Q x fs₁) := by
      split at hfirst
      · rename_i hchosen
        obtain ⟨hchanges, hq⟩ := hx hchosen fs fs₁ done hstart hfirst
        exact ⟨hchanges, fun _ => hq⟩
      · rename_i hpassed
        cases hfirst
        exact ⟨.refl _ _, fun hchosen => absurd hchosen hpassed⟩
    obtain ⟨hchanges, hq⟩ := hdone
    obtain ⟨hothers, hall⟩ := ih (hstart.trans hchanges) hxs hrest
    exact ⟨hchanges.trans hothers, List.forall_mem_cons.mpr
      ⟨fun hchosen => hlater x fs₁ fs' (hq hchosen) hothers, hall⟩⟩

end Loops

/-! ## Files with their directories -/

/-- Write a text to a file and create the directories that are missing above it. -/
def writeBelow (mkdir : Path → Activity) (activity : Activity) (file : Path) (t : Text) :
    FileAction Unit :=
  match file.parent? with
  | some dir => do
    createDirAll (mkdir dir) dir
    writeText activity file t
  | none => writeText activity file t

section WriteBelow

variable {mkdir : Path → Activity} {activity : Activity} {file : Path} {t : Text}

/-- **Directories are no matter** to which files are written. -/
theorem changes_writeBelow (fs : FileSystem) :
    FileSystem.Changes (fun y content => y = fs.place file ∧ content = .text t) fs
      ((writeBelow mkdir activity file t).runOn fs).2 := by
  unfold writeBelow
  split
  · rename_i dir hdir
    have hdirs : FileSystem.Changes (fun y content => y = fs.place file ∧ content = .text t) fs
        ((createDirAll (mkdir dir) dir).runOn fs).2 :=
      (changes_createDirAll (mkdir dir) dir fs).mono fun _ _ h => h.elim
    refine keeps_bind (P := FileSystem.Changes _ fs) hdirs fun _ fs₁ _ hfs₁ => hfs₁.trans ?_
    have hwrite := changes_writeText activity file t fs₁
    rwa [hfs₁.place_eq] at hwrite
  · exact changes_writeText activity file t fs

theorem fileAt_of_writeBelow {fs fs' : FileSystem}
    (h : (writeBelow mkdir activity file t).runOn fs = (.ok (), fs')) :
    fs'.fileAt (fs.place file) = some (.text t) := by
  unfold writeBelow at h
  split at h
  · rename_i dir hdir
    obtain ⟨_, fs₁, hdirs, hwrite⟩ := runOn_bind_eq_ok.mp h
    have hfs₁ := changes_createDirAll (mkdir dir) dir fs
    rw [hdirs] at hfs₁
    rw [← hfs₁.place_eq]
    exact fileAt_of_writeText hwrite
  · exact fileAt_of_writeText h

end WriteBelow

end BookSite.FileAction
