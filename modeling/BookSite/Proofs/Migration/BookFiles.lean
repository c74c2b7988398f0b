import BookSite.Migration.BookFiles
import BookSite.Migration.Pages
import BookSite.Migration.Run
import BookSite.Proofs.Migration.Action

/-!
# Proofs/Migration/BookFiles — the files that a book is turned into

While pages are converted and files are copied, the book itself stays as it is, as long as the
target lies apart from it.  So each file that is written comes from one file of the book:
`BookFile` says which, and every step keeps it.
-/

namespace BookSite

/-- **Places apart** from each other: neither lies below the other one. -/
structure Apart (a b : List Text) : Prop where
  left : ¬ a <+: b
  right : ¬ b <+: a

instance (a b : List Text) : Decidable (Apart a b) :=
  decidable_of_iff (¬ a <+: b ∧ ¬ b <+: a) ⟨fun h => ⟨h.1, h.2⟩, fun h => ⟨h.left, h.right⟩⟩

theorem Apart.not_prefix_append {a b : List Text} (h : Apart a b) (more : List Text) :
    ¬ b <+: a ++ more := fun hb =>
  (List.prefix_or_prefix_of_prefix hb (List.prefix_append a more)).elim h.right h.left

/-- What lies below is apart as well. -/
theorem Apart.of_prefix {a b below : List Text} (h : Apart a b) (hbelow : a <+: below) :
    Apart below b where
  left hb := h.left (hbelow.trans hb)
  right hb := by
    obtain ⟨more, rfl⟩ := hbelow
    exact h.not_prefix_append more hb

theorem Apart.below {a b : List Text} (h : Apart a b) (more : List Text) : Apart a (b ++ more) where
  left hab := (List.prefix_or_prefix_of_prefix hab (List.prefix_append b more)).elim h.left h.right
  right hba := h.right ((List.prefix_append b more).trans hba)

theorem Apart.append_left {a b : List Text} (h : Apart a b) (front : List Text) :
    Apart (front ++ a) (front ++ b) where
  left hab := h.left ((List.prefix_append_right_inj front).mp hab)
  right hba := h.right ((List.prefix_append_right_inj front).mp hba)

namespace Migration

/-- **The same files outside** of a place. -/
structure SameOutside (base : List Text) (fs fs' : FileSystem) : Prop where
  workDir : fs'.workDir = fs.workDir
  fileAt_eq : ∀ y, ¬ base <+: y → fs'.fileAt y = fs.fileAt y

/-- **Copies apart from the book.**  The names of the book are plain, and what is copied goes below
a place apart from it. -/
structure KeepsApart (fs : FileSystem) (plan : CopyPlan) (base : List Text) : Prop where
  ordered : fs.root.Ordered
  plain : fs.PlainBelow (fs.place plan.src)
  apart : Apart (fs.place plan.src) base
  assets : base <+: fs.place plan.assets
  documents : base <+: fs.place plan.documents

/-- The copies of files of a sort that are noted. -/
def CopiedFiles.ofKind (copied : CopiedFiles) : FileKind → List Path
  | .asset => copied.assets
  | .document => copied.documents
  | .markdown | .other => []

/-- **A file that a book is turned into**: a converted page, or a noted copy of an asset or
document. -/
inductive BookFile (fs : FileSystem) (base : List Text) (pipeline : Pipeline) (plan : CopyPlan)
    (copied : CopiedFiles) (y : List Text) : Content → Prop
  | page {names : List Text} {t converted : Text} {fs' : FileSystem}
      (hy : y = fs.place plan.documents ++ names) (hplain : ∀ n ∈ names, IsPlain n)
      (hkind : FileKind.classify (plan.src.joinNames names) = .markdown)
      (hread : fs.fileAt (fs.place plan.src ++ names) = some (.text t))
      (hsame : SameOutside base fs fs')
      (hconvert : pipeline.convert fs' (some (plan.src.joinNames names)) t = .ok converted) :
      BookFile fs base pipeline plan copied y (.text converted)
  | copy {names : List Text} {dir : Path} {content : Content}
      (hy : y = fs.place dir ++ names) (hplain : ∀ n ∈ names, IsPlain n)
      (hdir : plan.dirFor? (FileKind.classify (plan.src.joinNames names)) = some dir)
      (hread : fs.fileAt (fs.place plan.src ++ names) = some content)
      (hnoted : dir.join (.ofNames names) ∈
        copied.ofKind (FileKind.classify (plan.src.joinNames names))) :
      BookFile fs base pipeline plan copied y content

/-- More copies may be noted. -/
theorem BookFile.mono {fs : FileSystem} {base : List Text} {pipeline : Pipeline} {plan : CopyPlan}
    {copied copied' : CopiedFiles} {y : List Text} {content : Content}
    (h : BookFile fs base pipeline plan copied y content)
    (hcopied : ∀ kind, copied.ofKind kind ⊆ copied'.ofKind kind) :
    BookFile fs base pipeline plan copied' y content := by
  cases h with
  | page hy hplain hkind hread hsame hconvert =>
    exact .page hy hplain hkind hread hsame hconvert
  | copy hy hplain hdir hread hnoted => exact .copy hy hplain hdir hread (hcopied _ hnoted)

section Apart

variable {fs₀ fs : FileSystem} {plan : CopyPlan} {base : List Text} {pipeline : Pipeline}
  {copied : CopiedFiles} (hapart : KeepsApart fs₀ plan base)

include hapart

theorem KeepsApart.dirFor? {kind : FileKind} {dir : Path} (h : plan.dirFor? kind = some dir) :
    base <+: fs₀.place dir := by
  cases kind with
  | asset => cases h; exact hapart.assets
  | document => cases h; exact hapart.documents
  | markdown => cases h
  | other => cases h

/-- No file of the book is copied to itself. -/
theorem KeepsApart.append_ne {kind : FileKind} {dir : Path} (h : plan.dirFor? kind = some dir)
    (names : List Text) : fs₀.place dir ++ names ≠ fs₀.place plan.src ++ names := fun heq =>
  hapart.apart.not_prefix_append names
    (heq ▸ (hapart.dirFor? h).trans (List.prefix_append _ names))

/-- All files of the book go below the same place. -/
theorem BookFile.isPrefix {y : List Text} {content : Content}
    (h : BookFile fs₀ base pipeline plan copied y content) : base <+: y := by
  cases h with
  | page hy => exact hy ▸ hapart.documents.trans (List.prefix_append _ _)
  | copy hy hplain hdir => exact hy ▸ (hapart.dirFor? hdir).trans (List.prefix_append _ _)

variable (h : FileSystem.Changes (BookFile fs₀ base pipeline plan copied) fs₀ fs)

include h

/-- **Nothing changes outside.** -/
theorem KeepsApart.sameOutside : SameOutside base fs₀ fs where
  workDir := h.workDir
  fileAt_eq _ hy := h.fileAt_eq fun _ hw => hy (hw.isPrefix hapart)

/-- **The book stays** as it is. -/
theorem KeepsApart.fileAt_src (names : List Text) :
    fs.fileAt (fs₀.place plan.src ++ names) = fs₀.fileAt (fs₀.place plan.src ++ names) :=
  (hapart.sameOutside h).fileAt_eq _ (hapart.apart.not_prefix_append names)

end Apart

/-! ## Converting pages -/

section Pages

variable {fs₀ : FileSystem} {plan : CopyPlan} {base : List Text} {pipeline : Pipeline}
  {copied : CopiedFiles}

theorem convertPageTo_eq (pipeline : Pipeline) (page dest : Path) :
    convertPageTo pipeline page dest =
      FileAction.inspect (convertedPage pipeline page) >>=
        FileAction.writeBelow .createOutputDir (.writeFile dest) dest := by
  unfold FileAction.writeBelow
  refine congrArg (FileAction.inspect _ >>= ·) (funext fun converted => ?_)
  cases dest.parent? <;> rfl

/-- **Converting a page** writes the converted page, or nothing. -/
theorem changes_convertPageTo (pipeline : Pipeline) (page dest : Path) (fs : FileSystem) :
    FileSystem.Changes (fun y content => y = fs.place dest ∧
        ∃ converted, convertedPage pipeline page fs = .ok converted ∧ content = .text converted)
      fs ((convertPageTo pipeline page dest).runOn fs).2 := by
  rw [convertPageTo_eq]
  refine FileAction.keeps_bind (P := FileSystem.Changes _ fs) ?_ fun converted fs₁ hrun _ => ?_
  · rw [FileAction.runOn_inspect]
    exact .refl _ fs
  · rw [FileAction.runOn_inspect] at hrun
    obtain ⟨hconverted, rfl⟩ := Prod.mk.inj hrun
    exact (FileAction.changes_writeBelow fs).mono
      fun y content ⟨hy, hcontent⟩ => ⟨hy, converted, hconverted, hcontent⟩

theorem isSome_fileAt_of_convertPageTo {page dest : Path} {fs fs' : FileSystem}
    (h : (convertPageTo pipeline page dest).runOn fs = (.ok (), fs')) :
    (fs'.fileAt (fs.place dest)).isSome := by
  rw [convertPageTo_eq] at h
  obtain ⟨converted, fs₁, hinspect, hwrite⟩ := FileAction.runOn_bind_eq_ok.mp h
  rw [FileAction.runOn_inspect] at hinspect
  obtain ⟨-, rfl⟩ := Prod.mk.inj hinspect
  rw [FileAction.fileAt_of_writeBelow hwrite]
  rfl

/-- What is read and converted when a page is. -/
theorem exists_of_convertedPage {page : Path} {fs : FileSystem} {converted : Text}
    (h : convertedPage pipeline page fs = .ok converted) :
    ∃ t, fs.fileAt (fs.place page) = some (.text t) ∧
      pipeline.convert fs (some page) t = .ok converted := by
  unfold convertedPage at h
  split at h
  · cases h
  · rename_i t hread
    split at h
    · cases h
    · rename_i converted' hconvert
      cases h
      exact ⟨t, FileSystem.fileAt_of_get? (fs.get?_place_of_readText hread), hconvert⟩

/-- A page of the book, as it is found below its directory. -/
structure IsPage (plan : CopyPlan) (page : FileSystem.Found) : Prop where
  plain : ∀ n ∈ page.names, IsPlain n
  path : page.path = plan.src.joinNames page.names
  kind : FileKind.classify page.path = .markdown

variable (hapart : KeepsApart fs₀ plan base)

include hapart

/-- **One page more** is converted. -/
theorem KeepsApart.convertPageBelow {fs : FileSystem} {page : FileSystem.Found}
    (h : FileSystem.Changes (BookFile fs₀ base pipeline plan copied) fs₀ fs)
    (hpage : IsPage plan page) :
    let outcome := Migration.convertPageBelow pipeline plan.documents page fs
    FileSystem.Changes (BookFile fs₀ base pipeline plan copied) fs outcome.2 ∧
      ∀ dest, outcome.1.result = .ok dest →
        dest = plan.documents.join (.ofNames page.names) ∧
          (outcome.2.fileAt (fs₀.place plan.documents ++ page.names)).isSome := by
  have hplace : fs.place (plan.documents.join (.ofNames page.names)) =
      fs₀.place plan.documents ++ page.names := by
    rw [fs.place_join_ofNames _ hpage.plain, h.place_eq]
  have hsource : fs.place page.path = fs₀.place plan.src ++ page.names := by
    rw [hpage.path, fs.place_joinNames _ hpage.plain, h.place_eq]
  have hchanges := changes_convertPageTo pipeline page.path
    (plan.documents.join (.ofNames page.names)) fs
  refine ⟨hchanges.mono ?_, fun dest hdest => ?_⟩
  · rintro y content ⟨rfl, converted, hconverted, rfl⟩
    obtain ⟨t, hread, hconvert⟩ := exists_of_convertedPage hconverted
    rw [hsource, hapart.fileAt_src h] at hread
    rw [hpage.path] at hconvert
    exact .page hplace hpage.plain (hpage.path ▸ hpage.kind) hread (hapart.sameOutside h) hconvert
  · rcases hrun : (convertPageTo pipeline page.path
      (plan.documents.join (.ofNames page.names))).runOn fs with ⟨_ | _, fs'⟩
    · simp only [Migration.convertPageBelow, hrun] at hdest
      cases hdest
    · simp only [Migration.convertPageBelow, hrun] at hdest ⊢
      cases hdest
      refine ⟨rfl, ?_⟩
      rw [← hplace]
      exact isSome_fileAt_of_convertPageTo hrun

/-- **Any number of pages** is converted. -/
theorem KeepsApart.convertEach {fs : FileSystem} {pages : List FileSystem.Found}
    (h : FileSystem.Changes (BookFile fs₀ base pipeline plan copied) fs₀ fs)
    (hpages : ∀ page ∈ pages, IsPage plan page) :
    let outcomes := Migration.convertEach pipeline plan.documents pages fs
    FileSystem.Changes (BookFile fs₀ base pipeline plan copied) fs outcomes.2 ∧
      ∀ outcome ∈ outcomes.1, ∀ dest, outcome.result = .ok dest →
        ∃ page ∈ pages, dest = plan.documents.join (.ofNames page.names) ∧
          (outcomes.2.fileAt (fs₀.place plan.documents ++ page.names)).isSome := by
  induction pages generalizing fs with
  | nil => exact ⟨.refl _ fs, fun _ h => by cases h⟩
  | cons page rest ih =>
    obtain ⟨hpage, hrest⟩ := List.forall_mem_cons.mp hpages
    obtain ⟨hchanges, hwritten⟩ := hapart.convertPageBelow h hpage
    obtain ⟨hlater, hothers⟩ := ih (h.trans hchanges) hrest
    refine ⟨hchanges.trans hlater, fun outcome houtcome dest hdest => ?_⟩
    rcases List.mem_cons.mp houtcome with rfl | houtcome
    · obtain ⟨heq, hsome⟩ := hwritten dest hdest
      exact ⟨page, List.mem_cons_self, heq, hlater.isSome_fileAt hsome⟩
    · obtain ⟨page', hpage', heq, hsome⟩ := hothers outcome houtcome dest hdest
      exact ⟨page', List.mem_cons_of_mem _ hpage', heq, hsome⟩

/-- The pages of the book are pages. -/
theorem KeepsApart.isPage {fs : FileSystem}
    (h : FileSystem.Changes (BookFile fs₀ base pipeline plan copied) fs₀ fs) :
    ∀ page ∈ pages fs plan.src, IsPage plan page := by
  intro page hpage
  obtain ⟨hmarkdown, -⟩ := List.mem_filter.mp hpage
  obtain ⟨hfound, hkind⟩ := List.mem_filter.mp hmarkdown
  obtain ⟨hpath, hfile⟩ := FileSystem.fileAt_of_mem_allFiles (h.ordered hapart.ordered) hfound
  rw [h.place_eq] at hfile
  exact ⟨hapart.plain.later h _ (FileSystem.has_iff.mpr (.inl (by rw [hfile]; rfl))), hpath,
    by simpa using hkind⟩

/-- **The pages of the book** are converted; each page that is reported so is there. -/
theorem KeepsApart.convertPages {fs : FileSystem}
    (h : FileSystem.Changes (BookFile fs₀ base pipeline plan copied) fs₀ fs) :
    let conversion := Migration.convertPages pipeline plan.src plan.documents fs
    FileSystem.Changes (BookFile fs₀ base pipeline plan copied) fs conversion.2 ∧
      ∀ dest ∈ conversion.1.converted, ∃ names, (∀ n ∈ names, IsPlain n) ∧
        dest = plan.documents.join (.ofNames names) ∧
        (conversion.2.fileAt (fs₀.place plan.documents ++ names)).isSome := by
  have hpages := hapart.isPage h
  obtain ⟨hchanges, hwritten⟩ := hapart.convertEach h hpages
  refine ⟨hchanges, fun dest hdest => ?_⟩
  have hreported := List.mem_mergeSort.mp hdest
  obtain ⟨outcome, houtcome, hresult⟩ := List.mem_filterMap.mp hreported
  obtain ⟨page, hpage, heq, hsome⟩ := hwritten outcome houtcome dest (by
    cases hok : outcome.result with
    | error e => rw [hok] at hresult; cases hresult
    | ok dest' => rw [hok] at hresult; cases hresult; rfl)
  exact ⟨page.names, (hpages page hpage).plain, heq, hsome⟩

end Pages

/-! ## Copying assets and documents -/

/-- Create the directories that are missing above a path. -/
def makeAbove (dest : Path) (fs : FileSystem) : Except FileError Unit × FileSystem :=
  match dest.parent? with
  | some dir => fs.createDirAll dir
  | none => (.ok (), fs)

theorem changes_makeAbove (dest : Path) (fs : FileSystem) :
    FileSystem.Changes (fun _ _ => False) fs (makeAbove dest fs).2 := by
  unfold makeAbove
  split
  · exact fs.changes_createDirAll _
  · exact .refl _ fs

theorem copyTo_eq (source dest : Path) (fs : FileSystem) :
    copyTo source dest fs =
      match makeAbove dest fs with
      | (.error _, made) => (false, made)
      | (.ok (), made) =>
        match made.copyFile source dest with
        | .error _ => (false, made)
        | .ok copied => (true, copied) := by
  unfold copyTo makeAbove
  cases dest.parent? with
  | none => rfl
  | some dir =>
    simp only
    rcases fs.createDirAll dir with ⟨_ | _, made⟩ <;> rfl

/-- **Copying a file** writes the copy when it succeeds, and no file when it fails. -/
theorem changes_copyTo (source dest : Path) (fs : FileSystem) :
    ((copyTo source dest fs).1 = false ∧
      FileSystem.Changes (fun _ _ => False) fs (copyTo source dest fs).2) ∨
    ((copyTo source dest fs).1 = true ∧ ∃ content,
      fs.fileAt (fs.place source) = some content ∧
      FileSystem.Changes (fun y c => y = fs.place dest ∧
        (fs.place dest ≠ fs.place source → c = content)) fs (copyTo source dest fs).2 ∧
      ∃ copy, (copyTo source dest fs).2.fileAt (fs.place dest) = some copy ∧
        (fs.place dest ≠ fs.place source → copy = content)) := by
  rw [copyTo_eq]
  have hdirs := changes_makeAbove dest fs
  generalize makeAbove dest fs = outcome at hdirs ⊢
  rcases outcome with ⟨_ | _, made⟩
  · exact .inl ⟨rfl, hdirs⟩
  · simp only at hdirs ⊢
    split
    · exact .inl ⟨rfl, hdirs⟩
    · rename_i copied hcopied
      obtain ⟨content, hcontent, hchanges, hcopy⟩ := FileSystem.changes_copyFile hcopied
      rw [hdirs.fileAt_eq fun _ h => h, hdirs.place_eq] at hcontent
      rw [hdirs.place_eq, hdirs.place_eq] at hchanges hcopy
      exact .inr ⟨rfl, content, hcontent, (hdirs.mono fun _ _ h => h.elim).trans hchanges, hcopy⟩

section CopyMet

variable {plan : CopyPlan} {names : List Text} {state : CopiedFiles × FileSystem}

/-- A file that belongs nowhere is passed over. -/
theorem copyMet_of_eq_none
    (h : plan.dirFor? (FileKind.classify (plan.src.joinNames names)) = none) :
    plan.copyMet names state = state := by
  unfold CopyPlan.copyMet
  simp only [h]

/-- **Any other file** is copied to its directory, and noted if this succeeds. -/
theorem copyMet_of_eq_some {dir : Path}
    (h : plan.dirFor? (FileKind.classify (plan.src.joinNames names)) = some dir) :
    plan.copyMet names state =
      (if (copyTo (plan.src.joinNames names) (dir.join (.ofNames names)) state.2).1 then
          CopyPlan.note (FileKind.classify (plan.src.joinNames names)) (dir.join (.ofNames names))
            state.1
        else state.1,
      (copyTo (plan.src.joinNames names) (dir.join (.ofNames names)) state.2).2) := by
  unfold CopyPlan.copyMet
  simp only [h]
  rcases copyTo (plan.src.joinNames names) (dir.join (.ofNames names)) state.2 with ⟨_ | _, fs⟩ <;>
    rfl

end CopyMet

/-- **The copies that are noted** are there. -/
def AreCopied (fs₀ : FileSystem) (plan : CopyPlan) (copied : CopiedFiles) (fs : FileSystem) :
    Prop :=
  ∀ kind dir, plan.dirFor? kind = some dir → ∀ dest ∈ copied.ofKind kind,
    ∃ names, (∀ n ∈ names, IsPlain n) ∧ dest = dir.join (.ofNames names) ∧
      (fs.fileAt (fs₀.place dir ++ names)).isSome

section Copies

variable {fs₀ : FileSystem} {plan : CopyPlan} {base : List Text} {pipeline : Pipeline}

theorem AreCopied.later {copied : CopiedFiles} {fs fs' : FileSystem}
    {W : List Text → Content → Prop} (h : AreCopied fs₀ plan copied fs)
    (hchanges : FileSystem.Changes W fs fs') : AreCopied fs₀ plan copied fs' :=
  fun kind dir hdir dest hdest => (h kind dir hdir dest hdest).imp fun _ ⟨hplain, heq, hsome⟩ =>
    ⟨hplain, heq, hchanges.isSome_fileAt hsome⟩

/-- One copy more is noted with those of its sort. -/
theorem ofKind_note (copied : CopiedFiles) (dest : Path) {noted : FileKind} {dir : Path}
    (hdir : plan.dirFor? noted = some dir) (kind : FileKind) :
    (CopyPlan.note noted dest copied).ofKind kind =
      copied.ofKind kind ++ if kind = noted then [dest] else [] := by
  cases noted with
  | asset => cases kind <;> simp [CopyPlan.note, CopiedFiles.ofKind]
  | document => cases kind <;> simp [CopyPlan.note, CopiedFiles.ofKind]
  | markdown => cases hdir
  | other => cases hdir

theorem AreCopied.note {copied : CopiedFiles} {fs : FileSystem} (h : AreCopied fs₀ plan copied fs)
    {noted : FileKind} {dir : Path} (hdir : plan.dirFor? noted = some dir) {names : List Text}
    (hplain : ∀ n ∈ names, IsPlain n) (hsome : (fs.fileAt (fs₀.place dir ++ names)).isSome) :
    AreCopied fs₀ plan (CopyPlan.note noted (dir.join (.ofNames names)) copied) fs := by
  intro kind dir' hdir' dest hdest
  rw [ofKind_note copied _ hdir, List.mem_append] at hdest
  rcases hdest with hdest | hdest
  · exact h kind dir' hdir' dest hdest
  · split at hdest
    · rename_i hkind
      rw [hkind, hdir] at hdir'
      cases hdir'
      exact ⟨names, hplain, List.mem_singleton.mp hdest, hsome⟩
    · cases hdest

/-- **What holds along a walk** that begins with `start`: only files of the book are written, and
the copies that are noted are there. -/
structure WalkState (fs₀ start : FileSystem) (base : List Text) (pipeline : Pipeline)
    (plan : CopyPlan) (state : CopiedFiles × FileSystem) : Prop where
  begun : FileSystem.Changes (BookFile fs₀ base pipeline plan {}) fs₀ start
  since : FileSystem.Changes (BookFile fs₀ base pipeline plan state.1) start state.2
  copied : AreCopied fs₀ plan state.1 state.2

theorem WalkState.changes {start : FileSystem} {state : CopiedFiles × FileSystem}
    (h : WalkState fs₀ start base pipeline plan state) :
    FileSystem.Changes (BookFile fs₀ base pipeline plan state.1) fs₀ state.2 :=
  (h.begun.mono fun _ _ hw => hw.mono fun kind => by cases kind <;> simp [CopiedFiles.ofKind]).trans
    h.since

variable {start : FileSystem} (hapart : KeepsApart fs₀ plan base)

include hapart

/-- **One file more** is copied, or passed over. -/
theorem KeepsApart.copyMet {state : CopiedFiles × FileSystem}
    (h : WalkState fs₀ start base pipeline plan state) {names : List Text}
    (hplain : ∀ n ∈ names, IsPlain n) :
    WalkState fs₀ start base pipeline plan (plan.copyMet names state) := by
  rcases hdir : plan.dirFor? (FileKind.classify (plan.src.joinNames names)) with _ | dir
  · rw [copyMet_of_eq_none hdir]
    exact h
  rw [copyMet_of_eq_some hdir]
  have hcopy := changes_copyTo (plan.src.joinNames names) (dir.join (.ofNames names)) state.2
  rw [state.2.place_joinNames _ hplain, state.2.place_join_ofNames _ hplain, h.changes.place_eq,
    h.changes.place_eq] at hcopy
  generalize copyTo (plan.src.joinNames names) (dir.join (.ofNames names)) state.2 = outcome
    at hcopy ⊢
  obtain ⟨ok, fs'⟩ := outcome
  obtain ⟨rfl, hchanges⟩ | ⟨rfl, content, hcontent, hchanges, copy, hcopy, -⟩ := hcopy
  · exact ⟨h.begun, h.since.trans (hchanges.mono fun _ _ h => h.elim), h.copied.later hchanges⟩
  · have hsome : (fs'.fileAt (fs₀.place dir ++ names)).isSome := by
      rw [hcopy]
      rfl
    rw [hapart.fileAt_src h.changes] at hcontent
    refine ⟨h.begun, ?_, (h.copied.later hchanges).note hdir hplain hsome⟩
    have hmore : ∀ kind, state.1.ofKind kind ⊆ (CopyPlan.note
        (FileKind.classify (plan.src.joinNames names)) (dir.join (.ofNames names))
        state.1).ofKind kind := fun kind => by
      rw [ofKind_note _ _ hdir]
      exact List.subset_append_left _ _
    refine (h.since.mono fun _ _ hw => hw.mono hmore).trans (hchanges.mono ?_)
    rintro y c ⟨rfl, hc⟩
    rw [hc (hapart.append_ne hdir names)]
    refine .copy rfl hplain hdir hcontent ?_
    rw [ofKind_note _ _ hdir, if_pos rfl]
    exact List.mem_append_right _ (List.mem_singleton_self _)

/-- **A walk keeps it**, however deep it goes. -/
theorem KeepsApart.walk (depth : Nat) {state : CopiedFiles × FileSystem}
    (h : WalkState fs₀ start base pipeline plan state) {names : List Text}
    (hplain : ∀ n ∈ names, IsPlain n) :
    WalkState fs₀ start base pipeline plan (plan.walk depth names state) := by
  induction depth generalizing state names with
  | zero => exact h
  | succ depth ih =>
    rw [CopyPlan.walk]
    split
    · exact h
    · exact hapart.copyMet h hplain
    · rename_i entries hnode
      have hplace := state.2.get?_place_of_node hnode
      rw [state.2.place_joinNames _ hplain, h.changes.place_eq] at hplace
      refine List.foldlRecOn (motive := WalkState fs₀ start base pipeline plan) entries _ h ?_
      rintro later hlater ⟨name, node⟩ hmem
      have hlookup : (entries.lookup name).isSome :=
        List.lookup_isSome_iff.mpr ⟨(name, node), hmem, by simp⟩
      have hhas : state.2.Has (fs₀.place plan.src ++ (names ++ [name])) := by
        rwa [FileSystem.Has, ← List.append_assoc, Node.get?_concat hplace]
      exact ih hlater (hapart.plain.later h.changes _ hhas)

end Copies

/-! ## All files of a book -/

/-- The copies that a report lists. -/
def Report.copied (report : Report) : CopiedFiles := ⟨report.assets, report.documents⟩

/-- **What a report says is there.** -/
structure AreReported (fs₀ : FileSystem) (plan : CopyPlan) (report : Report)
    (fs : FileSystem) : Prop where
  converted : ∀ dest ∈ report.converted, ∃ names, (∀ n ∈ names, IsPlain n) ∧
    dest = plan.documents.join (.ofNames names) ∧
    (fs.fileAt (fs₀.place plan.documents ++ names)).isSome
  copied : AreCopied fs₀ plan report.copied fs

theorem AreReported.later {fs₀ fs fs' : FileSystem} {plan : CopyPlan} {report : Report}
    {W : List Text → Content → Prop} (h : AreReported fs₀ plan report fs)
    (hchanges : FileSystem.Changes W fs fs') : AreReported fs₀ plan report fs' where
  converted dest hdest := (h.converted dest hdest).imp fun _ ⟨hplain, heq, hsome⟩ =>
    ⟨hplain, heq, hchanges.isSome_fileAt hsome⟩
  copied := h.copied.later hchanges

/-- **The files of a book are converted and copied**: what is written comes from the book, and what
is reported is there. -/
theorem KeepsApart.migrateFiles {fs₀ fs fs' : FileSystem} {base : List Text} {pipeline : Pipeline}
    {plan : CopyPlan} (hapart : KeepsApart fs₀ plan base)
    (h : FileSystem.Changes (BookFile fs₀ base pipeline plan {}) fs₀ fs) {report : Report}
    (hrun : (Migration.migrateFiles pipeline plan.src plan.documents plan.assets).runOn fs =
      (.ok report, fs')) :
    FileSystem.Changes (BookFile fs₀ base pipeline plan report.copied) fs₀ fs' ∧
      AreReported fs₀ plan report fs' := by
  obtain ⟨_, fs₁, hdirs, hrun⟩ := FileAction.runOn_bind_eq_ok.mp hrun
  have hfs₁ := FileAction.changes_createDirAll (.createDir plan.documents) plan.documents fs
  rw [hdirs] at hfs₁
  have hstart := h.trans (hfs₁.mono fun _ _ h => h.elim)
  obtain ⟨hpages, hconverted⟩ := hapart.convertPages hstart
  rw [FileAction.runOn_get_bind] at hrun
  have hnone : AreCopied fs₀ plan {}
      (Migration.convertPages pipeline plan.src plan.documents fs₁).2 :=
    fun kind _ _ dest hdest => by cases kind <;> cases hdest
  have hwalk : WalkState fs₀ (Migration.convertPages pipeline plan.src plan.documents fs₁).2 base
      pipeline plan
      (plan.copyAll (Migration.convertPages pipeline plan.src plan.documents fs₁).2) :=
    hapart.walk _ ⟨hstart.trans hpages, .refl _ _, hnone⟩ (by simp)
  cases hrun
  refine ⟨hwalk.changes, fun dest hdest => ?_, hwalk.copied⟩
  obtain ⟨names, hplain, heq, hsome⟩ := hconverted dest hdest
  exact ⟨names, hplain, heq, hwalk.since.isSome_fileAt hsome⟩

end Migration

end BookSite
