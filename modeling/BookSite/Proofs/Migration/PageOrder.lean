import BookSite.Proofs.Files.PathOrder
import BookSite.Proofs.Files.Reading
import BookSite.Proofs.Markdown.Include.ReadPaths
import BookSite.Proofs.Migration.Deposit
import BookSite.Proofs.Migration.Turns

/-!
# Proofs/Migration/PageOrder — pages may be converted in any order

A page is converted from what is read, and put to a place of its own.  If nothing that is read lies
where pages are put, each page meets what it would meet alone, so its turn does not matter, nor
which worker takes it (`conversion_in_any_order`).
-/

namespace BookSite.Migration

/-! ## What is read -/

/-- **A path that avoids an output directory**: it passes neither through the directory nor through
one that is missing on the way to it. -/
def Avoids (fs : FileSystem) (out p : Path) : Prop :=
  ∀ y ∈ passed (fs.origin p) p.segments, ¬ fs.place out <+: y ∧
    (y ∈ entered (fs.origin out) out.segments → fs.Has y)

instance (fs : FileSystem) (out p : Path) : Decidable (Avoids fs out p) :=
  inferInstanceAs (Decidable (∀ y ∈ passed (fs.origin p) p.segments, ¬ fs.place out <+: y ∧
    (y ∈ entered (fs.origin out) out.segments → (fs.root.get? y).isSome)))

/-- The paths that are read for the includes of a page. -/
def includePaths (fs : FileSystem) (pipeline : Pipeline) (page : FileSystem.Found) : List Path :=
  match fs.readText page.path with
  | .ok t => pipeline.readPaths fs (some page.path) t
  | .error _ => []

/-- **Pages apart from their output**: the book lies apart from it, and what is included avoids
it. -/
structure ReadsApart (fs : FileSystem) (pipeline : Pipeline) (src out : Path) : Prop where
  ordered : fs.root.Ordered
  plain : fs.PlainBelow (fs.place src)
  apart : Apart (fs.place src) (fs.place out)
  includes : ∀ page ∈ pages fs src, ∀ p ∈ includePaths fs pipeline page, Avoids fs out p

/-- **The same beside an output directory**: what is new lies in the directory, or was missing on
the way to it. -/
structure SameBeside (fs : FileSystem) (out : Path) (fs' : FileSystem) : Prop where
  workDir : fs'.workDir = fs.workDir
  dir : ∀ y, fs.IsDirAt y → fs'.IsDirAt y
  agreeAt : ∀ y, ¬ fs.place out <+: y →
    (y ∈ entered (fs.origin out) out.segments → fs.Has y) → FileSystem.AgreeAt fs fs' y

/-! ## What is put where -/

/-- What a page is converted to, and where it goes. -/
def conversion? (pipeline : Pipeline) (out : Path) (fs : FileSystem) (page : FileSystem.Found) :
    Option (Path × Content) :=
  match convertedPage pipeline page.path fs with
  | .ok t => some (pageDest out page, .text t)
  | .error _ => none

/-- **What several pages are converted to.** -/
def conversions (pipeline : Pipeline) (out : Path) (fs : FileSystem)
    (pages : List FileSystem.Found) : List (Path × Content) :=
  pages.filterMap (conversion? pipeline out fs)

section Conversions

variable {fs : FileSystem} {pipeline : Pipeline} {out : Path} {page : FileSystem.Found}

theorem conversions_concat_of_ok {t : Text} (h : convertedPage pipeline page.path fs = .ok t)
    (done : List FileSystem.Found) :
    conversions pipeline out fs (done ++ [page]) =
      conversions pipeline out fs done ++ [(pageDest out page, .text t)] := by
  have hpage : conversion? pipeline out fs page = some (pageDest out page, .text t) := by
    rw [conversion?, h]
  rw [conversions, List.filterMap_append, List.filterMap_cons_some hpage, List.filterMap_nil]
  rfl

theorem conversions_concat_of_error {e : Failure}
    (h : convertedPage pipeline page.path fs = .error e) (done : List FileSystem.Found) :
    conversions pipeline out fs (done ++ [page]) = conversions pipeline out fs done := by
  have hpage : conversion? pipeline out fs page = none := by rw [conversion?, h]
  rw [conversions, List.filterMap_append, List.filterMap_cons_none hpage, List.filterMap_nil,
    List.append_nil]
  rfl

/-- What is put comes from a page. -/
theorem exists_of_mem_conversions {pages : List FileSystem.Found} {file : Path × Content}
    (h : file ∈ conversions pipeline out fs pages) :
    ∃ page ∈ pages, file.1 = pageDest out page := by
  obtain ⟨page, hpage, hmade⟩ := List.mem_filterMap.mp h
  refine ⟨page, hpage, ?_⟩
  rw [conversion?] at hmade
  split at hmade
  · cases hmade
    rfl
  · cases hmade

end Conversions

/-- What a report shows of an outcome. -/
def PageOutcome.shown (outcome : PageOutcome) : Path × Option Path :=
  (outcome.page, outcome.result.toOption)

/-- **A report shows no more** of the outcomes. -/
theorem ofOutcomes_eq (outcomes : List PageOutcome) : ConversionReport.ofOutcomes outcomes =
    { converted := ((outcomes.map PageOutcome.shown).filterMap Prod.snd).mergeSort Path.le
      failed := (outcomes.map PageOutcome.shown).filterMap fun shown =>
        if shown.2.isSome then none else some shown.1 } := by
  rw [ConversionReport.ofOutcomes, List.filterMap_map, List.filterMap_map]
  congr 1
  refine List.filterMap_congr fun outcome _ => ?_
  rcases hresult : outcome.result <;>
    simp [PageOutcome.shown, hresult, Except.isOk, Except.toBool, Except.toOption]

/-- The pages that failed stand in the order of the outcomes. -/
theorem failed_sublist (outcomes : List PageOutcome) :
    (ConversionReport.ofOutcomes outcomes).failed.Sublist (outcomes.map PageOutcome.page) := by
  induction outcomes with
  | nil => exact List.Sublist.refl _
  | cons outcome outcomes ih =>
    change (List.filterMap (fun o : PageOutcome => if o.result.isOk then none else some o.page)
      (outcome :: outcomes)).Sublist (outcome.page :: outcomes.map PageOutcome.page)
    rcases hok : outcome.result.isOk
    · rw [List.filterMap_cons_some (by rw [hok]; rfl)]
      exact ih.cons_cons _
    · rw [List.filterMap_cons_none (by rw [hok]; rfl)]
      exact ih.cons _

theorem page_convertEach {pipeline : Pipeline} {out : Path} (pages : List FileSystem.Found)
    (fs : FileSystem) :
    (convertEach pipeline out pages fs).1.map PageOutcome.page =
      pages.map FileSystem.Found.path := by
  induction pages generalizing fs with
  | nil => rfl
  | cons page pages ih =>
    rw [convertEach_cons, List.map_cons, List.map_cons, ih]
    rfl

section Book

variable {fs : FileSystem} {pipeline : Pipeline} {src out : Path}
  (h : ReadsApart fs pipeline src out) (hsrc : fs.isDir src = true)

include h hsrc

theorem ReadsApart.plain_of_mem {page : FileSystem.Found} (hpage : page ∈ pages fs src) :
    (∀ n ∈ page.names, IsPlain n) ∧ page.names ≠ [] := by
  obtain ⟨-, hfile, -⟩ := (mem_pages_iff h.ordered hsrc).mp hpage
  exact h.plain.names_plain hsrc (by rw [hfile]; rfl)

theorem ReadsApart.place_pageDest {page : FileSystem.Found} (hpage : page ∈ pages fs src) :
    fs.place (pageDest out page) = fs.place out ++ page.names :=
  fs.place_join_ofNames _ (h.plain_of_mem hsrc hpage).1

/-- **Different pages** are put independently of each other. -/
theorem ReadsApart.independent {page other : FileSystem.Found} (hpage : page ∈ pages fs src)
    (hother : other ∈ pages fs src) (hne : page ≠ other) :
    Independent fs (pageDest out page) (pageDest out other) := by
  have hnames : page.names ≠ other.names := fun hsame =>
    hne (List.inj_on_of_nodup_map (nodup_pages h.ordered) hpage hother hsame)
  obtain ⟨-, hfile, -⟩ := (mem_pages_iff h.ordered hsrc).mp hpage
  obtain ⟨-, hfile', -⟩ := (mem_pages_iff h.ordered hsrc).mp hother
  exact independent_join (h.plain_of_mem hsrc hpage).1 (h.plain_of_mem hsrc hother).1
    (apart_of_files (by rw [hfile]; rfl) (by rw [hfile']; rfl) hnames)

/-! ### What is read for a page -/

section Beside

variable {fs' : FileSystem} (h' : SameBeside fs out fs') {page : FileSystem.Found}
  (hpage : page ∈ pages fs src)

include h' hpage

/-- **A page is read** the same. -/
theorem ReadsApart.readText_eq : fs'.readText page.path = fs.readText page.path := by
  obtain ⟨hpath, hfile, -⟩ := (mem_pages_iff h.ordered hsrc).mp hpage
  rw [hpath]
  refine FileSystem.readText_joinNames_congr h'.workDir h'.dir hsrc (h.plain_of_mem hsrc hpage).1
    fun front ⟨more, hfront⟩ => h'.agreeAt _ (h.apart.not_prefix_append front) fun _ => ?_
  have hhas : fs.Has (fs.place src ++ front ++ more) := by
    rw [List.append_assoc, hfront]
    exact FileSystem.has_iff.mpr (.inl (by rw [hfile]; rfl))
  exact FileSystem.has_of_has_append hhas

omit hsrc in
/-- **What is included** is read the same. -/
theorem ReadsApart.readText_include_eq {p : Path} (hp : p ∈ includePaths fs pipeline page) :
    fs'.readText p = fs.readText p :=
  FileSystem.readText_congr h'.workDir fun y hy => by
    obtain ⟨hbelow, hway⟩ := h.includes page hpage p hp y hy
    exact h'.agreeAt y hbelow hway

/-- **Each page is converted to the same** after others as before them. -/
theorem ReadsApart.convertedPage_eq :
    convertedPage pipeline page.path fs' = convertedPage pipeline page.path fs := by
  rw [convertedPage, convertedPage, h.readText_eq hsrc h' hpage]
  rcases ht : fs.readText page.path with e | t
  · rfl
  · have hconvert : pipeline.convert fs' (some page.path) t =
        pipeline.convert fs (some page.path) t :=
      Pipeline.convert_congr fun p hp =>
        h.readText_include_eq h' hpage (by rwa [includePaths, ht])
    dsimp only
    rw [hconvert]

/-- The same files are included. -/
theorem ReadsApart.includePaths_eq :
    includePaths fs' pipeline page = includePaths fs pipeline page := by
  rw [includePaths, includePaths, h.readText_eq hsrc h' hpage]
  rcases ht : fs.readText page.path with e | t
  · rfl
  · exact Pipeline.readPaths_congr fun p hp =>
      h.readText_include_eq h' hpage (by rwa [includePaths, ht])

end Beside

/-- **Outside of the output** nothing is put. -/
theorem ReadsApart.sameBeside {files : List (Path × Content)}
    (hfiles : ∀ file ∈ files, ∃ page ∈ pages fs src, file.1 = pageDest out page)
    {fs' : FileSystem} (h' : Deposited fs files fs') : SameBeside fs out fs' where
  workDir := h'.workDir
  dir y hy := (h'.isDirAt_iff y).mpr (.inl hy)
  agreeAt y hbelow hway := by
    constructor
    · refine h'.kept y fun file hfile _ heq => hbelow ?_
      obtain ⟨page, hpage, hdest⟩ := hfiles file hfile
      rw [heq, hdest, h.place_pageDest hsrc hpage]
      exact List.prefix_append _ _
    · rw [h'.isDirAt_iff]
      refine ⟨fun hdir => hdir.elim id ?_, .inl⟩
      rintro ⟨file, hfile, hmade⟩
      obtain ⟨page, hpage, hdest⟩ := hfiles file hfile
      obtain ⟨hplain, hne⟩ := h.plain_of_mem hsrc hpage
      have hfree := (FileSystem.isFree_iff.mp (List.mem_takeWhile_imp hmade.2.2)).1
      rw [hdest] at hmade
      obtain hentered | ⟨front, -, -, rfl⟩ := (mem_above_join hplain hne).mp hmade.mem_above
      · refine (FileSystem.has_iff.mp (hway hentered)).resolve_left ?_
        rw [hfree]
        exact Bool.false_ne_true
      · exact absurd (List.prefix_append _ _) hbelow

/-! ## Turns -/

/-- **One page more** is converted as it would be before all others. -/
theorem ReadsApart.convertPageBelow {done : List FileSystem.Found} {page : FileSystem.Found}
    (hdone : ∀ other ∈ done, other ∈ pages fs src ∧ other ≠ page) (hpage : page ∈ pages fs src)
    {fs' : FileSystem} (h' : Deposited fs (conversions pipeline out fs done) fs') :
    Deposited fs (conversions pipeline out fs (done ++ [page]))
        (Migration.convertPageBelow pipeline out page fs').2 ∧
      ∀ dest, (Migration.convertPageBelow pipeline out page fs').1.result = .ok dest ↔
        dest = pageDest out page ∧ (∃ t, convertedPage pipeline page.path fs = .ok t) ∧
          fs.Fits (pageDest out page) := by
  have hsame := h.convertedPage_eq hsrc (h.sameBeside hsrc (fun file hfile =>
    (exists_of_mem_conversions hfile).imp fun other ⟨hother, hdest⟩ =>
      ⟨(hdone other hother).1, hdest⟩) h') hpage
  have hfiles : (Migration.convertPageBelow pipeline out page fs').2 =
      ((convertPageTo pipeline page.path (pageDest out page)).runOn fs').2 := rfl
  simp only [result_convertPageBelow_eq_ok_iff, hfiles]
  rcases hconverted : convertedPage pipeline page.path fs with e | t
  · rw [convertPageTo_of_error (hsame.trans hconverted), conversions_concat_of_error hconverted]
    exact ⟨h', fun dest => by simp⟩
  · obtain ⟨hok, hleft⟩ : ((convertPageTo pipeline page.path (pageDest out page)).runOn fs').1.isOk =
        (deposit (pageDest out page) (.text t) fs').1 ∧
          ((convertPageTo pipeline page.path (pageDest out page)).runOn fs').2 =
            (deposit (pageDest out page) (.text t) fs').2 :=
      convertPageTo_of_ok (hsame.trans hconverted)
    obtain ⟨hplain, hne⟩ := h.plain_of_mem hsrc hpage
    have hindependent : ∀ file ∈ conversions pipeline out fs done,
        Independent fs file.1 (pageDest out page) := fun file hfile => by
      obtain ⟨other, hother, hdest⟩ := exists_of_mem_conversions hfile
      rw [hdest]
      exact h.independent hsrc (hdone other hother).1 hpage (hdone other hother).2
    obtain ⟨hfits, hdeposited⟩ :=
      h'.deposit hindependent (namesFile_join out hplain hne) (.text t)
    rw [hleft, conversions_concat_of_ok hconverted]
    refine ⟨hdeposited, fun dest => and_congr_right fun _ => ?_⟩
    rw [← hfits, ← hok]
    rcases ((convertPageTo pipeline page.path (pageDest out page)).runOn fs').1 with e | ⟨⟩ <;>
      simp [Except.isOk, Except.toBool]

/-- The first page has nothing before it. -/
theorem ReadsApart.convertPageBelow_first {page : FileSystem.Found} (hpage : page ∈ pages fs src)
    (dest : Path) :
    (Migration.convertPageBelow pipeline out page fs).1.result = .ok dest ↔
      dest = pageDest out page ∧ (∃ t, convertedPage pipeline page.path fs = .ok t) ∧
        fs.Fits (pageDest out page) := by
  have hnone : Deposited fs (conversions pipeline out fs []) fs := Deposited.nil fs
  exact (h.convertPageBelow hsrc (by simp) hpage hnone).2 dest

/-- **A page that is converted alone** has the outcome that it has at any turn. -/
theorem ReadsApart.result_convertPageBelow {done : List FileSystem.Found}
    {page : FileSystem.Found} (hdone : ∀ other ∈ done, other ∈ pages fs src ∧ other ≠ page)
    (hpage : page ∈ pages fs src) {fs' : FileSystem}
    (h' : Deposited fs (conversions pipeline out fs done) fs') :
    (Migration.convertPageBelow pipeline out page fs').1.result.toOption =
      (Migration.convertPageBelow pipeline out page fs).1.result.toOption := by
  have hsame : ∀ dest, (Migration.convertPageBelow pipeline out page fs').1.result = .ok dest ↔
      (Migration.convertPageBelow pipeline out page fs).1.result = .ok dest := fun dest =>
    ((h.convertPageBelow hsrc hdone hpage h').2 dest).trans
      (h.convertPageBelow_first hsrc hpage dest).symm
  rcases hresult : (Migration.convertPageBelow pipeline out page fs').1.result with e | dest
  · rcases halone : (Migration.convertPageBelow pipeline out page fs).1.result with e' | dest
    · rfl
    · rw [(hsame dest).mpr halone] at hresult
      cases hresult
  · rw [(hsame dest).mp hresult]

/-- **Pages in any order**: all are converted as each would be alone. -/
theorem ReadsApart.convertEach {done turns : List FileSystem.Found}
    (hpages : ∀ page ∈ done ++ turns, page ∈ pages fs src) (hnodup : (done ++ turns).Nodup)
    {fs' : FileSystem} (h' : Deposited fs (conversions pipeline out fs done) fs') :
    Deposited fs (conversions pipeline out fs (done ++ turns))
        (Migration.convertEach pipeline out turns fs').2 ∧
      (Migration.convertEach pipeline out turns fs').1.map PageOutcome.shown =
        turns.map fun page => (Migration.convertPageBelow pipeline out page fs).1.shown := by
  induction turns generalizing done fs' with
  | nil =>
    rw [List.append_nil]
    exact ⟨h', rfl⟩
  | cons page turns ih =>
    have hdone : ∀ other ∈ done, other ∈ pages fs src ∧ other ≠ page := fun other hother => by
      refine ⟨hpages other (List.mem_append_left _ hother), ?_⟩
      rintro rfl
      exact (List.nodup_append.mp hnodup).2.2 _ hother _ List.mem_cons_self rfl
    have hpage : page ∈ pages fs src := hpages page (by simp)
    rw [List.append_cons] at hpages hnodup ⊢
    obtain ⟨hdeposited, hshown⟩ :=
      ih hpages hnodup (h.convertPageBelow hsrc hdone hpage h').1
    refine ⟨hdeposited, ?_⟩
    rw [convertEach_cons, List.map_cons, List.map_cons, hshown]
    refine congrArg (· :: _) (Prod.ext rfl ?_)
    exact h.result_convertPageBelow hsrc hdone hpage h'

/-- The same from the start. -/
theorem ReadsApart.convertEach_first {turns : List FileSystem.Found}
    (hpages : ∀ page ∈ turns, page ∈ pages fs src) (hnodup : turns.Nodup) :
    Deposited fs (conversions pipeline out fs turns)
        (Migration.convertEach pipeline out turns fs).2 ∧
      (Migration.convertEach pipeline out turns fs).1.map PageOutcome.shown =
        turns.map fun page => (Migration.convertPageBelow pipeline out page fs).1.shown := by
  have hnone : Deposited fs (conversions pipeline out fs []) fs := Deposited.nil fs
  exact h.convertEach hsrc (by simpa using hpages) (by simpa using hnodup) hnone

end Book

/-! ## Workers -/

/-- Outcomes in the order of their pages. -/
def inPageOrder (pages : List FileSystem.Found) (outcomes : List PageOutcome) :
    List PageOutcome :=
  pages.filterMap fun page => outcomes.find? fun outcome => outcome.page == page.path

/-- **Pages converted by several workers**, each page in one turn of one of them.  Whatever the
turns are, the outcomes are reported in the order of the pages. -/
def convertInTurns {jobs : Nat} (pipeline : Pipeline) (src out : Path)
    (turns : List (Fin jobs × FileSystem.Found)) (fs : FileSystem) :
    ConversionReport × FileSystem :=
  let (outcomes, after) := convertEach pipeline out (turns.map Prod.snd) fs
  (.ofOutcomes (inPageOrder (pages fs src) outcomes), after)

theorem find?_path {pages : List FileSystem.Found} {page : FileSystem.Found} (hpage : page ∈ pages)
    (hinj : ∀ other ∈ pages, other.path = page.path → other = page) :
    (pages.find? fun other => other.path == page.path) = some page := by
  rcases hfind : pages.find? (fun other => other.path == page.path) with _ | other
  · exact absurd (List.find?_eq_none.mp hfind page hpage) (by simp)
  · have hsame : other.path = page.path := by simpa using List.find?_some hfind
    rw [hfind, hinj other (List.mem_of_find?_eq_some hfind) hsame]

/-- **Outcomes put in order** are those of the pages one after another. -/
theorem shown_inPageOrder {pages turns : List FileSystem.Found} {outcomes : List PageOutcome}
    {view : FileSystem.Found → Path × Option Path} (hview : ∀ page, (view page).1 = page.path)
    (hturns : turns.Perm pages)
    (hinj : ∀ page ∈ pages, ∀ other ∈ pages, other.path = page.path → other = page)
    (hshown : outcomes.map PageOutcome.shown = turns.map view) :
    (inPageOrder pages outcomes).map PageOutcome.shown = pages.map view := by
  have hfound : ∀ page ∈ pages, (outcomes.find? fun outcome => outcome.page == page.path).map
      PageOutcome.shown = some (view page) := fun page hpage => by
    have hmap : (outcomes.map PageOutcome.shown).find? (fun shown => shown.1 == page.path) =
        (outcomes.find? fun outcome => outcome.page == page.path).map PageOutcome.shown :=
      List.find?_map
    have hturn : turns.find? ((fun shown => shown.1 == page.path) ∘ view) = some page := by
      rw [← find?_path (hturns.mem_iff.mpr hpage) fun other hother =>
        hinj page hpage other (hturns.mem_iff.mp hother)]
      refine congrArg (turns.find? ·) (funext fun other => ?_)
      rw [Function.comp_apply, hview]
    rw [← hmap, hshown, List.find?_map, hturn]
    rfl
  rw [inPageOrder, List.map_filterMap, ← List.filterMap_eq_map]
  exact List.filterMap_congr hfound

/-! ## Any order -/

section Order

variable {fs : FileSystem} {pipeline : Pipeline} {src out : Path}

/-- **What the order of the turns does not change**: the report, the tree, and what becomes of each
page, which is what becomes of it alone. -/
structure OrderIsFree (fs : FileSystem) (pipeline : Pipeline) (src out : Path) {jobs : Nat}
    (turns : List (Fin jobs × FileSystem.Found)) : Prop where
  report : (convertInTurns pipeline src out turns fs).1 = (convertPages pipeline src out fs).1
  tree : SameTree (convertPages pipeline src out fs).2
    (convertInTurns pipeline src out turns fs).2
  alone : ∀ page ∈ pages fs src,
    (convertPageBelow pipeline out page
        (beforePage pipeline out (turns.map Prod.snd) page fs)).1.result.toOption =
      (convertPageBelow pipeline out page fs).1.result.toOption

/-- A path that leads to no directory has one page at most. -/
theorem pages_of_not_isDir (hsrc : fs.isDir src ≠ true) :
    pages fs src = [] ∨ ∃ page, pages fs src = [page] := by
  have hall : (fs.allFiles src).length ≤ 1 := by
    rw [FileSystem.allFiles, FileSystem.filesBelow]
    rw [FileSystem.isDir] at hsrc
    rcases hnode : fs.node src with e | (content | entries)
    · simp
    · simp [Node.files]
    · simp [hnode] at hsrc
  have hlength : (pages fs src).length ≤ 1 :=
    ((List.filter_sublist (l := markdownFiles fs src)).trans List.filter_sublist).length_le.trans
      hall
  rcases hpages : pages fs src with _ | ⟨page, _ | ⟨other, more⟩⟩
  · exact .inl rfl
  · exact .inr ⟨page, rfl⟩
  · rw [hpages] at hlength
    simp at hlength

theorem SameTree.refl (fs : FileSystem) : SameTree fs fs := ⟨rfl, fun _ => rfl, fun _ => Iff.rfl⟩

variable {jobs : Nat} {turns : List (Fin jobs × FileSystem.Found)}
  (hturns : (turns.map Prod.snd).Perm (pages fs src))

include hturns

/-- A single page has a single turn. -/
theorem orderIsFree_of_not_isDir (hsrc : fs.isDir src ≠ true) :
    OrderIsFree fs pipeline src out turns := by
  rcases pages_of_not_isDir hsrc with hpages | ⟨page, hpages⟩
  · have hnone : turns.map Prod.snd = [] := by rwa [hpages, List.perm_nil] at hturns
    refine ⟨?_, ?_, by simp [hpages]⟩
    · rw [convertInTurns, convertPages, hpages, hnone]
      rfl
    · rw [convertInTurns, convertPages, hpages, hnone]
      exact .refl fs
  · have hone : turns.map Prod.snd = [page] := by rwa [hpages, List.perm_singleton] at hturns
    refine ⟨?_, ?_, ?_⟩
    · rw [convertInTurns, convertPages, hpages, hone]
      simp only [convertEach, inPageOrder]
      have hfound : [(convertPageBelow pipeline out page fs).1].find?
          (fun outcome => outcome.page == page.path) =
            some (convertPageBelow pipeline out page fs).1 :=
        List.find?_cons_of_pos (by rw [page_convertPageBelow, beq_self_eq_true])
      simp only [List.filterMap_cons, List.filterMap_nil, hfound]
    · rw [convertInTurns, convertPages, hpages, hone]
      exact .refl _
    · rw [hpages, hone, List.forall_mem_singleton, beforePage_cons_self]

/-- **Pages may be converted in any order** by any number of workers, as long as what is read for
them lies apart from where they are put.  The pages written are reported in the order of their paths,
and those that failed in the order of the pages. -/
theorem conversion_in_any_order (h : ReadsApart fs pipeline src out) :
    OrderIsFree fs pipeline src out turns ∧
      (convertPages pipeline src out fs).1.converted.Pairwise (fun p q => p.le q = true) ∧
      (convertPages pipeline src out fs).1.failed.Sublist
        ((pages fs src).map FileSystem.Found.path) := by
  refine ⟨?_, Path.pairwise_mergeSort _, ?_⟩
  · by_cases hsrc : fs.isDir src = true
    · have hnodup : (pages fs src).Nodup := (nodup_pages h.ordered).of_map
      have hmem : ∀ page ∈ turns.map Prod.snd, page ∈ pages fs src :=
        fun page hpage => hturns.mem_iff.mp hpage
      obtain ⟨hsource, hshown⟩ := h.convertEach_first hsrc (fun _ => id) hnodup
      obtain ⟨hany, hshown'⟩ := h.convertEach_first hsrc hmem (hturns.nodup_iff.mpr hnodup)
      have hinj : ∀ page ∈ pages fs src, ∀ other ∈ pages fs src, other.path = page.path →
          other = page := fun page hpage other hother heq => by
        rw [((mem_pages_iff h.ordered hsrc).mp hpage).1,
          ((mem_pages_iff h.ordered hsrc).mp hother).1] at heq
        have hplace := congrArg fs.place heq
        rw [fs.place_joinNames _ (h.plain_of_mem hsrc hpage).1,
          fs.place_joinNames _ (h.plain_of_mem hsrc hother).1] at hplace
        exact List.inj_on_of_nodup_map (nodup_pages h.ordered) hother hpage
          (List.append_cancel_left hplace)
      refine ⟨?_, hsource.sameTree hany (hturns.symm.filterMap _), ?_⟩
      · change ConversionReport.ofOutcomes _ = ConversionReport.ofOutcomes _
        rw [ofOutcomes_eq, ofOutcomes_eq, shown_inPageOrder (fun _ => rfl) hturns hinj hshown',
          hshown]
      · intro page hpage
        have hbefore : ∀ other ∈ (turns.map Prod.snd).takeWhile (· != page),
            other ∈ pages fs src ∧ other ≠ page := fun other hother =>
          ⟨hmem other ((List.takeWhile_sublist _).subset hother),
            by simpa using List.mem_takeWhile_imp hother⟩
        refine h.result_convertPageBelow hsrc hbefore hpage ?_
        exact (h.convertEach_first hsrc (fun other hother => (hbefore other hother).1)
          ((hturns.nodup_iff.mpr hnodup).sublist (List.takeWhile_sublist _))).1
    · exact orderIsFree_of_not_isDir hturns hsrc
  · have hpaths : (convertEach pipeline out (pages fs src) fs).1.map PageOutcome.page =
        (pages fs src).map FileSystem.Found.path := page_convertEach (pages fs src) fs
    exact hpaths ▸ failed_sublist _

end Order

/-! ## A directory on the way -/

/-- A working directory with a file and two pages, the second of which includes the file by a path
through a directory that is not there. -/
def missingWay : FileSystem where
  root := .directory [("work".toList, .directory
    [("src".toList, .directory
        [("a.md".toList, .file (.text "a".toList)),
          ("b.md".toList, .file (.text "\x7b\x7b#include ../site/../x.rs\x7d\x7d".toList))]),
      ("x.rs".toList, .file (.text "fn x".toList))])]
  workDir := ["work".toList]

/-- The stage that includes files. -/
def onlyIncludes : Pipeline := ⟨[.includes .inline]⟩

/-- The pages in reverse, converted by one worker. -/
def inReverse (fs : FileSystem) (src : Path) : List (Fin 1 × FileSystem.Found) :=
  (pages fs src).reverse.map fun page => (0, page)

theorem inReverse_perm (fs : FileSystem) (src : Path) :
    ((inReverse fs src).map Prod.snd).Perm (pages fs src) := by
  have hmap : (inReverse fs src).map Prod.snd = (pages fs src).reverse := by
    rw [inReverse, List.map_map]
    exact List.map_id _
  rw [hmap]
  exact List.reverse_perm _

theorem readsApart_missingWay : ReadsApart missingWay onlyIncludes (.ofString "src")
    (.ofString "docs") where
  ordered := Node.ordered_of_nodes (by decide +kernel)
  plain :=
    have hnode : missingWay.root.get? (missingWay.place (.ofString "src")) = some (.directory
        [("a.md".toList, .file (.text "a".toList)),
          ("b.md".toList, .file (.text "\x7b\x7b#include ../site/../x.rs\x7d\x7d".toList))]) :=
      rfl
    FileSystem.plainBelow_of_nodes hnode (by decide +kernel)
  apart := ⟨by decide, by decide⟩
  includes := by decide +kernel

/-- Put beside that directory, the pages come out the same in reverse. -/
theorem conversion_in_any_order_missingWay :
    ReadsApart missingWay onlyIncludes (.ofString "src") (.ofString "docs") ∧
      OrderIsFree missingWay onlyIncludes (.ofString "src") (.ofString "docs")
        (inReverse missingWay (.ofString "src")) ∧
      (convertPages onlyIncludes (.ofString "src") (.ofString "docs") missingWay).1.failed = [] := by
  refine ⟨readsApart_missingWay, ?_, by decide +kernel⟩
  exact (conversion_in_any_order (inReverse_perm missingWay (.ofString "src"))
    readsApart_missingWay).1

/-- **The order matters** when that directory is made for the output: the file is found once the
first page has been put below it. -/
theorem order_matters_missingWay :
    Apart (missingWay.place (.ofString "src")) (missingWay.place (.ofString "site/docs")) ∧
      (∀ page ∈ pages missingWay (.ofString "src"),
        ∀ p ∈ includePaths missingWay onlyIncludes page,
          ∀ y ∈ passed (missingWay.origin p) p.segments,
            ¬ missingWay.place (.ofString "site/docs") <+: y) ∧
      ((inReverse missingWay (.ofString "src")).map Prod.snd).Perm
        (pages missingWay (.ofString "src")) ∧
      (convertPages onlyIncludes (.ofString "src") (.ofString "site/docs") missingWay).2.fileAt
          ["work".toList, "site".toList, "docs".toList, "b.md".toList] =
        some (.text "fn x".toList) ∧
      (convertInTurns onlyIncludes (.ofString "src") (.ofString "site/docs")
          (inReverse missingWay (.ofString "src")) missingWay).2.fileAt
          ["work".toList, "site".toList, "docs".toList, "b.md".toList] =
        some (.text "<!-- bookpress: could not include file: ../site/../x.rs -->".toList) ∧
      ¬ OrderIsFree missingWay onlyIncludes (.ofString "src") (.ofString "site/docs")
        (inReverse missingWay (.ofString "src")) := by
  have hsource : (convertPages onlyIncludes (.ofString "src") (.ofString "site/docs")
      missingWay).2.fileAt ["work".toList, "site".toList, "docs".toList, "b.md".toList] =
        some (.text "fn x".toList) := by decide +kernel
  have hreverse : (convertInTurns onlyIncludes (.ofString "src") (.ofString "site/docs")
      (inReverse missingWay (.ofString "src")) missingWay).2.fileAt
        ["work".toList, "site".toList, "docs".toList, "b.md".toList] =
      some (.text "<!-- bookpress: could not include file: ../site/../x.rs -->".toList) := by
    decide +kernel
  refine ⟨⟨by decide, by decide⟩, by decide +kernel, inReverse_perm _ _, hsource, hreverse,
    fun hfree => ?_⟩
  have hsame := hfree.tree.fileAt_eq
    ["work".toList, "site".toList, "docs".toList, "b.md".toList]
  rw [hsource, hreverse] at hsame
  exact absurd hsame (by decide)

end BookSite.Migration
