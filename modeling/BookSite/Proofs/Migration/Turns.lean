import BookSite.Proofs.Migration.CopyWalk

/-!
# Proofs/Migration/Turns — what becomes of each page and each copy

Pages are converted and files copied one after another, and each of them gets its **turn**: it meets
the files that those before it have left.  What it does then is what the report says of it
(`mem_convertEach_iff`, `mem_copyEach_iff`), and it is not undone by those behind it.
-/

namespace BookSite.Migration

/-! ## Pages -/

section Pages

variable {pipeline : Pipeline} {out : Path} {pages : List FileSystem.Found}
  {page : FileSystem.Found} {fs : FileSystem}

/-- **The pages of a book** are its markdown files, but for the outline. -/
theorem mem_pages_iff {src : Path} (hordered : fs.root.Ordered) (hdir : fs.isDir src = true) :
    page ∈ Migration.pages fs src ↔ page.path = src.joinNames page.names ∧
      fs.fileAt (fs.place src ++ page.names) = some page.content ∧
      FileKind.classify page.path = .markdown ∧ page.names ≠ [outlineName] := by
  rw [Migration.pages, List.mem_filter, markdownFiles, List.mem_filter,
    FileSystem.mem_allFiles_iff hordered hdir]
  simp [and_assoc]

/-- No page is listed twice. -/
theorem nodup_pages {src : Path} (hordered : fs.root.Ordered) :
    ((Migration.pages fs src).map FileSystem.Found.names).Nodup := by
  have hall : ((fs.allFiles src).map FileSystem.Found.names).Nodup := by
    unfold FileSystem.allFiles FileSystem.filesBelow
    split
    · rename_i node hnode
      rw [List.map_map]
      exact Node.nodup_files _ (hordered.of_get? (fs.get?_place_of_node hnode))
    · exact List.nodup_nil
  exact hall.sublist
    (((List.filter_sublist (l := markdownFiles fs src)).trans List.filter_sublist).map _)

/-- Where a page is converted to. -/
def pageDest (out : Path) (page : FileSystem.Found) : Path := out.join (.ofNames page.names)

/-- **The files that a page meets** when it is converted. -/
def beforePage (pipeline : Pipeline) (out : Path) (pages : List FileSystem.Found)
    (page : FileSystem.Found) (fs : FileSystem) : FileSystem :=
  (convertEach pipeline out (pages.takeWhile (· != page)) fs).2

theorem beforePage_cons_self (pages : List FileSystem.Found) :
    beforePage pipeline out (page :: pages) page fs = fs := by
  rw [beforePage, List.takeWhile_cons_of_neg (by simp)]
  rfl

theorem beforePage_cons_of_ne {first : FileSystem.Found} (hne : first ≠ page)
    (pages : List FileSystem.Found) :
    beforePage pipeline out (first :: pages) page fs =
      beforePage pipeline out pages page (convertPageBelow pipeline out first fs).2 := by
  rw [beforePage, List.takeWhile_cons_of_pos (by simpa using hne)]
  rfl

theorem convertEach_cons (pages : List FileSystem.Found) :
    convertEach pipeline out (page :: pages) fs =
      ((convertPageBelow pipeline out page fs).1 ::
          (convertEach pipeline out pages (convertPageBelow pipeline out page fs).2).1,
        (convertEach pipeline out pages (convertPageBelow pipeline out page fs).2).2) := rfl

/-- **The outcomes** are those of the pages at their turns. -/
theorem mem_convertEach_iff (hnodup : pages.Nodup) {outcome : PageOutcome} :
    outcome ∈ (convertEach pipeline out pages fs).1 ↔ ∃ page ∈ pages,
      outcome =
        (convertPageBelow pipeline out page (beforePage pipeline out pages page fs)).1 := by
  induction pages generalizing fs with
  | nil => simp [convertEach]
  | cons first pages ih =>
    rw [List.nodup_cons] at hnodup
    have hlater : ∀ page ∈ pages, beforePage pipeline out (first :: pages) page fs =
        beforePage pipeline out pages page (convertPageBelow pipeline out first fs).2 :=
      fun page hpage => beforePage_cons_of_ne (by rintro rfl; exact hnodup.1 hpage) pages
    rw [convertEach_cons, List.mem_cons, ih hnodup.2, List.exists_mem_cons_iff,
      beforePage_cons_self]
    refine or_congr_right (exists_congr fun page => and_congr_right fun hpage => ?_)
    rw [hlater page hpage]

theorem page_convertPageBelow : (convertPageBelow pipeline out page fs).1.page = page.path := rfl

/-- A page that is converted goes to its place. -/
theorem result_convertPageBelow_eq_ok_iff {dest : Path} :
    (convertPageBelow pipeline out page fs).1.result = .ok dest ↔
      dest = pageDest out page ∧
        ((convertPageTo pipeline page.path (pageDest out page)).runOn fs).1 = .ok () := by
  change Except.map (fun _ => pageDest out page)
    ((convertPageTo pipeline page.path (pageDest out page)).runOn fs).1 = .ok dest ↔ _
  rcases ((convertPageTo pipeline page.path (pageDest out page)).runOn fs).1 with e | u
  · simp [Except.map]
  · simp [Except.map, eq_comm]

/-- **Pages are written** to their places only. -/
theorem changes_convertEach (pages : List FileSystem.Found) (fs : FileSystem) :
    FileSystem.Changes (fun y _ => ∃ page ∈ pages, y = fs.place (pageDest out page)) fs
      (convertEach pipeline out pages fs).2 := by
  induction pages generalizing fs with
  | nil => exact .refl _ fs
  | cons first pages ih =>
    have hfirst := changes_convertPageTo pipeline first.path (pageDest out first) fs
    rw [convertEach_cons]
    refine (hfirst.mono fun y _ hy => ⟨first, List.mem_cons_self, hy.1⟩).trans
      ((ih _).mono ?_)
    rintro y _ ⟨page, hpage, rfl⟩
    exact ⟨page, List.mem_cons_of_mem _ hpage, hfirst.place_eq _⟩

/-- **A turn is not the end**: what a page leaves may only be added to. -/
theorem changes_behindPage (hpage : page ∈ pages) (fs : FileSystem) :
    FileSystem.Changes (fun _ _ => True)
      (convertPageBelow pipeline out page (beforePage pipeline out pages page fs)).2
      (convertEach pipeline out pages fs).2 := by
  induction pages generalizing fs with
  | nil => cases hpage
  | cons first pages ih =>
    rw [convertEach_cons]
    by_cases hsame : first = page
    · rw [hsame, beforePage_cons_self]
      exact (changes_convertEach pages _).mono fun _ _ _ => trivial
    · rw [beforePage_cons_of_ne hsame]
      exact ih ((List.mem_cons.mp hpage).resolve_left (Ne.symm hsame)) _

/-- A page that is converted holds what it was converted to. -/
theorem fileAt_of_convertPageTo {source dest : Path} {fs fs' : FileSystem}
    (h : (convertPageTo pipeline source dest).runOn fs = (.ok (), fs')) :
    ∃ converted, convertedPage pipeline source fs = .ok converted ∧
      fs'.fileAt (fs.place dest) = some (.text converted) := by
  rw [convertPageTo_eq] at h
  obtain ⟨converted, fs₁, hinspect, hwrite⟩ := FileAction.runOn_bind_eq_ok.mp h
  rw [FileAction.runOn_inspect] at hinspect
  obtain ⟨hconverted, rfl⟩ := Prod.mk.inj hinspect
  exact ⟨converted, hconverted, FileAction.fileAt_of_writeBelow hwrite⟩

/-- **A converted page** stays as it was written at its turn, since the others go elsewhere. -/
theorem fileAt_of_convertEach (hnodup : (pages.map fun page => fs.place (pageDest out page)).Nodup)
    (hpage : page ∈ pages)
    (hok : ((convertPageTo pipeline page.path (pageDest out page)).runOn
      (beforePage pipeline out pages page fs)).1 = .ok ()) :
    ∃ converted,
      convertedPage pipeline page.path (beforePage pipeline out pages page fs) = .ok converted ∧
      (convertEach pipeline out pages fs).2.fileAt (fs.place (pageDest out page)) =
        some (.text converted) := by
  induction pages generalizing fs with
  | nil => cases hpage
  | cons first pages ih =>
    rw [List.map_cons, List.nodup_cons] at hnodup
    have hfirst := changes_convertPageTo pipeline first.path (pageDest out first) fs
    have hplace : ∀ p, (convertPageBelow pipeline out first fs).2.place p = fs.place p :=
      hfirst.place_eq
    rw [convertEach_cons]
    by_cases hsame : first = page
    · subst hsame
      rw [beforePage_cons_self] at hok ⊢
      have hrun : (convertPageTo pipeline first.path (pageDest out first)).runOn fs =
          (.ok (), (convertPageBelow pipeline out first fs).2) := Prod.ext hok rfl
      obtain ⟨converted, hconverted, hwritten⟩ := fileAt_of_convertPageTo hrun
      refine ⟨converted, hconverted, ?_⟩
      rw [(changes_convertEach pages _).fileAt_eq ?_]
      · exact hwritten
      · rintro _ ⟨page, hother, heq⟩
        rw [hplace] at heq
        exact hnodup.1 (List.mem_map.mpr ⟨page, hother, heq.symm⟩)
    · have hlater := (List.mem_cons.mp hpage).resolve_left (Ne.symm hsame)
      rw [beforePage_cons_of_ne hsame] at hok ⊢
      have hrest := ih (by simpa only [hplace] using hnodup.2) hlater hok
      rwa [hplace] at hrest

/-- No place is reported twice. -/
theorem sublist_convertEach (pages : List FileSystem.Found) (fs : FileSystem) :
    ((convertEach pipeline out pages fs).1.filterMap fun outcome => outcome.result.toOption).Sublist
      (pages.map (pageDest out)) := by
  induction pages generalizing fs with
  | nil => exact List.Sublist.refl _
  | cons first pages ih =>
    rw [convertEach_cons, List.map_cons]
    rcases hresult : (convertPageBelow pipeline out first fs).1.result with e | dest
    · rw [List.filterMap_cons_none (by rw [hresult]; rfl)]
      exact (ih _).cons _
    · obtain ⟨rfl, -⟩ := result_convertPageBelow_eq_ok_iff.mp hresult
      rw [List.filterMap_cons_some (by rw [hresult]; rfl)]
      exact (ih _).cons_cons _

end Pages

/-! ## Copies -/

section Copies

variable {plan : CopyPlan} {met : List (List Text)} {names : List Text}
  {state : CopiedFiles × FileSystem} {kind : FileKind} {dir : Path}

/-- The sort of a file of the book. -/
def CopyPlan.kindOf (plan : CopyPlan) (names : List Text) : FileKind :=
  FileKind.classify (plan.src.joinNames names)

/-- **The copies and files that a file of the book meets** when it is to be copied. -/
def beforeCopy (plan : CopyPlan) (met : List (List Text)) (names : List Text)
    (state : CopiedFiles × FileSystem) : CopiedFiles × FileSystem :=
  copyEach plan (met.takeWhile (· != names)) state

/-- Whether a file of the book is copied to a directory. -/
def copies (plan : CopyPlan) (dir : Path) (names : List Text) (fs : FileSystem) : Bool :=
  (copyTo (plan.src.joinNames names) (dir.join (.ofNames names)) fs).1

theorem copyEach_cons (first : List Text) (met : List (List Text)) :
    copyEach plan (first :: met) state = copyEach plan met (plan.copyMet first state) := rfl

theorem beforeCopy_cons_self (met : List (List Text)) :
    beforeCopy plan (names :: met) names state = state := by
  rw [beforeCopy, List.takeWhile_cons_of_neg (by simp)]
  rfl

theorem beforeCopy_cons_of_ne {first : List Text} (hne : first ≠ names)
    (met : List (List Text)) :
    beforeCopy plan (first :: met) names state =
      beforeCopy plan met names (plan.copyMet first state) := by
  rw [beforeCopy, List.takeWhile_cons_of_pos (by simpa using hne)]
  rfl

/-- What a copy that succeeds adds to the report. -/
theorem ofKind_copyMet (hdir : plan.dirFor? kind = some dir) :
    (plan.copyMet names state).1.ofKind kind =
      state.1.ofKind kind ++
        if plan.kindOf names = kind ∧ copies plan dir names state.2 = true then
          [dir.join (.ofNames names)]
        else [] := by
  rcases hnoted : plan.dirFor? (plan.kindOf names) with _ | noted
  · rw [copyMet_of_eq_none hnoted, if_neg ?_, List.append_nil]
    rintro ⟨rfl, -⟩
    rw [hdir] at hnoted
    cases hnoted
  have hcopied : (plan.copyMet names state).1 = if copies plan noted names state.2 = true then
      CopyPlan.note (plan.kindOf names) (noted.join (.ofNames names)) state.1 else state.1 :=
    congrArg Prod.fst (copyMet_of_eq_some hnoted)
  rw [hcopied]
  by_cases hkind : plan.kindOf names = kind
  · subst hkind
    obtain rfl := Option.some.inj (hdir.symm.trans hnoted)
    by_cases hcopies : copies plan dir names state.2 = true
    · rw [if_pos hcopies, ofKind_note _ _ hdir, if_pos rfl, if_pos ⟨rfl, hcopies⟩]
    · rw [if_neg hcopies, if_neg fun h => hcopies h.2, List.append_nil]
  · rw [if_neg fun h : _ ∧ _ => hkind h.1, List.append_nil]
    split
    · rw [ofKind_note _ _ hnoted, if_neg (Ne.symm hkind), List.append_nil]
    · rfl

/-- **The copies that are reported** are those of the files that were copied at their turns. -/
theorem mem_copyEach_iff (hnodup : met.Nodup) (hdir : plan.dirFor? kind = some dir) {dest : Path} :
    dest ∈ (copyEach plan met state).1.ofKind kind ↔ dest ∈ state.1.ofKind kind ∨
      ∃ names ∈ met, plan.kindOf names = kind ∧ dest = dir.join (.ofNames names) ∧
        copies plan dir names (beforeCopy plan met names state).2 = true := by
  induction met generalizing state with
  | nil => simp [copyEach]
  | cons first met ih =>
    rw [List.nodup_cons] at hnodup
    have hlater : ∀ names ∈ met, beforeCopy plan (first :: met) names state =
        beforeCopy plan met names (plan.copyMet first state) :=
      fun names hnames => beforeCopy_cons_of_ne (by rintro rfl; exact hnodup.1 hnames) met
    rw [copyEach_cons, ih hnodup.2, ofKind_copyMet hdir, List.mem_append, or_assoc,
      List.exists_mem_cons_iff, beforeCopy_cons_self]
    refine or_congr_right (or_congr ?_ (exists_congr fun names => and_congr_right fun hnames => ?_))
    · split
      · rename_i hcopied
        simp [hcopied]
      · rename_i hno
        simp only [List.not_mem_nil, false_iff]
        exact fun h => hno ⟨h.1, h.2.2⟩
    · rw [hlater names hnames]

/-- No copy is reported twice. -/
theorem sublist_copyEach (hdir : plan.dirFor? kind = some dir) (met : List (List Text))
    (state : CopiedFiles × FileSystem) :
    ((copyEach plan met state).1.ofKind kind).Sublist
      (state.1.ofKind kind ++ (met.filter fun names => plan.kindOf names = kind).map
        fun names => dir.join (.ofNames names)) := by
  induction met generalizing state with
  | nil => simp [copyEach]
  | cons first met ih =>
    rw [copyEach_cons]
    refine (ih _).trans ?_
    rw [ofKind_copyMet hdir, List.append_assoc]
    refine (List.Sublist.refl _).append ?_
    by_cases hkind : plan.kindOf first = kind
    · rw [List.filter_cons_of_pos (by simpa using hkind), List.map_cons]
      split
      · exact List.Sublist.refl _
      · exact List.sublist_cons_self _ _
    · rw [if_neg fun h => hkind h.1, List.filter_cons_of_neg (by simpa using hkind)]
      exact List.Sublist.refl _

/-- **Copies are written** to their places only. -/
theorem changes_copyEach (hplain : ∀ names ∈ met, ∀ n ∈ names, IsPlain n)
    (state : CopiedFiles × FileSystem) :
    FileSystem.Changes (fun y _ => ∃ names ∈ met, ∃ dir,
        plan.dirFor? (plan.kindOf names) = some dir ∧ y = state.2.place dir ++ names)
      state.2 (copyEach plan met state).2 := by
  induction met generalizing state with
  | nil => exact .refl _ _
  | cons first met ih =>
    obtain ⟨hfirst, hmet⟩ := List.forall_mem_cons.mp hplain
    have hchanges : FileSystem.Changes (fun y _ => ∃ dir,
        plan.dirFor? (plan.kindOf first) = some dir ∧ y = state.2.place dir ++ first)
        state.2 (plan.copyMet first state).2 := changes_copyMet hfirst state
    rw [copyEach_cons]
    refine (hchanges.mono fun y _ hy => ⟨first, List.mem_cons_self, hy⟩).trans
      ((ih hmet _).mono ?_)
    rintro y _ ⟨names, hnames, dir, hdir, rfl⟩
    exact ⟨names, List.mem_cons_of_mem _ hnames, dir, hdir, by rw [hchanges.place_eq]⟩

/-- A file that is copied holds the bytes of its source. -/
theorem fileAt_of_copies (hplain : ∀ n ∈ names, IsPlain n)
    (hdir : plan.dirFor? (plan.kindOf names) = some dir)
    (hne : state.2.place dir ++ names ≠ state.2.place plan.src ++ names)
    (hok : copies plan dir names state.2 = true) :
    ∃ content, state.2.fileAt (state.2.place plan.src ++ names) = some content ∧
      (plan.copyMet names state).2.fileAt (state.2.place dir ++ names) = some content := by
  have hcopy := changes_copyTo (plan.src.joinNames names) (dir.join (.ofNames names)) state.2
  rw [state.2.place_joinNames _ hplain, state.2.place_join_ofNames _ hplain] at hcopy
  obtain ⟨hfalse, -⟩ | ⟨-, content, hcontent, -, copy, hwritten, hsame⟩ := hcopy
  · rw [copies, hfalse] at hok
    cases hok
  · refine ⟨content, hcontent, ?_⟩
    rw [← hsame hne, ← hwritten]
    rw [copyMet_of_eq_some hdir]

/-- **A copy** stays as it was made at its turn, since the others go elsewhere. -/
theorem fileAt_of_copyEach (hplain : ∀ names ∈ met, ∀ n ∈ names, IsPlain n)
    (hdir : plan.dirFor? (plan.kindOf names) = some dir) (hnames : names ∈ met)
    (hne : state.2.place dir ++ names ≠ state.2.place plan.src ++ names)
    (hnodup : met.Nodup)
    (hother : ∀ other ∈ met, ∀ dir', plan.dirFor? (plan.kindOf other) = some dir' →
      state.2.place dir ++ names = state.2.place dir' ++ other → other = names)
    (hok : copies plan dir names (beforeCopy plan met names state).2 = true) :
    ∃ content,
      (beforeCopy plan met names state).2.fileAt (state.2.place plan.src ++ names) =
        some content ∧
      (copyEach plan met state).2.fileAt (state.2.place dir ++ names) = some content := by
  induction met generalizing state with
  | nil => cases hnames
  | cons first met ih =>
    obtain ⟨hfirst, hmet⟩ := List.forall_mem_cons.mp hplain
    rw [List.nodup_cons] at hnodup
    have hplace : ∀ p, (plan.copyMet first state).2.place p = state.2.place p :=
      (changes_copyMet hfirst state).place_eq
    rw [copyEach_cons]
    by_cases hsame : first = names
    · subst hsame
      rw [beforeCopy_cons_self] at hok ⊢
      obtain ⟨content, hcontent, hwritten⟩ := fileAt_of_copies hfirst hdir hne hok
      refine ⟨content, hcontent, ?_⟩
      rw [(changes_copyEach hmet _).fileAt_eq ?_]
      · exact hwritten
      · rintro _ ⟨other, hmem, dir', hdir', heq⟩
        rw [hplace] at heq
        obtain rfl := hother other (List.mem_cons_of_mem _ hmem) dir' hdir' heq
        exact hnodup.1 hmem
    · have hlater := (List.mem_cons.mp hnames).resolve_left (Ne.symm hsame)
      rw [beforeCopy_cons_of_ne hsame] at hok ⊢
      have hrest := ih hmet hlater (by rwa [hplace, hplace]) hnodup.2
        (fun other hmem dir' hdir' heq => by
          rw [hplace, hplace] at heq
          exact hother other (List.mem_cons_of_mem _ hmem) dir' hdir' heq) hok
      rwa [hplace, hplace] at hrest

end Copies

end BookSite.Migration
