import BookSite.Proofs.Migration.Deposit
import BookSite.Proofs.Migration.FreshTarget
import BookSite.Proofs.Migration.Turns

/-!
# Proofs/Migration/Course — the groups of the files of a book

The pages are converted and then the other files copied, each at its turn: this is the `Course` of a
migration.  It puts each file of the book into one group (`Course.LeadsTo.existsUnique_group`), and
what the report lists is there with what was made of its own source (`Course.LeadsTo.accounts`).
-/

namespace BookSite.Migration

/-! ## The course of a migration -/

/-- **The course of a migration**: pages are converted beginning with some files, and then the files
of the book are copied in the order in which a walk comes to them. -/
structure Course where
  pipeline : Pipeline
  plan : CopyPlan
  /-- the files that the first page meets -/
  begun : FileSystem
  /-- the files of the book that the walk comes to -/
  met : List (List Text)

/-- What becomes of a file of a book. -/
inductive Group where
  | converted
  | failed
  | asset
  | document
  | leftOut
  deriving DecidableEq, Repr

namespace Course

variable (course : Course)

/-- The pages that are converted. -/
def pages : List FileSystem.Found := Migration.pages course.begun course.plan.src

/-- The outcomes of the pages, and the files they leave. -/
def conversion : List PageOutcome × FileSystem :=
  convertEach course.pipeline course.plan.documents course.pages course.begun

/-- The copies made, and the files they leave. -/
def copying : CopiedFiles × FileSystem :=
  copyEach course.plan course.met ({}, course.conversion.2)

/-- The files that a page meets at its turn. -/
def atPage (page : FileSystem.Found) : FileSystem :=
  beforePage course.pipeline course.plan.documents course.pages page course.begun

/-- The files that a file of the book meets when its turn comes to be copied.  One that the walk
does not come to has its turn behind all others. -/
def atCopy (names : List Text) : FileSystem :=
  (beforeCopy course.plan course.met names ({}, course.conversion.2)).2

/-- What becomes of a page at its turn. -/
def outcome (page : FileSystem.Found) : PageOutcome :=
  (convertPageBelow course.pipeline course.plan.documents page (course.atPage page)).1

/-- A page is converted at its turn. -/
def Converts (page : FileSystem.Found) : Prop :=
  ((convertPageTo course.pipeline page.path (pageDest course.plan.documents page)).runOn
    (course.atPage page)).1 = .ok ()

theorem result_outcome_eq_ok_iff {page : FileSystem.Found} {dest : Path} :
    (course.outcome page).result = .ok dest ↔
      dest = pageDest course.plan.documents page ∧ course.Converts page :=
  result_convertPageBelow_eq_ok_iff

/-- **The course that a migration takes** from some files to a report: before the first page only
directories are made. -/
structure LeadsTo (fs : FileSystem) (report : Report) : Prop where
  begun : FileSystem.Changes (fun _ _ => False) fs course.begun
  pages : ConversionReport.ofOutcomes course.conversion.1 = ⟨report.converted, report.failed⟩
  walk : course.plan.copyAll course.conversion.2 = course.copying
  copied : course.copying.1 = report.copied
  nodup : course.met.Nodup
  mem_met : ∀ names, names ∈ course.met ↔ IsMet fs course.plan.src names

/-- **The group of a file of the book.**  It is left out if it is of no sort that is copied, or if
its copy fails. -/
def InGroup (report : Report) (names : List Text) : Group → Prop
  | .converted => course.plan.documents.join (.ofNames names) ∈ report.converted
  | .failed => course.plan.src.joinNames names ∈ report.failed
  | .asset => course.plan.assets.join (.ofNames names) ∈ report.assets
  | .document => course.plan.documents.join (.ofNames names) ∈ report.documents
  | .leftOut => course.plan.kindOf names = .other ∨
      ∃ dir, course.plan.dirFor? (course.plan.kindOf names) = some dir ∧
        copies course.plan dir names (course.atCopy names) = false

/-- **A report accounts for a book**: each file but the outline is in one group, no two of the files
listed have the same place, and each of them holds what was made of its own source, unless it was
replaced afterwards. -/
structure Accounts (fs : FileSystem) (report : Report) (replaced : Path → Prop)
    (fs' : FileSystem) : Prop where
  group : ∀ names, (fs.fileAt (fs.place course.plan.src ++ names)).isSome →
    names ≠ [outlineName] → ∃! group, course.InGroup report names group
  nodup : ((report.converted ++ report.assets ++ report.documents).map fs.place).Nodup
  pages : ∀ dest ∈ report.converted, ∃ page ∈ course.pages,
    dest = pageDest course.plan.documents page ∧ ∃ t converted,
      fs.fileAt (fs.place course.plan.src ++ page.names) = some (.text t) ∧
      course.pipeline.convert (course.atPage page) (some page.path) t = .ok converted ∧
      (¬ replaced dest → fs'.fileAt (fs.place dest) = some (.text converted))
  copied : ∀ kind dir, course.plan.dirFor? kind = some dir →
    ∀ dest ∈ report.copied.ofKind kind, ∃ names content,
      dest = dir.join (.ofNames names) ∧ course.plan.kindOf names = kind ∧
      fs.fileAt (fs.place course.plan.src ++ names) = some content ∧
      fs'.fileAt (fs.place dest) = some content

end Course

/-! ## The sort of a place -/

/-- The sort of the files at a place, by the last name. -/
def kindAt (place : List Text) : FileKind :=
  match place.getLast? with
  | some name => FileKind.classify ⟨name⟩
  | none => .other

/-- **Files keep their sort** wherever they go. -/
theorem kindAt_append (plan : CopyPlan) (before : List Text) {names : List Text}
    (hplain : ∀ n ∈ names, IsPlain n) (hne : names ≠ []) :
    kindAt (before ++ names) = plan.kindOf names := by
  obtain ⟨front, name, rfl⟩ := (List.eq_nil_or_concat' names).resolve_left hne
  have hname : IsPlain name := hplain name (by simp)
  rw [kindAt, CopyPlan.kindOf, FileKind.classify_joinNames _ _ hname, ← List.append_assoc,
    List.getLast?_concat]

/-! ## What the report lists -/

section Reported

variable {course : Course} {fs : FileSystem} {report : Report}
  (h : course.LeadsTo fs report)

include h

theorem Course.LeadsTo.nodup_pages (hordered : fs.root.Ordered) :
    (course.pages.map FileSystem.Found.names).Nodup :=
  Migration.nodup_pages (h.begun.ordered hordered)

/-- The pages are the markdown files of the book. -/
theorem Course.LeadsTo.mem_pages_iff (hordered : fs.root.Ordered)
    (hsrc : fs.isDir course.plan.src = true) {page : FileSystem.Found} :
    page ∈ course.pages ↔ page.path = course.plan.src.joinNames page.names ∧
      fs.fileAt (fs.place course.plan.src ++ page.names) = some page.content ∧
      FileKind.classify page.path = .markdown ∧ page.names ≠ [outlineName] := by
  rw [Course.pages, Migration.mem_pages_iff (h.begun.ordered hordered) (h.begun.isDir hsrc),
    h.begun.place_eq, h.begun.fileAt_eq fun _ hno => hno]

/-- The outcomes are those of the pages at their turns. -/
theorem Course.LeadsTo.mem_outcomes_iff (hordered : fs.root.Ordered) {outcome : PageOutcome} :
    outcome ∈ course.conversion.1 ↔ ∃ page ∈ course.pages, outcome = course.outcome page :=
  mem_convertEach_iff (h.nodup_pages hordered).of_map

/-- **The pages listed as converted** are those that are converted at their turns. -/
theorem Course.LeadsTo.mem_converted_iff (hordered : fs.root.Ordered) {dest : Path} :
    dest ∈ report.converted ↔ ∃ page ∈ course.pages,
      dest = pageDest course.plan.documents page ∧ course.Converts page := by
  have hlist : report.converted = (course.conversion.1.filterMap fun outcome =>
      outcome.result.toOption).mergeSort Path.le := (congrArg (·.converted) h.pages).symm
  have hdest : ∀ page, (course.outcome page).result.toOption = some dest ↔
      dest = pageDest course.plan.documents page ∧ course.Converts page := fun page => by
    refine Iff.trans ?_ course.result_outcome_eq_ok_iff
    rcases (course.outcome page).result with e | found
    · exact ⟨fun hnone => (by cases hnone), fun herror => (by cases herror)⟩
    · exact ⟨fun hsome => congrArg Except.ok (Option.some.inj hsome), fun hok => by cases hok; rfl⟩
  rw [hlist, List.mem_mergeSort, List.mem_filterMap]
  simp only [h.mem_outcomes_iff hordered, ← hdest]
  constructor
  · rintro ⟨_, ⟨page, hpage, rfl⟩, hfound⟩
    exact ⟨page, hpage, hfound⟩
  · rintro ⟨page, hpage, hfound⟩
    exact ⟨_, ⟨page, hpage, rfl⟩, hfound⟩

/-- **The pages listed as failed** are the others. -/
theorem Course.LeadsTo.mem_failed_iff (hordered : fs.root.Ordered) {path : Path} :
    path ∈ report.failed ↔ ∃ page ∈ course.pages, path = page.path ∧ ¬ course.Converts page := by
  have hlist : report.failed = course.conversion.1.filterMap fun outcome =>
      if outcome.result.isOk then none else some outcome.page :=
    (congrArg (·.failed) h.pages).symm
  have hpath : ∀ page, (if (course.outcome page).result.isOk then none
      else some (course.outcome page).page) = some path ↔
        path = page.path ∧ ¬ course.Converts page := fun page => by
    by_cases hconverts : course.Converts page
    · rw [course.result_outcome_eq_ok_iff.mpr ⟨rfl, hconverts⟩]
      exact ⟨fun hnone => (by cases hnone), fun hno => absurd hconverts hno.2⟩
    · have herror : (course.outcome page).result.isOk = false := by
        rcases hresult : (course.outcome page).result with e | dest
        · rfl
        · exact absurd (course.result_outcome_eq_ok_iff.mp hresult).2 hconverts
      rw [herror]
      exact ⟨fun hsome => ⟨(Option.some.inj hsome).symm, hconverts⟩, fun heq => by rw [heq.1]; rfl⟩
  rw [hlist, List.mem_filterMap]
  simp only [h.mem_outcomes_iff hordered, ← hpath]
  constructor
  · rintro ⟨_, ⟨page, hpage, rfl⟩, hfound⟩
    exact ⟨page, hpage, hfound⟩
  · rintro ⟨page, hpage, hfound⟩
    exact ⟨_, ⟨page, hpage, rfl⟩, hfound⟩

/-- **The copies listed** are those of the files that are copied at their turns. -/
theorem Course.LeadsTo.mem_copied_iff {kind : FileKind} {dir dest : Path}
    (hdir : course.plan.dirFor? kind = some dir) :
    dest ∈ report.copied.ofKind kind ↔ ∃ names ∈ course.met,
      course.plan.kindOf names = kind ∧ dest = dir.join (.ofNames names) ∧
        copies course.plan dir names (course.atCopy names) = true := by
  rw [← h.copied, Course.copying, mem_copyEach_iff h.nodup hdir]
  refine or_iff_right fun hnone => ?_
  cases kind <;> cases hnone

end Reported

/-! ## The book while it is migrated -/

section Apart

variable {course : Course} {fs : FileSystem} {report : Report} {base : List Text}
  (hapart : KeepsApart fs course.plan base)

include hapart

variable (hsrc : fs.isDir course.plan.src = true)

include hsrc

variable (h : course.LeadsTo fs report)

include h

namespace Course.LeadsTo

theorem plain_of_mem_pages {page : FileSystem.Found} (hpage : page ∈ course.pages) :
    (∀ n ∈ page.names, IsPlain n) ∧ page.names ≠ [] := by
  obtain ⟨-, hfile, -⟩ := (h.mem_pages_iff hapart.ordered hsrc).mp hpage
  exact hapart.names_plain hsrc (by rw [hfile]; rfl)

/-- The sort of a page is that of its names. -/
theorem kindOf_page {page : FileSystem.Found} (hpage : page ∈ course.pages) :
    course.plan.kindOf page.names = .markdown := by
  obtain ⟨hpath, -, hkind, -⟩ := (h.mem_pages_iff hapart.ordered hsrc).mp hpage
  rwa [CopyPlan.kindOf, ← hpath]

/-- Where a page goes. -/
theorem place_pageDest {page : FileSystem.Found} (hpage : page ∈ course.pages) :
    fs.place (pageDest course.plan.documents page) =
      fs.place course.plan.documents ++ page.names :=
  fs.place_join_ofNames _ (h.plain_of_mem_pages hapart hsrc hpage).1

theorem plain_of_mem_met {names : List Text} (hmet : names ∈ course.met) :
    (∀ n ∈ names, IsPlain n) ∧ names ≠ [] :=
  hapart.names_plain hsrc ((h.mem_met names).mp hmet).file

/-- **Converting pages** writes below the base. -/
theorem changes_pages {pages : List FileSystem.Found} (hpages : pages ⊆ course.pages) :
    FileSystem.Changes (fun y _ => base <+: y) fs
      (convertEach course.pipeline course.plan.documents pages course.begun).2 := by
  refine (h.begun.mono fun _ _ hno => hno.elim).trans
    ((changes_convertEach pages course.begun).mono ?_)
  rintro y _ ⟨page, hpage, rfl⟩
  rw [h.begun.place_eq, h.place_pageDest hapart hsrc (hpages hpage)]
  exact hapart.documents.trans (List.prefix_append _ _)

theorem changes_atPage (page : FileSystem.Found) :
    FileSystem.Changes (fun y _ => base <+: y) fs (course.atPage page) :=
  h.changes_pages hapart hsrc (List.takeWhile_sublist _).subset

theorem changes_conversion :
    FileSystem.Changes (fun y _ => base <+: y) fs course.conversion.2 :=
  h.changes_pages hapart hsrc (List.Subset.refl _)

/-- **Copying files** writes below the base. -/
theorem changes_atCopy (names : List Text) :
    FileSystem.Changes (fun y _ => base <+: y) fs (course.atCopy names) :=
  hapart.changes_copyEach
    (fun _ hmet => (h.plain_of_mem_met hapart hsrc ((List.takeWhile_sublist _).subset hmet)).1)
    (h.changes_conversion hapart hsrc)

theorem changes_copying :
    FileSystem.Changes (fun y _ => base <+: y) fs course.copying.2 :=
  hapart.changes_copyEach (fun _ hmet => (h.plain_of_mem_met hapart hsrc hmet).1)
    (h.changes_conversion hapart hsrc)

/-! ### Groups -/

section Names

variable {names : List Text} (hfile : (fs.fileAt (fs.place course.plan.src ++ names)).isSome)

include hfile

/-- **A file that the walk does not come to** cannot be copied. -/
theorem mem_met_of_copies {dir : Path}
    (hcopies : copies course.plan dir names (course.atCopy names) = true) :
    names ∈ course.met := by
  have hchanges := (h.changes_atCopy hapart hsrc names).trans
    ((changes_makeAbove (dir.join (.ofNames names)) (course.atCopy names)).mono
      fun _ _ hno => hno.elim)
  have hmet : IsMet (makeAbove (dir.join (.ofNames names)) (course.atCopy names)).2
      course.plan.src names :=
    ⟨by rw [hapart.fileAt_source hchanges]; exact hfile, isFile_of_copyTo hcopies⟩
  exact (h.mem_met names).mpr ((hapart.isMet_iff hsrc hchanges).mp hmet)

/-- A file is listed as copied if it is copied at its turn. -/
theorem copied_iff {kind : FileKind} {dir : Path} (hdir : course.plan.dirFor? kind = some dir) :
    dir.join (.ofNames names) ∈ report.copied.ofKind kind ↔ course.plan.kindOf names = kind ∧
      copies course.plan dir names (course.atCopy names) = true := by
  have hplain := (hapart.names_plain hsrc hfile).1
  rw [h.mem_copied_iff hdir]
  constructor
  · rintro ⟨names', hmet, hkind, hdest, hcopies⟩
    have hplace := congrArg fs.place hdest
    rw [fs.place_join_ofNames _ hplain,
      fs.place_join_ofNames _ (h.plain_of_mem_met hapart hsrc hmet).1] at hplace
    obtain rfl := List.append_cancel_left hplace
    exact ⟨hkind, hcopies⟩
  · rintro ⟨hkind, hcopies⟩
    exact ⟨names, h.mem_met_of_copies hapart hsrc hfile hcopies, hkind, rfl, hcopies⟩

/-- A page is listed as converted if it is converted at its turn. -/
theorem converted_iff :
    course.plan.documents.join (.ofNames names) ∈ report.converted ↔
      ∃ page ∈ course.pages, page.names = names ∧ course.Converts page := by
  rw [h.mem_converted_iff hapart.ordered]
  refine exists_congr fun page => and_congr_right fun hpage => and_congr_left fun _ => ?_
  constructor
  · intro hdest
    have hplace := congrArg fs.place hdest
    rw [fs.place_join_ofNames _ (hapart.names_plain hsrc hfile).1,
      h.place_pageDest hapart hsrc hpage] at hplace
    exact (List.append_cancel_left hplace).symm
  · rintro rfl
    rfl

/-- A page is listed as failed if it is not. -/
theorem failed_iff :
    course.plan.src.joinNames names ∈ report.failed ↔
      ∃ page ∈ course.pages, page.names = names ∧ ¬ course.Converts page := by
  rw [h.mem_failed_iff hapart.ordered]
  refine exists_congr fun page => and_congr_right fun hpage => and_congr_left fun _ => ?_
  have hpath := ((h.mem_pages_iff hapart.ordered hsrc).mp hpage).1
  constructor
  · intro heq
    have hplace := congrArg fs.place (heq.trans hpath)
    rw [fs.place_joinNames _ (hapart.names_plain hsrc hfile).1,
      fs.place_joinNames _ (h.plain_of_mem_pages hapart hsrc hpage).1] at hplace
    exact (List.append_cancel_left hplace).symm
  · rintro rfl
    exact hpath.symm

/-- **A page** is converted or fails. -/
theorem inGroup_iff_of_page {page : FileSystem.Found} (hpage : page ∈ course.pages)
    (hnames : page.names = names) [Decidable (course.Converts page)] {group : Group} :
    course.InGroup report names group ↔
      group = if course.Converts page then .converted else .failed := by
  have hkind : course.plan.kindOf names = .markdown := hnames ▸ h.kindOf_page hapart hsrc hpage
  have honly : ∀ other ∈ course.pages, other.names = names → other = page :=
    fun other hother hsame => List.inj_on_of_nodup_map (h.nodup_pages hapart.ordered) hother hpage
      (hsame.trans hnames.symm)
  have hconverted : course.InGroup report names .converted ↔ course.Converts page := by
    refine (h.converted_iff hapart hsrc hfile).trans ⟨?_, fun hyes => ⟨page, hpage, hnames, hyes⟩⟩
    rintro ⟨other, hother, hsame, hyes⟩
    exact honly other hother hsame ▸ hyes
  have hfailed : course.InGroup report names .failed ↔ ¬ course.Converts page := by
    refine (h.failed_iff hapart hsrc hfile).trans ⟨?_, fun hno => ⟨page, hpage, hnames, hno⟩⟩
    rintro ⟨other, hother, hsame, hno⟩
    exact honly other hother hsame ▸ hno
  have hasset : ¬ course.InGroup report names .asset := fun hyes => by
    have hdir : course.plan.dirFor? .asset = some course.plan.assets := rfl
    have := ((h.copied_iff hapart hsrc hfile hdir).mp hyes).1
    rw [hkind] at this
    cases this
  have hdocument : ¬ course.InGroup report names .document := fun hyes => by
    have hdir : course.plan.dirFor? .document = some course.plan.documents := rfl
    have := ((h.copied_iff hapart hsrc hfile hdir).mp hyes).1
    rw [hkind] at this
    cases this
  have hleftOut : ¬ course.InGroup report names .leftOut := by
    rintro (hother | ⟨dir, hdir, -⟩)
    · rw [hkind] at hother
      cases hother
    · rw [hkind] at hdir
      cases hdir
  by_cases hconverts : course.Converts page <;> cases group <;>
    simp [hconverted, hfailed, hasset, hdocument, hleftOut, hconverts]

/-- Only pages are converted, or fail. -/
theorem not_inGroup_of_kind (hkind : course.plan.kindOf names ≠ .markdown) :
    ¬ course.InGroup report names .converted ∧ ¬ course.InGroup report names .failed := by
  have hpage : ∀ page ∈ course.pages, page.names ≠ names := by
    rintro page hpage rfl
    exact hkind (h.kindOf_page hapart hsrc hpage)
  constructor
  · intro hyes
    obtain ⟨page, hmem, hsame, -⟩ := (h.converted_iff hapart hsrc hfile).mp hyes
    exact hpage page hmem hsame
  · intro hyes
    obtain ⟨page, hmem, hsame, -⟩ := (h.failed_iff hapart hsrc hfile).mp hyes
    exact hpage page hmem hsame

/-- **An asset or document** is copied or left out. -/
theorem inGroup_iff_of_copied {kind : FileKind} {dir : Path} {listed : Group}
    (hdir : course.plan.dirFor? kind = some dir)
    (hlisted : kind = .asset ∧ listed = .asset ∨ kind = .document ∧ listed = .document)
    (hkind : course.plan.kindOf names = kind) {group : Group} :
    course.InGroup report names group ↔
      group = if copies course.plan dir names (course.atCopy names) then listed else .leftOut := by
  have hasset : course.InGroup report names .asset ↔ course.plan.kindOf names = .asset ∧
      copies course.plan course.plan.assets names (course.atCopy names) = true :=
    have hdir : course.plan.dirFor? .asset = some course.plan.assets := rfl
    h.copied_iff hapart hsrc hfile hdir
  have hdocument : course.InGroup report names .document ↔ course.plan.kindOf names = .document ∧
      copies course.plan course.plan.documents names (course.atCopy names) = true :=
    have hdir : course.plan.dirFor? .document = some course.plan.documents := rfl
    h.copied_iff hapart hsrc hfile hdir
  obtain ⟨hconverted, hfailed⟩ : ¬ course.InGroup report names .converted ∧
      ¬ course.InGroup report names .failed :=
    h.not_inGroup_of_kind hapart hsrc hfile fun hpage => by
      rcases hlisted with ⟨rfl, -⟩ | ⟨rfl, -⟩ <;> simp [hpage] at hkind
  have hleftOut : course.InGroup report names .leftOut ↔
      copies course.plan dir names (course.atCopy names) = false := by
    rw [Course.InGroup, hkind, hdir]
    constructor
    · rintro (rfl | ⟨_, heq, hfails⟩)
      · cases hdir
      · cases heq
        exact hfails
    · exact fun hfails => .inr ⟨dir, rfl, hfails⟩
  rcases hlisted with ⟨rfl, rfl⟩ | ⟨rfl, rfl⟩ <;> cases hdir <;>
    rcases hcopies : copies course.plan _ names (course.atCopy names) <;> cases group <;>
    simp [hconverted, hfailed, hasset, hdocument, hleftOut, hkind, hcopies]

/-- **Everything else** is left out. -/
theorem inGroup_iff_of_other (hkind : course.plan.kindOf names = .other) {group : Group} :
    course.InGroup report names group ↔ group = .leftOut := by
  have hcopied : ∀ kind dir, course.plan.dirFor? kind = some dir →
      dir.join (.ofNames names) ∉ report.copied.ofKind kind := fun kind dir hdir hmem => by
    rw [← ((h.copied_iff hapart hsrc hfile hdir).mp hmem).1, hkind] at hdir
    cases hdir
  obtain ⟨hconverted, hfailed⟩ : ¬ course.InGroup report names .converted ∧
      ¬ course.InGroup report names .failed :=
    h.not_inGroup_of_kind hapart hsrc hfile (by simp [hkind])
  have hasset : ¬ course.InGroup report names .asset := hcopied .asset _ rfl
  have hdocument : ¬ course.InGroup report names .document := hcopied .document _ rfl
  have hleftOut : course.InGroup report names .leftOut := .inl hkind
  cases group <;> simp [hconverted, hfailed, hasset, hdocument, hleftOut]

/-- **One group for each file** but the outline. -/
theorem existsUnique_group (houtline : names ≠ [outlineName]) :
    ∃! group, course.InGroup report names group := by
  classical
  obtain ⟨chosen, hchosen⟩ : ∃ chosen, ∀ group, course.InGroup report names group ↔
      group = chosen := by
    rcases hkind : course.plan.kindOf names
    case markdown =>
      obtain ⟨content, hcontent⟩ := Option.isSome_iff_exists.mp hfile
      have hpage : ⟨course.plan.src.joinNames names, names, content⟩ ∈ course.pages :=
        (h.mem_pages_iff hapart.ordered hsrc).mpr ⟨rfl, hcontent, hkind, houtline⟩
      exact ⟨_, fun _ => h.inGroup_iff_of_page hapart hsrc hfile hpage rfl⟩
    case asset =>
      exact ⟨_, fun _ => h.inGroup_iff_of_copied hapart hsrc hfile rfl (.inl ⟨rfl, rfl⟩) hkind⟩
    case document =>
      exact ⟨_, fun _ => h.inGroup_iff_of_copied hapart hsrc hfile rfl (.inr ⟨rfl, rfl⟩) hkind⟩
    case other => exact ⟨_, fun _ => h.inGroup_iff_of_other hapart hsrc hfile hkind⟩
  exact ⟨chosen, (hchosen chosen).mpr rfl, fun group => (hchosen group).mp⟩

end Names

/-! ### Places -/

/-- The files listed keep the sort of their sources. -/
theorem kindAt_converted {dest : Path} (hdest : dest ∈ report.converted) :
    kindAt (fs.place dest) = .markdown := by
  obtain ⟨page, hpage, rfl, -⟩ := (h.mem_converted_iff hapart.ordered).mp hdest
  obtain ⟨hplain, hne⟩ := h.plain_of_mem_pages hapart hsrc hpage
  rw [h.place_pageDest hapart hsrc hpage, kindAt_append course.plan _ hplain hne]
  exact h.kindOf_page hapart hsrc hpage

theorem kindAt_copied {kind : FileKind} {dir dest : Path}
    (hdir : course.plan.dirFor? kind = some dir) (hdest : dest ∈ report.copied.ofKind kind) :
    kindAt (fs.place dest) = kind := by
  obtain ⟨names, hmet, hkind, rfl, -⟩ := (h.mem_copied_iff hdir).mp hdest
  obtain ⟨hplain, hne⟩ := h.plain_of_mem_met hapart hsrc hmet
  rw [fs.place_join_ofNames _ hplain, kindAt_append course.plan _ hplain hne, hkind]

theorem nodup_converted : (report.converted.map fs.place).Nodup := by
  have hlist : report.converted = (course.conversion.1.filterMap fun outcome =>
      outcome.result.toOption).mergeSort Path.le := (congrArg (·.converted) h.pages).symm
  have hall : ((course.pages.map (pageDest course.plan.documents)).map fs.place).Nodup := by
    have heq : (course.pages.map (pageDest course.plan.documents)).map fs.place =
        (course.pages.map FileSystem.Found.names).map (fs.place course.plan.documents ++ ·) := by
      rw [List.map_map, List.map_map]
      exact List.map_congr_left fun page hpage => h.place_pageDest hapart hsrc hpage
    rw [heq]
    exact (h.nodup_pages hapart.ordered).map (List.append_right_injective _)
  rw [hlist, ((List.mergeSort_perm _ _).map fs.place).nodup_iff]
  exact hall.sublist ((sublist_convertEach course.pages course.begun).map _)

theorem nodup_copied {kind : FileKind} {dir : Path} (hdir : course.plan.dirFor? kind = some dir) :
    ((report.copied.ofKind kind).map fs.place).Nodup := by
  have hsublist := sublist_copyEach hdir course.met ({}, course.conversion.2)
  have hnone : ({} : CopiedFiles).ofKind kind = [] := by cases kind <;> rfl
  rw [hnone, List.nil_append] at hsublist
  rw [← h.copied, Course.copying]
  refine List.Nodup.sublist (hsublist.map fs.place) ?_
  have heq : ((course.met.filter fun names => course.plan.kindOf names = kind).map
      fun names => dir.join (.ofNames names)).map fs.place =
        (course.met.filter fun names => course.plan.kindOf names = kind).map
          (fs.place dir ++ ·) := by
    rw [List.map_map]
    refine List.map_congr_left fun names hnames => fs.place_join_ofNames _ ?_
    exact (h.plain_of_mem_met hapart hsrc (List.mem_filter.mp hnames).1).1
  rw [heq]
  exact (h.nodup.filter _).map (List.append_right_injective _)

/-- **No two files listed** have the same place. -/
theorem nodup_listed :
    ((report.converted ++ report.assets ++ report.documents).map fs.place).Nodup := by
  have hconverted : ∀ y ∈ report.converted.map fs.place, kindAt y = .markdown :=
    List.forall_mem_map.mpr fun _ hdest => h.kindAt_converted hapart hsrc hdest
  have hassets : ∀ y ∈ report.assets.map fs.place, kindAt y = .asset :=
    List.forall_mem_map.mpr fun _ hdest => h.kindAt_copied hapart hsrc rfl hdest
  have hdocuments : ∀ y ∈ report.documents.map fs.place, kindAt y = .document :=
    List.forall_mem_map.mpr fun _ hdest => h.kindAt_copied hapart hsrc rfl hdest
  rw [List.map_append, List.map_append, List.nodup_append, List.nodup_append]
  have hassetDir : course.plan.dirFor? .asset = some course.plan.assets := rfl
  have hdocumentDir : course.plan.dirFor? .document = some course.plan.documents := rfl
  refine ⟨⟨h.nodup_converted hapart hsrc, h.nodup_copied hapart hsrc hassetDir, ?_⟩,
    h.nodup_copied hapart hsrc hdocumentDir, ?_⟩
  · rintro y hy _ hy' rfl
    simpa [hconverted y hy] using hassets y hy'
  · rintro y hy _ hy' rfl
    rcases List.mem_append.mp hy with hy | hy
    · simpa [hconverted y hy] using hdocuments y hy'
    · simpa [hassets y hy] using hdocuments y hy'

/-! ### Contents -/

/-- **A page that is converted** is there with what its own source was converted to. -/
theorem fileAt_converted {page : FileSystem.Found} (hpage : page ∈ course.pages)
    (hconverts : course.Converts page) :
    ∃ t converted, fs.fileAt (fs.place course.plan.src ++ page.names) = some (.text t) ∧
      course.pipeline.convert (course.atPage page) (some page.path) t = .ok converted ∧
      course.copying.2.fileAt (fs.place (pageDest course.plan.documents page)) =
        some (.text converted) := by
  have hpath := ((h.mem_pages_iff hapart.ordered hsrc).mp hpage).1
  obtain ⟨hplain, hne⟩ := h.plain_of_mem_pages hapart hsrc hpage
  have hconversion := h.changes_conversion hapart hsrc
  have hplaces : course.pages.map (fun page =>
      course.begun.place (pageDest course.plan.documents page)) =
        (course.pages.map FileSystem.Found.names).map (fs.place course.plan.documents ++ ·) := by
    rw [List.map_map]
    refine List.map_congr_left fun page hpage => ?_
    rw [h.begun.place_eq]
    exact h.place_pageDest hapart hsrc hpage
  obtain ⟨converted, hconverted, hwritten⟩ := fileAt_of_convertEach
    (hplaces ▸ (h.nodup_pages hapart.ordered).map (List.append_right_injective _)) hpage hconverts
  obtain ⟨t, hread, hconvert⟩ := exists_of_convertedPage hconverted
  refine ⟨t, converted, ?_, hconvert, ?_⟩
  · rw [hpath, FileSystem.place_joinNames _ _ hplain] at hread
    exact (hapart.fileAt_source (h.changes_atPage hapart hsrc page) page.names).symm.trans hread
  · rw [h.begun.place_eq] at hwritten
    refine Eq.trans ?_ hwritten
    refine (changes_copyEach (fun names hmet => (h.plain_of_mem_met hapart hsrc hmet).1)
      ({}, course.conversion.2)).fileAt_eq ?_
    rintro _ ⟨names, hmet, dir, hdir, heq⟩
    obtain ⟨hplain', hne'⟩ := h.plain_of_mem_met hapart hsrc hmet
    have hkind := congrArg kindAt heq
    rw [h.place_pageDest hapart hsrc hpage, kindAt_append course.plan _ hplain hne,
      kindAt_append course.plan _ hplain' hne', h.kindOf_page hapart hsrc hpage] at hkind
    rw [← hkind] at hdir
    cases hdir

/-- **A file that is copied** is there with its own bytes. -/
theorem fileAt_copied {names : List Text} {dir : Path} (hmet : names ∈ course.met)
    (hdir : course.plan.dirFor? (course.plan.kindOf names) = some dir)
    (hcopies : copies course.plan dir names (course.atCopy names) = true) :
    ∃ content, fs.fileAt (fs.place course.plan.src ++ names) = some content ∧
      course.copying.2.fileAt (fs.place (dir.join (.ofNames names))) = some content := by
  have hconversion := h.changes_conversion hapart hsrc
  obtain ⟨hplain, hne⟩ := h.plain_of_mem_met hapart hsrc hmet
  have hplaces : ∀ p, course.conversion.2.place p = fs.place p := hconversion.place_eq
  have hother : ∀ other ∈ course.met, ∀ dir',
      course.plan.dirFor? (course.plan.kindOf other) = some dir' →
        fs.place dir ++ names = fs.place dir' ++ other → other = names := by
    intro other hother dir' hdir' heq
    obtain ⟨hplain', hne'⟩ := h.plain_of_mem_met hapart hsrc hother
    have hkind := congrArg kindAt heq
    rw [kindAt_append course.plan _ hplain hne, kindAt_append course.plan _ hplain' hne'] at hkind
    rw [← hkind, hdir] at hdir'
    cases hdir'
    exact (List.append_cancel_left heq).symm
  have hbegin : ∀ p, (({}, course.conversion.2) : CopiedFiles × FileSystem).2.place p =
      fs.place p := hplaces
  obtain ⟨content, hread, hwritten⟩ := fileAt_of_copyEach
    (fun names hmet => (h.plain_of_mem_met hapart hsrc hmet).1) hdir hmet
    (by simpa only [hbegin] using hapart.append_ne hdir names) h.nodup
    (by simpa only [hbegin] using hother) hcopies
  rw [hplaces] at hread hwritten
  have hsource := hapart.fileAt_source (h.changes_atCopy hapart hsrc names) names
  rw [(h.changes_atCopy hapart hsrc names).place_eq] at hsource
  refine ⟨content, hsource.symm.trans hread, ?_⟩
  rw [fs.place_join_ofNames _ hplain]
  exact hwritten

/-- **The report accounts for the book** when all files are copied, and later too as long as nothing
listed is written over. -/
theorem accounts {W : List Text → Content → Prop} {replaced : Path → Prop} {fs' : FileSystem}
    (hlater : FileSystem.Changes W course.copying.2 fs')
    (hpages : ∀ dest ∈ report.converted, ¬ replaced dest → ∀ content, ¬ W (fs.place dest) content)
    (hcopied : ∀ kind dir, course.plan.dirFor? kind = some dir →
      ∀ dest ∈ report.copied.ofKind kind, ∀ content, ¬ W (fs.place dest) content) :
    course.Accounts fs report replaced fs' where
  group _ hfile houtline := h.existsUnique_group hapart hsrc hfile houtline
  nodup := h.nodup_listed hapart hsrc
  pages dest hdest := by
    obtain ⟨page, hpage, rfl, hconverts⟩ := (h.mem_converted_iff hapart.ordered).mp hdest
    obtain ⟨t, converted, hread, hconvert, hwritten⟩ :=
      h.fileAt_converted hapart hsrc hpage hconverts
    refine ⟨page, hpage, rfl, t, converted, hread, hconvert, fun hkept => ?_⟩
    rw [hlater.fileAt_eq (hpages _ hdest hkept)]
    exact hwritten
  copied kind dir hdir dest hdest := by
    obtain ⟨names, hmet, rfl, rfl, hcopies⟩ := (h.mem_copied_iff hdir).mp hdest
    obtain ⟨content, hread, hwritten⟩ := h.fileAt_copied hapart hsrc hmet hdir hcopies
    refine ⟨names, content, rfl, rfl, hread, ?_⟩
    rw [hlater.fileAt_eq (hcopied _ dir hdir _ hdest)]
    exact hwritten

end Course.LeadsTo

end Apart

end BookSite.Migration
