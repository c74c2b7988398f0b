import BookSite.Proofs.Files.CreatedDirectories
import BookSite.Proofs.Migration.Accounting
import BookSite.Proofs.Migration.PageOrder

/-!
# Proofs/Migration/Layout — what a book yields, and where it goes

A book yields the same files wherever they go: its pages as they are converted, its assets and
documents as they are (`Yields`).  A **layout** says which names lead from a target to the pages and
documents and which to the assets.  Where there is room for all of them, exactly these files are
there at the end (`Lays.fileAt_iff`), and the pages that fail are those that cannot be converted
(`Lays.failed_eq`).
-/

namespace BookSite.Migration

/-! ## Layouts -/

/-- **Where files go below a target**: the names that lead to pages and documents, and those that
lead to assets. -/
structure Layout where
  pages : List Text
  assets : List Text
  plain : ∀ n ∈ pages ++ assets, IsPlain n
  short : ∀ n ∈ pages ++ assets, FileSystem.byteCount n ≤ FileSystem.maxNameBytes

namespace Layout

/-- All files go into the target itself. -/
def flat : Layout := ⟨[], [], by decide, by decide⟩

/-- The files of a site. -/
def site : Layout := ⟨["docs".toList], ["docs".toList, "public".toList], by decide, by decide⟩

variable (layout : Layout) {names : List Text}

/-- The names that lead to the files of a sort. -/
def front (kind : FileKind) : List Text := if kind = .asset then layout.assets else layout.pages

/-- **The names that lead to a file of the book** from the target. -/
def within (names : List Text) : List Text := layout.front (kindAt names) ++ names

/-- Where a file of the book goes. -/
def dest (target : Path) (names : List Text) : Path := target.join (.ofNames (layout.within names))

/-- Where the files of a book are copied to. -/
def plan (src target : Path) : CopyPlan where
  src
  assets := target.joinNames layout.assets
  documents := target.joinNames layout.pages

theorem plain_pages : ∀ n ∈ layout.pages, IsPlain n := fun n hn =>
  layout.plain n (List.mem_append_left _ hn)

theorem plain_assets : ∀ n ∈ layout.assets, IsPlain n := fun n hn =>
  layout.plain n (List.mem_append_right _ hn)

theorem front_subset (kind : FileKind) : layout.front kind ⊆ layout.pages ++ layout.assets := by
  rw [front]
  split
  · exact List.subset_append_right _ _
  · exact List.subset_append_left _ _

theorem plain_front (kind : FileKind) : ∀ n ∈ layout.front kind, IsPlain n := fun n hn =>
  layout.plain n (layout.front_subset kind hn)

theorem short_within (hshort : ∀ n ∈ names, FileSystem.byteCount n ≤ FileSystem.maxNameBytes) :
    ∀ n ∈ layout.within names, FileSystem.byteCount n ≤ FileSystem.maxNameBytes :=
  List.forall_mem_append.mpr ⟨fun n hn => layout.short n (layout.front_subset _ hn), hshort⟩

theorem plain_within (hplain : ∀ n ∈ names, IsPlain n) : ∀ n ∈ layout.within names, IsPlain n :=
  List.forall_mem_append.mpr ⟨layout.plain_front _, hplain⟩

/-- Files keep their sort in a layout. -/
theorem kindAt_within (hne : names ≠ []) : kindAt (layout.within names) = kindAt names := by
  rw [within, kindAt, kindAt, List.getLast?_append_of_ne_nil _ hne]

theorem kindOf_eq (plan : CopyPlan) (hplain : ∀ n ∈ names, IsPlain n) (hne : names ≠ []) :
    plan.kindOf names = kindAt names := (kindAt_append plan [] hplain hne).symm

/-- **Copies go where the layout says.** -/
theorem dest_eq_of_dirFor? {src target dir : Path} (hplain : ∀ n ∈ names, IsPlain n)
    (hne : names ≠ []) (hdir : (layout.plan src target).dirFor? (kindAt names) = some dir) :
    dir.join (.ofNames names) = layout.dest target names := by
  have hfront : dir = target.joinNames (layout.front (kindAt names)) := by
    rw [front]
    rcases hkind : kindAt names <;> rw [hkind] at hdir <;> cases hdir <;> rfl
  rw [hfront, Path.join_joinNames_ofNames _ (layout.plain_front _) hplain hne]
  rfl

/-- **Pages go where the layout says.** -/
theorem pageDest_eq {target : Path} {page : FileSystem.Found} (hplain : ∀ n ∈ page.names, IsPlain n)
    (hne : page.names ≠ []) (hkind : kindAt page.names = .markdown) :
    pageDest (target.joinNames layout.pages) page = layout.dest target page.names := by
  rw [pageDest, Path.join_joinNames_ofNames _ layout.plain_pages hplain hne, dest, within, front,
    hkind]
  rfl

theorem place_dest (fs : FileSystem) (target : Path) (hplain : ∀ n ∈ names, IsPlain n) :
    fs.place (layout.dest target names) = fs.place target ++ layout.within names :=
  fs.place_join_ofNames _ (layout.plain_within hplain)

/-- **A layout keeps the files of a book apart** from each other. -/
def Separates (fs : FileSystem) (src : Path) : Prop :=
  ∀ names names', (fs.fileAt (fs.place src ++ names)).isSome →
    (fs.fileAt (fs.place src ++ names')).isSome → names ≠ names' →
      Apart (layout.within names) (layout.within names')

theorem separates_flat (fs : FileSystem) (src : Path) : flat.Separates fs src :=
  fun names names' hfile hfile' hne => by
    have hwithin : ∀ names, flat.within names = names := fun names => by
      rw [within, front]
      split <;> rfl
    rw [hwithin, hwithin]
    exact apart_of_files hfile hfile' hne

/-- What begins with a name at the top lies below it. -/
theorem has_top {fs : FileSystem} {src : Path} {name : Text} {more names : List Text}
    (hfile : (fs.fileAt (fs.place src ++ names)).isSome) (hbegin : name :: more <+: names) :
    fs.Has (fs.place src ++ [name]) := by
  obtain ⟨rest, rfl⟩ := hbegin
  have hhas : fs.Has ((fs.place src ++ [name]) ++ (more ++ rest)) := by
    rw [List.append_assoc, List.singleton_append]
    exact FileSystem.has_iff.mpr (.inl hfile)
  exact FileSystem.has_of_has_append hhas

/-- **A site keeps its files apart** if the book has nothing called `public` at the top. -/
theorem separates_site {fs : FileSystem} {src : Path}
    (hpublic : ¬ fs.Has (fs.place src ++ ["public".toList])) : site.Separates fs src := by
  -- An asset and another file could only meet in the directory of the assets.
  have hmixed : ∀ asset other, (fs.fileAt (fs.place src ++ other)).isSome → Apart asset other →
      Apart ("public".toList :: asset) other := fun asset other hother hapart => by
    refine ⟨fun hbegin => hpublic (has_top hother hbegin), fun hbegin => ?_⟩
    rcases other with _ | ⟨name, other⟩
    · exact hapart.right List.nil_prefix
    · obtain ⟨rfl, -⟩ := List.cons_prefix_cons.mp hbegin
      exact hpublic (has_top hother (List.prefix_refl _))
  intro names names' hfile hfile' hne
  have hapart := apart_of_files hfile hfile' hne
  have hapart' := apart_of_files hfile' hfile hne.symm
  rw [within, within, front, front]
  split <;> split
  · exact hapart.append_left _
  · exact (hmixed names names' hfile' hapart).append_left ["docs".toList]
  · have hsame := (hmixed names' names hfile hapart').append_left ["docs".toList]
    exact ⟨hsame.right, hsame.left⟩
  · exact hapart.append_left _

end Layout

/-! ## Room for a book -/

/-- **Room for a book** in a layout at a target: nothing is below the target, its path does not lead
through it, and no path to be written is too long. -/
structure HasRoom (fs : FileSystem) (src target : Path) (layout : Layout) : Prop where
  empty : ∀ names, names ≠ [] → ¬ fs.Has (fs.place target ++ names)
  way : ∀ y ∈ entered (fs.origin target) target.segments, fs.place target <+: y →
    y = fs.place target
  usable : ∀ found ∈ fs.allFiles src, kindAt found.names ≠ .other →
    FileSystem.IsUsable (layout.dest target found.names)

/-- **What the first page meets**: the target is there, and beside the way to it nothing is new but
directories at places of no sort. -/
structure Begins (fs : FileSystem) (target : Path) (begun : FileSystem) : Prop where
  changes : FileSystem.Changes (fun _ _ => False) fs begun
  opens : begun.Opens (fs.origin target) target.segments
  dirs : ∀ y, begun.IsDirAt y → fs.IsDirAt y ∨ y ∈ entered (fs.origin target) target.segments ∨
    ∃ names, kindAt names = .other ∧ y = fs.place target ++ names

theorem isShort_append (place : List Text) {names : List Text} (hne : names ≠ [])
    (hshort : ∀ n ∈ names, FileSystem.byteCount n ≤ FileSystem.maxNameBytes) :
    FileSystem.IsShort (place ++ names) := by
  obtain ⟨front, name, rfl⟩ := (List.eq_nil_or_concat' names).resolve_left hne
  rw [← List.append_assoc, FileSystem.isShort_concat]
  exact hshort name (by simp)

section Begins

variable {fs begun : FileSystem} {target : Path} (h : Begins fs target begun)

include h

theorem Begins.sameBeside : SameBeside fs target begun where
  workDir := h.changes.workDir
  dir := h.changes.dir
  agreeAt y hbelow hway := by
    have hfile : begun.fileAt y = fs.fileAt y := h.changes.fileAt_eq fun _ hno => hno
    refine ⟨hfile, fun hdir => ?_, h.changes.dir y⟩
    obtain hold | hentered | ⟨names, -, rfl⟩ := h.dirs y hdir
    · exact hold
    · refine (FileSystem.has_iff.mp (hway hentered)).resolve_left ?_
      rw [← hfile, hdir.fileAt_eq_none]
      exact Bool.false_ne_true
    · exact absurd (List.prefix_append _ _) hbelow

section Room

variable {src : Path} {layout : Layout} (hroom : HasRoom fs src target layout) {names : List Text}

include hroom

theorem Begins.fileAt_eq_none (hne : names ≠ []) :
    begun.fileAt (fs.place target ++ names) = none := by
  rw [h.changes.fileAt_eq fun _ hno => hno]
  by_contra hsome
  exact hroom.empty names hne (FileSystem.has_iff.mpr (.inl (Option.isSome_iff_ne_none.mpr hsome)))

omit h in
theorem HasRoom.not_mem_entered (hne : names ≠ []) :
    fs.place target ++ names ∉ entered (fs.origin target) target.segments := fun hmem =>
  hne (by simpa using hroom.way _ hmem (List.prefix_append _ _))

/-- No directory has the place of a file of the book. -/
theorem Begins.not_isDirAt (hkind : kindAt names ≠ .other) :
    ¬ begun.IsDirAt (fs.place target ++ names) := by
  have hne : names ≠ [] := fun hnil => hkind (by rw [hnil]; rfl)
  intro hdir
  obtain hold | hentered | ⟨others, hother, heq⟩ := h.dirs _ hdir
  · exact hroom.empty names hne (FileSystem.has_iff.mpr (.inr hold))
  · exact hroom.not_mem_entered hne hentered
  · exact hkind (List.append_cancel_left heq ▸ hother)

/-- **Every file of the book fits** where there is room for it. -/
theorem Begins.fits (hplain : ∀ n ∈ names, IsPlain n) (hkind : kindAt names ≠ .other)
    (hshort : ∀ n ∈ names, FileSystem.byteCount n ≤ FileSystem.maxNameBytes)
    (husable : FileSystem.IsUsable (target.join (.ofNames names))) :
    begun.Fits (target.join (.ofNames names)) := by
  have hne : names ≠ [] := fun hnil => hkind (by rw [hnil]; rfl)
  have horigin : begun.origin target = fs.origin target := h.changes.origin_eq target
  have hplace : begun.place (target.join (.ofNames names)) = fs.place target ++ names := by
    rw [begun.place_join_ofNames _ hplain, h.changes.place_eq]
  refine ⟨husable, ?_, fun y hy => ?_, ?_, ?_, fun hmem => ?_⟩
  · rw [FileSystem.origin, (Path.exists_segments_join target
      (Path.isAbsolute_ofNames hplain)).1, ← FileSystem.origin, horigin]
    exact h.opens.1
  · rw [mem_above_join hplain hne, horigin, h.changes.place_eq] at hy
    rw [FileSystem.isFree_iff]
    obtain hway | ⟨front, hfront, hbefore, rfl⟩ := hy
    · exact (h.opens.2 y hway).imp_left FileSystem.IsDirAt.fileAt_eq_none
    · exact ⟨h.fileAt_eq_none hroom hfront, isShort_append _ hfront fun n hn =>
        hshort n ((List.dropLast_prefix names).subset (hbefore.subset hn))⟩
  · rw [hplace]
    exact isShort_append _ hne hshort
  · rw [hplace]
    exact h.not_isDirAt hroom hkind
  · rw [hplace, mem_above_join hplain hne, horigin, h.changes.place_eq] at hmem
    obtain hway | ⟨front, -, hbefore, heq⟩ := hmem
    · exact hroom.not_mem_entered hne hway
    · obtain rfl := List.append_cancel_left heq
      have hlength := hbefore.length_le
      rw [List.length_dropLast] at hlength
      have := List.length_pos_of_ne_nil hne
      omega

end Room

end Begins

/-! ## What a book yields -/

/-- **A file that a book yields**, whatever the layout: a page as it is converted, or an asset or
document as it is. -/
inductive Yields (fs : FileSystem) (pipeline : Pipeline) (src : Path) (names : List Text) :
    Content → Prop
  | page {t : Text} (hkind : kindAt names = .markdown) (hname : names ≠ [outlineName])
      (hmet : IsMet fs src names)
      (hconverted : convertedPage pipeline (src.joinNames names) fs = .ok t) :
      Yields fs pipeline src names (.text t)
  | copy {content : Content} (hkind : kindAt names = .asset ∨ kindAt names = .document)
      (hmet : IsMet fs src names) (hfile : fs.fileAt (fs.place src ++ names) = some content) :
      Yields fs pipeline src names content

theorem Yields.isMet {fs : FileSystem} {pipeline : Pipeline} {src : Path} {names : List Text}
    {content : Content} (h : Yields fs pipeline src names content) : IsMet fs src names := by
  cases h with
  | page hkind hname hmet => exact hmet
  | copy hkind hmet => exact hmet

theorem Yields.kindAt_ne {fs : FileSystem} {pipeline : Pipeline} {src : Path} {names : List Text}
    {content : Content} (h : Yields fs pipeline src names content) : kindAt names ≠ .other := by
  cases h with
  | page hkind => simp [hkind]
  | copy hkind => rcases hkind with hkind | hkind <;> simp [hkind]

/-- **The pages that cannot be converted.** -/
def unconverted (fs : FileSystem) (pipeline : Pipeline) (src : Path) : List Path :=
  (pages fs src).filterMap fun page =>
    if (convertedPage pipeline page.path fs).isOk then none else some page.path

/-! ## Copies -/

/-- What a file of the book is copied to. -/
def copyOf? (plan : CopyPlan) (fs : FileSystem) (names : List Text) : Option (Path × Content) :=
  (plan.dirFor? (plan.kindOf names)).bind fun dir =>
    (fs.fileAt (fs.place plan.src ++ names)).map fun content => (dir.join (.ofNames names), content)

theorem copyOf?_eq_some_iff {plan : CopyPlan} {fs : FileSystem} {names : List Text}
    {copy : Path × Content} :
    copyOf? plan fs names = some copy ↔ ∃ dir content, plan.dirFor? (plan.kindOf names) = some dir ∧
      fs.fileAt (fs.place plan.src ++ names) = some content ∧
        copy = (dir.join (.ofNames names), content) := by
  constructor
  · intro h
    obtain ⟨dir, hdir, hcopy⟩ := Option.bind_eq_some_iff.mp h
    obtain ⟨content, hfile, rfl⟩ := Option.map_eq_some_iff.mp hcopy
    exact ⟨dir, content, hdir, hfile, rfl⟩
  · rintro ⟨dir, content, hdir, hfile, rfl⟩
    rw [copyOf?, hdir, hfile]
    rfl

/-- A file of the book without copy belongs nowhere. -/
theorem dirFor?_eq_none_of_copyOf? {fs : FileSystem} {plan : CopyPlan} {names : List Text}
    (hmet : IsMet fs plan.src names) (h : copyOf? plan fs names = none) :
    plan.dirFor? (plan.kindOf names) = none := by
  obtain ⟨content, hcontent⟩ := Option.isSome_iff_exists.mp hmet.file
  by_contra hsome
  obtain ⟨dir, hdir⟩ := Option.ne_none_iff_exists'.mp hsome
  rw [copyOf?, hdir, hcontent] at h
  cases h

section Copies

variable {fs begun : FileSystem} {plan : CopyPlan} {base : List Text}
  (hapart : KeepsApart fs plan base) (hsrc : fs.isDir plan.src = true)

include hapart hsrc

/-- **A file of the book is copied** by putting it to its place. -/
theorem KeepsApart.copyMet_eq {state : CopiedFiles × FileSystem}
    (hstate : FileSystem.Changes (fun y _ => base <+: y) fs state.2) {names : List Text}
    (hmet : IsMet fs plan.src names) {dir : Path} {content : Content}
    (hdir : plan.dirFor? (plan.kindOf names) = some dir)
    (hfile : fs.fileAt (fs.place plan.src ++ names) = some content) :
    (plan.copyMet names state).2 = (deposit (dir.join (.ofNames names)) content state.2).2 := by
  have hplain := hapart.isPlain_of_isMet hmet
  obtain ⟨found, hnode⟩ :=
    FileSystem.isFile_iff.mp ((hapart.isMet_iff hsrc hstate).mpr hmet).found
  have hfound := FileSystem.fileAt_of_get? (state.2.get?_place_of_node hnode)
  rw [state.2.place_joinNames _ hplain, hapart.fileAt_source hstate, hfile] at hfound
  cases hfound
  have hne : state.2.place (dir.join (.ofNames names)) ≠
      state.2.place (plan.src.joinNames names) := by
    rw [state.2.place_join_ofNames _ hplain, state.2.place_joinNames _ hplain, hstate.place_eq,
      hstate.place_eq]
    exact hapart.append_ne hdir names
  rw [← copyTo_eq_deposit hnode hne, copyMet_of_eq_some hdir]

/-- **Files of the book copied one after another** are put where they belong. -/
theorem KeepsApart.deposited_copyEach {met : List (List Text)}
    (hmet : ∀ names ∈ met, IsMet fs plan.src names ∧ names ≠ [])
    {files : List (Path × Content)} {state : CopiedFiles × FileSystem}
    (hstate : FileSystem.Changes (fun y _ => base <+: y) fs state.2)
    (h : Deposited begun files state.2)
    (hearlier : ∀ file ∈ files, ∀ copy ∈ met.filterMap (copyOf? plan fs),
      Independent begun file.1 copy.1)
    (hindependent : (met.filterMap (copyOf? plan fs)).Pairwise fun copy later =>
      Independent begun copy.1 later.1) :
    Deposited begun (files ++ met.filterMap (copyOf? plan fs)) (copyEach plan met state).2 := by
  induction met generalizing files state with
  | nil =>
    rw [List.filterMap_nil, List.append_nil]
    exact h
  | cons first met ih =>
    obtain ⟨⟨hfirst, hne⟩, hrest⟩ := List.forall_mem_cons.mp hmet
    have hplain := hapart.isPlain_of_isMet hfirst
    have hnext := hapart.changes_copyMet hstate hplain
    rw [copyEach_cons]
    rcases hcopy : copyOf? plan fs first with _ | copy
    · rw [List.filterMap_cons_none hcopy] at hearlier hindependent ⊢
      rw [copyMet_of_eq_none (dirFor?_eq_none_of_copyOf? hfirst hcopy)] at hnext ⊢
      exact ih hrest hnext h hearlier hindependent
    · rw [List.filterMap_cons_some hcopy] at hearlier hindependent ⊢
      obtain ⟨dir, content, hdir, hfile, rfl⟩ := copyOf?_eq_some_iff.mp hcopy
      obtain ⟨hlater, hindependent⟩ := List.pairwise_cons.mp hindependent
      have hput := (h.deposit (fun file hfile => hearlier file hfile _ List.mem_cons_self)
        (namesFile_join dir hplain hne) content).2
      rw [← hapart.copyMet_eq hsrc hstate hfirst hdir hfile] at hput
      rw [List.append_cons]
      refine ih hrest hnext hput (fun file hfile copy hcopy => ?_) hindependent
      rcases List.mem_append.mp hfile with hfile | hfile
      · exact hearlier file hfile copy (List.mem_cons_of_mem _ hcopy)
      · obtain rfl := List.mem_singleton.mp hfile
        exact hlater copy hcopy

end Copies

end BookSite.Migration
