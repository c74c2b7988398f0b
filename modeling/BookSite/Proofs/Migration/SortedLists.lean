import BookSite.Proofs.Files.Extension
import BookSite.Proofs.Files.PathsBelow
import BookSite.Proofs.Migration.FreshTarget
import BookSite.Proofs.Migration.Turns

/-!
# Proofs/Migration/SortedLists — the lists of files are in order

The markdown files of a book and the copies of its other files are listed as a walk comes to them.
A walk goes through each directory by names, so every list is in the strict order of paths without
being sorted (`file_lists_are_in_order`).  For the copies this holds wherever they go, also into a
directory that the walk has still to come to.
-/

namespace BookSite

namespace Migration

/-! ## Markdown files -/

/-- **The name of a markdown file**: something, a dot and `md` in any letter case. -/
def IsMarkdownName (name : Text) : Prop :=
  ∃ stem extension : Text,
    stem ≠ [] ∧ name = stem ++ '.' :: extension ∧ extension.toLower = "md".toList

/-- **A markdown file below a directory**, by the names that lead to it. -/
structure IsMarkdownBelow (fs : FileSystem) (dir : Path) (names : List Text) : Prop where
  file : (fs.fileAt (fs.place dir ++ names)).isSome
  named : ∃ name, names.getLast? = some name ∧ IsMarkdownName name

/-- The extension of a markdown file has no dot. -/
theorem dot_not_mem_of_toLower {extension : Text} (h : extension.toLower = "md".toList) :
    '.' ∉ extension := fun hdot => by
  have hmem : Char.toLower '.' ∈ extension.toLower := List.mem_map_of_mem hdot
  rw [h] at hmem
  exact absurd hmem (by decide)

theorem classify_eq_markdown_iff_isMarkdownName {p : Path} {name : Text}
    (h : p.fileName? = some name) : FileKind.classify p = .markdown ↔ IsMarkdownName name := by
  rw [FileKind.classify_eq_markdown_iff]
  constructor
  · rintro ⟨extension, hextension, hlower⟩
    obtain ⟨stem, hstem, hname, -⟩ := Path.extension?_eq_some_iff.mp hextension
    exact ⟨stem, extension, hstem, Option.some.inj (h.symm.trans hname), hlower⟩
  · rintro ⟨stem, extension, hstem, rfl, hlower⟩
    exact ⟨extension, Path.extension?_eq_some_iff.mpr
      ⟨stem, hstem, h, dot_not_mem_of_toLower hlower⟩, hlower⟩

/-- The paths of the markdown files below a directory, as they are listed. -/
def markdownPaths (fs : FileSystem) (dir : Path) : List Path :=
  (markdownFiles fs dir).map FileSystem.Found.path

section Directory

variable {fs : FileSystem} {dir : Path} (h : fs.IsWalkable dir)

include h

/-- **Every markdown file is listed**, and nothing else. -/
theorem mem_markdownPaths_iff (hdir : fs.isDir dir = true) {p : Path} :
    p ∈ markdownPaths fs dir ↔ ∃ names, IsMarkdownBelow fs dir names ∧ p = dir.joinNames names := by
  have hkind : ∀ names, (fs.fileAt (fs.place dir ++ names)).isSome →
      (FileKind.classify (dir.joinNames names) = .markdown ↔
        ∃ name, names.getLast? = some name ∧ IsMarkdownName name) := fun names hfile => by
    obtain ⟨hnames, hne⟩ := h.plain.names_plain hdir hfile
    obtain ⟨front, name, rfl⟩ := (List.eq_nil_or_concat' names).resolve_left hne
    have hname := Path.fileName?_joinNames dir front (hnames name (by simp))
    rw [classify_eq_markdown_iff_isMarkdownName hname]
    simp
  simp only [markdownPaths, markdownFiles, List.mem_map, List.mem_filter, beq_iff_eq,
    FileSystem.mem_allFiles_iff h.ordered hdir]
  constructor
  · rintro ⟨found, ⟨⟨hpath, hfile⟩, hmarkdown⟩, rfl⟩
    have hsome : (fs.fileAt (fs.place dir ++ found.names)).isSome := by
      rw [hfile]
      rfl
    exact ⟨found.names, ⟨hsome, (hkind _ hsome).mp (hpath ▸ hmarkdown)⟩, hpath⟩
  · rintro ⟨names, ⟨hsome, hnamed⟩, rfl⟩
    obtain ⟨content, hfile⟩ := Option.isSome_iff_exists.mp hsome
    exact ⟨⟨dir.joinNames names, names, content⟩,
      ⟨⟨rfl, hfile⟩, (hkind _ hsome).mpr hnamed⟩, rfl⟩

/-- **Markdown files are listed in order.** -/
theorem increasing_markdownPaths : Path.Increasing (markdownPaths fs dir) :=
  Path.increasing_of_pairwise ((h.pairwise_paths fun _ => true).sublist
    (List.filter_sublist.map _))

end Directory

/-! ## Copies -/

section Copies

variable {plan : CopyPlan}

/-- A copy keeps files so, wherever it goes. -/
theorem isWalkable_copyMet {names : List Text} (hplain : ∀ n ∈ names, IsPlain n)
    {state : CopiedFiles × FileSystem} (h : state.2.IsWalkable plan.src) :
    (plan.copyMet names state).2.IsWalkable plan.src := by
  have hchanges : FileSystem.Changes _ state.2 (plan.copyMet names state).2 :=
    changes_copyMet hplain state
  refine ⟨hchanges.ordered h.ordered, ?_⟩
  rw [hchanges.place_eq]
  exact h.plain.later hchanges

theorem isWalkable_copyEach {met : List (List Text)}
    (hplain : ∀ names ∈ met, ∀ n ∈ names, IsPlain n) {state : CopiedFiles × FileSystem}
    (h : state.2.IsWalkable plan.src) : (copyEach plan met state).2.IsWalkable plan.src := by
  induction met generalizing state with
  | nil => exact h
  | cons names met ih =>
    obtain ⟨hnames, hmet⟩ := List.forall_mem_cons.mp hplain
    exact ih hmet (isWalkable_copyMet hnames h)

/-- **Copies made in order** of files with plain names, all of which lie somewhere. -/
def CopiesInOrder (plan : CopyPlan) (lies : List Text → Prop)
    (before after : CopiedFiles × FileSystem) : Prop :=
  ∃ met, after = copyEach plan met before ∧ met.Pairwise Node.ComesBefore ∧
    ∀ below ∈ met, lies below ∧ ∀ n ∈ below, IsPlain n

/-- **The entries of a directory** are walked through in order, as the directory was when the walk
came to it. -/
theorem copiesInOrder_foldl {depth : Nat} {names : List Text} {entries : List (Text × Node)}
    (horder : Node.InOrder entries)
    (hwalk : ∀ entry ∈ entries, ∀ state : CopiedFiles × FileSystem, state.2.IsWalkable plan.src →
      CopiesInOrder plan (names ++ [entry.1] <+: ·) state
        (plan.walk depth (names ++ [entry.1]) state))
    {state : CopiedFiles × FileSystem} (h : state.2.IsWalkable plan.src) :
    CopiesInOrder plan (fun below => ∃ entry ∈ entries, names ++ [entry.1] <+: below) state
      (entries.foldl (fun state (name, _) => plan.walk depth (names ++ [name]) state) state) := by
  induction entries generalizing state with
  | nil => exact ⟨[], rfl, List.Pairwise.nil, List.forall_mem_nil _⟩
  | cons entry entries ih =>
    obtain ⟨hentry, hentries⟩ := List.forall_mem_cons.mp hwalk
    obtain ⟨hfirst, hothers⟩ := List.pairwise_cons.mp horder
    obtain ⟨met, hmet, hmetOrder, hmetLies⟩ := hentry state h
    obtain ⟨more, hmore, hmoreOrder, hmoreLies⟩ :=
      ih hothers hentries (isWalkable_copyEach (fun below hbelow => (hmetLies below hbelow).2) h)
    refine ⟨met ++ more, ?_, ?_, fun below hbelow => ?_⟩
    · rw [List.foldl_cons, copyEach, List.foldl_append]
      exact (congrArg (fun state => entries.foldl _ state) hmet).trans hmore
    · refine List.pairwise_append.mpr ⟨hmetOrder, hmoreOrder, fun below hbelow later hlater => ?_⟩
      obtain ⟨⟨rest, rfl⟩, -⟩ := hmetLies below hbelow
      obtain ⟨⟨other, hother, rest', rfl⟩, -⟩ := hmoreLies later hlater
      have hlt : compareTexts entry.1 other.1 = .lt :=
        hfirst other.1 (List.mem_map.mpr ⟨other, hother, rfl⟩)
      rw [List.append_assoc, List.append_assoc]
      exact List.Lex.append_left (fun m n => compareTexts m n = .lt) (.rel hlt) names
    · rcases List.mem_append.mp hbelow with hbelow | hbelow
      · exact ⟨⟨entry, List.mem_cons_self, (hmetLies below hbelow).1⟩, (hmetLies below hbelow).2⟩
      · obtain ⟨⟨other, hother, hlies⟩, hplain⟩ := hmoreLies below hbelow
        exact ⟨⟨other, List.mem_cons_of_mem _ hother, hlies⟩, hplain⟩

/-- **A walk makes copies in order**, whatever it has changed before. -/
theorem copiesInOrder_walk (depth : Nat) {names : List Text} (hplain : ∀ n ∈ names, IsPlain n)
    {state : CopiedFiles × FileSystem} (h : state.2.IsWalkable plan.src) :
    CopiesInOrder plan (names <+: ·) state (plan.walk depth names state) := by
  -- The files may change while a directory is walked through, so the hypothesis is about every
  -- state in which they are walkable.
  induction depth generalizing names state with
  | zero => exact ⟨[], rfl, List.Pairwise.nil, List.forall_mem_nil _⟩
  | succ depth ih =>
    rw [CopyPlan.walk]
    split
    · exact ⟨[], rfl, List.Pairwise.nil, List.forall_mem_nil _⟩
    · exact ⟨[names], rfl, List.pairwise_singleton _ _,
        List.forall_mem_singleton.mpr ⟨List.prefix_rfl, hplain⟩⟩
    · rename_i entries hnode
      have hget := state.2.get?_place_of_node hnode
      rw [state.2.place_joinNames _ hplain] at hget
      have hbelow : ∀ entry ∈ entries, ∀ n ∈ names ++ [entry.1], IsPlain n := fun entry hentry => by
        refine h.plain _ ?_
        rw [FileSystem.Has, ← List.append_assoc, Node.get?_concat hget]
        exact List.lookup_isSome_iff.mpr ⟨entry, hentry, by simp⟩
      obtain ⟨met, hmet, hmetOrder, hlies⟩ := copiesInOrder_foldl (h.ordered _ entries hget)
        (fun entry hentry state hstate => ih (hbelow entry hentry) hstate) h
      refine ⟨met, hmet, hmetOrder, fun below hmem => ?_⟩
      obtain ⟨⟨entry, -, hentry⟩, hnames⟩ := hlies below hmem
      exact ⟨(List.prefix_append names [entry.1]).trans hentry, hnames⟩

/-- **Copies are noted in order.** -/
theorem increasing_copyAll {fs : FileSystem} (h : fs.IsWalkable plan.src) (kind : FileKind)
    {dir : Path} (hdir : plan.dirFor? kind = some dir) :
    Path.Increasing ((plan.copyAll fs).1.ofKind kind) := by
  have hwalk : CopiesInOrder plan ([] <+: ·) ({}, fs) (plan.copyAll fs) :=
    copiesInOrder_walk _ (List.forall_mem_nil IsPlain) h
  obtain ⟨met, hmet, horder, hlies⟩ := hwalk
  have hdests : (met.map fun names => dir.join (.ofNames names)).Pairwise Path.Before :=
    List.pairwise_map.mpr (horder.imp_of_mem fun hbelow hlater hbefore =>
      Path.before_join_ofNames (hlies _ hbelow).2 (hlies _ hlater).2 hbefore dir)
  have hnone : CopiedFiles.ofKind {} kind = [] := by cases kind <;> rfl
  have hnoted := sublist_copyEach hdir met ({}, fs)
  rw [← hmet, hnone, List.nil_append] at hnoted
  exact Path.increasing_of_pairwise (hdests.sublist (hnoted.trans (List.filter_sublist.map _)))

end Copies

/-! ## All lists -/

/-- **The lists of files are complete and in order.**  The markdown files below a directory are
listed with no other file, in the strict order of their paths, which sorting leaves as it is.  The
copies of assets and documents are noted in that order too, wherever they go. -/
theorem file_lists_are_in_order {fs : FileSystem} {dir : Path} (h : fs.IsWalkable dir)
    (hdir : fs.isDir dir = true) :
    (∀ p, p ∈ markdownPaths fs dir ↔
        ∃ names, IsMarkdownBelow fs dir names ∧ p = dir.joinNames names) ∧
      Path.Increasing (markdownPaths fs dir) ∧
      (markdownPaths fs dir).mergeSort Path.le = markdownPaths fs dir ∧
      ∀ assets documents : Path,
        Path.Increasing (CopyPlan.copyAll ⟨dir, assets, documents⟩ fs).1.assets ∧
        Path.Increasing (CopyPlan.copyAll ⟨dir, assets, documents⟩ fs).1.documents := by
  have hincreasing := increasing_markdownPaths h
  refine ⟨fun p => mem_markdownPaths_iff h hdir, hincreasing,
    hincreasing.mergeSort_eq, fun assets documents => ?_⟩
  have hwalk : fs.IsWalkable (CopyPlan.mk dir assets documents).src := h
  exact ⟨increasing_copyAll hwalk .asset rfl, increasing_copyAll hwalk .document rfl⟩

/-- **Names in which files and directories mix**: the text `a-b.md` comes before `a/x.md`, the path
behind it; and a directory is named as a markdown file. -/
def mixedNames : FileSystem := filesOfBook
  [("src".toList, .directory
    [("a".toList, .directory [("n.txt".toList, .file .empty), ("x.md".toList, .file .empty)]),
      ("a-b.md".toList, .file .empty), ("a-c.txt".toList, .file .empty),
      ("b.MD".toList, .file .empty),
      ("c.md".toList, .directory [("pic.png".toList, .file .empty)]),
      ("pic.png".toList, .file .empty)])]

theorem file_lists_are_in_order_mixedNames :
    mixedNames.IsWalkable plainBook.src ∧ mixedNames.isDir plainBook.src = true ∧
      markdownPaths mixedNames plainBook.src = [.ofString "book/src/a/x.md",
        .ofString "book/src/a-b.md", .ofString "book/src/b.MD"] ∧
      Path.Increasing (markdownPaths mixedNames plainBook.src) ∧
      ∃ copied : CopiedFiles, (CopyPlan.copyAll ⟨plainBook.src, .ofString "site/public",
          .ofString "site/docs"⟩ mixedNames).1 = copied ∧
        copied.assets =
          [.ofString "site/public/c.md/pic.png", .ofString "site/public/pic.png"] ∧
        Path.Increasing copied.assets ∧
        copied.documents = [.ofString "site/docs/a/n.txt", .ofString "site/docs/a-c.txt"] ∧
        Path.Increasing copied.documents := by
  have hfresh : IsFresh mixedNames plainBook.src (.ofString "site") none :=
    isFresh_filesOfBook (by decide +kernel) (by decide +kernel) fun _ h => by cases h
  have hwalk : mixedNames.IsWalkable plainBook.src := ⟨hfresh.ordered, hfresh.plain⟩
  have hdir : mixedNames.isDir plainBook.src = true := by decide +kernel
  have hcopied : (CopyPlan.copyAll ⟨plainBook.src, .ofString "site/public",
      .ofString "site/docs"⟩ mixedNames).1 =
        ⟨[.ofString "site/public/c.md/pic.png", .ofString "site/public/pic.png"],
          [.ofString "site/docs/a/n.txt", .ofString "site/docs/a-c.txt"]⟩ := by decide +kernel
  obtain ⟨-, hpages, -, hcopies⟩ := file_lists_are_in_order hwalk hdir
  obtain ⟨hassets, hdocuments⟩ := hcopies (.ofString "site/public") (.ofString "site/docs")
  rw [hcopied] at hassets hdocuments
  exact ⟨hwalk, hdir, by decide +kernel, hpages, _, hcopied, rfl, hassets, rfl, hdocuments⟩

end Migration

end BookSite
