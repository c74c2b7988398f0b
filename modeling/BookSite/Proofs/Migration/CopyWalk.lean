import BookSite.Proofs.Files.Lookup
import BookSite.Proofs.Migration.BookFiles

/-!
# Proofs/Migration/CopyWalk — a walk copies file after file

Copies are made while the directories of the book are looked into.  As they go to a place apart from
the book, the walk comes to no copy, and to each file of the book once: it is a fold over some list
of all these files (`KeepsApart.exists_copyAll_eq`).
-/

namespace BookSite.Migration

variable {fs₀ fs : FileSystem} {plan : CopyPlan} {base : List Text}

/-- **A file of the book** that its path leads to. -/
structure IsMet (fs : FileSystem) (src : Path) (names : List Text) : Prop where
  file : (fs.fileAt (fs.place src ++ names)).isSome
  found : fs.isFile (src.joinNames names) = true

/-- Copy several files, one after another. -/
def copyEach (plan : CopyPlan) (met : List (List Text)) (state : CopiedFiles × FileSystem) :
    CopiedFiles × FileSystem :=
  met.foldl (fun state names => plan.copyMet names state) state

/-- **What a copy writes.** -/
theorem changes_copyMet {names : List Text} (hplain : ∀ n ∈ names, IsPlain n)
    (state : CopiedFiles × FileSystem) :
    FileSystem.Changes (fun y _ => ∃ dir,
        plan.dirFor? (FileKind.classify (plan.src.joinNames names)) = some dir ∧
          y = state.2.place dir ++ names) state.2 (plan.copyMet names state).2 := by
  rcases hdir : plan.dirFor? (FileKind.classify (plan.src.joinNames names)) with _ | dir
  · rw [copyMet_of_eq_none hdir]
    exact .refl _ _
  rw [copyMet_of_eq_some hdir]
  have hcopy := changes_copyTo (plan.src.joinNames names) (dir.join (.ofNames names)) state.2
  rw [state.2.place_join_ofNames dir hplain] at hcopy
  obtain ⟨-, hchanges⟩ | ⟨-, content, -, hchanges, -⟩ := hcopy
  · exact hchanges.mono fun _ _ h => h.elim
  · exact hchanges.mono fun y _ hy => ⟨dir, rfl, hy.1⟩

section Apart

variable (hapart : KeepsApart fs₀ plan base)

include hapart

/-- Nothing but copies below the base is written. -/
theorem KeepsApart.changes_copyMet {state : CopiedFiles × FileSystem}
    (h : FileSystem.Changes (fun y _ => base <+: y) fs₀ state.2) {names : List Text}
    (hplain : ∀ n ∈ names, IsPlain n) :
    FileSystem.Changes (fun y _ => base <+: y) fs₀ (plan.copyMet names state).2 := by
  refine h.trans ((Migration.changes_copyMet hplain state).mono ?_)
  rintro y _ ⟨dir, hdir, rfl⟩
  rw [h.place_eq]
  exact (hapart.dirFor? hdir).trans (List.prefix_append _ _)

theorem KeepsApart.changes_copyEach {met : List (List Text)}
    (hplain : ∀ names ∈ met, ∀ n ∈ names, IsPlain n) {state : CopiedFiles × FileSystem}
    (h : FileSystem.Changes (fun y _ => base <+: y) fs₀ state.2) :
    FileSystem.Changes (fun y _ => base <+: y) fs₀ (copyEach plan met state).2 := by
  induction met generalizing state with
  | nil => exact h
  | cons names met ih =>
    obtain ⟨hnames, hmet⟩ := List.forall_mem_cons.mp hplain
    exact ih hmet (hapart.changes_copyMet h hnames)

/-- **The book stays** as it is. -/
theorem KeepsApart.fileAt_source (h : FileSystem.Changes (fun y _ => base <+: y) fs₀ fs)
    (names : List Text) :
    fs.fileAt (fs.place plan.src ++ names) = fs₀.fileAt (fs₀.place plan.src ++ names) := by
  rw [h.place_eq]
  exact h.fileAt_eq fun _ hbelow => hapart.apart.not_prefix_append names hbelow

/-- The files of the book have plain names. -/
theorem KeepsApart.isPlain_of_isMet {names : List Text} (h : IsMet fs₀ plan.src names) :
    ∀ n ∈ names, IsPlain n :=
  hapart.plain names (FileSystem.has_iff.mpr (.inl h.file))

variable (hsrc : fs₀.isDir plan.src = true)

include hsrc

/-- The files of the book have plain names, and some name. -/
theorem KeepsApart.names_plain {names : List Text}
    (hfile : (fs₀.fileAt (fs₀.place plan.src ++ names)).isSome) :
    (∀ n ∈ names, IsPlain n) ∧ names ≠ [] :=
  hapart.plain.names_plain hsrc hfile

/-- **The files of the book** stay the same. -/
theorem KeepsApart.isMet_iff (h : FileSystem.Changes (fun y _ => base <+: y) fs₀ fs)
    {names : List Text} : IsMet fs plan.src names ↔ IsMet fs₀ plan.src names := by
  have hfile := hapart.fileAt_source h names
  have hfound : (fs₀.fileAt (fs₀.place plan.src ++ names)).isSome →
      (fs.isFile (plan.src.joinNames names) = true ↔
        fs₀.isFile (plan.src.joinNames names) = true) := fun hsome => by
    have hplain := hapart.plain names (FileSystem.has_iff.mpr (.inl hsome))
    rw [FileSystem.isFile_joinNames_iff hplain (h.isDir hsrc),
      FileSystem.isFile_joinNames_iff hplain hsrc, hfile]
  constructor
  · rintro ⟨hsome, hyes⟩
    rw [hfile] at hsome
    exact ⟨hsome, (hfound hsome).mp hyes⟩
  · rintro ⟨hsome, hyes⟩
    exact ⟨hfile ▸ hsome, (hfound hsome).mpr hyes⟩

/-- **Files copied by a walk** from some names: each file of the book below them, in order. -/
def CopiesBelow (fs₀ : FileSystem) (plan : CopyPlan) (lies : List Text → Prop)
    (before after : CopiedFiles × FileSystem) : Prop :=
  ∃ met, after = copyEach plan met before ∧ met.Pairwise Node.ComesBefore ∧
    ∀ names, names ∈ met ↔ lies names ∧ IsMet fs₀ plan.src names

omit hsrc in
/-- **The entries of a directory** are walked through one after another. -/
theorem KeepsApart.copiesBelow_foldl {depth : Nat} {names : List Text}
    {entries : List (Text × Node)} (horder : Node.InOrder entries)
    (hwalk : ∀ entry ∈ entries, ∀ state : CopiedFiles × FileSystem,
      FileSystem.Changes (fun y _ => base <+: y) fs₀ state.2 →
        CopiesBelow fs₀ plan (names ++ [entry.1] <+: ·) state
          (plan.walk depth (names ++ [entry.1]) state))
    {state : CopiedFiles × FileSystem}
    (h : FileSystem.Changes (fun y _ => base <+: y) fs₀ state.2) :
    CopiesBelow fs₀ plan (fun below => ∃ entry ∈ entries, names ++ [entry.1] <+: below) state
      (entries.foldl (fun state (name, _) => plan.walk depth (names ++ [name]) state) state) := by
  induction entries generalizing state with
  | nil => exact ⟨[], rfl, List.Pairwise.nil, fun below => by simp⟩
  | cons entry entries ih =>
    obtain ⟨hentry, hentries⟩ := List.forall_mem_cons.mp hwalk
    obtain ⟨hfirst, hothers⟩ := List.pairwise_cons.mp horder
    obtain ⟨met, hmet, hmetOrder, hmem⟩ := hentry state h
    have hplain : ∀ below ∈ met, ∀ n ∈ below, IsPlain n := fun below hbelow =>
      hapart.isPlain_of_isMet ((hmem below).mp hbelow).2
    obtain ⟨more, hmore, hmoreOrder, hmoreMem⟩ :=
      ih hothers hentries (hapart.changes_copyEach hplain h)
    refine ⟨met ++ more, ?_, ?_, fun below => ?_⟩
    · rw [List.foldl_cons, copyEach, List.foldl_append]
      exact (congrArg (fun state => entries.foldl _ state) hmet).trans hmore
    · refine List.pairwise_append.mpr ⟨hmetOrder, hmoreOrder, fun below hbelow later hlater => ?_⟩
      obtain ⟨⟨rest, rfl⟩, -⟩ := (hmem below).mp hbelow
      obtain ⟨⟨other, hother, ⟨rest', rfl⟩⟩, -⟩ := (hmoreMem later).mp hlater
      rw [List.append_assoc, List.append_assoc]
      have hlt : compareTexts entry.1 other.1 = .lt :=
        hfirst other.1 (List.mem_map.mpr ⟨other, hother, rfl⟩)
      exact List.Lex.append_left (fun m n => compareTexts m n = .lt) (.rel hlt) names
    · rw [List.mem_append, hmem, hmoreMem, ← or_and_right]
      exact and_congr_left fun _ => (List.exists_mem_cons_iff
        (fun entry : Text × Node => names ++ [entry.1] <+: below) _ _).symm

/-- A file below some names is the one at them, or they lead to a directory. -/
theorem KeepsApart.eq_or_isDir_of_isMet
    (h : FileSystem.Changes (fun y _ => base <+: y) fs₀ fs) {names below : List Text}
    (hbelow : names <+: below) (hmet : IsMet fs₀ plan.src below) :
    below = names ∨ fs.isDir (plan.src.joinNames names) = true := by
  obtain ⟨more, rfl⟩ := hbelow
  obtain ⟨hnames, hmore⟩ := List.forall_mem_append.mp (hapart.isPlain_of_isMet hmet)
  by_cases hnil : more = []
  · exact .inl (by rw [hnil, List.append_nil])
  · exact .inr (FileSystem.isDir_joinNames_of_isFile hnames (h.isDir hsrc) hmore hnil
      ((hapart.isMet_iff hsrc h).mpr hmet).found)

omit hapart hsrc in
/-- Where nothing lies, nothing is copied. -/
theorem copiesBelow_self {lies : List Text → Prop}
    (hnone : ∀ below, lies below → ¬ IsMet fs₀ plan.src below)
    (state : CopiedFiles × FileSystem) : CopiesBelow fs₀ plan lies state state :=
  ⟨[], rfl, List.Pairwise.nil, fun below =>
    iff_of_false List.not_mem_nil fun h => hnone below h.1 h.2⟩

/-- **Names that lead to a file**: it is the only one below them. -/
theorem KeepsApart.copiesBelow_copyMet {names : List Text} (hplain : ∀ n ∈ names, IsPlain n)
    {state : CopiedFiles × FileSystem}
    (h : FileSystem.Changes (fun y _ => base <+: y) fs₀ state.2) {content : Content}
    (hnode : state.2.node (plan.src.joinNames names) = .ok (.file content)) :
    CopiesBelow fs₀ plan (names <+: ·) state (plan.copyMet names state) := by
  refine ⟨[names], rfl, List.pairwise_singleton _ _, fun below => List.mem_singleton.trans ?_⟩
  constructor
  · rintro rfl
    have hfile := FileSystem.fileAt_of_get? (state.2.get?_place_of_node hnode)
    rw [state.2.place_joinNames _ hplain] at hfile
    exact ⟨List.prefix_rfl, (hapart.isMet_iff hsrc h).mp
      ⟨by rw [hfile]; rfl, FileSystem.isFile_iff.mpr ⟨content, hnode⟩⟩⟩
  · rintro ⟨hnames, hmet⟩
    refine (hapart.eq_or_isDir_of_isMet hsrc h hnames hmet).resolve_right fun hisDir => ?_
    simp [FileSystem.isDir, hnode] at hisDir

omit hapart hsrc in
/-- **What lies below a directory** lies below one of its entries. -/
theorem IsMet.exists_entry_iff {src : Path} {names below : List Text}
    {entries : List (Text × Node)}
    (hget : fs.root.get? (fs.place src ++ names) = some (.directory entries))
    (hmet : IsMet fs src below) :
    (∃ entry ∈ entries, names ++ [entry.1] <+: below) ↔ names <+: below := by
  constructor
  · rintro ⟨entry, -, hentry⟩
    exact (List.prefix_append names [entry.1]).trans hentry
  · rintro ⟨more, rfl⟩
    have hfile := hmet.file
    cases more with
    | nil =>
      rw [List.append_nil, FileSystem.IsDirAt.fileAt_eq_none ⟨entries, hget⟩] at hfile
      cases hfile
    | cons name more =>
      have hhas := FileSystem.has_iff.mpr (.inl hfile)
      rw [List.append_cons, ← List.append_assoc] at hhas
      have hsome := FileSystem.has_of_has_append hhas
      rw [FileSystem.Has, ← List.append_assoc, Node.get?_concat hget] at hsome
      obtain ⟨⟨found, node⟩, hentry, heq⟩ := List.lookup_isSome_iff.mp hsome
      obtain rfl : name = found := by simpa using heq
      exact ⟨_, hentry, more, by simp⟩

omit hsrc in
/-- The entries of a directory of the book have plain names. -/
theorem KeepsApart.isPlain_of_mem_entries
    (h : FileSystem.Changes (fun y _ => base <+: y) fs₀ fs) {names : List Text}
    {entries : List (Text × Node)}
    (hget : fs.root.get? (fs.place plan.src ++ names) = some (.directory entries))
    {entry : Text × Node} (hentry : entry ∈ entries) : ∀ n ∈ names ++ [entry.1], IsPlain n := by
  refine hapart.plain.later h _ ?_
  rw [FileSystem.Has, ← h.place_eq, ← List.append_assoc, Node.get?_concat hget]
  exact List.lookup_isSome_iff.mpr ⟨entry, hentry, by simp⟩

/-- **A walk is a fold** over the files that it comes to: over each file of the book below the
names, in order. -/
theorem KeepsApart.copiesBelow_walk (depth : Nat) {names : List Text}
    (hdepth : FileSystem.maxPathBytes < names.length + depth) (hplain : ∀ n ∈ names, IsPlain n)
    {state : CopiedFiles × FileSystem}
    (h : FileSystem.Changes (fun y _ => base <+: y) fs₀ state.2) :
    CopiesBelow fs₀ plan (names <+: ·) state (plan.walk depth names state) := by
  induction depth generalizing names state with
  | zero =>
    refine copiesBelow_self (fun below hbelow hmet => ?_) state
    have hlength := FileSystem.length_le_of_isFile (hapart.isPlain_of_isMet hmet) hsrc hmet.found
    have hlonger := hbelow.length_le
    omega
  | succ depth ih =>
    rw [CopyPlan.walk]
    split
    · rename_i e hnode
      refine copiesBelow_self (fun below hbelow hmet => ?_) state
      obtain rfl | hisDir := hapart.eq_or_isDir_of_isMet hsrc h hbelow hmet
      · obtain ⟨content, hfile⟩ :=
          FileSystem.isFile_iff.mp ((hapart.isMet_iff hsrc h).mpr hmet).found
        rw [hnode] at hfile
        cases hfile
      · simp [FileSystem.isDir, hnode] at hisDir
    · rename_i content hnode
      exact hapart.copiesBelow_copyMet hsrc hplain h hnode
    · rename_i entries hnode
      have hget := state.2.get?_place_of_node hnode
      rw [state.2.place_joinNames _ hplain] at hget
      have horder : Node.InOrder entries := (h.ordered hapart.ordered) _ entries hget
      have hbelow : ∀ entry ∈ entries, ∀ n ∈ names ++ [entry.1], IsPlain n := fun _ =>
        hapart.isPlain_of_mem_entries h hget
      obtain ⟨met, hfold, hmetOrder, hmem⟩ := hapart.copiesBelow_foldl horder
        (fun entry hentry state hstate => ih (by simp; omega) (hbelow entry hentry) hstate) h
      refine ⟨met, hfold, hmetOrder, fun below => (hmem below).trans ?_⟩
      exact and_congr_left fun hmet =>
        IsMet.exists_entry_iff hget ((hapart.isMet_iff hsrc h).mpr hmet)

/-- **All copies** are made by copying each file of the book, in order. -/
theorem KeepsApart.exists_copyAll_eq (h : FileSystem.Changes (fun y _ => base <+: y) fs₀ fs) :
    ∃ met, plan.copyAll fs = copyEach plan met ({}, fs) ∧ met.Pairwise Node.ComesBefore ∧
      ∀ names, names ∈ met ↔ IsMet fs₀ plan.src names := by
  have hstart : FileSystem.Changes (fun y _ => base <+: y) fs₀
      (({}, fs) : CopiedFiles × FileSystem).2 := h
  obtain ⟨met, hwalk, horder, hmem⟩ :=
    hapart.copiesBelow_walk hsrc (FileSystem.maxPathBytes + 1) (by simp)
      (List.forall_mem_nil IsPlain) hstart
  exact ⟨met, hwalk, horder, fun names =>
    (hmem names).trans (and_iff_right List.nil_prefix)⟩

end Apart

end BookSite.Migration
