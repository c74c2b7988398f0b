import BookSite.Book.Locate
import BookSite.Proofs.Files.PathsBelow
import BookSite.Proofs.Migration.FreshTarget

/-!
# Proofs/Book/Description — which description of a book is found

The search goes through a directory without entering some of the directories below it.  It finds
what a walk through all of them comes to first, among the descriptions that no such directory is on
the way to (`description_is_found_first`).  Neither the name of the directory that is searched nor a
directory that is named as a description changes that.
-/

namespace BookSite

/-! ## Searches of a part of the files -/

/-- **A walk that enters some directories** lists what it comes to through no others. -/
theorem Node.Ordered.files_eq_filter {node : Node} (h : node.Ordered) (enter : Text → Bool) :
    node.files enter =
      (node.files fun _ => true).filter fun found => found.1.dropLast.all enter := by
  have hperm : (node.files enter).Perm
      ((node.files fun _ => true).filter fun found => found.1.dropLast.all enter) := by
    refine (List.perm_ext_iff_of_nodup (Node.nodup_files _ h).of_map
      ((Node.nodup_files _ h).of_map.filter _)).mpr fun ⟨names, content⟩ => ?_
    rw [List.mem_filter, h.mem_files_iff, h.mem_files_iff, List.all_eq_true]
    simp
  refine hperm.eq_of_pairwise (fun found found' _ _ hbefore hafter => ?_)
    (List.pairwise_map.mp (Node.pairwise_files _ node h))
    ((List.pairwise_map.mp (Node.pairwise_files _ node h)).filter _)
  exact absurd hafter (Std.Asymm.asymm _ _ hbefore)

theorem FileSystem.filesBelow_eq_filter {fs : FileSystem} (hordered : fs.root.Ordered)
    (enter : Text → Bool) (p : Path) :
    fs.filesBelow enter p = (fs.allFiles p).filter fun found => found.names.dropLast.all enter := by
  unfold allFiles filesBelow
  split
  · rename_i node hnode
    rw [(hordered.of_get? (fs.get?_place_of_node hnode)).files_eq_filter enter, List.filter_map]
    rfl
  · rfl

/-- A path leads where its steps do. -/
theorem FileSystem.place_eq_of_steps (fs : FileSystem) {p q : Path}
    (habsolute : p.isAbsolute = q.isAbsolute) (hsteps : p.steps = q.steps) :
    fs.place p = fs.place q := by
  rw [place, place, origin, origin, habsolute, ← placeFrom_namesAlong, ← Path.steps, hsteps,
    Path.steps, placeFrom_namesAlong]

namespace Book

/-! ## Descriptions -/

/-- **Names that may lead to a description**: the last one is its name, and no directory on the way
is hidden or holds generated files. -/
structure LeadToDescription (names : List Text) : Prop where
  last : names.getLast? = some "book.toml".toList
  dirs : ∀ n ∈ names.dropLast, n.head? ≠ some '.' ∧
    n ∉ ["node_modules".toList, "target".toList, "book".toList]

instance (names : List Text) : Decidable (LeadToDescription names) :=
  decidable_of_iff (names.getLast? = some "book.toml".toList ∧ ∀ n ∈ names.dropLast,
      n.head? ≠ some '.' ∧ n ∉ ["node_modules".toList, "target".toList, "book".toList])
    ⟨fun ⟨hlast, hdirs⟩ => ⟨hlast, hdirs⟩, fun ⟨hlast, hdirs⟩ => ⟨hlast, hdirs⟩⟩

/-- **A description below a directory**: a file that such names lead to. -/
structure IsDescription (fs : FileSystem) (dir : Path) (names : List Text) : Prop where
  file : (fs.fileAt (fs.place dir ++ names)).isSome
  lead : LeadToDescription names

theorem isSearched_iff {name : Text} : isSearched name = true ↔ name.head? ≠ some '.' ∧
    name ∉ ["node_modules".toList, "target".toList, "book".toList] := by
  have hstarts : name.startsWith ['.'] = true ↔ name.head? = some '.' := by
    cases name with
    | nil => simp [Text.startsWith]
    | cons c name => simpa [Text.startsWith] using eq_comm
  rw [isSearched, Bool.and_eq_true, Bool.not_eq_true', Bool.not_eq_true', ← Bool.not_eq_true,
    ← Bool.not_eq_true, hstarts, List.contains_iff_mem]
  rfl

/-- The search is for names that may lead to a description. -/
theorem leadToDescription_iff {names : List Text} : LeadToDescription names ↔
    names.dropLast.all isSearched = true ∧ names.getLast? = some fileName := by
  rw [List.all_eq_true]
  exact ⟨fun h => ⟨fun n hn => isSearched_iff.mpr (h.dirs n hn), h.last⟩,
    fun h => ⟨h.2, fun n hn => isSearched_iff.mp (h.1 n hn)⟩⟩

section Search

variable {fs : FileSystem} {dir : Path}

/-- **A description in the directory itself** is found. -/
theorem find?_of_isFile (h : fs.isFile (dir.join ⟨fileName⟩) = true) :
    find? fs dir = some (dir.join ⟨fileName⟩) := if_pos h

theorem isDescription_of_isFile (hdir : fs.isDir dir = true)
    (h : fs.isFile (dir.join ⟨fileName⟩) = true) : IsDescription fs dir [fileName] := by
  have hname : ∀ n ∈ [fileName], IsPlain n := by decide
  exact ⟨((FileSystem.isFile_joinNames_iff hname hdir).mp h).2.2, by decide⟩

variable (h : fs.IsWalkable dir)

include h

/-- **Otherwise the first one** that a walk through all files comes to. -/
theorem find?_of_isFile_eq_false (hdirect : fs.isFile (dir.join ⟨fileName⟩) = false) :
    find? fs dir = ((fs.allFiles dir).find? fun found =>
      decide (LeadToDescription found.names)).map FileSystem.Found.path := by
  have hsame : (fun found : FileSystem.Found => decide (found.names.dropLast.all isSearched = true ∧
      (found.names.getLast? == some fileName) = true)) =
        fun found => decide (LeadToDescription found.names) := by
    funext found
    rw [decide_eq_decide, leadToDescription_iff, beq_iff_eq]
  unfold find?
  dsimp only
  rw [if_neg (by simp [hdirect]), FileSystem.filesBelow_eq_filter h.ordered, List.find?_filter,
    hsame]

/-- **Nothing is found** where there is no description. -/
theorem find?_eq_none_iff (hdir : fs.isDir dir = true) :
    find? fs dir = none ↔ ∀ names, ¬ IsDescription fs dir names := by
  rcases hdirect : fs.isFile (dir.join ⟨fileName⟩) with _ | _
  · rw [find?_of_isFile_eq_false h hdirect, Option.map_eq_none_iff, List.find?_eq_none]
    constructor
    · intro hnone names ⟨hfile, hlead⟩
      obtain ⟨content, hcontent⟩ := Option.isSome_iff_exists.mp hfile
      exact hnone ⟨dir.joinNames names, names, content⟩
        ((FileSystem.mem_allFiles_iff h.ordered hdir).mpr ⟨rfl, hcontent⟩) (decide_eq_true hlead)
    · intro hnone found hfound hlead
      obtain ⟨-, hcontent⟩ := (FileSystem.mem_allFiles_iff h.ordered hdir).mp hfound
      exact hnone found.names ⟨by rw [hcontent]; rfl, of_decide_eq_true hlead⟩
  · rw [find?_of_isFile hdirect]
    exact iff_of_false (by simp) fun hnone =>
      hnone [fileName] (isDescription_of_isFile hdir hdirect)

/-- **What is found is a description**, and no other one comes before it on a walk unless it lies in
the directory itself. -/
theorem exists_isDescription_of_find? (hdir : fs.isDir dir = true) {file : Path}
    (hfound : find? fs dir = some file) :
    ∃ names, IsDescription fs dir names ∧ file = dir.joinNames names ∧
      (fs.isFile (dir.join ⟨fileName⟩) = false →
        ∀ other, IsDescription fs dir other → other = names ∨ Node.ComesBefore names other) := by
  rcases hdirect : fs.isFile (dir.join ⟨fileName⟩) with _ | _
  · rw [find?_of_isFile_eq_false h hdirect] at hfound
    obtain ⟨found, hfirst, rfl⟩ := Option.map_eq_some_iff.mp hfound
    obtain ⟨hlead, before, after, hsplit, hbefore⟩ := List.find?_eq_some_iff_append.mp hfirst
    obtain ⟨hpath, hcontent⟩ := (FileSystem.mem_allFiles_iff h.ordered hdir).mp
      (List.mem_of_find?_eq_some hfirst)
    refine ⟨found.names, ⟨by rw [hcontent]; rfl, of_decide_eq_true hlead⟩, hpath,
      fun _ other hother => ?_⟩
    obtain ⟨content, hfile⟩ := Option.isSome_iff_exists.mp hother.file
    have hmem : ⟨dir.joinNames other, other, content⟩ ∈ fs.allFiles dir :=
      (FileSystem.mem_allFiles_iff h.ordered hdir).mpr ⟨rfl, hfile⟩
    have horder := List.pairwise_map.mp (h.pairwise_names fun _ => true)
    change (fs.allFiles dir).Pairwise _ at horder
    rw [hsplit] at hmem horder
    rcases List.mem_append.mp hmem with hmem | hmem
    · have hno := hbefore _ hmem
      rw [decide_eq_true hother.lead] at hno
      cases hno
    · rcases List.mem_cons.mp hmem with heq | hmem
      · exact .inl (congrArg FileSystem.Found.names heq)
      · exact .inr ((List.pairwise_cons.mp (List.pairwise_append.mp horder).2.1).1 _ hmem)
  · rw [find?_of_isFile hdirect] at hfound
    exact ⟨[fileName], isDescription_of_isFile hdir hdirect, (Option.some.inj hfound).symm,
      fun hno => by cases hno⟩

end Search

/-! ## The root of a book -/

/-- **The parent of a path of names** leads to the directory that the names before the last one lead
to. -/
theorem exists_parent?_joinNames (fs : FileSystem) (dir : Path) {names : List Text}
    (hplain : ∀ n ∈ names, IsPlain n) (hne : names ≠ []) :
    ∃ parent, (dir.joinNames names).parent? = some parent ∧
      fs.place parent = fs.place dir ++ names.dropLast := by
  have hsteps := dir.steps_joinNames hplain
  obtain ⟨parent, hparent⟩ := Path.exists_parent? (p := dir.joinNames names) (by simp [hsteps, hne])
  have hfront : ∀ n ∈ names.dropLast, IsPlain n := fun n hn =>
    hplain n ((List.dropLast_subset names) hn)
  have hisParent := Path.isParent_of_parent? hparent
  have habsolute : parent.isAbsolute = (dir.joinNames names.dropLast).isAbsolute := by
    rw [hisParent.isAbsolute, dir.isAbsolute_joinNames hplain, dir.isAbsolute_joinNames hfront]
  have hsame : parent.steps = (dir.joinNames names.dropLast).steps := by
    rw [hisParent.steps, hsteps, dir.steps_joinNames hfront, List.dropLast_append_of_ne_nil hne]
  exact ⟨parent, hparent,
    (fs.place_eq_of_steps habsolute hsame).trans (fs.place_joinNames dir hfront)⟩

/-- **The root of a book** is the directory of its description, whatever that says. -/
theorem load_snd_of_find? {fs : FileSystem} {dir file parent : Path}
    (hfound : find? fs dir = some file) (hparent : file.parent? = some parent) :
    (load fs dir).2 = parent := by
  unfold load
  rw [hfound]
  simp [hparent]

theorem load_snd_of_find?_eq_none {fs : FileSystem} {dir : Path} (hnone : find? fs dir = none) :
    (load fs dir).2 = dir := by
  rw [load, hnone]

/-- **Which description is found.**  One in the directory itself is found.  Otherwise it is the
first one on a walk through all files below the directory, among those that no directory is on the
way to whose name is hidden or one of generated files.  Nothing is found just when there is none.
The root of the book is the directory of what is found, whatever the description says, and the given
directory when nothing is found. -/
theorem description_is_found_first {fs : FileSystem} {dir : Path} (h : fs.IsWalkable dir)
    (hdir : fs.isDir dir = true) :
    (fs.isFile (dir.join (.ofString "book.toml")) = true →
        find? fs dir = some (dir.join (.ofString "book.toml"))) ∧
      (fs.isFile (dir.join (.ofString "book.toml")) = false →
        find? fs dir = ((fs.allFiles dir).find? fun found =>
          decide (LeadToDescription found.names)).map FileSystem.Found.path) ∧
      (find? fs dir = none ↔ ∀ names, ¬ IsDescription fs dir names) ∧
      (∀ file, find? fs dir = some file → ∃ names,
        IsDescription fs dir names ∧ file = dir.joinNames names ∧
        (fs.isFile (dir.join (.ofString "book.toml")) = false → ∀ other,
          IsDescription fs dir other → other = names ∨ Node.ComesBefore names other) ∧
        file.parent? = some (load fs dir).2 ∧
        fs.place (load fs dir).2 = fs.place dir ++ names.dropLast) ∧
      (find? fs dir = none → (load fs dir).2 = dir) := by
  refine ⟨find?_of_isFile, find?_of_isFile_eq_false h, find?_eq_none_iff h hdir,
    fun file hfound => ?_, load_snd_of_find?_eq_none⟩
  obtain ⟨names, hnames, rfl, hfirst⟩ := exists_isDescription_of_find? h hdir hfound
  obtain ⟨hplain, hne⟩ := h.plain.names_plain hdir hnames.file
  obtain ⟨parent, hparent, hplace⟩ := exists_parent?_joinNames fs dir hplain hne
  obtain rfl := load_snd_of_find? hfound hparent
  exact ⟨names, hnames, rfl, hfirst, hparent, hplace⟩

/-- **Descriptions in many places**: in a hidden directory, in one of generated files at the top and
further below, and in two others.  A directory is named as a description, the directory that is
searched as one of generated files, and the description that is found says nothing readable. -/
def manyDescriptions : FileSystem := Migration.filesOfBook
  [(".git".toList, .directory [("book.toml".toList, .file .empty)]),
    ("book.toml".toList, .directory [("notes.md".toList, .file .empty)]),
    ("deep".toList, .directory
      [("book".toList, .directory [("book.toml".toList, .file .empty)]),
        ("inner".toList, .directory [("book.toml".toList, .file (.text "[".toList))])]),
    ("target".toList, .directory [("book.toml".toList, .file .empty)]),
    ("zero".toList, .directory [("book.toml".toList, .file .empty)])]

theorem description_is_found_first_manyDescriptions :
    manyDescriptions.IsWalkable (.ofString "book") ∧
      manyDescriptions.isDir (.ofString "book") = true ∧
      find? manyDescriptions (.ofString "book") = some (.ofString "book/deep/inner/book.toml") ∧
      ofFile manyDescriptions (.ofString "book/deep/inner/book.toml") = .error .malformed ∧
      (load manyDescriptions (.ofString "book")).2 = .ofString "book/deep/inner" := by
  have hplain : manyDescriptions.PlainBelow ["work".toList, "book".toList] :=
    FileSystem.plainBelow_of_nodes rfl (by decide +kernel)
  have hwalk : manyDescriptions.IsWalkable (.ofString "book") :=
    ⟨Node.ordered_of_nodes (by decide +kernel), hplain⟩
  have hdir : manyDescriptions.isDir (.ofString "book") = true := by decide +kernel
  have hfound : find? manyDescriptions (.ofString "book") =
      some (.ofString "book/deep/inner/book.toml") := by decide +kernel
  have hmalformed : ofFile manyDescriptions (.ofString "book/deep/inner/book.toml") =
      .error .malformed := by
    have hread : manyDescriptions.readText (.ofString "book/deep/inner/book.toml") =
        .ok "[".toList := by decide +kernel
    have hparse : parse? "[".toList = none := Option.isNone_iff_eq_none.mp (by decide +kernel)
    unfold ofFile
    simp only [hread, hparse]
  obtain ⟨-, -, -, hall, -⟩ := description_is_found_first hwalk hdir
  obtain ⟨names, -, -, -, hparent, -⟩ := hall _ hfound
  have hroot : Path.parent? (.ofString "book/deep/inner/book.toml") =
      some (.ofString "book/deep/inner") := by decide +kernel
  exact ⟨hwalk, hdir, hfound, hmalformed, Option.some.inj (hparent.symm.trans hroot)⟩

end Book

end BookSite
