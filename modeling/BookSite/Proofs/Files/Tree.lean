import BookSite.Files.System
import BookSite.Proofs.Ordered
import Mathlib.Data.List.Lex

/-!
# Proofs/Files/Tree — trees with a node put into them

A node that is put at a place is what the tree has there afterwards; directories above it stay
directories, and nothing else changes.  In a tree whose names are in order, what a walk lists is
what the names lead to, in the order of the names.
-/

namespace BookSite

/-! ## The order of names -/

theorem compareTexts_eq_eq {s t : Text} : compareTexts s t = .eq ↔ s = t := by
  induction s generalizing t with
  | nil => cases t <;> simp [compareTexts]
  | cons c s ih =>
    cases t with
    | nil => simp [compareTexts]
    | cons d t => simp [compareTexts, Ordering.then_eq_eq, ih, Char.toNat_inj]

theorem compareTexts_swap (s t : Text) : (compareTexts s t).swap = compareTexts t s := by
  induction s generalizing t with
  | nil => cases t <;> rfl
  | cons c s ih =>
    cases t with
    | nil => rfl
    | cons d t => rw [compareTexts, compareTexts, Ordering.swap_then, Nat.compare_swap, ih]

theorem compareTexts_lt_trans {s t u : Text} (hst : compareTexts s t = .lt)
    (htu : compareTexts t u = .lt) : compareTexts s u = .lt := by
  induction s generalizing t u with
  | nil =>
    cases u with
    | nil => cases t <;> cases htu
    | cons e u => rfl
  | cons c s ih =>
    cases t with
    | nil => cases hst
    | cons d t =>
      cases u with
      | nil => cases htu
      | cons e u =>
        rw [compareTexts, Ordering.then_eq_lt, Nat.compare_eq_lt, Nat.compare_eq_eq] at *
        rcases hst with hcd | ⟨hcd, hst⟩ <;> rcases htu with hde | ⟨hde, htu⟩
        · exact .inl (by omega)
        · exact .inl (by omega)
        · exact .inl (by omega)
        · exact .inr ⟨by omega, ih hst htu⟩

namespace Node

/-! ## Entries -/

section Entries

variable (name : Text) (node : Node) (entries : List (Text × Node))

theorem lookup_insert_self : (insert name node entries).lookup name = some node := by
  induction entries with
  | nil => simp [insert]
  | cons entry rest ih =>
    obtain ⟨n, old⟩ := entry
    rw [insert]
    cases hcompare : compareTexts name n with
    | lt => simp
    | eq => simp
    | gt =>
      have hne : (name == n) = false := by
        rw [beq_eq_false_iff_ne]
        rintro rfl
        rw [compareTexts_eq_eq.mpr rfl] at hcompare
        cases hcompare
      simp [List.lookup_cons, hne, ih]

theorem lookup_insert_of_ne {other : Text} (h : other ≠ name) :
    (insert name node entries).lookup other = entries.lookup other := by
  have hne : (other == name) = false := beq_eq_false_iff_ne.mpr h
  induction entries with
  | nil => simp [insert, List.lookup_cons, hne]
  | cons entry rest ih =>
    obtain ⟨n, old⟩ := entry
    rw [insert]
    cases hcompare : compareTexts name n with
    | lt => simp [List.lookup_cons, hne]
    | eq =>
      obtain rfl := compareTexts_eq_eq.mp hcompare
      simp [List.lookup_cons, hne]
    | gt => simp [List.lookup_cons, ih]

end Entries

/-- **Names in order**, each one before all that follow. -/
def InOrder (entries : List (Text × Node)) : Prop :=
  (entries.map Prod.fst).Pairwise fun m n => compareTexts m n = .lt

theorem mem_insert {name n : Text} {node child : Node} {entries : List (Text × Node)}
    (h : (n, child) ∈ insert name node entries) : n = name ∨ (n, child) ∈ entries := by
  induction entries with
  | nil =>
    rw [insert, List.mem_singleton] at h
    exact .inl (congrArg Prod.fst h)
  | cons entry rest ih =>
    obtain ⟨n', old⟩ := entry
    rw [insert] at h
    cases hcompare : compareTexts name n' with
    | lt =>
      rw [hcompare] at h
      rcases List.mem_cons.mp h with h | h
      · exact .inl (congrArg Prod.fst h)
      · exact .inr h
    | eq =>
      rw [hcompare] at h
      rcases List.mem_cons.mp h with h | h
      · exact .inl (congrArg Prod.fst h)
      · exact .inr (List.mem_cons_of_mem _ h)
    | gt =>
      rw [hcompare] at h
      rcases List.mem_cons.mp h with h | h
      · exact .inr (h ▸ List.mem_cons_self)
      · exact (ih h).imp_right (List.mem_cons_of_mem _)

/-- **Inserting keeps names in order.** -/
theorem InOrder.insert {entries : List (Text × Node)} (h : InOrder entries) (name : Text)
    (node : Node) : InOrder (insert name node entries) := by
  induction entries with
  | nil => simp [Node.insert, InOrder]
  | cons entry rest ih =>
    obtain ⟨n, old⟩ := entry
    obtain ⟨hn, hrest⟩ := List.pairwise_cons.mp h
    rw [Node.insert]
    cases hcompare : compareTexts name n with
    | lt =>
      refine List.pairwise_cons.mpr ⟨fun m hm => ?_, h⟩
      rcases List.mem_cons.mp hm with rfl | hm
      · exact hcompare
      · exact compareTexts_lt_trans hcompare (hn m hm)
    | eq =>
      obtain rfl := compareTexts_eq_eq.mp hcompare
      exact List.pairwise_cons.mpr ⟨hn, hrest⟩
    | gt =>
      refine List.pairwise_cons.mpr ⟨fun m hm => ?_, ih hrest⟩
      obtain ⟨⟨m, child⟩, hmem, rfl⟩ := List.mem_map.mp hm
      rcases mem_insert hmem with rfl | hmem
      · rw [← compareTexts_swap, hcompare]
        rfl
      · exact hn _ (List.mem_map.mpr ⟨_, hmem, rfl⟩)

/-- An entry in order is what its name leads to. -/
theorem InOrder.lookup_eq_some_iff {entries : List (Text × Node)} (h : InOrder entries)
    {name : Text} {node : Node} : entries.lookup name = some node ↔ (name, node) ∈ entries := by
  induction entries with
  | nil => simp
  | cons entry rest ih =>
    obtain ⟨n, old⟩ := entry
    obtain ⟨hn, hrest⟩ := List.pairwise_cons.mp h
    rw [List.lookup_cons, List.mem_cons]
    by_cases hname : name = n
    · subst hname
      have hrest' : (name, node) ∉ rest := fun hmem => by
        have hlt := hn name (List.mem_map.mpr ⟨_, hmem, rfl⟩)
        rw [compareTexts_eq_eq.mpr rfl] at hlt
        cases hlt
      simp [hrest', eq_comm]
    · rw [beq_eq_false_iff_ne.mpr hname]
      simp only [ih hrest, Prod.mk.injEq, hname, false_and, false_or]

/-! ## Places -/

@[simp] theorem get?_nil (node : Node) : node.get? [] = some node := by cases node <;> rfl

theorem get?_directory_cons (entries : List (Text × Node)) (name : Text) (names : List Text) :
    (directory entries).get? (name :: names) = (entries.lookup name).bind (get? · names) := rfl

theorem get?_append (node : Node) (place more : List Text) :
    node.get? (place ++ more) = (node.get? place).bind (get? · more) := by
  induction place generalizing node with
  | nil => simp
  | cons name place ih =>
    cases node with
    | file content => rfl
    | directory entries =>
      rw [List.cons_append, get?_directory_cons, get?_directory_cons]
      cases entries.lookup name with
      | none => rfl
      | some child => exact ih child

/-- A name in a directory leads to what is entered there. -/
theorem get?_concat {node : Node} {place : List Text} {entries : List (Text × Node)}
    (h : node.get? place = some (directory entries)) (name : Text) :
    node.get? (place ++ [name]) = entries.lookup name := by
  rw [get?_append, h, Option.bind_some, get?_directory_cons]
  simp

/-- The content of the file at a place. -/
def fileAt (node : Node) (place : List Text) : Option Content := (node.get? place).bind content?

/-! ## Putting a node -/

section Put

variable (new : Node) {root : Node} {parent : List Text} (name : Text)
  {entries : List (Text × Node)}

theorem put_cons {names : List Text} (hne : names ≠ []) (first : Text) :
    put new (first :: names) (directory entries) =
      match entries.lookup first with
      | some child => directory (insert first (put new names child) entries)
      | none => directory entries := by
  obtain ⟨second, names, rfl⟩ := List.exists_cons_of_ne_nil hne
  rfl

/-- The first step towards the place of a node that is put. -/
theorem exists_put_cons {first : Text}
    (h : root.get? (first :: parent) = some (directory entries)) :
    ∃ siblings child, root = directory siblings ∧ siblings.lookup first = some child ∧
      child.get? parent = some (directory entries) ∧
      put new (first :: (parent ++ [name])) root =
        directory (insert first (put new (parent ++ [name]) child) siblings) := by
  cases root with
  | file content => cases h
  | directory siblings =>
    rw [get?_directory_cons] at h
    obtain ⟨child, hchild, hget⟩ := Option.bind_eq_some_iff.mp h
    exact ⟨siblings, child, rfl, hchild, hget, by rw [put_cons new (by simp), hchild]⟩

variable (h : root.get? parent = some (directory entries))

include h

/-- **Directories above stay directories**, with their names in order. -/
theorem get?_put_above {above below : List Text} (habove : parent = above ++ below) :
    ∃ before after, root.get? above = some (directory before) ∧
      (put new (parent ++ [name]) root).get? above = some (directory after) ∧
      (InOrder before → InOrder after) := by
  subst habove
  induction above generalizing root with
  | nil =>
    cases below with
    | nil =>
      rw [List.nil_append, get?_nil, Option.some.injEq] at h
      subst h
      exact ⟨entries, insert name new entries, by simp, by simp [put],
        fun hordered => hordered.insert name new⟩
    | cons first below =>
      obtain ⟨siblings, child, rfl, hchild, hget, hput⟩ :=
        exists_put_cons new name h
      exact ⟨siblings, _, by simp, by rw [List.nil_append, List.cons_append, hput, get?_nil],
        fun hordered => hordered.insert first _⟩
  | cons first above ih =>
    obtain ⟨siblings, child, rfl, hchild, hget, hput⟩ := exists_put_cons new name h
    obtain ⟨before, after, hbefore, hafter, hordered⟩ := ih hget
    refine ⟨before, after, ?_, ?_, hordered⟩
    · rw [get?_directory_cons, hchild]
      exact hbefore
    · refine (congrArg (·.get? (first :: above)) hput).trans ?_
      rw [get?_directory_cons, lookup_insert_self]
      exact hafter

variable {new name}

/-- **What is put is there.** -/
theorem get?_put_append (rest : List Text) :
    (put new (parent ++ [name]) root).get? (parent ++ name :: rest) = new.get? rest := by
  induction parent generalizing root with
  | nil =>
    rw [get?_nil, Option.some.injEq] at h
    subst h
    rw [List.nil_append, List.nil_append, put, get?_directory_cons, lookup_insert_self]
    rfl
  | cons first parent ih =>
    obtain ⟨siblings, child, rfl, hchild, hget, hput⟩ := exists_put_cons new name h
    rw [List.cons_append, List.cons_append, hput, get?_directory_cons, lookup_insert_self]
    exact ih hget

/-- **Elsewhere nothing changes.** -/
theorem get?_put_elsewhere {place : List Text} (habove : ¬ place <+: parent)
    (hbelow : ¬ parent ++ [name] <+: place) :
    (put new (parent ++ [name]) root).get? place = root.get? place := by
  induction parent generalizing root place with
  | nil =>
    rw [get?_nil, Option.some.injEq] at h
    subst h
    cases place with
    | nil => exact absurd (List.nil_prefix) habove
    | cons first place =>
      have hne : first ≠ name := fun heq => hbelow (by simp [heq])
      rw [List.nil_append, put, get?_directory_cons, get?_directory_cons,
        lookup_insert_of_ne _ _ _ hne]
  | cons first parent ih =>
    obtain ⟨siblings, child, rfl, hchild, hget, hput⟩ := exists_put_cons new name h
    cases place with
    | nil => exact absurd (List.nil_prefix) habove
    | cons other place =>
      rw [List.cons_append, hput, get?_directory_cons, get?_directory_cons]
      by_cases hother : other = first
      · subst hother
        rw [lookup_insert_self, hchild]
        rw [List.prefix_cons_inj] at habove
        rw [List.cons_append, List.prefix_cons_inj] at hbelow
        exact ih hget habove hbelow
      · rw [lookup_insert_of_ne _ _ _ hother]

end Put

/-! ## Trees in order -/

/-- **A tree in order**: so are the names of each of its directories. -/
def Ordered (node : Node) : Prop :=
  ∀ place entries, node.get? place = some (directory entries) → InOrder entries

theorem ordered_file (content : Content) : (file content).Ordered := fun place entries h => by
  cases place <;> cases h

theorem ordered_directory_nil : (directory []).Ordered := fun place entries h => by
  cases place with
  | nil => cases h; exact List.Pairwise.nil
  | cons name names => cases h

theorem Ordered.child {entries : List (Text × Node)} (h : (directory entries).Ordered)
    {name : Text} {child : Node} (hchild : (name, child) ∈ entries) : child.Ordered := by
  intro place below hbelow
  have hlookup := (h [] entries rfl).lookup_eq_some_iff.mpr hchild
  refine h (name :: place) below ?_
  rw [get?_directory_cons, hlookup]
  exact hbelow

theorem Ordered.of_get? {node below : Node} (h : node.Ordered) {place : List Text}
    (hbelow : node.get? place = some below) : below.Ordered := fun names entries hentries => by
  refine h (place ++ names) entries ?_
  rw [get?_append, hbelow, Option.bind_some, hentries]

/-- **Putting a tree in order** into one leaves it in order. -/
theorem Ordered.put {new root : Node} (hroot : root.Ordered) (hnew : new.Ordered)
    {parent : List Text} {entries : List (Text × Node)}
    (h : root.get? parent = some (directory entries)) (name : Text) :
    (put new (parent ++ [name]) root).Ordered := by
  intro place listed hplace
  by_cases habove : place <+: parent
  · obtain ⟨below, rfl⟩ := habove
    obtain ⟨before, after, hbefore, hafter, hordered⟩ :=
      get?_put_above _ name h rfl
    rw [hafter] at hplace
    cases hplace
    exact hordered (hroot _ _ hbefore)
  · by_cases hbelow : parent ++ [name] <+: place
    · obtain ⟨rest, rfl⟩ := hbelow
      rw [List.append_assoc, List.singleton_append, get?_put_append h] at hplace
      exact hnew rest listed hplace
    · rw [get?_put_elsewhere h habove hbelow] at hplace
      exact hroot place listed hplace

/-! ## Listings -/

theorem mem_entryFiles_iff {enter : Text → Bool} {entries : List (Text × Node)} {name : Text}
    {names : List Text} {content : Content} :
    (name :: names, content) ∈ entryFiles enter entries ↔
      ∃ child, (name, child) ∈ entries ∧ (child.isDirectory = true → enter name = true) ∧
        (names, content) ∈ files enter child := by
  induction entries with
  | nil => simp [entryFiles]
  | cons entry rest ih =>
    obtain ⟨n, node⟩ := entry
    rw [entryFiles, List.mem_append, ih]
    constructor
    · rintro (h | ⟨child, hchild, h⟩)
      · split at h
        · cases h
        · rename_i henter
          obtain ⟨below, hbelow, heq⟩ := List.mem_map.mp h
          cases heq
          exact ⟨node, List.mem_cons_self, by simpa using henter, hbelow⟩
      · exact ⟨child, List.mem_cons_of_mem _ hchild, h⟩
    · rintro ⟨child, hchild, henter, h⟩
      rcases List.mem_cons.mp hchild with heq | hchild
      · cases heq
        refine .inl ?_
        rw [if_neg (by simpa using henter)]
        exact List.mem_map.mpr ⟨_, h, rfl⟩
      · exact .inr ⟨child, hchild, henter, h⟩

theorem nil_not_mem_entryFiles {enter : Text → Bool} {entries : List (Text × Node)}
    {content : Content} : ([], content) ∉ entryFiles enter entries := by
  induction entries with
  | nil => simp [entryFiles]
  | cons entry rest ih =>
    rw [entryFiles, List.mem_append, not_or]
    refine ⟨fun h => ?_, ih⟩
    split at h
    · cases h
    · obtain ⟨_, -, heq⟩ := List.mem_map.mp h
      cases heq

/-- A directory is entered only on the way to a file below it. -/
theorem enters_cons_iff {enter : Text → Bool} {name : Text} {names : List Text} {child : Node}
    {content : Content} (hfile : child.get? names = some (file content)) :
    (child.isDirectory = true → enter name = true) ∧ (∀ n ∈ names.dropLast, enter n = true) ↔
      ∀ n ∈ (name :: names).dropLast, enter n = true := by
  cases names with
  | nil =>
    cases hfile
    simp [isDirectory]
  | cons next rest =>
    cases child with
    | file c => cases hfile
    | directory below =>
      rw [List.dropLast_cons_of_ne_nil (List.cons_ne_nil next rest), List.forall_mem_cons]
      exact and_congr_left fun _ => ⟨fun hdir => hdir rfl, fun hname _ => hname⟩

/-- **A walk lists the files** that names lead to through directories that are entered. -/
theorem Ordered.mem_files_iff {enter : Text → Bool} {node : Node} (h : node.Ordered)
    {names : List Text} {content : Content} :
    (names, content) ∈ node.files enter ↔
      node.get? names = some (file content) ∧ ∀ n ∈ names.dropLast, enter n = true := by
  induction names generalizing node with
  | nil =>
    cases node with
    | file c =>
      constructor
      · intro hmem
        cases List.mem_singleton.mp hmem
        exact ⟨rfl, List.forall_mem_nil _⟩
      · rintro ⟨hget, -⟩
        cases hget
        exact List.mem_singleton_self _
    | directory entries => simp [files, nil_not_mem_entryFiles]
  | cons name names ih =>
    cases node with
    | file c => simp [files, get?]
    | directory entries =>
      rw [files, mem_entryFiles_iff, get?_directory_cons]
      constructor
      · rintro ⟨child, hchild, hentered, hfile⟩
        rw [(h [] entries rfl).lookup_eq_some_iff.mpr hchild]
        obtain ⟨hget, hothers⟩ := (ih (h.child hchild)).mp hfile
        exact ⟨hget, (enters_cons_iff hget).mp ⟨hentered, hothers⟩⟩
      · rintro ⟨hget, hall⟩
        obtain ⟨child, hlookup, hfile⟩ := Option.bind_eq_some_iff.mp hget
        have hchild := (h [] entries rfl).lookup_eq_some_iff.mp hlookup
        obtain ⟨hentered, hothers⟩ := (enters_cons_iff hfile).mpr hall
        exact ⟨child, hchild, hentered, (ih (h.child hchild)).mpr ⟨hfile, hothers⟩⟩

/-- A file among some entries lies below one of them. -/
theorem exists_of_mem_entryFiles {enter : Text → Bool} {entries : List (Text × Node)}
    {names : List Text} {content : Content} (h : (names, content) ∈ entryFiles enter entries) :
    ∃ name below child, names = name :: below ∧ (name, child) ∈ entries := by
  cases names with
  | nil => exact absurd h nil_not_mem_entryFiles
  | cons name below =>
    obtain ⟨child, hchild, -⟩ := mem_entryFiles_iff.mp h
    exact ⟨name, below, child, rfl, hchild⟩

/-- The order of a walk: names that lead to different files are told apart by their first
difference. -/
def ComesBefore : List Text → List Text → Prop := List.Lex fun m n => compareTexts m n = .lt

instance : Std.Asymm fun m n : Text => compareTexts m n = .lt where
  asymm m n hlt hgt := by
    rw [← compareTexts_swap, hlt] at hgt
    cases hgt

instance : Std.Asymm ComesBefore := inferInstanceAs (Std.Asymm (List.Lex _))

mutual

/-- **A walk goes through files in order.** -/
theorem pairwise_files (enter : Text → Bool) :
    (node : Node) → node.Ordered → ((files enter node).map Prod.fst).Pairwise ComesBefore
  | file _, _ => List.pairwise_singleton _ _
  | directory entries, h =>
    pairwise_entryFiles enter entries (h [] entries rfl) fun _ hchild => h.child hchild

theorem pairwise_entryFiles (enter : Text → Bool) :
    (entries : List (Text × Node)) → InOrder entries → (∀ entry ∈ entries, entry.2.Ordered) →
      ((entryFiles enter entries).map Prod.fst).Pairwise ComesBefore
  | [], _, _ => List.Pairwise.nil
  | (name, node) :: rest, hordered, hchildren => by
    obtain ⟨hname, hrest⟩ := List.pairwise_cons.mp hordered
    obtain ⟨hnode, hothers⟩ := List.forall_mem_cons.mp hchildren
    rw [entryFiles, List.map_append, List.pairwise_append]
    refine ⟨?_, pairwise_entryFiles enter rest hrest hothers, ?_⟩
    · split
      · exact List.Pairwise.nil
      · have hfiles := pairwise_files enter node hnode
        rw [List.map_map, List.pairwise_map]
        rw [List.pairwise_map] at hfiles
        exact hfiles.imp fun hbefore => List.Lex.cons hbefore
    · intro names hfirst later hlater
      obtain ⟨⟨_, content⟩, hmem, rfl⟩ := List.mem_map.mp hlater
      obtain ⟨name', below, child, rfl, hchild⟩ := exists_of_mem_entryFiles hmem
      split at hfirst
      · cases hfirst
      · obtain ⟨_, hfile, rfl⟩ := List.mem_map.mp hfirst
        obtain ⟨_, -, rfl⟩ := List.mem_map.mp hfile
        exact List.Lex.rel (hname name' (List.mem_map.mpr ⟨_, hchild, rfl⟩))

end

/-- What is in the order of a walk is not there twice. -/
theorem nodup_of_comesBefore {found : List (List Text)} (h : found.Pairwise ComesBefore) :
    found.Nodup :=
  h.imp fun {names later} hbefore heq => by
    rw [heq] at hbefore
    exact Std.Asymm.asymm _ _ hbefore hbefore

/-- **The order of a walk** is the only one. -/
theorem eq_of_comesBefore {found found' : List (List Text)} (h : found.Pairwise ComesBefore)
    (h' : found'.Pairwise ComesBefore) (hsame : ∀ names, names ∈ found' ↔ names ∈ found) :
    found' = found := by
  have hperm := (List.perm_ext_iff_of_nodup (nodup_of_comesBefore h')
    (nodup_of_comesBefore h)).mpr hsame
  exact hperm.eq_of_pairwise
    (fun _ _ _ _ hbefore hafter => absurd hafter (Std.Asymm.asymm _ _ hbefore)) h' h

/-- **A walk lists no file twice.** -/
theorem nodup_files (enter : Text → Bool) {node : Node} (h : node.Ordered) :
    ((files enter node).map Prod.fst).Nodup := nodup_of_comesBefore (pairwise_files enter node h)

/-- **The same files** are listed in the same order. -/
theorem Ordered.files_eq {enter : Text → Bool} {node node' : Node} (h : node.Ordered)
    (h' : node'.Ordered) (hsame : ∀ names content, node'.get? names = some (file content) ↔
      node.get? names = some (file content)) : node'.files enter = node.files enter := by
  have hperm : (node'.files enter).Perm (node.files enter) :=
    (List.perm_ext_iff_of_nodup (nodup_files _ h').of_map (nodup_files _ h).of_map).mpr
      fun ⟨names, content⟩ => by rw [h'.mem_files_iff, h.mem_files_iff, hsame]
  refine hperm.eq_of_pairwise (fun found found' _ _ hbefore hafter => ?_)
    (List.pairwise_map.mp (pairwise_files _ node' h'))
    (List.pairwise_map.mp (pairwise_files _ node h))
  exact absurd hafter (Std.Asymm.asymm _ _ hbefore)

/-! ## Trees told apart -/

/-- **Entries in order** are known by what they hold under each name. -/
theorem InOrder.eq_of_lookup {entries entries' : List (Text × Node)} (h : InOrder entries)
    (h' : InOrder entries') (hsame : ∀ name, entries'.lookup name = entries.lookup name) :
    entries' = entries := by
  have hnodup : ∀ {entries : List (Text × Node)}, InOrder entries → entries.Nodup := fun h =>
    List.Nodup.of_map Prod.fst (h.imp fun hlt heq => by
      rw [compareTexts_eq_eq.mpr heq] at hlt
      cases hlt)
  have hperm : entries'.Perm entries :=
    (List.perm_ext_iff_of_nodup (hnodup h') (hnodup h)).mpr fun ⟨name, node⟩ => by
      rw [← h'.lookup_eq_some_iff, ← h.lookup_eq_some_iff, hsame]
  refine hperm.eq_of_pairwise (fun entry entry' _ _ hbefore hafter => ?_)
    (List.pairwise_map.mp h') (List.pairwise_map.mp h)
  rw [← compareTexts_swap, hbefore] at hafter
  cases hafter

mutual

/-- **Trees in order** are the same when the same files and directories are at all places. -/
theorem Ordered.eq_of_content : (node : Node) → ∀ node' : Node, node.Ordered → node'.Ordered →
    (∀ names, (node'.get? names).map content? = (node.get? names).map content?) → node' = node
  | file c, node', _, _, hsame => by
    have htop := Option.some.inj (hsame [])
    cases node' with
    | file c' => exact congrArg file (Option.some.inj htop)
    | directory entries' => cases htop
  | directory entries, node', h, h', hsame => by
    cases node' with
    | file c' => cases Option.some.inj (hsame [])
    | directory entries' =>
      refine congrArg directory ((h [] entries rfl).eq_of_lookup (h' [] entries' rfl) fun name => ?_)
      have hbelow : ∀ names, ((entries'.lookup name).bind (get? · names)).map content? =
          ((entries.lookup name).bind (get? · names)).map content? := fun names =>
        hsame (name :: names)
      rcases hlookup : entries.lookup name with _ | child
      · rcases hlookup' : entries'.lookup name with _ | child'
        · rfl
        · have htop := hbelow []
          rw [hlookup, hlookup'] at htop
          cases htop
      · rcases hlookup' : entries'.lookup name with _ | child'
        · have htop := hbelow []
          rw [hlookup, hlookup'] at htop
          cases htop
        · have hchild := (h [] entries rfl).lookup_eq_some_iff.mp hlookup
          have hchild' := (h' [] entries' rfl).lookup_eq_some_iff.mp hlookup'
          rw [hlookup, hlookup'] at hbelow
          exact congrArg some (eq_of_content_of_mem entries (name, child) hchild child'
            (h.child hchild) (h'.child hchild') hbelow)

theorem eq_of_content_of_mem : (entries : List (Text × Node)) → ∀ entry ∈ entries,
    ∀ node' : Node, entry.2.Ordered → node'.Ordered →
      (∀ names, (node'.get? names).map content? = (entry.2.get? names).map content?) →
        node' = entry.2
  | [], _, hmem, _, _, _, _ => by cases hmem
  | (name, node) :: rest, entry, hmem, node', h, h', hsame => by
    rcases List.mem_cons.mp hmem with rfl | hmem
    · exact Ordered.eq_of_content node node' h h' hsame
    · exact eq_of_content_of_mem rest entry hmem node' h h' hsame

end

/-! ## All nodes -/

theorem mem_entryNodes_iff {entries : List (Text × Node)} {name : Text} {names : List Text}
    {node : Node} :
    (name :: names, node) ∈ entryNodes entries ↔
      ∃ child, (name, child) ∈ entries ∧ (names, node) ∈ nodes child := by
  induction entries with
  | nil => simp [entryNodes]
  | cons entry rest ih =>
    obtain ⟨n, below⟩ := entry
    rw [entryNodes, List.mem_append, ih]
    constructor
    · rintro (h | ⟨child, hchild, h⟩)
      · obtain ⟨found, hfound, heq⟩ := List.mem_map.mp h
        cases heq
        exact ⟨below, List.mem_cons_self, hfound⟩
      · exact ⟨child, List.mem_cons_of_mem _ hchild, h⟩
    · rintro ⟨child, hchild, h⟩
      rcases List.mem_cons.mp hchild with heq | hchild
      · cases heq
        exact .inl (List.mem_map.mpr ⟨_, h, rfl⟩)
      · exact .inr ⟨child, hchild, h⟩

theorem nil_not_mem_entryNodes {entries : List (Text × Node)} {node : Node} :
    ([], node) ∉ entryNodes entries := by
  induction entries with
  | nil => simp [entryNodes]
  | cons entry rest ih =>
    rw [entryNodes, List.mem_append, not_or]
    refine ⟨fun h => ?_, ih⟩
    obtain ⟨_, -, heq⟩ := List.mem_map.mp h
    cases heq

/-- What names lead to is listed. -/
theorem mem_nodes_of_get? {node found : Node} {names : List Text}
    (h : node.get? names = some found) : (names, found) ∈ node.nodes := by
  induction names generalizing node with
  | nil =>
    cases node with
    | file c =>
      cases h
      exact List.mem_singleton_self _
    | directory entries =>
      cases h
      exact List.mem_cons_self
  | cons name names ih =>
    cases node with
    | file c => cases h
    | directory entries =>
      obtain ⟨child, hchild, hfound⟩ := Option.bind_eq_some_iff.mp h
      exact List.mem_cons_of_mem _ (mem_entryNodes_iff.mpr
        ⟨child, BookSite.Ordered.mem_of_lookup hchild, ih hfound⟩)

/-- **A walk lists the nodes** that names lead to. -/
theorem Ordered.mem_nodes_iff {node : Node} (h : node.Ordered) {names : List Text}
    {found : Node} : (names, found) ∈ node.nodes ↔ node.get? names = some found := by
  refine ⟨fun hfound => ?_, mem_nodes_of_get?⟩
  induction names generalizing node with
  | nil =>
    cases node with
    | file c => simpa [nodes, eq_comm] using hfound
    | directory entries => simpa [nodes, nil_not_mem_entryNodes, eq_comm] using hfound
  | cons name names ih =>
    cases node with
    | file c => simp [nodes] at hfound
    | directory entries =>
      rw [nodes, List.mem_cons, mem_entryNodes_iff] at hfound
      obtain heq | ⟨child, hchild, hbelow⟩ := hfound
      · cases heq
      · rw [get?_directory_cons, (h [] entries rfl).lookup_eq_some_iff.mpr hchild]
        exact ih (h.child hchild) hbelow

/-- The entries of a directory are in order. -/
def HasOrder : Node → Prop
  | file _ => True
  | directory entries => InOrder entries

instance : (node : Node) → Decidable node.HasOrder
  | file _ => inferInstanceAs (Decidable True)
  | directory entries =>
    inferInstanceAs (Decidable ((entries.map Prod.fst).Pairwise fun m n => compareTexts m n = .lt))

/-- **A tree is in order** when all its directories are. -/
theorem ordered_of_nodes {node : Node} (h : ∀ found ∈ node.nodes, found.2.HasOrder) :
    node.Ordered := fun _ _ hplace => h _ (mem_nodes_of_get? hplace)

end Node

end BookSite
