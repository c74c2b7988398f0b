import BookSite.Proofs.Files.Lookup
import BookSite.Proofs.Files.PathOrder

/-!
# Proofs/Files/PathsBelow — the order of paths below one path

What is joined to a path adds its components to those of the path (`components_join`).  So paths of
names below one path are compared as the names are, and a walk, which tells names apart by their
first difference, lists paths in strict order (`before_joinNames`).
-/

namespace BookSite

namespace Component

theorem cmp_self (a : Component) : a.cmp a = .eq := Std.ReflCmp.compare_self

/-- Components in front of both lists decide nothing. -/
theorem cmpAll_append (front as bs : List Component) :
    cmpAll (front ++ as) (front ++ bs) = cmpAll as bs := by
  induction front with
  | nil => rfl
  | cons a front ih =>
    rw [List.cons_append, List.cons_append, cmpAll, cmp_self, ih]
    rfl

theorem cmpAll_self (as : List Component) : cmpAll as as = .eq := by
  have hself := cmpAll_append as [] []
  rwa [List.append_nil] at hself

/-- **Names in the order of a walk** are components in that order. -/
theorem cmpAll_of_comesBefore {names later : List Text} (h : Node.ComesBefore names later) :
    cmpAll (names.map .name) (later.map .name) = .lt := by
  induction h with
  | nil => rfl
  | cons _ ih =>
    rw [List.map_cons, List.map_cons, cmpAll, cmp_self, ih]
    rfl
  | rel hlt =>
    rw [List.map_cons, List.map_cons, cmpAll, cmp, hlt]
    rfl

end Component

namespace Path

/-! ## Strict order -/

/-- **A path strictly before another one**, in the order of their components. -/
def Before (p q : Path) : Prop := Component.cmpAll p.components q.components = .lt

theorem Before.le {p q : Path} (h : p.Before q) : p.le q = true := by
  rw [Path.le, h]
  rfl

theorem Before.components_ne {p q : Path} (h : p.Before q) : p.components ≠ q.components :=
  fun heq => by
    rw [Before, heq, Component.cmpAll_self] at h
    cases h

/-- **Paths in strict order**, each one before all that follow; so no two have the same
components. -/
structure Increasing (paths : List Path) : Prop where
  before : paths.Pairwise Before
  nodup : (paths.map components).Nodup

theorem increasing_of_pairwise {paths : List Path} (h : paths.Pairwise Before) :
    Increasing paths where
  before := h
  nodup := List.pairwise_map.mpr (h.imp Before.components_ne)

/-- **Sorting leaves paths in strict order** as they are. -/
theorem Increasing.mergeSort_eq {paths : List Path} (h : Increasing paths) :
    paths.mergeSort Path.le = paths := List.mergeSort_of_pairwise (h.before.imp Before.le)

/-! ## Components of joined paths -/

/-- A path from the working directory that does not begin with `.` has the components of its
segments. -/
theorem components_of_relative {p : Path} (hrelative : p.isAbsolute = false)
    (hhere : p.segments.head? ≠ some ['.']) :
    p.components = p.segments.filterMap component? := by
  unfold components
  split
  · rename_i habsolute
    rw [hrelative] at habsolute
    cases habsolute
  · rename_i hsegments
    rw [hsegments] at hhere
    exact absurd rfl hhere
  · rfl

/-- Only the segments behind the first one may differ between paths with the same beginning. -/
theorem components_of_segments {p r : Path} {front blank more : List Text} (hfront : front ≠ [])
    (habsolute : r.isAbsolute = p.isAbsolute) (hp : p.segments = front ++ blank)
    (hblank : blank.filterMap component? = []) (hr : r.segments = front ++ more) :
    r.components = p.components ++ more.filterMap component? := by
  have hbehind : (front ++ more).filterMap component? =
      (front ++ blank).filterMap component? ++ more.filterMap component? := by
    rw [List.filterMap_append, List.filterMap_append, hblank, List.append_nil]
  obtain ⟨first, front, rfl⟩ := List.exists_cons_of_ne_nil hfront
  unfold components
  rw [habsolute, hp, hr]
  cases p.isAbsolute with
  | true => exact congrArg (Component.root :: ·) hbehind
  | false =>
    by_cases hfirst : first = ['.']
    · subst hfirst
      exact congrArg (Component.here :: ·) hbehind
    · simpa [hfirst] using hbehind

/-- **What is joined to a path** adds its components. -/
theorem components_join (p : Path) {q : Path} (hrelative : q.isAbsolute = false)
    (hhere : q.segments.head? ≠ some ['.']) :
    (p.join q).components = p.components ++ q.components := by
  by_cases hp : p.text = []
  · obtain rfl : p = ⟨[]⟩ := congrArg mk hp
    rw [join_of_text_nil rfl]
    rfl
  have habsolute := (exists_segments_join p hrelative).1
  rw [components_of_relative hrelative hhere]
  obtain ⟨s⟩ := p
  rw [join_of_relative hp hrelative] at habsolute ⊢
  by_cases hslash : s.getLast? = some '/'
  · rw [if_pos hslash, List.append_nil] at habsolute ⊢
    obtain ⟨front, rfl⟩ := List.getLast?_eq_some_iff.mp hslash
    refine components_of_segments (List.splitOn_ne_nil '/' front) habsolute
      (segments_append_slash front []) rfl ?_
    rw [List.append_assoc, List.singleton_append]
    exact segments_append_slash front q.text
  · rw [if_neg hslash] at habsolute ⊢
    refine components_of_segments (List.splitOn_ne_nil '/' s) habsolute
      (List.append_nil _).symm rfl ?_
    rw [List.append_assoc, List.singleton_append]
    exact segments_append_slash s q.text

section Names

variable {names : List Text} (h : ∀ n ∈ names, IsPlain n)

include h

theorem filterMap_component? : names.filterMap component? = names.map .name := by
  rw [List.filterMap_congr fun n hn => component?_of_isPlain (h n hn)]
  exact congrFun List.filterMap_eq_map names

theorem head?_ne_here : names.head? ≠ some ['.'] := fun hhead =>
  (h _ (List.mem_of_head? hhead)).ne_here rfl

/-- **Names below a path** are components behind its own. -/
theorem components_joinNames (p : Path) :
    (p.joinNames names).components = p.components ++ names.map .name := by
  induction names generalizing p with
  | nil => exact (List.append_nil _).symm
  | cons name names ih =>
    obtain ⟨hname, hnames⟩ := List.forall_mem_cons.mp h
    have hsegments := segments_of_isPlain hname
    have hrelative := isAbsolute_of_isPlain_self hname
    have hhere : (segments ⟨name⟩).head? ≠ some ['.'] := by
      rw [hsegments]
      exact head?_ne_here (List.forall_mem_singleton.mpr hname)
    have hjoin : (p.join ⟨name⟩).components = p.components ++ [.name name] := by
      rw [components_join p hrelative hhere, components_of_relative hrelative hhere, hsegments,
        filterMap_component? (List.forall_mem_singleton.mpr hname)]
      rfl
    have hrest := ih hnames (p.join ⟨name⟩)
    rw [hjoin, List.append_assoc, List.singleton_append] at hrest
    exact hrest

theorem components_join_ofNames (p : Path) :
    (p.join (ofNames names)).components = p.components ++ names.map .name := by
  have hrelative := isAbsolute_ofNames h
  rcases eq_or_ne names [] with rfl | hne
  · exact components_join p hrelative (by decide)
  have hsegments := segments_ofNames h hne
  have hhere : (ofNames names).segments.head? ≠ some ['.'] := by
    rw [hsegments]
    exact head?_ne_here h
  rw [components_join p hrelative hhere, components_of_relative hrelative hhere, hsegments,
    filterMap_component? h]

variable {later : List Text} (hlater : ∀ n ∈ later, IsPlain n)
  (hbefore : Node.ComesBefore names later)

include hlater hbefore

/-- **A walk lists paths in strict order.** -/
theorem before_joinNames (p : Path) : (p.joinNames names).Before (p.joinNames later) := by
  rw [Before, components_joinNames h, components_joinNames hlater, Component.cmpAll_append]
  exact Component.cmpAll_of_comesBefore hbefore

theorem before_join_ofNames (p : Path) :
    (p.join (ofNames names)).Before (p.join (ofNames later)) := by
  rw [Before, components_join_ofNames h, components_join_ofNames hlater, Component.cmpAll_append]
  exact Component.cmpAll_of_comesBefore hbefore

end Names

end Path

/-! ## Listed files -/

namespace FileSystem

/-- **Files that can be walked through** below a path: their names are in order and plain. -/
structure IsWalkable (fs : FileSystem) (p : Path) : Prop where
  ordered : fs.root.Ordered
  plain : fs.PlainBelow (fs.place p)

variable {fs : FileSystem} {p : Path} (h : fs.IsWalkable p) (enter : Text → Bool)

include h

/-- **Listed files** have plain names, and are below the path by these names. -/
theorem IsWalkable.of_mem_filesBelow {found : Found} (hfound : found ∈ fs.filesBelow enter p) :
    found.path = p.joinNames found.names ∧ ∀ n ∈ found.names, IsPlain n := by
  obtain ⟨hpath, hfile⟩ := fileAt_of_mem_filesBelow h.ordered hfound
  refine ⟨hpath, h.plain found.names (has_iff.mpr (.inl ?_))⟩
  rw [hfile]
  rfl

theorem IsWalkable.pairwise_names :
    ((fs.filesBelow enter p).map Found.names).Pairwise Node.ComesBefore := by
  unfold filesBelow
  split
  · rename_i node hnode
    rw [List.map_map]
    exact Node.pairwise_files enter node (h.ordered.of_get? (fs.get?_place_of_node hnode))
  · exact List.Pairwise.nil

/-- **Files are listed in the order of their paths.** -/
theorem IsWalkable.pairwise_paths :
    ((fs.filesBelow enter p).map Found.path).Pairwise Path.Before := by
  have hnames := List.pairwise_map.mp (h.pairwise_names enter)
  refine List.pairwise_map.mpr (hnames.imp_of_mem fun {found later} hmem hlater hbefore => ?_)
  obtain ⟨hpath, hplain⟩ := h.of_mem_filesBelow enter hmem
  obtain ⟨hpath', hplain'⟩ := h.of_mem_filesBelow enter hlater
  rw [hpath, hpath']
  exact Path.before_joinNames hplain hplain' hbefore p

end FileSystem

end BookSite
