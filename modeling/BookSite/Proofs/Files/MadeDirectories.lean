import BookSite.Proofs.Files.Entering

/-!
# Proofs/Files/MadeDirectories — which directories are created

Creating a directory with all that is missing above it makes the places that its path goes into
directories, one after another, until something is in the way (`MakesWay`).  It succeeds just when
nothing is (`makesWay_createDirAll`).
-/

namespace BookSite.FileSystem

variable {fs fs' fs'' : FileSystem} {p : Path}

/-! ## Directories only -/

/-- **Nothing but directories is new.** -/
structure Makes (new : List Text → Prop) (fs fs' : FileSystem) : Prop where
  workDir : fs'.workDir = fs.workDir
  fileAt_eq : ∀ y, fs'.fileAt y = fs.fileAt y
  isDirAt_iff : ∀ y, fs'.IsDirAt y ↔ fs.IsDirAt y ∨ new y

namespace Makes

variable {new more : List Text → Prop}

/-- Directories that are there are not new. -/
theorem refl (h : ∀ y, new y → fs.IsDirAt y) : Makes new fs fs where
  workDir := rfl
  fileAt_eq _ := rfl
  isDirAt_iff y := ⟨.inl, fun hy => hy.elim id (h y)⟩

theorem trans (h : Makes new fs fs') (h' : Makes more fs' fs'') :
    Makes (fun y => new y ∨ more y) fs fs'' where
  workDir := h'.workDir.trans h.workDir
  fileAt_eq y := (h'.fileAt_eq y).trans (h.fileAt_eq y)
  isDirAt_iff y := by rw [h'.isDirAt_iff, h.isDirAt_iff, or_assoc]

theorem congr (h : Makes new fs fs') (hiff : ∀ y, new y ↔ more y) : Makes more fs fs' :=
  { h with isDirAt_iff := fun y => by rw [h.isDirAt_iff, hiff] }

theorem isFree_eq (h : Makes new fs fs') : fs'.isFree = fs.isFree :=
  funext fun y => by rw [isFree, isFree, h.fileAt_eq]

theorem origin_eq (h : Makes new fs fs') (p : Path) : fs'.origin p = fs.origin p := by
  rw [origin, origin, h.workDir]

theorem place_eq (h : Makes new fs fs') (p : Path) : fs'.place p = fs.place p := by
  rw [place, place, h.origin_eq]

end Makes

/-- **An empty directory at a free place.** -/
theorem makes_put {parent : List Text} {name : Text} {entries : List (Text × Node)}
    (hparent : fs.root.get? parent = some (.directory entries))
    (hfree : entries.lookup name = none) :
    Makes (· = parent ++ [name]) fs (fs.put (parent ++ [name]) (.directory [])) := by
  have hnone : fs.root.get? (parent ++ [name]) = none := (Node.get?_concat hparent name).trans hfree
  have hdir : ¬ fs.IsDirAt (parent ++ [name]) := fun ⟨below, hbelow⟩ => by
    rw [hnone] at hbelow
    cases hbelow
  refine ⟨rfl, fun y => ?_, fun y => ⟨fun hy => ?_, ?_⟩⟩
  · obtain hsame | ⟨content, -, -, hcontent⟩ := fileAt_put hparent hdir Node.isLeaf_directory_nil
      (fun _ => fileAt_eq_none_of_get? hnone) y
    · exact hsame
    · cases hcontent
  · obtain ⟨rest, rfl, hget⟩ | ⟨hbefore, -⟩ | hsame := cases_put hparent name (.directory []) y
    · by_cases hrest : rest = []
      · exact .inr (by rw [hrest, List.append_nil])
      · obtain ⟨below, hbelow⟩ := hy
        rw [hget, Node.isLeaf_directory_nil rest hrest] at hbelow
        cases hbelow
    · exact .inl hbefore
    · exact .inl (hy.imp fun below hbelow => hsame.symm.trans hbelow)
  · rintro (hy | rfl)
    · exact isDirAt_put hparent hdir hy
    · exact ⟨[], Node.get?_put_append hparent []⟩

/-! ## Paths that can be used -/

theorem byteCount_append (s t : Text) : byteCount (s ++ t) = byteCount s + byteCount t := by
  have hfrom : ∀ (t : Text) (n : Nat),
      t.foldl (fun n c => n + c.utf8Size) n = n + byteCount t := fun t => by
    induction t with
    | nil => simp [byteCount]
    | cons c t ih =>
      intro n
      rw [byteCount, List.foldl_cons, List.foldl_cons, ih, ih]
      omega
  rw [byteCount, List.foldl_append, hfrom]
  rfl

/-- **A path that a file can have.** -/
structure IsUsable (p : Path) : Prop where
  noNul : '\x00' ∉ p.text
  short : byteCount p.text ≤ maxPathBytes

instance (p : Path) : Decidable (IsUsable p) :=
  decidable_of_iff ('\x00' ∉ p.text ∧ byteCount p.text ≤ maxPathBytes)
    ⟨fun ⟨hnul, hshort⟩ => ⟨hnul, hshort⟩, fun h => ⟨h.noNul, h.short⟩⟩

theorem IsUsable.of_prefix {q : Path} (h : IsUsable p) (hq : q.text <+: p.text) : IsUsable q := by
  obtain ⟨more, hmore⟩ := hq
  refine ⟨fun hnul => h.noNul (hmore ▸ List.mem_append_left more hnul), ?_⟩
  have hshort := h.short
  rw [← hmore, byteCount_append] at hshort
  omega

theorem checkPath_eq_ok_iff : checkPath p = .ok () ↔ IsUsable p ∧ p.text ≠ [] := by
  unfold checkPath
  constructor
  · intro h
    split at h
    · cases h
    · rename_i hnul
      split at h
      · cases h
      · rename_i hempty
        split at h
        · cases h
        · rename_i hshort
          exact ⟨⟨hnul, by omega⟩, by simpa using hempty⟩
  · rintro ⟨husable, hne⟩
    rw [if_neg husable.noNul, if_neg (by simpa using hne), if_neg (by have := husable.short; omega)]

/-- **A path leads to a directory** when all on the way are directories. -/
theorem isDir_iff : fs.isDir p = true ↔ checkPath p = .ok () ∧ fs.Opens (fs.origin p) p.segments := by
  constructor
  · intro h
    obtain ⟨entries, hnode⟩ := exists_node_of_isDir h
    obtain ⟨hcheck, hfollow, hget⟩ := fs.node_eq_ok_iff.mp hnode
    have hdir : fs.dirAlong (fs.origin p) p.segments = .ok (fs.place p, entries) :=
      bind_eq_ok.mpr ⟨_, hfollow, by rw [hget]⟩
    exact ⟨hcheck, (dirAlong_eq_ok_iff.mp hdir).1⟩
  · rintro ⟨hcheck, hopens⟩
    obtain ⟨entries, hdir, hentries⟩ := exists_dirAlong hopens
    obtain ⟨found, hfollow, -⟩ := bind_eq_ok.mp hdir
    obtain rfl := fs.eq_placeFrom_of_follow hfollow
    rw [isDir, fs.node_eq_ok_iff.mpr ⟨hcheck, hfollow, hentries⟩]

/-! ## One directory -/

section Last

variable {before : List Text} {last : Text} {slashed : Bool}
  (hlast : lastSegment p = (before, last, slashed))

include hlast

theorem entered_of_lastSegment (place : List Text) :
    entered place p.segments =
      entered place before ++ entered (placeFrom place before) [last] := by
  obtain ⟨n, hsegments⟩ := segments_eq_of_lastSegment hlast
  have hempty : ∀ place, entered place (List.replicate n []) = [] := fun place => by
    rw [← entered_namesAlong, namesAlong_replicate_nil]
    rfl
  rw [hsegments, ← List.singleton_append, ← List.append_assoc, entered_append, hempty,
    List.append_nil, entered_append]

theorem opens_of_lastSegment {place : List Text} :
    fs.Opens place p.segments ↔
      fs.Opens place before ∧ fs.Opens (placeFrom place before) [last] := by
  rw [← opens_append, Opens, Opens, entered_of_lastSegment hlast, entered_append]

theorem createDir_of_error {e : FileError} (hcheck : checkPath p = .ok ())
    (h : fs.dirAlong (fs.origin p) before = .error e) : fs.createDir p = .error e := by
  rw [createDir, hcheck, hlast]
  simp only [bind, Except.bind, parentPlace_eq, h]

theorem createDir_of_dirAlong {place : List Text} {entries : List (Text × Node)}
    (hcheck : checkPath p = .ok ())
    (h : fs.dirAlong (fs.origin p) before = .ok (place, entries)) :
    fs.createDir p =
      if IsName last then
        if byteCount last > maxNameBytes then .error .nameTooLong
        else match entries.lookup last with
          | some _ => .error .alreadyExists
          | none => .ok (fs.put (place ++ [last]) (.directory []))
      else .error .alreadyExists := by
  rw [createDir, hcheck, hlast]
  simp only [bind, Except.bind, parentPlace_eq, h]
  by_cases hname : IsName last
  · obtain ⟨hne, hhere, hup⟩ := id hname
    rw [if_pos hname]
    exact if_neg (by simp [hne, hhere, hup])
  · rw [if_neg hname]
    have hskip : (last.isEmpty || last == ['.'] || last == ['.', '.']) = true := by
      by_contra hno
      simp only [Bool.not_eq_true, Bool.or_eq_false_iff, List.isEmpty_eq_false_iff,
        beq_eq_false_iff_ne] at hno
      exact hname ⟨hno.1.1, hno.1.2, hno.2⟩
    rw [if_pos hskip]

end Last

/-! ## Directories along a path -/

/-- **What became of making directories** at some places, one after another: those are directories
that come before the first one with something in the way. -/
structure MakesWay (fs : FileSystem) (places : List (List Text))
    (outcome : Except FileError Unit × FileSystem) : Prop where
  makes : fs.Makes (· ∈ places.takeWhile fs.isFree) outcome.2
  ok_iff : outcome.1 = .ok () ↔ ∀ y ∈ places, fs.isFree y = true

namespace MakesWay

variable {places more : List (List Text)} {outcome outcome' : Except FileError Unit × FileSystem}

/-- Nothing is to be made. -/
theorem of_opens (h : ∀ y ∈ places, fs.IsDirAt y ∧ IsShort y) : MakesWay fs places (.ok (), fs) where
  makes := .refl fun y hy => (h y ((List.takeWhile_sublist _).subset hy)).1
  ok_iff := ⟨fun _ y hy => isFree_iff.mpr ⟨(h y hy).1.fileAt_eq_none, (h y hy).2⟩, fun _ => rfl⟩

/-- Something is in the way. -/
theorem of_blocked {e : FileError} (hblocked : ∃ y ∈ places, fs.isFree y = false)
    (h : ∀ y ∈ places.takeWhile fs.isFree, fs.IsDirAt y) : MakesWay fs places (.error e, fs) where
  makes := .refl h
  ok_iff := by
    obtain ⟨y, hy, hfree⟩ := hblocked
    refine ⟨fun h => (by cases h), fun hall => ?_⟩
    rw [hall y hy] at hfree
    cases hfree

theorem of_blocked_single {e : FileError} {y : List Text} (hblocked : fs.isFree y = false) :
    MakesWay fs [y] (.error e, fs) :=
  .of_blocked ⟨y, List.mem_singleton_self y, hblocked⟩ (by
    rw [List.takeWhile_cons_of_neg (by simp [hblocked])]
    simp)

/-- A new directory in one that is there. -/
theorem of_put {place : List Text} {entries : List (Text × Node)} {name : Text}
    (hentries : fs.root.get? place = some (.directory entries))
    (hlookup : entries.lookup name = none) (hshort : byteCount name ≤ maxNameBytes) :
    MakesWay fs [place ++ [name]] (.ok (), fs.put (place ++ [name]) (.directory [])) := by
  have hfree : fs.isFree (place ++ [name]) = true := isFree_iff.mpr
    ⟨fileAt_eq_none_of_get? ((Node.get?_concat hentries name).trans hlookup),
      isShort_concat.mpr hshort⟩
  refine ⟨(makes_put hentries hlookup).congr fun y => ?_, fun _ => ?_, fun _ => rfl⟩
  · rw [List.takeWhile_cons_of_pos hfree, List.takeWhile_nil, List.mem_singleton]
  · exact List.forall_mem_singleton.mpr hfree

theorem append (h : MakesWay fs places outcome) (hok : outcome.1 = .ok ())
    (h' : MakesWay outcome.2 more outcome') : MakesWay fs (places ++ more) outcome' where
  makes := by
    have hall := h.ok_iff.mp hok
    have hmakes := h'.makes
    rw [h.makes.isFree_eq] at hmakes
    refine (h.makes.trans hmakes).congr fun y => ?_
    rw [List.takeWhile_append_of_pos hall, List.takeWhile_eq_self_iff.mpr hall, List.mem_append]
  ok_iff := by
    rw [h'.ok_iff, h.makes.isFree_eq, List.forall_mem_append]
    exact ⟨fun hmore => ⟨h.ok_iff.mp hok, hmore⟩, fun hboth => hboth.2⟩

theorem append_of_error (h : MakesWay fs places outcome) (herror : outcome.1 ≠ .ok ())
    (more : List (List Text)) : MakesWay fs (places ++ more) outcome where
  makes := by
    have hlength : (places.takeWhile fs.isFree).length ≠ places.length := fun heq =>
      herror (h.ok_iff.mpr (List.takeWhile_eq_self_iff.mp
        ((List.takeWhile_prefix _).eq_of_length heq)))
    exact h.makes.congr fun y => by rw [List.takeWhile_append, if_neg hlength]
  ok_iff := by
    rw [h.ok_iff, List.forall_mem_append]
    exact ⟨fun hall => absurd (h.ok_iff.mpr hall) herror, fun hboth => hboth.1⟩

end MakesWay

/-- Create a directory if it is not there already. -/
def settle (fs : FileSystem) (p : Path) : Except FileError Unit × FileSystem :=
  match fs.createDir p with
  | .ok created => (.ok (), created)
  | .error e => (if fs.isDir p then .ok () else .error e, fs)

section Settle

variable {e : FileError} (hcreate : fs.createDir p = .error e)

include hcreate

theorem settle_of_isDir (h : fs.isDir p = true) : fs.settle p = (.ok (), fs) := by
  rw [settle, hcreate]
  simp only [h, if_true]

theorem settle_of_not_isDir (h : ¬ fs.isDir p = true) : fs.settle p = (.error e, fs) := by
  rw [settle, hcreate]
  simp only [h]
  rfl

end Settle

section Last

variable {before : List Text} {last : Text} {slashed : Bool}
  (hlast : lastSegment p = (before, last, slashed)) (hcheck : checkPath p = .ok ())

include hlast hcheck

section Above

variable (hopens : fs.Opens (fs.origin p) before)

include hopens

theorem isDir_iff_of_lastSegment :
    fs.isDir p = true ↔ fs.Opens (placeFrom (fs.origin p) before) [last] := by
  rw [isDir_iff, opens_of_lastSegment hlast]
  exact ⟨fun h => h.2.2, fun h => ⟨hcheck, hopens, h⟩⟩

/-- **A directory with a name** is made when the one above it is there and nothing else has the
name. -/
theorem makesWay_settle_of_isName (hname : IsName last) :
    MakesWay fs [placeFrom (fs.origin p) before ++ [last]] (fs.settle p) := by
  obtain ⟨entries, hdir, hentries⟩ := exists_dirAlong hopens
  have hcreate := createDir_of_dirAlong hlast hcheck hdir
  have hisDir := isDir_iff_of_lastSegment hlast hcheck hopens
  rw [if_pos hname] at hcreate
  rw [opens_cons_of_isName hname, opens_nil] at hisDir
  generalize placeFrom (fs.origin p) before = place at hentries hcreate hisDir ⊢
  have hget := Node.get?_concat hentries last
  by_cases hshort : byteCount last ≤ maxNameBytes
  · rw [if_neg (by omega)] at hcreate
    rcases hlookup : entries.lookup last with _ | (content | below)
    · rw [hlookup] at hcreate
      rw [settle, hcreate]
      exact .of_put hentries hlookup hshort
    · have hfile := fileAt_of_get? (hget.trans hlookup)
      have hno : ¬ fs.isDir p = true := fun hyes => by
        rw [(hisDir.mp hyes).2.2.fileAt_eq_none] at hfile
        cases hfile
      rw [hlookup] at hcreate
      rw [settle_of_not_isDir hcreate hno]
      exact .of_blocked_single (by rw [isFree, hfile]; rfl)
    · have hthere : fs.IsDirAt (place ++ [last]) := ⟨below, hget.trans hlookup⟩
      rw [hlookup] at hcreate
      rw [settle_of_isDir hcreate (hisDir.mpr ⟨⟨entries, hentries⟩, hshort, hthere⟩)]
      exact .of_opens (List.forall_mem_singleton.mpr ⟨hthere, isShort_concat.mpr hshort⟩)
  · rw [if_pos (by omega)] at hcreate
    rw [settle_of_not_isDir hcreate fun hyes => hshort (hisDir.mp hyes).2.1]
    exact .of_blocked_single (by
      rw [isFree, decide_eq_false (isShort_concat.not.mpr hshort), Bool.and_false])

/-- **The last directory** is made when those above it are there. -/
theorem makesWay_settle :
    MakesWay fs (entered (placeFrom (fs.origin p) before) [last]) (fs.settle p) := by
  by_cases hname : IsName last
  · rw [entered_cons_of_isName hname, entered]
    exact makesWay_settle_of_isName hlast hcheck hopens hname
  · obtain ⟨entries, hdir, hentries⟩ := exists_dirAlong hopens
    have hcreate := createDir_of_dirAlong hlast hcheck hdir
    rw [if_neg hname] at hcreate
    have hyes : fs.isDir p = true := (isDir_iff_of_lastSegment hlast hcheck hopens).mpr
      ((opens_cons_of_not hname).mpr ⟨⟨entries, hentries⟩,
        opens_nil.mpr (isDirAt_stepTo hname ⟨entries, hentries⟩)⟩)
    rw [settle_of_isDir hcreate hyes, entered_cons_of_not hname, entered]
    exact .of_opens fun y hy => by cases hy

end Above

end Last

/-! ## All directories -/

section CreateDirs

variable {above : List Path} (hne : p.text ≠ [])

include hne

theorem createDirs_cons (h : fs.createDir p ≠ .error .notFound) :
    fs.createDirs (p :: above) = fs.settle p := by
  rw [createDirs, settle, if_neg (by simpa using hne)]
  rcases hcreate : fs.createDir p with e | created
  · cases e with
    | notFound => exact absurd hcreate h
    | _ => rfl
  · rfl

theorem createDirs_cons_of_notFound (h : fs.createDir p = .error .notFound) :
    fs.createDirs (p :: above) =
      match fs.createDirs above with
      | (.error e, created) => (.error e, created)
      | (.ok (), created) => created.settle p := by
  rw [createDirs, h, if_neg (by simpa using hne)]
  rfl

end CreateDirs

/-- The way is open when all of it was made. -/
theorem MakesWay.opens {place segments : List Text}
    {outcome : Except FileError Unit × FileSystem}
    (h : MakesWay fs (entered place segments) outcome) (hok : outcome.1 = .ok ())
    (hdir : fs.IsDirAt place) : outcome.2.Opens place segments := by
  have hall := h.ok_iff.mp hok
  refine ⟨(h.makes.isDirAt_iff _).mpr (.inl hdir), fun y hy => ⟨?_, (isFree_iff.mp (hall y hy)).2⟩⟩
  rw [h.makes.isDirAt_iff, List.takeWhile_eq_self_iff.mpr hall]
  exact .inr hy

/-- **What the directory above is**, if it cannot be found. -/
theorem exists_parent_of_notFound {before : List Text} {last : Text} {slashed : Bool}
    (htrimmed : p.IsTrimmed) (hlast : lastSegment p = (before, last, slashed))
    (hdir : fs.IsDirAt (fs.origin p))
    (habove : fs.dirAlong (fs.origin p) before = .error .notFound) :
    ∃ parent, p.parent? = some parent ∧ parent.IsParent p ∧ parent.steps = namesAlong before := by
  obtain hnone | ⟨before', last', hsegments, hstep⟩ := htrimmed
  · obtain ⟨n, hsegments⟩ := segments_eq_of_lastSegment hlast
    have hbefore : namesAlong before = [] := by
      rw [Path.steps, hsegments, namesAlong_append] at hnone
      exact (List.append_eq_nil_iff.mp hnone).1
    have hopens : fs.Opens (fs.origin p) before := by
      rw [Opens, ← entered_namesAlong, hbefore]
      exact ⟨hdir, by simp [entered]⟩
    obtain ⟨_, hfound, -⟩ := exists_dirAlong hopens
    rw [habove] at hfound
    cases hfound
  · have hsame : lastSegment p = (before', last', false) := by
      simp [lastSegment, hsegments, hstep.ne_nil]
    rw [hlast] at hsame
    obtain ⟨rfl, rfl, -⟩ : before = before' ∧ last = last' ∧ slashed = false := by
      simpa using hsame
    have hsteps : p.steps = namesAlong before ++ [last] := by
      rw [Path.steps, hsegments, namesAlong_append, namesAlong_of_isStep hstep]
    obtain ⟨parent, hparent⟩ := Path.exists_parent? (p := p) (by simp [hsteps])
    have hisParent := Path.isParent_of_parent? hparent
    exact ⟨parent, hparent, hisParent, by rw [hisParent.steps, hsteps, List.dropLast_concat]⟩

section Step

variable {before : List Text} {last : Text} {slashed : Bool} (hne : p.text ≠ [])
  (hlast : lastSegment p = (before, last, slashed)) (hcheck : checkPath p = .ok ())
  (hdir : fs.IsDirAt (fs.origin p)) (above : List Path)

include hne hlast hcheck

/-- **The directories above are there**, and the last one is made if nothing is in the way. -/
theorem makesWay_createDirs_of_opens (hopens : fs.Opens (fs.origin p) before) :
    MakesWay fs (entered (fs.origin p) p.segments) (fs.createDirs (p :: above)) := by
  have hcreate : fs.createDir p ≠ .error .notFound := by
    obtain ⟨entries, habove, -⟩ := exists_dirAlong hopens
    rw [createDir_of_dirAlong hlast hcheck habove]
    split
    · split
      · simp
      · split <;> simp
    · simp
  rw [createDirs_cons hne hcreate, entered_of_lastSegment hlast]
  have hway : MakesWay fs (entered (fs.origin p) before) (.ok (), fs) := .of_opens hopens.2
  exact hway.append rfl (makesWay_settle hlast hcheck hopens)

include hdir

/-- **Something stands in the way** above the last directory. -/
theorem makesWay_createDirs_of_error {e : FileError}
    (habove : fs.dirAlong (fs.origin p) before = .error e) (he : e ≠ .notFound) :
    MakesWay fs (entered (fs.origin p) p.segments) (fs.createDirs (p :: above)) := by
  have hcreate := createDir_of_error hlast hcheck habove
  have hno : ¬ fs.isDir p = true := fun hyes => by
    obtain ⟨_, hopen, -⟩ :=
      exists_dirAlong ((opens_of_lastSegment hlast).mp (isDir_iff.mp hyes).2).1
    rw [habove] at hopen
    cases hopen
  rw [createDirs_cons hne (by rw [hcreate]; simpa using he), settle_of_not_isDir hcreate hno,
    entered_of_lastSegment hlast]
  obtain ⟨hblocked, hdirs⟩ := exists_blocked_of_dirAlong hdir habove he
  have hway : MakesWay fs (entered (fs.origin p) before) (.error e, fs) :=
    .of_blocked hblocked hdirs
  exact hway.append_of_error (fun h => by cases h) _

/-- **The directories above are missing**, and are made first. -/
theorem makesWay_createDirs_of_notFound
    (habove : fs.dirAlong (fs.origin p) before = .error .notFound)
    (hway : MakesWay fs (entered (fs.origin p) before) (fs.createDirs above)) :
    MakesWay fs (entered (fs.origin p) p.segments) (fs.createDirs (p :: above)) := by
  rw [createDirs_cons_of_notFound hne (createDir_of_error hlast hcheck habove),
    entered_of_lastSegment hlast]
  rcases hmade : fs.createDirs above with ⟨e | _, created⟩
  · rw [hmade] at hway
    exact hway.append_of_error (fun h => by cases h) _
  · rw [hmade] at hway
    have hopens := hway.opens rfl hdir
    rw [← hway.makes.origin_eq p] at hopens
    have hsettle := makesWay_settle hlast hcheck hopens
    rw [hway.makes.origin_eq] at hsettle
    exact hway.append rfl hsettle

end Step

/-- **A directory and all above it** are made as far as the way is free. -/
theorem makesWay_createDirs {n : Nat} (hn : p.text.length < n) (htrimmed : p.IsTrimmed)
    (husable : IsUsable p) (hdir : fs.IsDirAt (fs.origin p)) :
    MakesWay fs (entered (fs.origin p) p.segments) (fs.createDirs (p.ancestorsUpTo n)) := by
  induction n generalizing p with
  | zero => omega
  | succ n ih =>
    rw [Path.ancestorsUpTo]
    by_cases hne : p.text = []
    · obtain ⟨text⟩ := p
      obtain rfl : text = [] := hne
      exact .of_opens fun y hy => by cases hy
    have hcheck := checkPath_eq_ok_iff.mpr ⟨husable, hne⟩
    rcases hlast : lastSegment p with ⟨before, last, slashed⟩
    rcases habove : fs.dirAlong (fs.origin p) before with e | ⟨place, entries⟩
    · by_cases he : e = .notFound
      · subst he
        obtain ⟨parent, hparent, hisParent, hsteps⟩ :=
          exists_parent_of_notFound htrimmed hlast hdir habove
        have horigin : fs.origin parent = fs.origin p := by
          rw [origin, origin, hisParent.isAbsolute]
        have hlength := hisParent.length_lt
        have hway := ih (by omega) hisParent.trimmed (husable.of_prefix hisParent.text)
          (horigin ▸ hdir)
        rw [horigin, ← entered_namesAlong, ← Path.steps, hsteps, entered_namesAlong] at hway
        rw [hparent]
        exact makesWay_createDirs_of_notFound hne hlast hcheck hdir _ habove hway
      · exact makesWay_createDirs_of_error hne hlast hcheck hdir _ habove he
    · exact makesWay_createDirs_of_opens hne hlast hcheck _ (dirAlong_eq_ok_iff.mp habove).1

/-- A path that no file can have is refused. -/
theorem exists_createDirs_of_not_isUsable (h : ¬ IsUsable p) (above : List Path) :
    ∃ e, fs.createDirs (p :: above) = (.error e, fs) := by
  have hne : p.text ≠ [] := fun hempty => h ⟨by simp [hempty], by simp [hempty, byteCount]⟩
  have hno : ¬ fs.isDir p = true := fun hyes =>
    h (checkPath_eq_ok_iff.mp (isDir_iff.mp hyes).1).1
  obtain ⟨e, hcheck, he⟩ : ∃ e, checkPath p = .error e ∧ e ≠ .notFound := by
    unfold checkPath
    split
    · exact ⟨_, rfl, by simp⟩
    · rw [if_neg (by simpa using hne)]
      split
      · exact ⟨_, rfl, by simp⟩
      · rename_i hnul hshort
        exact absurd ⟨hnul, by omega⟩ h
  have hcreate : fs.createDir p = .error e := by
    rw [createDir, hcheck]
    rfl
  exact ⟨e, by rw [createDirs_cons hne (by rw [hcreate]; simpa using he),
    settle_of_not_isDir hcreate hno]⟩

/-- From what is no directory no directory can be made. -/
theorem exists_createDirs_of_not_isDirAt (hne : p.text ≠ []) (hdir : ¬ fs.IsDirAt (fs.origin p))
    {above : List Path} (habove : (fs.createDirs above).2 = fs) :
    ∃ e, fs.createDirs (p :: above) = (.error e, fs) := by
  by_cases husable : IsUsable p
  · have hcheck := checkPath_eq_ok_iff.mpr ⟨husable, hne⟩
    rcases hlast : lastSegment p with ⟨before, last, slashed⟩
    obtain ⟨e, hbefore⟩ : ∃ e, fs.dirAlong (fs.origin p) before = .error e := by
      rcases hfound : fs.dirAlong (fs.origin p) before with e | ⟨place, entries⟩
      · exact ⟨e, rfl⟩
      · exact absurd (dirAlong_eq_ok_iff.mp hfound).1.1 hdir
    have hcreate := createDir_of_error hlast hcheck hbefore
    have hsettle : fs.settle p = (.error e, fs) :=
      settle_of_not_isDir hcreate fun hyes => hdir (isDir_iff.mp hyes).2.1
    by_cases he : e = .notFound
    · subst he
      rw [createDirs_cons_of_notFound hne hcreate]
      rcases hmade : fs.createDirs above with ⟨e | _, created⟩
      · rw [hmade] at habove
        exact ⟨e, by rw [← habove]⟩
      · rw [hmade] at habove
        obtain rfl : created = fs := habove
        exact ⟨_, hsettle⟩
    · exact ⟨e, by rw [createDirs_cons hne (by rw [hcreate]; simpa using he), hsettle]⟩
  · exact exists_createDirs_of_not_isUsable husable above

theorem createDirs_of_not_isDirAt {n : Nat} (hn : p.text.length < n)
    (hdir : ¬ fs.IsDirAt (fs.origin p)) :
    (fs.createDirs (p.ancestorsUpTo n)).2 = fs ∧
      ((fs.createDirs (p.ancestorsUpTo n)).1 = .ok () ↔ p.text = []) := by
  induction n generalizing p with
  | zero => omega
  | succ n ih =>
    rw [Path.ancestorsUpTo]
    by_cases hne : p.text = []
    · rw [createDirs, if_pos (by simpa using hne)]
      exact ⟨rfl, fun _ => hne, fun _ => rfl⟩
    · have habove : ∀ parent, p.parent? = some parent →
          (fs.createDirs (parent.ancestorsUpTo n)).2 = fs := fun parent hparent => by
        have hisParent := Path.isParent_of_parent? hparent
        have hlength := hisParent.length_lt
        exact (ih (by omega) (by rwa [origin, hisParent.isAbsolute])).1
      rcases hparent : p.parent? with _ | parent
      · have hnothing : (fs.createDirs []).2 = fs := rfl
        obtain ⟨e, herror⟩ := exists_createDirs_of_not_isDirAt hne hdir hnothing
        dsimp only
        rw [herror]
        exact ⟨rfl, fun h => (by cases h), fun h => absurd h hne⟩
      · obtain ⟨e, herror⟩ := exists_createDirs_of_not_isDirAt hne hdir (habove parent hparent)
        dsimp only
        rw [herror]
        exact ⟨rfl, fun h => (by cases h), fun h => absurd h hne⟩

/-! ## Directories with all above them -/

/-- **The way to a directory**, along which directories can be made: a path that can be used from a
directory, with nothing in the way. -/
structure IsClear (fs : FileSystem) (p : Path) : Prop where
  usable : IsUsable p
  dir : fs.IsDirAt (fs.origin p)
  free : ∀ y ∈ entered (fs.origin p) p.segments, fs.isFree y = true

/-- The directories that are made along a path. -/
def MadeAlong (fs : FileSystem) (p : Path) (y : List Text) : Prop :=
  IsUsable p ∧ fs.IsDirAt (fs.origin p) ∧
    y ∈ (entered (fs.origin p) p.segments).takeWhile fs.isFree

/-- **Creating a directory with all above it**: what is made, and when it succeeds. -/
theorem makes_createDirAll (fs : FileSystem) (htrimmed : p.IsTrimmed) :
    Makes (fs.MadeAlong p) fs (fs.createDirAll p).2 ∧
      ((fs.createDirAll p).1 = .ok () ↔ p.text = [] ∨ fs.IsClear p) := by
  have hn : p.text.length < p.text.length + 1 := Nat.lt_succ_self _
  by_cases husable : IsUsable p
  · by_cases hdir : fs.IsDirAt (fs.origin p)
    · have hway := makesWay_createDirs hn htrimmed husable hdir
      refine ⟨hway.makes.congr fun y => ⟨fun hy => ⟨husable, hdir, hy⟩, fun hy => hy.2.2⟩, ?_⟩
      rw [createDirAll, Path.ancestors, hway.ok_iff]
      constructor
      · exact fun hall => .inr ⟨husable, hdir, hall⟩
      · rintro (hempty | hclear)
        · obtain ⟨text⟩ := p
          obtain rfl : text = [] := hempty
          exact fun y hy => by cases hy
        · exact hclear.free
    · obtain ⟨hsame, hok⟩ := createDirs_of_not_isDirAt hn hdir
      rw [createDirAll, Path.ancestors, hsame, hok]
      exact ⟨.refl fun y hy => absurd hy.2.1 hdir, .inl,
        fun h => h.elim id fun hclear => absurd hclear.dir hdir⟩
  · obtain ⟨e, hall⟩ : ∃ e, fs.createDirAll p = (.error e, fs) := by
      rw [createDirAll, Path.ancestors, Path.ancestorsUpTo]
      exact exists_createDirs_of_not_isUsable husable _
    rw [hall]
    refine ⟨.refl fun y hy => absurd hy.1 husable, fun h => (by cases h), ?_⟩
    rintro (hempty | hclear)
    · exact absurd ⟨by simp [hempty], by simp [hempty, byteCount]⟩ husable
    · exact absurd hclear.usable husable

end BookSite.FileSystem
