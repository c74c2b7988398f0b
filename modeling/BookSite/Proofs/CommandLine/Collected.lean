import BookSite.CommandLine.Command
import BookSite.Proofs.Files.Place

/-!
# Proofs/CommandLine/Collected — what is collected from arguments

Whatever the arguments are, what a grammar collects from them has been put together by its switches
and positional arguments.  So a property that each of these keeps, and that holds at the start,
holds of what is collected (`Grammar.Keeps.readAll`).  For `migrate` this says that no path on the
command line is empty.
-/

namespace BookSite.CommandLine

variable {σ : Type} {P : σ → Prop}

/-! ## Properties that are kept -/

/-- A change of what is collected that keeps a property whenever it succeeds. -/
def Keeps (P : σ → Prop) (next : σ → Except ArgumentError σ) : Prop :=
  ∀ ⦃s s' : σ⦄, P s → next s = .ok s' → P s'

/-- A way of storing values that keeps a property, whatever the value is. -/
def StoreKeeps (P : σ → Prop) (store : Store σ) : Prop := ∀ t, Keeps P (store t)

/-- A switch that keeps a property. -/
def EffectKeeps (P : σ → Prop) : Effect σ → Prop
  | .flag set => Keeps P set
  | .value store => StoreKeeps P store
  | .stop _ => True

/-- **A grammar that keeps a property**: all its switches and positional arguments do. -/
structure Grammar.Keeps (g : Grammar σ) (P : σ → Prop) : Prop where
  switches : ∀ switch ∈ g.switches, EffectKeeps P switch.effect
  positionals : ∀ store ∈ g.positionals, StoreKeeps P store

/-- **How far a reading has come with a property**: it holds of what is collected, and what is still
to be stored keeps it. -/
structure Progress.Holds (p : Progress σ) (P : σ → Prop) : Prop where
  collected : P p.collected
  pending : ∀ store value, p.pending = some (store, value) → StoreKeeps P store
  awaited : ∀ store ∈ p.awaited, StoreKeeps P store

theorem storeKeeps_storeOnce {α : Type} {get : σ → Option α} {set : σ → α → σ}
    {read : Text → Except ArgumentError α}
    (h : ∀ t a s, read t = .ok a → P s → P (set s a)) :
    StoreKeeps P (storeOnce get set read) := by
  intro t s s' hs hstore
  unfold storeOnce at hstore
  split at hstore
  · cases hstore
  · obtain ⟨a, hread, rfl⟩ := map_eq_ok hstore
    exact h t a s hread hs

theorem effectKeeps_flagOnce {get : σ → Bool} {set : σ → σ} (h : ∀ s, P s → P (set s)) :
    EffectKeeps P (flagOnce get set) := by
  intro s s' hs hflag
  dsimp only at hflag
  split at hflag
  · cases hflag
  · cases hflag
    exact h s hs

/-! ## One argument -/

namespace Progress

variable {p q : Progress σ}

theorem Holds.settle (hp : p.Holds P) (h : p.settle = .ok q) : q.Holds P := by
  unfold Progress.settle at h
  split at h
  · cases h
    exact hp
  · cases h
  · rename_i store value hpending
    obtain ⟨s, hstore, rfl⟩ := map_eq_ok h
    exact ⟨hp.pending store _ hpending value hp.collected hstore, by rintro _ _ ⟨⟩, hp.awaited⟩

theorem Holds.settleThen {next : σ → Except ArgumentError σ} (hnext : Keeps P next)
    (hp : p.Holds P) (h : p.settleThen next = .ok q) : q.Holds P := by
  obtain ⟨r, hsettle, h⟩ := bind_eq_ok.mp h
  obtain ⟨s, hs, h⟩ := bind_eq_ok.mp h
  cases h
  have hr := hp.settle hsettle
  exact ⟨hnext hr.collected hs, hr.pending, hr.awaited⟩

theorem Holds.await {store : Store σ} (hstore : StoreKeeps P store) (hp : p.Holds P)
    (h : p.await store = .ok q) : q.Holds P := by
  obtain ⟨r, hsettle, rfl⟩ := map_eq_ok h
  have hr := hp.settle hsettle
  refine ⟨hr.collected, ?_, hr.awaited⟩
  rintro _ _ ⟨⟩
  exact hstore

end Progress

namespace Grammar.Keeps

variable {g : Grammar σ} (hg : g.Keeps P) {p q : Progress σ}

theorem takePositional (hp : p.Holds P) {arg : Text} (h : g.takePositional p arg = .ok q) :
    q.Holds P := by
  unfold Grammar.takePositional at h
  split at h
  · cases h
  · rename_i store rest hawaited
    obtain ⟨r, hsettle, rfl⟩ := map_eq_ok h
    have hr := hp.settle hsettle
    have hstores := List.forall_mem_cons.mp (hawaited ▸ hp.awaited)
    refine ⟨hr.collected, ?_, hstores.2⟩
    rintro _ _ ⟨⟩
    exact hstores.1

theorem takeWord (hp : p.Holds P) {arg : Text} (h : g.takeWord p arg = .ok q) : q.Holds P := by
  unfold Grammar.takeWord at h
  split at h
  · rename_i store hpending
    cases h
    refine ⟨hp.collected, ?_, hp.awaited⟩
    rintro _ _ ⟨⟩
    exact hp.pending store none hpending
  · exact takePositional hp h

include hg

theorem takeLong (hp : p.Holds P) {name : Text} {value : Option Text}
    (h : g.takeLong p name value = .ok q) : q.Holds P := by
  unfold Grammar.takeLong at h
  split at h
  · cases h
  · rename_i switch hfind
    have hswitch := hg.switches switch (List.mem_of_find?_eq_some hfind)
    split at h
    · rename_i set heffect
      rw [heffect] at hswitch
      exact hp.settleThen hswitch h
    · exact hp.settleThen (by rintro _ _ _ ⟨⟩) h
    · cases h
    · cases h
    · rename_i store v heffect
      rw [heffect] at hswitch
      exact hp.settleThen (hswitch v) h
    · rename_i store heffect
      rw [heffect] at hswitch
      exact hp.await hswitch h

/-- Letters of a cluster are taken one after another, up to one that takes a value. -/
theorem takeCluster (letters : Text) (hp : p.Holds P) (h : g.takeCluster p letters = .ok q) :
    q.Holds P := by
  induction letters generalizing p with
  | nil =>
    cases h
    exact hp
  | cons c rest ih =>
    unfold Grammar.takeCluster at h
    split at h
    · cases h
    · rename_i switch hfind
      have hswitch := hg.switches switch (List.mem_of_find?_eq_some hfind)
      split at h
      · rename_i set heffect
        rw [heffect] at hswitch
        obtain ⟨r, hsettle, h⟩ := bind_eq_ok.mp h
        exact ih (hp.settleThen hswitch hsettle) h
      · exact hp.settleThen (by rintro _ _ _ ⟨⟩) h
      · rename_i store heffect
        rw [heffect] at hswitch
        exact hp.await hswitch h
      · rename_i store v heffect
        rw [heffect] at hswitch
        exact hp.settleThen (hswitch v) h
      · rename_i heffect _ _
        rw [heffect] at hswitch
        exact hp.settleThen (hswitch _) h

/-- **One argument** keeps what the grammar keeps. -/
theorem take (hp : p.Holds P) {arg : Text} (h : g.take p arg = .ok q) : q.Holds P := by
  unfold Grammar.take at h
  split at h
  · exact takePositional hp h
  · split at h
    · cases h
      exact ⟨hp.collected, hp.pending, hp.awaited⟩
    · exact hg.takeLong hp h
    · exact hg.takeCluster _ hp h
    · exact takeWord hp h

/-! ## All arguments -/

theorem readFrom {args rest : List Text} (hp : p.Holds P)
    (h : g.readFrom p args = .ok (q, rest)) : q.Holds P := by
  induction args generalizing p with
  | nil =>
    cases h
    exact hp
  | cons arg args ih =>
    unfold Grammar.readFrom at h
    split at h
    · cases h
      exact hp
    · obtain ⟨r, htake, h⟩ := bind_eq_ok.mp h
      exact ih (hg.take hp htake) h

/-- **All arguments** keep what the grammar keeps. -/
theorem readAll {start s : σ} {args : List Text} (hstart : P start)
    (h : g.readAll start args = .ok s) : P s := by
  obtain ⟨⟨p, rest⟩, hread, h⟩ := bind_eq_ok.mp h
  obtain ⟨q, hsettle, h⟩ := bind_eq_ok.mp h
  cases h
  have hp : p.Holds P := hg.readFrom ⟨hstart, by rintro _ _ ⟨⟩, hg.positionals⟩ hread
  exact (hp.settle hsettle).collected

end Grammar.Keeps

/-! ## The paths of a migration -/

theorem ne_nil_of_readPath {t : Text} {p : Path} (h : readPath t = .ok p) : p.text ≠ [] := by
  unfold readPath at h
  split at h
  · cases h
  · rename_i hne
    cases h
    simpa using hne

/-- **No path that is given is empty.** -/
structure NoEmptyPath (o : MigrateOptions) : Prop where
  target : ∀ p ∈ o.target, p.text ≠ []
  source : ∀ p ∈ o.source, p.text ≠ []
  includingFilesDir : ∀ p ∈ o.includingFilesDir, p.text ≠ []

/-- Only three arguments are paths, and each of them is read as one that is not empty. -/
theorem migrateGrammar_keeps : migrateGrammar.Keeps NoEmptyPath where
  switches := by
    simp only [migrateGrammar, List.forall_mem_cons]
    refine ⟨?filesOnly, ?noNav, ?includeMode, ?includingFilesDir, ?basePath, ?jobs, ?help, ?none⟩
    case filesOnly | noNav =>
      exact effectKeeps_flagOnce fun _ ho => ⟨ho.target, ho.source, ho.includingFilesDir⟩
    case includeMode | basePath | jobs =>
      exact storeKeeps_storeOnce fun _ _ _ _ ho => ⟨ho.target, ho.source, ho.includingFilesDir⟩
    case includingFilesDir =>
      refine storeKeeps_storeOnce fun t dir o hread ho => ⟨ho.target, ho.source, ?_⟩
      rintro _ ⟨⟩
      exact ne_nil_of_readPath hread
    case help => exact trivial
    case none => exact List.forall_mem_nil _
  positionals := by
    simp only [migrateGrammar, List.forall_mem_cons]
    refine ⟨?target, ?source, List.forall_mem_nil _⟩
    case target =>
      refine storeKeeps_storeOnce fun t p o hread ho => ⟨?_, ho.source, ho.includingFilesDir⟩
      rintro _ ⟨⟩
      exact ne_nil_of_readPath hread
    case source =>
      refine storeKeeps_storeOnce fun t p o hread ho => ⟨ho.target, ?_, ho.includingFilesDir⟩
      rintro _ ⟨⟩
      exact ne_nil_of_readPath hread

theorem exists_readCommand {args : List Text} {invocation : Invocation}
    (h : parse args = .ok invocation) :
    ∃ name rest, readCommand rest name = .ok invocation.command := by
  obtain ⟨⟨p, rest⟩, -, h⟩ := bind_eq_ok.mp h
  dsimp only at h
  split at h
  · obtain ⟨_, -, h⟩ := bind_eq_ok.mp h
    cases h
  · split at h
    · cases h
    · obtain ⟨command, hcommand, h⟩ := bind_eq_ok.mp h
      obtain ⟨_, -, h⟩ := bind_eq_ok.mp h
      cases h
      exact ⟨_, _, hcommand⟩

theorem readAll_of_migrate {args : List Text} {name : CommandName} {options : MigrateOptions}
    (h : readCommand args name = .ok (.migrate options)) :
    migrateGrammar.readAll {} args = .ok options := by
  cases name with
  | migrate =>
    obtain ⟨_, hread, heq⟩ := map_eq_ok h
    cases heq
    exact hread
  | convert =>
    obtain ⟨a, -, h⟩ := bind_eq_ok.mp h
    split at h <;> cases h
  | summary =>
    obtain ⟨a, -, h⟩ := bind_eq_ok.mp h
    split at h
    · split at h <;> cases h
    · cases h
  | init =>
    obtain ⟨a, -, h⟩ := bind_eq_ok.mp h
    cases h
  | help => cases h

/-- **No path on a command line is empty.** -/
theorem noEmptyPath_of_parse {args : List Text} {invocation : Invocation}
    {options : MigrateOptions} (h : parse args = .ok invocation)
    (hmigrate : invocation.command = .migrate options) : NoEmptyPath options := by
  obtain ⟨name, rest, hcommand⟩ := exists_readCommand h
  rw [hmigrate] at hcommand
  refine migrateGrammar_keeps.readAll ⟨?_, ?_, ?_⟩ (readAll_of_migrate hcommand)
  all_goals rintro _ ⟨⟩

end BookSite.CommandLine
