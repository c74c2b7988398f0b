import BookSite.Text.Basic

/-!
# CommandLine/Grammar — reading the arguments of a command

An argument is a **word**, a **long switch** `--name` or `--name=value`, or a **cluster** of letters
behind one dash, the last of which may have its value attached.  Words are the values of switches
that wait for one, and otherwise the positional arguments in their order.  Behind `--` everything is
positional.

A value is stored only when the next argument is understood: until then it is **pending**.  So of
two faults the one that shows first in this reading is reported.
-/

namespace BookSite.CommandLine

/-- Why arguments make no command.  Asking for help or for the version counts as a reason too. -/
inductive ArgumentError where
  /-- a value is missing, empty where it may not be, or none of those to choose from -/
  | badValue
  /-- a value cannot be read -/
  | refusedValue
  /-- a switch that takes no value has one -/
  | unexpectedValue
  | unknownArgument
  | unknownCommand
  | givenTwice
  | argumentMissing
  | commandMissing
  | nothingGiven
  | helpAsked
  | versionAsked
  deriving DecidableEq, Repr

/-! ## Shapes -/

/-- What an argument looks like. -/
inductive Shape where
  /-- `--` -/
  | separator
  | long (name : Text) (value : Option Text)
  | cluster (letters : Text)
  | word
  deriving DecidableEq, Repr

/-- The shape of an argument; a single dash is a word. -/
def Shape.of : Text → Shape
  | ['-', '-'] => separator
  | '-' :: '-' :: rest =>
    match Text.splitOnce '=' rest with
    | some (name, value) => long name (some value)
    | none => long rest none
  | '-' :: c :: rest => cluster (c :: rest)
  | _ => word

/-! ## Grammars -/

variable {σ α : Type}

/-- How a value is stored. -/
abbrev Store (σ : Type) := Text → σ → Except ArgumentError σ

/-- What a switch does. -/
inductive Effect (σ : Type) where
  | flag (set : σ → Except ArgumentError σ)
  | value (store : Store σ)
  /-- the reading ends here -/
  | stop (why : ArgumentError)

/-- A switch. -/
structure Switch (σ : Type) where
  long : Text
  short : Option Char
  effect : Effect σ

/-- The switches and positional arguments that are collected in `σ`, and the words that end their
reading because they name a command. -/
structure Grammar (σ : Type) where
  switches : List (Switch σ)
  positionals : List (Store σ)
  commands : List Text := []

/-- Store a value that may be given once. -/
def storeOnce (get : σ → Option α) (set : σ → α → σ) (read : Text → Except ArgumentError α) :
    Store σ := fun t s =>
  match get s with
  | some _ => .error .givenTwice
  | none => (read t).map (set s)

/-- Set a flag that may be given once. -/
def flagOnce (get : σ → Bool) (set : σ → σ) : Effect σ :=
  .flag fun s => if get s then .error .givenTwice else .ok (set s)

/-- The switch that asks for help. -/
def helpSwitch : Switch σ := ⟨"help".toList, some 'h', .stop .helpAsked⟩

/-! ## Reading -/

/-- How far the reading has come. -/
structure Progress (σ : Type) where
  collected : σ
  /-- where the next value to be stored goes, with that value if it has come -/
  pending : Option (Store σ × Option Text) := none
  /-- the positional arguments that have not come yet -/
  awaited : List (Store σ)
  /-- whether everything from here on is positional -/
  separated : Bool := false

namespace Progress

/-- Whether a switch waits for its value. -/
def isWaiting (p : Progress σ) : Bool :=
  match p.pending with
  | some (_, none) => true
  | _ => false

/-- Store the pending value. -/
def settle (p : Progress σ) : Except ArgumentError (Progress σ) :=
  match p.pending with
  | none => .ok p
  | some (_, none) => .error .badValue
  | some (store, some value) =>
    (store value p.collected).map fun s => { p with collected := s, pending := none }

/-- Store the pending value and do something more. -/
def settleThen (p : Progress σ) (next : σ → Except ArgumentError σ) :
    Except ArgumentError (Progress σ) := do
  let p ← p.settle
  let s ← next p.collected
  .ok { p with collected := s }

/-- Wait for the value of a switch. -/
def await (p : Progress σ) (store : Store σ) : Except ArgumentError (Progress σ) :=
  p.settle.map fun p => { p with pending := some (store, none) }

end Progress

namespace Grammar

/-- Why a word that is no positional argument is refused. -/
def surplus (g : Grammar σ) (p : Progress σ) (arg : Text) : ArgumentError :=
  if g.commands.isEmpty || (p.separated && g.commands.contains arg) then .unknownArgument
  else .unknownCommand

/-- Take a positional argument. -/
def takePositional (g : Grammar σ) (p : Progress σ) (arg : Text) :
    Except ArgumentError (Progress σ) :=
  match p.awaited with
  | [] => .error (g.surplus p arg)
  | store :: rest =>
    p.settle.map fun p => { p with pending := some (store, some arg), awaited := rest }

/-- Take a word: the value that a switch waits for, or a positional argument. -/
def takeWord (g : Grammar σ) (p : Progress σ) (arg : Text) : Except ArgumentError (Progress σ) :=
  match p.pending with
  | some (store, none) => .ok { p with pending := some (store, some arg) }
  | _ => g.takePositional p arg

/-- Take a long switch. -/
def takeLong (g : Grammar σ) (p : Progress σ) (name : Text) (value : Option Text) :
    Except ArgumentError (Progress σ) :=
  match g.switches.find? (·.long == name) with
  | none => .error .unknownArgument
  | some switch =>
    match switch.effect, value with
    | .flag set, none => p.settleThen set
    | .stop why, none => p.settleThen fun _ => .error why
    | .flag _, some _ | .stop _, some _ => .error .unexpectedValue
    | .value store, some v => p.settleThen (store v)
    | .value store, none => p.await store

/-- Take a cluster of letters. -/
def takeCluster (g : Grammar σ) : Progress σ → Text → Except ArgumentError (Progress σ)
  | p, [] => .ok p
  | p, c :: rest =>
    match g.switches.find? (·.short == some c) with
    | none => .error .unknownArgument
    | some switch =>
      match switch.effect, rest with
      | .flag set, _ => do takeCluster g (← p.settleThen set) rest
      | .stop why, _ => p.settleThen fun _ => .error why
      | .value store, [] => p.await store
      | .value store, '=' :: v => p.settleThen (store v)
      | .value store, v => p.settleThen (store v)

/-- Take an argument. -/
def take (g : Grammar σ) (p : Progress σ) (arg : Text) : Except ArgumentError (Progress σ) :=
  if p.separated then g.takePositional p arg
  else match Shape.of arg with
    | .separator => .ok { p with separated := true }
    | .long name value => g.takeLong p name value
    | .cluster letters => g.takeCluster p letters
    | .word => g.takeWord p arg

/-- Whether an argument ends the reading because it names a command. -/
def endsAt (g : Grammar σ) (p : Progress σ) (arg : Text) : Bool :=
  !p.separated && !p.isWaiting && g.commands.contains arg

/-- Read arguments up to a word that names a command; that word and what follows it are left. -/
def readFrom (g : Grammar σ) :
    Progress σ → List Text → Except ArgumentError (Progress σ × List Text)
  | p, [] => .ok (p, [])
  | p, arg :: rest =>
    if g.endsAt p arg then .ok (p, arg :: rest)
    else do readFrom g (← g.take p arg) rest

/-- **Read arguments.** -/
def read (g : Grammar σ) (start : σ) (args : List Text) :
    Except ArgumentError (Progress σ × List Text) :=
  g.readFrom { collected := start, awaited := g.positionals } args

/-- **Read all arguments** of a grammar without commands. -/
def readAll (g : Grammar σ) (start : σ) (args : List Text) : Except ArgumentError σ := do
  let (p, _) ← g.read start args
  let p ← p.settle
  .ok p.collected

end Grammar

end BookSite.CommandLine
