import BookSite.Text.Basic

/-!
# Text/Scan — finding tokens from left to right

A **finder** looks at the front of a text and says what stands there and how many characters it
takes.  `scan` applies it from left to right: where it finds something the token is recorded and
the scan goes on behind it, elsewhere one character is passed over.  So tokens never overlap and
the leftmost one wins.
-/

namespace BookSite.Text

/-- What a finder may see at the front of a text, with the number of characters it takes. -/
abbrev Finder (α : Type) := Text → Option (α × Nat)

/-- A piece of a scanned text: a character outside all tokens, or a token with its wording. -/
inductive Piece (α : Type) where
  | char (c : Char)
  | token (wording : Text) (found : α)
  deriving Repr, DecidableEq

namespace Piece

variable {α : Type}

/-- The characters a piece stands for. -/
def wording : Piece α → Text
  | char c => [c]
  | token w _ => w

/-- The text a piece is replaced by: a token by `write`, a character by itself. -/
def replace (write : Text → α → Text) : Piece α → Text
  | char c => [c]
  | token w a => write w a

end Piece

variable {α : Type}

/-- Scan with `skip` characters still belonging to the token before. -/
def scanFrom (find : Finder α) : Nat → Text → List (Piece α)
  | _, [] => []
  | skip + 1, _ :: rest => scanFrom find skip rest
  | 0, c :: rest =>
    match find (c :: rest) with
    | some (found, n) => .token ((c :: rest).take (n - 1 + 1)) found :: scanFrom find (n - 1) rest
    | none => .char c :: scanFrom find 0 rest

/-- **The pieces of a text.** -/
def scan (find : Finder α) (t : Text) : List (Piece α) := scanFrom find 0 t

/-- Passing over characters of a token is dropping them. -/
theorem scanFrom_eq_drop (find : Finder α) (n : Nat) (t : Text) :
    scanFrom find n t = scanFrom find 0 (t.drop n) := by
  induction t generalizing n with
  | nil => simp [scanFrom]
  | cons c rest ih =>
    cases n with
    | zero => simp
    | succ n => simpa [scanFrom] using ih n

/-- Nothing is lost: the wordings of the pieces are the text. -/
theorem flatMap_wording_scan (find : Finder α) (t : Text) :
    (scan find t).flatMap Piece.wording = t := by
  suffices h : ∀ n, (scanFrom find n t).flatMap Piece.wording = t.drop n by simpa [scan] using h 0
  induction t with
  | nil => simp [scanFrom]
  | cons c rest ih =>
    intro n
    cases n with
    | succ n => simpa [scanFrom] using ih n
    | zero =>
      rw [scanFrom]
      cases find (c :: rest) with
      | none => simpa [Piece.wording] using ih 0
      | some r => simp [Piece.wording, ih (r.2 - 1)]

/-- The text with every token replaced. -/
def replaceTokens (find : Finder α) (write : Text → α → Text) (t : Text) : Text :=
  (scan find t).flatMap (Piece.replace write)

/-- The leftmost thing that is found, with the text before it and the text behind it. -/
def findFirst (find : Finder α) : Text → Option (Text × α × Text)
  | [] => none
  | c :: rest =>
    match find (c :: rest) with
    | some (found, n) => some ([], found, (c :: rest).drop n)
    | none => (findFirst find rest).map fun (before, found, behind) => (c :: before, found, behind)

/-- Whether the finder sees something anywhere in the text. -/
def finds (find : Finder α) (t : Text) : Bool := (findFirst find t).isSome

end BookSite.Text
