import BookSite.Text.Blank
import BookSite.Text.Count

/-!
# Markdown/Include/Selection — which part of a file is included

A selection is written behind the path, after a colon: one line number, two of them, or the name of
an anchor.  Line numbers start at 1 and both ends belong to the selection.
-/

namespace BookSite.Include

/-- The part of a file that a directive asks for. -/
inductive Selection where
  /-- the whole file -/
  | all
  /-- from a line to the end -/
  | starting (first : Nat)
  /-- from the first line to a line -/
  | ending (last : Nat)
  /-- from a line to a line -/
  | range (first last : Nat)
  /-- the region of an anchor -/
  | anchor (name : Text)
  deriving DecidableEq, Repr

namespace Selection

/-- **Read what stands behind the first colon.**  Blank parts leave an end open; whatever is no line
number or pair of them names an anchor. -/
def parse (suffix : Text) : Selection :=
  match suffix.fields ':' with
  | [single] =>
    if single.allBlank then .all
    else match single.trim.toCount? with
      | some n => .starting n
      | none => .anchor single.trim
  | [first, last] =>
    match first.allBlank, first.trim.toCount?, last.allBlank, last.trim.toCount? with
    | true, _, true, _ => .all
    | false, some m, true, _ => .starting m
    | true, _, false, some n => .ending n
    | false, some m, false, some n => .range m n
    | _, _, _, _ => .anchor suffix.trim
  | _ => .anchor suffix.trim

end Selection

end BookSite.Include
