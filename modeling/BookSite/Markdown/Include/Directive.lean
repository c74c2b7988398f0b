import BookSite.Markdown.Fence
import BookSite.Markdown.Include.Target
import BookSite.Text.Scan

/-!
# Markdown/Include/Directive — finding include directives

A directive is two opening braces, `#include` or `#rustdoc_include`, a blank, the argument and two
closing braces.  The argument holds no closing brace and may run over line ends.
-/

namespace BookSite.Include

/-- The openings of a directive. -/
def openings : List Text :=
  ["\x7b\x7b#include".toList, "\x7b\x7b#rustdoc_include".toList]

/-- The mark that closes a directive. -/
def closing : Text := "\x7d\x7d".toList

/-- The body of a directive: its argument with the blanks around it.  It begins with a blank, and
there is something besides that blank. -/
def isBody : Text → Bool
  | [] | [_] => false
  | c :: _ :: _ => isBlank c

/-- A directive with the given opening at the front of a text, and how many characters it takes. -/
def directiveAfter (opening : Text) : Text.Finder Target := fun t => do
  let rest ← t.behind? opening
  let body := rest.takeWhile (· != '}')
  if isBody body && Text.startsWith (rest.dropWhile (· != '}')) closing then
    some (.parse body, opening.length + body.length + closing.length)
  else none

/-- **The directive at the front of a text.** -/
def directive : Text.Finder Target := fun t => openings.findSome? (directiveAfter · t)

/-- Whether a text holds a directive. -/
def hasDirective (t : Text) : Bool := t.finds directive

/-- Whether a line is one directive and nothing else but blanks. -/
def isDirectiveLine (line : Text) : Bool :=
  match directive line.trim with
  | some (_, n) => n == line.trim.length
  | none => false

/-- The text with every directive replaced by the snippet import of its target. -/
def importDirectives (t : Text) : Text := t.replaceTokens directive fun _ target => target.toImport

end BookSite.Include
