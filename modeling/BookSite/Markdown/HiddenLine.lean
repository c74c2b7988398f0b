import BookSite.Markdown.Fence

/-!
# Markdown/HiddenLine — code lines that a book hides

Inside a block of code a line that begins with `#` is **hidden**: the book compiles it and does not
show it.  A site has no such lines, so a hidden line is shown as a line comment.  Two beginnings
are code of their own and stay: `#!` and `#[`.
-/

namespace BookSite

/-- **The comment a hidden line becomes**, or nothing for a line that is not hidden. -/
def revealLine? (line : Text) : Option Text :=
  match line.trimStart with
  | '#' :: rest =>
    match rest with
    | '!' :: _ | '[' :: _ => none
    | [] => some (line.leadingBlanks ++ ['/', '/'])
    | c :: _ =>
      some (line.leadingBlanks ++ ['/', '/'] ++ (if isBlank c then rest else ' ' :: rest))
  | _ => none

/-- Show the hidden lines of a page as comments. -/
def revealHiddenLines (page : Text) : Text := editLines .code revealLine? page

end BookSite
