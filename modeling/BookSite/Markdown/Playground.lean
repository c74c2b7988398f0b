import BookSite.Markdown.CodeInfo

/-!
# Markdown/Playground — options that only a playground understands

A block of Rust code may carry options for an online playground.  A site knows the language alone,
so a fence with one of the **playground flags** keeps its indentation, its backticks and `rust`.
-/

namespace BookSite

/-- The language whose blocks carry playground flags. -/
def playgroundLanguage : Text := "rust".toList

/-- The options that only make sense on a playground. -/
def playgroundFlags : List Text := ["editable".toList, "noplayground".toList, "ignore".toList]

/-- Whether a fence opens a block for the playground. -/
def CodeInfo.isForPlayground (info : CodeInfo) : Bool :=
  info.language == playgroundLanguage && playgroundFlags.any info.hasOption

/-- **The fence without options**, for a fence that opens a block for the playground. -/
def plainFence? (line : Text) : Option Text :=
  if (CodeInfo.parse (fenceInfo line)).isForPlayground then
    some (line.leadingBlanks ++ line.trimStart.takeWhile (· == backtick) ++ playgroundLanguage)
  else none

/-- Drop the options of all blocks for the playground. -/
def dropPlaygroundFlags (page : Text) : Text := editLines .fenceOpen plainFence? page

end BookSite
