import BookSite.Files.System
import BookSite.Markdown.Include.Directive
import BookSite.Markdown.Include.Excerpt

/-!
# Markdown/Include/Inlining — directives replaced by what they include

Included files may also be read at once.  Paths are relative to the directory of the page.  What
cannot be included leaves a comment in its place, so that it stays visible on the page and stops
nothing.
-/

namespace BookSite.Include

/-- The comment for a file that cannot be read. -/
def unreadable (path : Text) : Text :=
  "<!-- bookpress: could not include file: ".toList ++ path ++ " -->".toList

/-- The comment for an anchor that no line opens. -/
def anchorMissing (name path : Text) : Text :=
  "<!-- bookpress: anchor '".toList ++ name ++ "' not found in ".toList ++ path ++ " -->".toList

/-- The name of the anchor a selection asks for; empty for all others. -/
def Selection.anchorName : Selection → Text
  | .anchor name => name
  | _ => []

/-- **What a target includes**, read relative to `base`. -/
def Target.resolve (fs : FileSystem) (base : Path) (target : Target) : Text :=
  match fs.readText (base.join ⟨target.path⟩) with
  | .error _ => unreadable target.path
  | .ok t =>
    (target.selection.excerpt? t).getD (anchorMissing target.selection.anchorName target.path)

/-- **Replace all directives of a page by what they include.** -/
def inlinePage (fs : FileSystem) (base : Path) (page : Text) : Text :=
  page.replaceTokens directive fun _ target => target.resolve fs base

end BookSite.Include
