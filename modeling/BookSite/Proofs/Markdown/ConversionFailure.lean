import BookSite.Proofs.Markdown.Include.ShownDirectives
import BookSite.Proofs.Markdown.Translation

/-!
# Proofs/Markdown/ConversionFailure — the one way in which a conversion fails

Including files at once needs to know where the page lies, and needs it only if there is something
to include.  Showing hidden lines comes first and leaves all directives alone, so the page itself
says whether its conversion fails.
-/

namespace BookSite

open Include Image

/-- The stage refuses a page with directives that lies nowhere, and no other page. -/
theorem apply_includes_eq_error_iff (fs : FileSystem) (path? : Option Path) (mode : IncludeMode)
    (page : Text) (e : StageError) :
    (Stage.includes mode).apply fs path? page = .error e ↔
      (mode = .inline ∧ path? = none ∧ hasDirective page = true) ∧
        e = .pagePathMissing (.includes .inline) := by
  unfold Stage.apply
  cases hdirective : hasDirective page with
  | false => simp
  | true =>
    cases mode with
    | translate => simp
    | inline =>
      cases path? with
      | none => simp [eq_comm]
      | some path => simp

theorem apply_includes_of_not_hasDirective (fs : FileSystem) (path? : Option Path)
    (mode : IncludeMode) {page : Text} (h : hasDirective page = false) :
    (Stage.includes mode).apply fs path? page = .ok page := by
  unfold Stage.apply
  rw [h]
  rfl

theorem map_eq_error_iff {α β : Type} {f : α → β} {r : Except StageError α} {e : StageError} :
    r.map f = .error e ↔ r = .error e := by
  cases r <;> simp [Except.map]

/-- **A conversion fails in exactly one situation**: files are to be included at once, into a page
whose path is not known, and the page holds a directive.  It is then including files that fails, for
want of the path.  And a page without directive becomes the same in both modes, wherever it lies. -/
theorem convert_fails_without_path (page : Text) :
    (∀ (fs : FileSystem) (path? : Option Path) (mode : IncludeMode) (e : StageError),
      (Pipeline.standard mode).convert fs path? page = .error e ↔
        (mode = .inline ∧ path? = none ∧ MatchesDirective page) ∧
          e = .pagePathMissing (.includes .inline)) ∧
    (¬ MatchesDirective page → ∃ out, ∀ (fs : FileSystem) (path? : Option Path)
      (mode : IncludeMode), (Pipeline.standard mode).convert fs path? page = .ok out) := by
  constructor
  · intro fs path? mode e
    rw [convert_standard, map_eq_error_iff, apply_includes_eq_error_iff,
      hasDirective_revealHiddenLines, hasDirective_iff_matchesDirective]
  · intro hnone
    have hpage : hasDirective (revealHiddenLines page) = false := by
      rw [hasDirective_revealHiddenLines, Bool.eq_false_iff, ne_eq,
        hasDirective_iff_matchesDirective]
      exact hnone
    refine ⟨rootImages (containQuotes (moveAllAttributes (dropPlaygroundFlags
      (revealHiddenLines page)))), fun fs path? mode => ?_⟩
    rw [convert_standard, apply_includes_of_not_hasDirective fs path? mode hpage]
    rfl

/-- A page with a directive that runs into a hidden line. -/
def pageWithBrokenDirective : Text := "```\n\x7b\x7b#include\n# a.rs\x7d\x7d\n```".toList

theorem convert_fails_pageWithBrokenDirective :
    (Pipeline.standard .inline).convert .empty none pageWithBrokenDirective =
        .error (.pagePathMissing (.includes .inline)) ∧
      ¬ MatchesDirective "Use \x7b\x7b#include\x7d\x7d.".toList ∧
      ∃ out, ∀ (fs : FileSystem) (path? : Option Path) (mode : IncludeMode),
        (Pipeline.standard mode).convert fs path? "Use \x7b\x7b#include\x7d\x7d.".toList =
          .ok out := by
  have hmatches : MatchesDirective pageWithBrokenDirective :=
    hasDirective_iff_matchesDirective.mp (by decide +kernel)
  have hnone : ¬ MatchesDirective "Use \x7b\x7b#include\x7d\x7d.".toList := fun h =>
    absurd (hasDirective_iff_matchesDirective.mpr h) (by decide +kernel)
  refine ⟨?_, hnone, (convert_fails_without_path _).2 hnone⟩
  exact ((convert_fails_without_path pageWithBrokenDirective).1 .empty none .inline _).mpr
    ⟨⟨rfl, rfl, hmatches⟩, rfl⟩

end BookSite
