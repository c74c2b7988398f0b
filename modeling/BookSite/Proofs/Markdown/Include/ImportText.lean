import BookSite.Markdown.Include.Excerpt
import BookSite.Markdown.Include.Target
import BookSite.Proofs.Text.Digits
import BookSite.Proofs.Text.Scanning

/-!
# Proofs/Markdown/Include/ImportText — what a snippet import says

A snippet import is the path and, behind it, the selection: nothing, an anchor, or the **bounds** of
its lines.  Two selections with the same bounds take the same lines, however they were asked for;
so an import says all there is to know about what it includes, as long as the path holds none of the
two characters that a selection begins with.
-/

namespace BookSite.Include

/-! ## Bounds of lines -/

/-- The first and the last of the selected lines, counted from 1; without a last one the selection
runs to the end. -/
def Selection.bounds? : Selection → Option (Nat × Option Nat)
  | .starting first => some (first, none)
  | .ending last => some (1, some last)
  | .range first last => some (first, some last)
  | .all | .anchor _ => none

/-- The lines within bounds. -/
def linesWithin (bounds : Nat × Option Nat) (lines : List Text) : List Text :=
  let rest := lines.drop (bounds.1 - 1)
  match bounds.2 with
  | none => rest
  | some last => rest.take (last - (bounds.1 - 1))

/-- **Only the bounds matter** to what a selection of lines takes. -/
theorem Selection.lines?_of_bounds? {selection : Selection} {bounds : Nat × Option Nat}
    (h : selection.bounds? = some bounds) (lines : List Text) :
    selection.lines? lines = some (linesWithin bounds lines) := by
  cases selection with
  | all => cases h
  | anchor name => cases h
  | starting first => cases h; rfl
  | ending last => cases h; rfl
  | range first last => cases h; rfl

/-- Bounds as they are written between braces. -/
def boundsInner (bounds : Nat × Option Nat) : Text :=
  Text.ofNat bounds.1 ++ '-' :: (bounds.2.map Text.ofNat).getD []

/-- Bounds as they are written. -/
def boundsText (bounds : Nat × Option Nat) : Text := Target.braced (boundsInner bounds)

theorem ofNat_injective {m n : Nat} (h : Text.ofNat m = Text.ofNat n) : m = n := by
  have hread := congrArg Text.toNat? h
  rw [Text.toNat?_ofNat, Text.toNat?_ofNat] at hread
  exact Option.some.inj hread

theorem not_mem_ofNat {c : Char} (hc : c.isDigit = false) (n : Nat) : c ∉ Text.ofNat n :=
  fun hmem => Bool.false_ne_true (hc.symm.trans (Text.isDigit_of_mem_ofNat hmem))

theorem not_mem_boundsInner {c : Char} (hdigit : c.isDigit = false) (hhyphen : c ≠ '-')
    (bounds : Nat × Option Nat) : c ∉ boundsInner bounds := by
  obtain ⟨first, last⟩ := bounds
  cases last <;> simp [boundsInner, not_mem_ofNat hdigit, hhyphen]

/-- **Bounds are read off** from how they are written: no digit is a hyphen, and there is a last
line exactly if there are digits behind the hyphen. -/
theorem boundsText_injective {bounds bounds' : Nat × Option Nat}
    (h : boundsText bounds = boundsText bounds') : bounds = bounds' := by
  obtain ⟨first, last⟩ := bounds
  obtain ⟨first', last'⟩ := bounds'
  have hinner : Text.ofNat first ++ '-' :: (last.map Text.ofNat).getD [] =
      Text.ofNat first' ++ '-' :: (last'.map Text.ofNat).getD [] :=
    List.append_cancel_right (List.cons.inj h).2
  have hfront := congrArg (List.takeWhile (· != '-')) hinner
  rw [Text.takeWhile_bne_append (not_mem_ofNat rfl first),
    Text.takeWhile_bne_append (not_mem_ofNat rfl first')] at hfront
  rw [hfront, List.append_cancel_left_eq, List.cons.injEq] at hinner
  have hfirst : first = first' := ofNat_injective hfront
  have hlast : last = last' := by
    cases last with
    | none =>
      cases last' with
      | none => rfl
      | some n => exact absurd hinner.2.symm (Text.ofNat_ne_nil n)
    | some m =>
      cases last' with
      | none => exact absurd hinner.2 (Text.ofNat_ne_nil m)
      | some n => exact congrArg some (ofNat_injective hinner.2)
  rw [hfirst, hlast]

/-! ## Selections -/

/-- What stands behind the path. -/
def Selection.importText : Selection → Text
  | .all => []
  | .starting first => boundsText (first, none)
  | .ending last => boundsText (1, some last)
  | .range first last => boundsText (first, some last)
  | .anchor name => '#' :: name

theorem Selection.importText_of_bounds? {selection : Selection} {bounds : Nat × Option Nat}
    (h : selection.bounds? = some bounds) : selection.importText = boundsText bounds := by
  cases selection with
  | all => cases h
  | anchor name => cases h
  | starting first => cases h; rfl
  | ending last => cases h; rfl
  | range first last => cases h; rfl

theorem Target.toImport_eq (target : Target) :
    target.toImport = "<<< ".toList ++ (target.path ++ target.selection.importText) := by
  obtain ⟨path, selection⟩ := target
  have hone : Text.ofNat 1 = ['1'] := rfl
  cases selection <;> simp [toImport, Selection.importText, boundsText, boundsInner, hone]

/-- Whether a character ends the path of an import. -/
def endsPath (c : Char) : Bool := c == '#' || c == '{'

/-- What stands behind the path ends it. -/
theorem Selection.importText_eq_nil_or (selection : Selection) :
    selection.importText = [] ∨
      ∃ c rest, selection.importText = c :: rest ∧ endsPath c = true := by
  cases selection with
  | all => exact .inl rfl
  | starting first => exact .inr ⟨_, _, rfl, rfl⟩
  | ending last => exact .inr ⟨_, _, rfl, rfl⟩
  | range first last => exact .inr ⟨_, _, rfl, rfl⟩
  | anchor name => exact .inr ⟨_, _, rfl, rfl⟩

/-- **Selections that are written alike** take the same lines of every file. -/
theorem Selection.lines?_eq_of_importText_eq {selection selection' : Selection}
    (h : selection.importText = selection'.importText) (lines : List Text) :
    selection.lines? lines = selection'.lines? lines := by
  have hlines : ∀ {s s' : Selection} {b b' : Nat × Option Nat}, s.bounds? = some b →
      s'.bounds? = some b' → s.importText = s'.importText → s.lines? lines = s'.lines? lines := by
    intro s s' b b' hb hb' htext
    rw [importText_of_bounds? hb, importText_of_bounds? hb'] at htext
    rw [lines?_of_bounds? hb, lines?_of_bounds? hb', boundsText_injective htext]
  -- What is written is empty, begins with a number sign, or begins with a brace.
  cases selection <;> cases selection'
  case anchor.anchor =>
    cases h
    rfl
  all_goals
    first
    | rfl
    | exact hlines rfl rfl h
    | cases h

/-! ## Imports -/

/-- The path of an import is what stands in front of the first character that ends it. -/
theorem Target.takeWhile_import {path : Text} (hpath : '#' ∉ path ∧ '{' ∉ path)
    (selection : Selection) :
    (path ++ selection.importText).takeWhile (!endsPath ·) = path := by
  have hends : ∀ c ∈ path, endsPath c = false := by
    intro c hc
    rw [endsPath, Bool.or_eq_false_iff, beq_eq_false_iff_ne, beq_eq_false_iff_ne]
    exact ⟨fun h => hpath.1 (h ▸ hc), fun h => hpath.2 (h ▸ hc)⟩
  have hself : path.takeWhile (!endsPath ·) = path :=
    List.takeWhile_eq_self_iff.mpr fun c hc => by rw [hends c hc]; rfl
  obtain htext | ⟨c, rest, htext, hc⟩ := selection.importText_eq_nil_or
  · rw [htext, List.append_nil, hself]
  · rw [htext, Text.takeWhile_append_cons (by rw [hc]; rfl), hself]

/-- **An import determines what is included**: equal imports name the same path, and what they
select is the same in every file. -/
theorem excerpts_eq_of_toImport_eq {target target' : Target}
    (hpath : '#' ∉ target.path ∧ '{' ∉ target.path)
    (hpath' : '#' ∉ target'.path ∧ '{' ∉ target'.path)
    (h : target.toImport = target'.toImport) :
    target.path = target'.path ∧
      ∀ t, target.selection.excerpt? t = target'.selection.excerpt? t := by
  rw [Target.toImport_eq, Target.toImport_eq, List.append_cancel_left_eq] at h
  have heq : target.path = target'.path := by
    rw [← Target.takeWhile_import hpath target.selection, h, Target.takeWhile_import hpath']
  rw [heq, List.append_cancel_left_eq] at h
  refine ⟨heq, fun t => ?_⟩
  rw [Selection.excerpt?, Selection.excerpt?, Selection.lines?_eq_of_importText_eq h]

/-- The lines up to the greatest count, asked for in two ways. -/
theorem excerpts_eq_upToMaxCount :
    let upTo : Target := ⟨"src/a.rs".toList, .ending maxCount⟩
    let fromFirst : Target := ⟨"src/a.rs".toList, .range 1 maxCount⟩
    ('#' ∉ upTo.path ∧ '{' ∉ upTo.path) ∧ upTo.toImport = fromFirst.toImport ∧
      upTo.path = fromFirst.path ∧
      ∀ t, upTo.selection.excerpt? t = fromFirst.selection.excerpt? t := by
  intro upTo fromFirst
  have hpath : '#' ∉ upTo.path ∧ '{' ∉ upTo.path := by decide
  have himport : upTo.toImport = fromFirst.toImport := rfl
  exact ⟨hpath, himport, excerpts_eq_of_toImport_eq hpath hpath himport⟩

end BookSite.Include
