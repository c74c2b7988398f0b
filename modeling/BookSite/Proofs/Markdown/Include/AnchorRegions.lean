import BookSite.Proofs.Markdown.Include.LineNumbers
import Mathlib.Data.List.Infix

/-!
# Proofs/Markdown/Include/AnchorRegions — the region of an anchor

The region of an anchor is told by two places: that of the first line that opens the anchor, and
that of the first line behind it that closes the anchor, or the end of the text.  What other anchors
do has no say in it, so a region that lies inside of another one is a contiguous part of it.
-/

namespace BookSite.Include

/-! ## Places -/

/-- The place of the first line that opens the anchor; behind all lines when there is none. -/
def openingPlace (name : Text) (lines : List Text) : Nat :=
  lines.findIdx (startMarker.marks name)

/-- **The place where the region ends**: that of the first line behind the opening one that closes
the anchor, or behind all lines when there is none. -/
def closingPlace (name : Text) (lines : List Text) : Nat :=
  let behind := openingPlace name lines + 1
  behind + (lines.drop behind).findIdx (endMarker.marks name)

/-- The lines strictly between two places. -/
def linesBetween (start stop : Nat) (lines : List Text) : List Text :=
  (lines.take stop).drop (start + 1)

section Places

variable {name line : Text} {lines : List Text}

theorem openingPlace_cons_of_marks (h : startMarker.marks name line = true) :
    openingPlace name (line :: lines) = 0 := by
  rw [openingPlace, List.findIdx_cons, h]
  rfl

theorem openingPlace_cons_of_not_marks (h : startMarker.marks name line = false) :
    openingPlace name (line :: lines) = openingPlace name lines + 1 := by
  rw [openingPlace, List.findIdx_cons, h]
  rfl

theorem closingPlace_cons_of_not_marks (h : startMarker.marks name line = false) :
    closingPlace name (line :: lines) = closingPlace name lines + 1 := by
  rw [closingPlace, openingPlace_cons_of_not_marks h, closingPlace, List.drop_succ_cons]
  omega

theorem linesBetween_cons (start stop : Nat) :
    linesBetween (start + 1) (stop + 1) (line :: lines) = linesBetween start stop lines := rfl

/-- **Wider bounds** have the lines between narrower ones in one piece. -/
theorem linesBetween_isInfix {start stop start' stop' : Nat} (hstart : start' ≤ start)
    (hstop : stop ≤ stop') :
    linesBetween start stop lines <:+: linesBetween start' stop' lines := by
  obtain ⟨d, rfl⟩ := Nat.exists_eq_add_of_le hstart
  -- The narrower stop leaves a front of the lines, and the narrower start a back of this front.
  have hfront : (lines.take stop).drop (start' + 1) <+: (lines.take stop').drop (start' + 1) :=
    List.IsPrefix.drop (List.take_prefix_take_left hstop) _
  have hback : linesBetween (start' + d) stop lines <:+ (lines.take stop).drop (start' + 1) := by
    rw [linesBetween, show start' + d + 1 = (start' + 1) + d by omega, ← List.drop_drop]
    exact List.drop_suffix d _
  exact hback.isInfix.trans hfront.isInfix

end Places

/-! ## Regions -/

/-- **There is no region** exactly where no line opens the anchor. -/
theorem regionLines?_eq_none_iff {name : Text} {lines : List Text} :
    regionLines? name lines = none ↔ ∀ line ∈ lines, startMarker.marks name line = false := by
  induction lines with
  | nil => simp [regionLines?]
  | cons line lines ih =>
    rw [regionLines?, List.forall_mem_cons]
    split <;> simp [*]

/-- **The region of an anchor** is what stands between its places. -/
theorem regionLines?_eq_linesBetween {name : Text} {lines : List Text}
    (h : ∃ line ∈ lines, startMarker.marks name line = true) :
    regionLines? name lines =
      some (linesBetween (openingPlace name lines) (closingPlace name lines) lines) := by
  induction lines with
  | nil => simp at h
  | cons line lines ih =>
    rw [regionLines?]
    split
    · rename_i hopens
      have hplace : closingPlace name (line :: lines) =
          lines.findIdx (endMarker.marks name) + 1 := by
        rw [closingPlace, openingPlace_cons_of_marks hopens]
        exact Nat.add_comm ..
      rw [hplace, openingPlace_cons_of_marks hopens, linesBetween,
        List.takeWhile_eq_take_findIdx_not]
      simp
    · rename_i hopens
      rw [Bool.not_eq_true] at hopens
      have hlines : ∃ line ∈ lines, startMarker.marks name line = true := by
        simpa [hopens] using h
      rw [ih hlines, openingPlace_cons_of_not_marks hopens, closingPlace_cons_of_not_marks hopens,
        linesBetween_cons]

/-- The lines that the excerpt of an anchor is made of. -/
theorem keptLines?_anchor {name t : Text}
    (h : ∃ line ∈ t.lines, startMarker.marks name line = true) :
    (Selection.anchor name).keptLines? t =
      some ((linesBetween (openingPlace name t.lines) (closingPlace name t.lines) t.lines).filter
        (!isMarkerLine ·)) := by
  rw [Selection.keptLines?, Selection.lines?, regionLines?_eq_linesBetween h, Option.map_some]

/-- **Anchor regions are exact.**  There is no excerpt exactly when no line opens the anchor.
Otherwise it is made of the lines between the first one that opens the anchor and the first one
behind it that closes it, or the end of the text, without the lines that hold a marker of any
anchor.  And what is kept of a region inside of another one is a contiguous part of what is kept of
that one. -/
theorem anchor_excerpts_by_places (t : Text) :
    (∀ name, (Selection.anchor name).excerpt? t = none ↔
      ∀ line ∈ t.lines, startMarker.marks name line = false) ∧
    (∀ name, (∃ line ∈ t.lines, startMarker.marks name line = true) →
      (Selection.anchor name).excerpt? t = some (Text.unlines
        ((linesBetween (openingPlace name t.lines) (closingPlace name t.lines) t.lines).filter
          (!isMarkerLine ·)))) ∧
    ∀ inner outer, (∃ line ∈ t.lines, startMarker.marks inner line = true) →
      (∃ line ∈ t.lines, startMarker.marks outer line = true) →
      openingPlace outer t.lines < openingPlace inner t.lines →
      closingPlace inner t.lines < closingPlace outer t.lines →
      ∃ kept kept', (Selection.anchor inner).keptLines? t = some kept ∧
        (Selection.anchor outer).keptLines? t = some kept' ∧ kept <:+: kept' := by
  refine ⟨fun name => ?_, fun name h => ?_, fun inner outer hinner houter hstart hstop => ?_⟩
  · rw [← regionLines?_eq_none_iff]
    exact Option.map_eq_none_iff
  · rw [Selection.excerpt?_eq, keptLines?_anchor h, Option.map_some]
  · exact ⟨_, _, keptLines?_anchor hinner, keptLines?_anchor houter,
      (linesBetween_isInfix (Nat.le_of_lt hstart) (Nat.le_of_lt hstop)).filter _⟩

/-- A source with a region inside of another one, in both spellings and in any letter case, the end
of a region that was never opened, and a region that is left open. -/
def nestedRegions : Text :=
  ("ANCHOR_END: out\nanchor: Out\na\n#region in\nf\nANCHOR: in\ng\n#endregion IN\nh\n" ++
    "ANCHOR_END: OUT\nANCHOR: rest\nk").toList

theorem anchor_excerpts_nestedRegions :
    (Selection.anchor "rest".toList).excerpt? nestedRegions = some "k".toList ∧
      ∃ kept kept', (Selection.anchor "in".toList).keptLines? nestedRegions = some kept ∧
        (Selection.anchor "OUT".toList).keptLines? nestedRegions = some kept' ∧
        kept <:+: kept' ∧ kept = ["f".toList, "g".toList] := by
  obtain ⟨-, hexcerpt, hnested⟩ := anchor_excerpts_by_places nestedRegions
  obtain ⟨kept, kept', hinner, houter, hpart⟩ := hnested "in".toList "OUT".toList
    (by decide +kernel) (by decide +kernel) (by decide +kernel) (by decide +kernel)
  refine ⟨?_, kept, kept', hinner, houter, hpart, ?_⟩
  · rw [hexcerpt "rest".toList (by decide +kernel)]
    decide +kernel
  · exact Option.some.inj (hinner.symm.trans (by decide +kernel))

end BookSite.Include
