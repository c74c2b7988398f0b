import BookSite.Migration.FileKind
import BookSite.Proofs.Text.Words
import Mathlib.Data.List.DropRight

/-!
# Proofs/Files/Extension — the extension of a name

A name with an extension is a stem that is not empty, a dot and the extension, in which there is no
other dot (`extension?_eq_some_iff`).  What a file is told by its extension it is told by these
parts of its name.
-/

namespace BookSite

namespace Path

/-- A name with a dot is cut at the last one. -/
theorem exists_stem {name : Text} (h : (name.rtakeWhile (· != '.')).length < name.length) :
    ∃ stem, name = stem ++ '.' :: name.rtakeWhile (· != '.') := by
  have hsplit : name.rdropWhile (· != '.') ++ name.rtakeWhile (· != '.') = name :=
    List.rdropWhile_append_rtakeWhile
  have hne : name.rdropWhile (· != '.') ≠ [] := fun hnil => by
    rw [hnil, List.nil_append] at hsplit
    exact absurd (congrArg List.length hsplit) h.ne
  have hdot : (name.rdropWhile (· != '.')).getLast hne = '.' := by
    simpa using List.rdropWhile_last_not (· != '.') name hne
  have hfront : (name.rdropWhile (· != '.')).dropLast ++ ['.'] = name.rdropWhile (· != '.') := by
    have hlast := List.dropLast_append_getLast hne
    rwa [hdot] at hlast
  refine ⟨(name.rdropWhile (· != '.')).dropLast, ?_⟩
  rw [List.append_cons, hfront, hsplit]

theorem rtakeWhile_stem_append {stem extension : Text} (h : '.' ∉ extension) :
    (stem ++ '.' :: extension).rtakeWhile (· != '.') = extension := by
  have hreverse : (stem ++ '.' :: extension).reverse =
      extension.reverse ++ '.' :: stem.reverse := by simp
  rw [List.rtakeWhile, hreverse, Text.takeWhile_bne_append (by simpa using h),
    List.reverse_reverse]

/-- **The extension** stands behind the last dot of the name, and something stands before that. -/
theorem extension?_eq_some_iff {p : Path} {extension : Text} :
    p.extension? = some extension ↔
      ∃ stem, stem ≠ [] ∧ p.fileName? = some (stem ++ '.' :: extension) ∧ '.' ∉ extension := by
  have hextension : p.extension? = p.fileName?.bind fun name =>
      if (name.rtakeWhile (· != '.')).length + 1 < name.length then
        some (name.rtakeWhile (· != '.')) else none := rfl
  simp only [hextension, Option.bind_eq_some_iff, Option.ite_none_right_eq_some, Option.some.injEq]
  constructor
  · rintro ⟨name, hname, hlength, rfl⟩
    obtain ⟨stem, hstem⟩ := exists_stem (Nat.lt_of_succ_lt hlength)
    refine ⟨stem, ?_, hstem ▸ hname, fun hdot => ?_⟩
    · rintro rfl
      exact absurd (congrArg List.length hstem) hlength.ne'
    · have hne := List.mem_rtakeWhile_imp hdot
      cases hne
  · rintro ⟨stem, hne, hname, hdot⟩
    have hpos := List.length_pos_iff.mpr hne
    refine ⟨_, hname, ?_, rtakeWhile_stem_append hdot⟩
    rw [rtakeWhile_stem_append hdot, List.length_append, List.length_cons]
    omega

end Path

/-- **Pages** are told by their extension, in any letter case. -/
theorem FileKind.classify_eq_markdown_iff {p : Path} :
    classify p = .markdown ↔
      ∃ extension : Text, p.extension? = some extension ∧ extension.toLower = "md".toList := by
  rw [classify]
  cases p.extension? with
  | none => simp
  | some extension =>
    simp only [Option.some.injEq, exists_eq_left', ofExtension, pageExtension, beq_iff_eq]
    split_ifs with hpage
    · exact iff_of_true rfl hpage
    all_goals exact iff_of_false (by decide) hpage

end BookSite
