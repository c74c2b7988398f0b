import BookSite.Json.Reader
import BookSite.Proofs.Text.Blanks
import Mathlib.Data.List.Basic

/-!
# Proofs/Text/Digits — numbers that are read as they are written

A number is written with its shortest digits, in decimal or in hexadecimal, and both are read back.
-/

namespace BookSite

/-! ## Decimal digits -/

theorem isDecimalDigit_eq_isDigit (c : Char) : isDecimalDigit c = c.isDigit := rfl

namespace Text

theorem isDigit_of_mem_ofNat {n : Nat} {c : Char} (h : c ∈ ofNat n) : c.isDigit = true :=
  Nat.isDigit_of_mem_toDigits (by decide) (by decide) h

theorem newline_not_mem_ofNat (n : Nat) : '\n' ∉ ofNat n := fun hmem =>
  absurd (isDigit_of_mem_ofNat hmem) (by decide)

theorem ofNat_ne_nil (n : Nat) : ofNat n ≠ [] := Nat.toDigits_ne_nil

/-- **A number is read from its digits.** -/
theorem toNat?_ofNat (n : Nat) : toNat? (ofNat n) = some n := by
  have hdigits : (ofNat n).all isDecimalDigit = true := by
    rw [List.all_eq_true]
    intro c hc
    rw [isDecimalDigit_eq_isDigit]
    exact isDigit_of_mem_ofNat hc
  have hvalue : Nat.ofDigitChars 10 (ofNat n) 0 = n :=
    Nat.ofDigitChars_toDigits (by decide) (by decide)
  simp [toNat?, ofNat_ne_nil, hdigits, hvalue]

theorem isBlank_eq_false_of_isDigit {c : Char} (h : c.isDigit = true) : isBlank c = false := by
  have hdigit : 48 ≤ c.toNat ∧ c.toNat ≤ 57 := by
    simpa [Char.isDigit, UInt32.le_iff_toNat_le] using h
  unfold isBlank
  simp only [Bool.or_eq_false_iff, Bool.and_eq_false_iff, decide_eq_false_iff_not,
    beq_eq_false_iff_ne]
  omega

theorem trim_ofNat (n : Nat) : trim (ofNat n) = ofNat n := by
  have hdigit : ∀ c ∈ ofNat n, isBlank c = false := fun c hc =>
    isBlank_eq_false_of_isDigit (isDigit_of_mem_ofNat hc)
  exact trim_eq_self_iff.mpr ⟨fun c hc => hdigit c (List.mem_of_head? hc),
    fun c hc => hdigit c (List.mem_of_getLast? hc)⟩

/-- **A count is read from its digits.** -/
theorem toCount?_ofNat {n : Nat} (h : n ≤ maxCount) : toCount? (ofNat n) = some n := by
  have hsign : (ofNat n).dropLeading ['+'] = ofNat n := by
    rw [dropLeading]
    cases hrest : (ofNat n).behind? ['+'] with
    | none => rfl
    | some rest =>
      have hmem : '+' ∈ ofNat n := by
        rw [behind?_eq_some_iff.mp hrest]
        exact List.mem_cons_self
      exact absurd (isDigit_of_mem_ofNat hmem) (by decide)
  rw [toCount?, hsign, toNat?_ofNat]
  simp [h]

end Text

/-! ## Hexadecimal digits -/

namespace Json

theorem hexValue?_digitChar {d : Nat} (h : d < 16) : hexValue? d.digitChar = some d := by
  revert d
  decide

theorem hexNumber?_append_singleton (t : Text) (c : Char) :
    hexNumber? (t ++ [c]) = (hexNumber? t).bind fun n => (hexValue? c).map (n * 16 + ·) := by
  simp [hexNumber?, List.foldlM_append]

/-- **A number is read from its hexadecimal digits.** -/
theorem hexNumber?_toDigits (n : Nat) : hexNumber? (Nat.toDigits 16 n) = some n := by
  induction n using Nat.strongRecOn with
  | ind n ih =>
    by_cases hn : n < 16
    · rw [Nat.toDigits_of_lt_base hn, ← List.nil_append [n.digitChar],
        hexNumber?_append_singleton, hexValue?_digitChar hn]
      simp [hexNumber?]
    · have hlast : n % 16 < 16 := Nat.mod_lt n (by decide)
      rw [Nat.toDigits_of_base_le (by decide) (by omega), hexNumber?_append_singleton,
        ih (n / 16) (by omega), hexValue?_digitChar hlast]
      simp only [Option.bind_some, Option.map_some, Option.some.injEq]
      omega

/-- A number in hexadecimal digits holds nothing else. -/
theorem not_mem_of_hexNumber? {t : Text} {n : Nat} {c : Char} (hc : hexValue? c = none)
    (h : hexNumber? t = some n) : c ∉ t := by
  intro hmem
  obtain ⟨before, behind, rfl⟩ := List.append_of_mem hmem
  simp [hexNumber?, List.foldlM_append, hc] at h

end Json

end BookSite
