import Marginalia.Proofs.Number.Spelled
import Marginalia.Proofs.Text.Cut

/-!
# Whole numbers that are written are read back

A toggle writes its number as a whole number, and reads it as a decimal number that is rounded to 53
binary digits.  Of a large number the rounding loses digits, so what was written cannot be told from
what is read.  But nothing that is lost is mistaken for a one: from four on the unit of the rounded
number is larger than the unit of one, and the few numbers below are exact.

* `Decimal.leading_toText` — a whole number that is written is read as it is.
* `isOne_toText` — **it is read as one exactly if it is one.**
-/

set_option autoImplicit false
namespace Marginalia
namespace Number

open Literal (isDigit)

variable {t : Text}

/-! ## Digits -/

theorem natOfDigits_toDigits (n : Nat) : natOfDigits (Nat.toDigits 10 n) = n := by
  have hread : Nat.ofDigitChars 10 (Nat.toDigits 10 n) 0 = n := Nat.ofDigitChars_ten_toDigits
  rwa [Nat.ofDigitChars_eq_foldl] at hread

/-- Digits that nothing follows are a run. -/
theorem AllDigits.digitRun_eq (h : AllDigits t) : digitRun t = t :=
  List.takeWhile_eq_self_iff.2 h

theorem isSpace_of_isDigit {c : Char} (h : isDigit c = true) : isSpace c = false := by
  have hne : ∀ d, isDigit d = false → c ≠ d := by
    rintro d hd rfl
    rw [h] at hd
    cases hd
  simp [isSpace, hne ' ' rfl, hne '\t' rfl, hne '\n' rfl, hne '\r' rfl, hne '\x0b' rfl,
    hne '\x0c' rfl]

theorem exists_toDigits_eq_cons (n : Nat) : ∃ c r, Nat.toDigits 10 n = c :: r ∧ isDigit c = true :=
  Literal.exists_cons_of_isDigits ((allDigits_toDigits n).isDigits Nat.toDigits_ne_nil)

/-- What is written begins with no blank, and its sign is the sign of the number. -/
theorem signed_toText (n : Int) :
    signed (skipSpace (Whole.toText n)) = (decide (n < 0), Nat.toDigits 10 n.natAbs) := by
  rw [Whole.toText]
  split
  · rename_i hn
    rw [decide_eq_true hn]
    rfl
  · rename_i hn
    obtain ⟨c, r, hdigits, hc⟩ := exists_toDigits_eq_cons n.natAbs
    have hskip : skipSpace (c :: r) = c :: r := by
      rw [skipSpace, List.dropWhile_cons_of_neg (by simp [isSpace_of_isDigit hc])]
    rw [decide_eq_false hn, hdigits, hskip]
    unfold signed
    split
    · rename_i he
      cases he
      cases hc
    · rename_i he
      cases he
      cases hc
    · rfl

/-- **A whole number that is written is read as it is.** -/
theorem Decimal.leading_toText (n : Int) :
    Decimal.leading (Whole.toText n) = ⟨decide (n < 0), n.natAbs, 0⟩ := by
  have hall := allDigits_toDigits n.natAbs
  have hrest : (Nat.toDigits 10 n.natAbs).dropWhile isDigit = [] := List.dropWhile_eq_nil_iff.2 hall
  have hne : Nat.toDigits 10 n.natAbs ≠ [] := Nat.toDigits_ne_nil
  simp only [leading, signed_toText, hrest, fraction, hall.digitRun_eq, exponent, List.append_nil,
    natOfDigits_toDigits]
  rw [if_neg fun h => hne h.1]
  rfl

/-! ## Rounding -/

namespace Binary64

/-- Rounding keeps to the unit, or to the next larger one if the significand gets too long. -/
theorem unitPower_le_of_roundQuotient? {num den significand : Nat} {power : Int}
    (h : roundQuotient? num den = some (significand, power)) : unitPower num den ≤ power := by
  simp only [roundQuotient?] at h
  split at h <;> split at h <;> cases h
  · exact Int.le_add_one (Int.le_refl _)
  · exact Int.le_refl _

/-- The unit of a whole number from four on is larger than the unit of one. -/
theorem lt_unitPower {n : Nat} (h : 4 ≤ n) : -52 < unitPower n 1 := by
  have hlog : 2 ≤ Nat.log2 n := (Nat.le_log2 (by omega)).2 h
  have hone : Nat.log2 1 = 0 := rfl
  have hguess : -52 < max leastPower ((Nat.log2 n : Int) - Nat.log2 1 - 53) := by
    rw [hone]
    omega
  simp only [unitPower]
  split <;> omega

/-- **No whole number but one is rounded to one.** -/
theorem roundQuotient?_eq_one_iff {n : Nat} :
    roundQuotient? n 1 = some (one.significand, one.power) ↔ n = 1 := by
  constructor
  · intro h
    by_contra hn
    rcases Nat.lt_or_ge n 4 with hlt | hge
    · have hsmall : n = 0 ∨ n = 2 ∨ n = 3 := by omega
      rcases hsmall with rfl | rfl | rfl <;> revert h <;> decide
    · have hpower := unitPower_le_of_roundQuotient? h
      exact absurd (lt_unitPower hge) (Int.not_lt.2 hpower)
  · rintro rfl
    decide

theorem nearest?_whole_eq_one_iff {negative : Bool} {n : Nat} :
    nearest? ⟨negative, n, 0⟩ = some one ↔ negative = false ∧ n = 1 := by
  constructor
  · intro h
    simp only [nearest?] at h
    split at h
    · cases h
    split at h
    · cases h
    rw [if_pos (Int.le_refl 0), Int.toNat_zero, Nat.pow_eq, Nat.pow_zero, Nat.mul_one] at h
    obtain ⟨⟨significand, power⟩, hrounded, he⟩ := Option.map_eq_some_iff.1 h
    cases he
    exact ⟨rfl, roundQuotient?_eq_one_iff.1 hrounded⟩
  · rintro ⟨rfl, rfl⟩
    decide +kernel

end Binary64

/-- **A whole number that is written is read as one exactly if it is one.** -/
theorem isOne_toText (n : Int) : isOne (Whole.toText n) = decide (n = 1) := by
  rw [isOne, Decimal.leading_toText, decide_eq_decide, Binary64.nearest?_whole_eq_one_iff,
    decide_eq_false_iff_not]
  omega

end Number
end Marginalia
