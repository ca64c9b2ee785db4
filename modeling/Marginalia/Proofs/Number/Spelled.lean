import Marginalia.Number.Shortest
import Marginalia.Proofs.Literal.Kind

/-!
# Numbers that are written are number literals

Two kinds of numbers are written: whole numbers for a toggle, and numbers rounded to 53 binary
digits for everything else.  Both are digits with at most one point and one sign, never an exponent,
so whatever number it is, the literal grammar reads it as a number again.  For the rounded ones this
does not depend on which decimal is picked as the shortest: any decimal is written in that form
(`Decimal.isNumber_positional`).
-/

set_option autoImplicit false
namespace Marginalia
namespace Number

open Literal (isDigit isDigits IsUnsigned)

variable {t out : Text}

/-! ## Digits -/

/-- Every character of a text is a digit. -/
def AllDigits (t : Text) : Prop := ∀ c ∈ t, isDigit c = true

theorem AllDigits.isDigits (h : AllDigits t) (hne : t ≠ []) : isDigits t = true :=
  Literal.isDigits_iff.2 ⟨hne, h⟩

theorem AllDigits.append {s : Text} (hs : AllDigits s) (ht : AllDigits t) : AllDigits (s ++ t) :=
  List.forall_mem_append.2 ⟨hs, ht⟩

theorem allDigits_zeros (n : Nat) : AllDigits (List.replicate n '0') :=
  fun c hc => by rw [List.eq_of_mem_replicate hc]; rfl

theorem isDigit_of_isDigit {c : Char} (h : c.isDigit = true) : isDigit c = true := by
  simpa [Char.isDigit, isDigit, Char.le_def, Char.toNat] using h

theorem allDigits_toDigits (n : Nat) : AllDigits (Nat.toDigits 10 n) :=
  fun _ hc => isDigit_of_isDigit (Nat.isDigit_of_mem_toDigits (by decide) (by decide) hc)

/-! ## Whole numbers -/

namespace Whole

/-- **A whole number is written as a number literal.** -/
theorem isNumber_toText (n : Int) : Literal.isNumber (toText n) = true := by
  have hdigits : IsUnsigned (Nat.toDigits 10 n.natAbs) :=
    .whole ((allDigits_toDigits _).isDigits Nat.toDigits_ne_nil)
  rw [toText]
  split
  · exact Literal.isNumber_of_withoutSign rfl hdigits
  · exact Literal.isNumber_of_withoutSign hdigits.withoutSign_eq hdigits

end Whole

/-! ## Decimal numbers -/

namespace Decimal

theorem allDigits_withoutFinalZeros (d : Decimal) : AllDigits d.withoutFinalZeros.1 := by
  intro c hc
  have hmem := (List.dropWhile_sublist _).subset (List.mem_reverse.1 hc)
  exact allDigits_toDigits d.digits c (List.mem_reverse.1 hmem)

/-- The point falls behind the digits, between them or before them. -/
theorem isUnsigned_placed {digits : Text} (h : AllDigits digits) (power : Int) :
    IsUnsigned (placed digits power) := by
  rw [placed]
  split
  · exact .whole rfl
  rename_i hne
  split
  · refine .whole ((h.append (allDigits_zeros _)).isDigits ?_)
    exact fun he => hne (List.append_eq_nil_iff.1 he).1
  rename_i hpower
  simp only
  split
  · rename_i hplaces
    have htake : digits.take (digits.length - (-power).toNat) ≠ [] := by
      rw [Ne, List.take_eq_nil_iff]
      rintro (hzero | he)
      · omega
      · exact hne he
    have hdrop : digits.drop (digits.length - (-power).toNat) ≠ [] := by
      rw [Ne, List.drop_eq_nil_iff]
      omega
    exact .fraction (AllDigits.isDigits (fun c hc => h c (List.mem_of_mem_take hc)) htake)
      (AllDigits.isDigits (fun c hc => h c (List.mem_of_mem_drop hc)) hdrop)
  · have hfraction := (allDigits_zeros ((-power).toNat - digits.length)).append h
    have hzero : isDigits ['0'] = true := rfl
    exact .fraction hzero (hfraction.isDigits fun he => hne (List.append_eq_nil_iff.1 he).2)

/-- **A decimal number is written as a number literal.** -/
theorem isNumber_positional (d : Decimal) : Literal.isNumber d.positional = true := by
  have hplaced := isUnsigned_placed (allDigits_withoutFinalZeros d) d.withoutFinalZeros.2
  rw [positional]
  show Literal.isNumber (if d.negative = true then '-' :: placed _ _ else placed _ _) = true
  split
  · exact Literal.isNumber_of_withoutSign rfl hplaced
  · exact Literal.isNumber_of_withoutSign hplaced.withoutSign_eq hplaced

end Decimal

theorem isNumber_of_normalized? (h : normalized? t = some out) : Literal.isNumber out = true := by
  obtain ⟨b, -, rfl⟩ := Option.map_eq_some_iff.1 h
  exact b.shortest.isNumber_positional

end Number
end Marginalia
