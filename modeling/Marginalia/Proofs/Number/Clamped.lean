import Marginalia.Proofs.Number.ReadBack

/-!
# Numbers that are kept within a range

A whole number is read digit by digit, and at every digit the result is brought back into the range
of 64 bits, once when it is shifted and once when the digit is added.  So behind the first digit
that is too much, a digit is no longer added to the number it is written behind, but to a bound.

Nothing is lost by that, because every digit carries the sign of the number: a number that has left
the range on one side only moves further away with the digits behind, and the nearest number within
the range stays the bound that was kept.  This hangs on the two bounds and the two directions, and
numbers of fewer than nineteen digits do not show it.

* `Spelled` — a text by its parts: blanks, a sign, digits, and what ends them.
* `extend_clamp` — one more digit, to a number that was brought into the range or to the exact one.
* `leading_clamped` — **the number that is read is the number that is written, brought into the
  range once**.
-/

set_option autoImplicit false
namespace Marginalia
namespace Number
namespace Whole

open Literal (isDigit)

/-! ## Texts that begin with a number -/

/-- What may stand in front of the digits of a number. -/
inductive Sign where
  | absent
  | plus
  | minus
  deriving DecidableEq, Repr

namespace Sign

/-- A sign as it is written. -/
def text : Sign → Text
  | absent => []
  | plus => ['+']
  | minus => ['-']

/-- What a sign makes of a number. -/
def apply : Sign → Nat → Int
  | minus, n => -n
  | absent, n | plus, n => n

end Sign

/-- A text by its parts: the blanks it begins with, a sign, as many digits as there are, and the
rest.  There may be no digits, and then the number is zero. -/
structure Spelled where
  blanks : Text
  sign : Sign
  digits : Text
  rest : Text
  allBlank : ∀ c ∈ blanks, isSpace c = true
  allDigits : AllDigits digits
  /-- The digits end where no digit follows. -/
  ended : ∀ c ∈ rest.head?, isDigit c = false
  /-- The blanks end where no blank follows, and a sign that is there is taken for one. -/
  begun : sign = .absent → digits = [] →
    ∀ c ∈ rest.head?, isSpace c = false ∧ c ≠ '+' ∧ c ≠ '-'

namespace Spelled

variable (w : Spelled)

/-- What stands behind the blanks. -/
def body : Text := w.sign.text ++ (w.digits ++ w.rest)

/-- The text that has these parts. -/
def text : Text := w.blanks ++ w.body

/-- The number that is written, whatever its size. -/
def value : Int := w.sign.apply (Nat.ofDigitChars 10 w.digits 0)

/-- No sign stands where there is none among the parts. -/
theorem head_of_absent (h : w.sign = .absent) :
    ∀ c ∈ (w.digits ++ w.rest).head?, isSpace c = false ∧ c ≠ '+' ∧ c ≠ '-' := by
  intro c hc
  cases hdigits : w.digits with
  | nil =>
    rw [hdigits, List.nil_append] at hc
    exact w.begun h hdigits c hc
  | cons d r =>
    rw [hdigits] at hc
    cases hc
    have hd : isDigit c = true := w.allDigits c (hdigits ▸ List.mem_cons_self)
    refine ⟨isSpace_of_isDigit hd, ?_, ?_⟩ <;> rintro rfl <;> cases hd

theorem skipSpace_text : skipSpace w.text = w.body := by
  refine (Text.takeWhile_dropWhile_iff.2 ⟨rfl, w.allBlank, fun c hc => ?_⟩).2
  rw [body] at hc
  cases hsign : w.sign with
  | absent =>
    rw [hsign] at hc
    exact (w.head_of_absent hsign c hc).1
  | plus =>
    rw [hsign] at hc
    cases hc
    rfl
  | minus =>
    rw [hsign] at hc
    cases hc
    rfl

theorem signed_body : signed w.body = (decide (w.sign = .minus), w.digits ++ w.rest) := by
  rw [body]
  cases hsign : w.sign with
  | absent =>
    have hhead := w.head_of_absent hsign
    rw [Sign.text, List.nil_append]
    unfold signed
    split
    · rename_i he
      rw [he] at hhead
      exact absurd rfl (hhead '-' rfl).2.2
    · rename_i he
      rw [he] at hhead
      exact absurd rfl (hhead '+' rfl).2.1
    · rfl
  | plus => rfl
  | minus => rfl

theorem digitRun_append : digitRun (w.digits ++ w.rest) = w.digits :=
  (Text.takeWhile_dropWhile_iff.2 ⟨rfl, w.allDigits, w.ended⟩).1

/-- **The number of a text is that of its parts.** -/
theorem exact_text : exact w.text = w.value := by
  have hread : natOfDigits w.digits = Nat.ofDigitChars 10 w.digits 0 :=
    Nat.ofDigitChars_eq_foldl.symm
  rw [exact, skipSpace_text, signed_body]
  simp only [digitRun_append, hread, value]
  cases w.sign <;> rfl

end Spelled

theorem exists_sign (t : Text) : ∃ sign r, t = Sign.text sign ++ r ∧
    (sign = .absent → ∀ c ∈ r.head?, c ≠ '+' ∧ c ≠ '-') := by
  cases t with
  | nil => exact ⟨.absent, [], rfl, fun _ c hc => nomatch hc⟩
  | cons d r =>
    by_cases hplus : d = '+'
    · exact ⟨.plus, r, congrArg (· :: r) hplus, nofun⟩
    by_cases hminus : d = '-'
    · exact ⟨.minus, r, congrArg (· :: r) hminus, nofun⟩
    refine ⟨.absent, d :: r, rfl, fun _ c hc => ?_⟩
    cases hc
    exact ⟨hplus, hminus⟩

/-- **Every text has its parts.** -/
theorem exists_spelled (t : Text) : ∃ w : Spelled, w.text = t := by
  obtain ⟨hblanks, allBlank, hbody⟩ :=
    (Text.takeWhile_dropWhile_iff (t := t) (f := isSpace)).1 ⟨rfl, rfl⟩
  obtain ⟨sign, r, hsign, habsent⟩ := exists_sign (t.dropWhile isSpace)
  obtain ⟨hdigits, allDigits, ended⟩ :=
    (Text.takeWhile_dropWhile_iff (t := r) (f := isDigit)).1 ⟨rfl, rfl⟩
  refine ⟨⟨_, sign, _, _, allBlank, allDigits, ended, fun hnone hnil c hc => ?_⟩, ?_⟩
  · -- without sign and digits all that is left stands right behind the blanks
    rw [hnil, List.nil_append] at hdigits
    rw [← hdigits] at hc
    refine ⟨hbody c ?_, habsent hnone c hc⟩
    rwa [hsign, hnone, Sign.text, List.nil_append]
  · rw [Spelled.text, Spelled.body]
    simp only
    rw [← hdigits, ← hsign, ← hblanks]

/-! ## Reading a run of digits -/

/-- **One more digit makes no difference** between the exact number and one that was brought into
the range: a number out of the range has the sign of the digit, so both end at the same bound. -/
theorem extend_clamp (negative : Bool) (n : Nat) (c : Char) :
    extend negative (clamp (if negative then -n else n)) c
      = clamp (if negative then -(10 * n + digitValue c : Nat)
          else (10 * n + digitValue c : Nat)) := by
  simp only [extend, clamp, least, greatest]
  cases negative with
  | true =>
    simp only [if_true]
    omega
  | false =>
    simp only [Bool.false_eq_true, if_false]
    omega

theorem foldl_extend (negative : Bool) (run : Text) (n : Nat) :
    run.foldl (extend negative) (clamp (if negative then -n else n))
      = clamp (if negative then -(run.foldl (fun n c => 10 * n + digitValue c) n : Nat)
          else (run.foldl (fun n c => 10 * n + digitValue c) n : Nat)) := by
  induction run generalizing n with
  | nil => rfl
  | cons c run ih => rw [List.foldl_cons, List.foldl_cons, extend_clamp, ih]

/-- The number that is read is the exact one, brought into the range. -/
theorem leading_eq (t : Text) : leading t = clamp (exact t) := by
  have hzero (negative : Bool) : clamp (if negative then -(0 : Nat) else (0 : Nat)) = 0 := by
    cases negative <;> rfl
  have hrun := foldl_extend (signed (skipSpace t)).1 (digitRun (signed (skipSpace t)).2) 0
  rw [hzero] at hrun
  exact hrun

theorem least_eq : least = Int64.minValue.toInt := by decide

theorem greatest_eq : greatest = Int64.maxValue.toInt := by decide

theorem Spelled.leading_text (w : Spelled) :
    leading w.text = max Int64.minValue.toInt (min Int64.maxValue.toInt w.value) := by
  rw [leading_eq, w.exact_text, clamp, least_eq, greatest_eq]

/-- **The number that is read is the number that is written, brought into the range once**, however
many digits there are. -/
theorem leading_clamped (t : Text) : (∃ w : Spelled, w.text = t) ∧ ∀ w : Spelled, w.text = t →
    leading t = max Int64.minValue.toInt (min Int64.maxValue.toInt w.value) := by
  refine ⟨exists_spelled t, ?_⟩
  rintro w rfl
  exact w.leading_text

/-- A number that is too small by one, behind blanks and in front of a unit. -/
theorem leading_clamped_below :
    leading "\x0b \t-009223372036854775809px".toList = -9223372036854775808 := by
  let w : Spelled := {
    blanks := "\x0b \t".toList
    sign := .minus
    digits := "009223372036854775809".toList
    rest := "px".toList
    allBlank := List.all_eq_true.1 rfl
    allDigits := List.all_eq_true.1 rfl
    ended := fun c hc => by cases hc; rfl
    begun := nofun }
  have htext : w.text = "\x0b \t-009223372036854775809px".toList := rfl
  have hvalue : w.value = -9223372036854775809 := by decide
  rw [(leading_clamped _).2 w htext, hvalue]
  rfl

end Whole
end Number
end Marginalia
