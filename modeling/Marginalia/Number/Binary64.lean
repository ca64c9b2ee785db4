import Marginalia.Number.Decimal

/-!
# Rounding to 53 binary digits

Numbers are exchanged with a precision of 53 binary digits and an exponent range of 11 bits.  A
finite number of that format is a whole number `significand` of units `2 ^ power`; the unit is the
largest with which the significand keeps 53 digits, but never smaller than `2 ^ (-1074)`.

`Binary64.nearest?` rounds a decimal number to the nearest such number, and to the one with an even
significand when two are equally near.  All of it is arithmetic of natural numbers, so it can be
computed in a proof as well as run.
-/

set_option autoImplicit false
namespace Marginalia
namespace Number

/-- The finite number `± significand · 2 ^ power`.  The sign is kept for zero as well. -/
structure Binary64 where
  negative : Bool
  significand : Nat
  power : Int
  deriving DecidableEq, Repr

namespace Binary64

/-- The least power of two that a unit may be. -/
def leastPower : Int := -1074

/-- The greatest power of two that a unit may be. -/
def greatestPower : Int := 971

/-- Zero, with a sign. -/
def zero (negative : Bool) : Binary64 := ⟨negative, 0, leastPower⟩

/-- The number one. -/
def one : Binary64 := ⟨false, Nat.pow 2 52, -52⟩

/-- A quotient rounded to the nearest whole number, a half to the even one. -/
def roundHalfEven (num den : Nat) : Nat :=
  let q := num / den
  let r := num % den
  if den < 2 * r ∨ (den = 2 * r ∧ q % 2 = 1) then q + 1 else q

/-- The quotient `num / den` in units of `2 ^ power`, again as a quotient. -/
def inUnits (num den : Nat) (power : Int) : Nat × Nat :=
  if 0 ≤ power then (num, den * Nat.pow 2 power.toNat)
  else (num * Nat.pow 2 (-power).toNat, den)

/-- The power of two that is the unit of the positive number `num / den`. -/
def unitPower (num den : Nat) : Int :=
  let guess := max leastPower ((Nat.log2 num : Int) - Nat.log2 den - 53)
  let (n, d) := inUnits num den guess
  if n / d < Nat.pow 2 53 then guess else guess + 1

/-- The positive number `num / den`, rounded; none when it is too large. -/
def roundQuotient? (num den : Nat) : Option (Nat × Int) :=
  let power := unitPower num den
  let (n, d) := inUnits num den power
  let significand := roundHalfEven n d
  let (significand, power) :=
    if significand = Nat.pow 2 53 then (Nat.pow 2 52, power + 1) else (significand, power)
  if power ≤ greatestPower then some (significand, power) else none

/-- The nearest number to a decimal one; none when that is too large.  The two tests before the
rounding settle numbers beyond `10 ^ 310` and below `10 ^ (-330)` without building their powers. -/
def nearest? (d : Decimal) : Option Binary64 :=
  let magnitude : Int := (Nat.toDigits 10 d.digits).length + d.power
  if d.digits = 0 ∨ magnitude < -330 then some (zero d.negative)
  else if 310 < magnitude then none
  else
    let rounded :=
      if 0 ≤ d.power then roundQuotient? (d.digits * Nat.pow 10 d.power.toNat) 1
      else roundQuotient? d.digits (Nat.pow 10 (-d.power).toNat)
    rounded.map fun (significand, power) => ⟨d.negative, significand, power⟩

end Binary64
end Number
end Marginalia
