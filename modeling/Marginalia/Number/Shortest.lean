import Marginalia.Number.Binary64

/-!
# The shortest decimal that reads back

`shortest` picks the decimal number with which a binary one is written: a multiple of the largest
power of ten that has a multiple close enough to read back as the same number, and of these the
nearest.  "Close enough" is the interval of numbers that round to it, which reaches half a unit to
either side, a quarter below when the unit changes there; the ends belong to it when the significand
is even.

`positional` then writes a decimal number without an exponent, and without zeros behind the last
digit of a fraction.
-/

set_option autoImplicit false
namespace Marginalia
namespace Number

namespace Binary64

/-- The multiple of `10 ^ p` nearest to a positive number that reads back as it, if there is one.
All three of value and ends are counted in quarters of a unit; of two equally near multiples the
larger is taken. -/
def multipleOf? (significand : Nat) (power p : Int) : Option Nat :=
  let value := 4 * significand
  let low := if significand = Nat.pow 2 52 ∧ leastPower < power then value - 1 else value - 2
  let high := value + 2
  -- the quotient of a quarter unit by `10 ^ p`, as `num / den`
  let num := Nat.pow 2 (power - 2).toNat * Nat.pow 10 (-p).toNat
  let den := Nat.pow 2 (2 - power).toNat * Nat.pow 10 p.toNat
  let down := value * num / den
  let up := down + 1
  let within (n : Nat) : Bool :=
    if significand % 2 = 0 then low * num ≤ n * den && n * den ≤ high * num
    else low * num < n * den && n * den < high * num
  match within down, within up with
  | true, true => if 2 * (value * num) < (down + up) * den then some down else some up
  | true, false => some down
  | false, true => some up
  | false, false => none

/-- The first power of ten, going down from `p`, with a multiple that reads back. -/
def shortestFrom (significand : Nat) (power : Int) : Nat → Int → Nat × Int
  | 0, p => (0, p)
  | steps + 1, p =>
    match multipleOf? significand power p with
    | some n => (n, p)
    | none => shortestFrom significand power steps (p - 1)

/-- The decimal number with which a binary one is written.  A power of ten above the number has no
multiple that reads back except that power itself, and one seventeen digits below always has one;
so the search starts just above and takes few steps. -/
def shortest (b : Binary64) : Decimal :=
  if b.significand = 0 then ⟨b.negative, 0, 0⟩
  else
    let top : Int := (((Nat.log2 b.significand : Int) + 1 + b.power) * 30103) / 100000 + 2
    let (digits, power) := shortestFrom b.significand b.power 40 top
    ⟨b.negative, digits, power⟩

end Binary64

namespace Decimal

/-- The digits of a number and a power of ten, less the zeros at the end. -/
def withoutFinalZeros (d : Decimal) : Text × Int :=
  let digits := Nat.toDigits 10 d.digits
  let kept := (digits.reverse.dropWhile (· = '0')).reverse
  (kept, d.power + (digits.length - kept.length : Nat))

/-- Digits times a power of ten, written without an exponent. -/
def placed (digits : Text) (power : Int) : Text :=
  if digits = [] then ['0']
  else if 0 ≤ power then digits ++ List.replicate power.toNat '0'
  else
    let places := (-power).toNat
    if places < digits.length then
      digits.take (digits.length - places) ++ '.' :: digits.drop (digits.length - places)
    else '0' :: '.' :: List.replicate (places - digits.length) '0' ++ digits

/-- A decimal number written without an exponent. -/
def positional (d : Decimal) : Text :=
  let (digits, power) := d.withoutFinalZeros
  if d.negative then '-' :: placed digits power else placed digits power

end Decimal

/-- The decimal number a text begins with, rounded to 53 binary digits and written again; none when
it is too large. -/
def normalized? (t : Text) : Option Text :=
  (Binary64.nearest? (Decimal.leading t)).map fun b => b.shortest.positional

/-- Whether the number a text begins with rounds to one. -/
def isOne (t : Text) : Bool := Binary64.nearest? (Decimal.leading t) = some Binary64.one

end Number
end Marginalia
