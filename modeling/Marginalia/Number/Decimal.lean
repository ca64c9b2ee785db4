import Marginalia.Number.Whole

/-!
# Lenient reading of decimal numbers

`Decimal.leading` reads the longest part of a text that has the form of a decimal number: a sign,
digits with or without a point, and an exponent.  Digits are needed on one side of the point only,
and an exponent sign without digits behind it is no exponent.  The result is exact: a whole number
of some power of ten.
-/

set_option autoImplicit false
namespace Marginalia
namespace Number

/-- The number `± digits · 10 ^ power`.  The sign is kept for zero as well. -/
structure Decimal where
  negative : Bool
  digits : Nat
  power : Int
  deriving DecidableEq, Repr

namespace Decimal

/-- Zero without a sign. -/
def zero : Decimal := ⟨false, 0, 0⟩

/-- The exponent a text begins with; zero when it begins with none. -/
def exponent : Text → Int
  | c :: r =>
    if c = 'e' ∨ c = 'E' then
      let (negative, rest) := signed r
      let n : Int := natOfDigits (digitRun rest)
      if negative then -n else n
    else 0
  | [] => 0

/-- The digits behind a point, and the rest; no digits when the text begins with no point. -/
def fraction : Text → Text × Text
  | '.' :: r => (digitRun r, r.dropWhile Literal.isDigit)
  | t => ([], t)

/-- The decimal number a text begins with; zero when it begins with none. -/
def leading (t : Text) : Decimal :=
  let (negative, unsigned) := signed (skipSpace t)
  let whole := digitRun unsigned
  let (places, rest) := fraction (unsigned.dropWhile Literal.isDigit)
  if whole = [] ∧ places = [] then zero
  else ⟨negative, natOfDigits (whole ++ places), exponent rest - places.length⟩

end Decimal
end Number
end Marginalia
