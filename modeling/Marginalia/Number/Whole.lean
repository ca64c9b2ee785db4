import Marginalia.Literal.Kind

/-!
# Lenient reading of whole numbers

A form hands in text, and a text that should be a number is read as far as it looks like one:
blanks, an optional sign, and the longest run of digits.  The result is kept within the range of a
64-bit signed integer after every digit (`Whole.leading`), so a long run never builds a large
number.  `Whole.exact` is the integer that is written, whatever its size.
-/

set_option autoImplicit false
namespace Marginalia
namespace Number

/-- The blanks a number may follow: space, tab, line feed, carriage return, vertical tab and form
feed. -/
def isSpace (c : Char) : Bool :=
  c = ' ' || c = '\t' || c = '\n' || c = '\r' || c = '\x0b' || c = '\x0c'

/-- A text without the blanks in front. -/
def skipSpace (t : Text) : Text := t.dropWhile isSpace

/-- The value of a digit. -/
def digitValue (c : Char) : Nat := c.toNat - '0'.toNat

/-- The digits a text begins with. -/
def digitRun (t : Text) : Text := t.takeWhile Literal.isDigit

/-- The number a run of digits writes. -/
def natOfDigits (run : Text) : Nat := run.foldl (fun n c => 10 * n + digitValue c) 0

/-- A text cut behind its sign: whether the sign is a minus, and the rest. -/
def signed : Text → Bool × Text
  | '-' :: r => (true, r)
  | '+' :: r => (false, r)
  | t => (false, t)

namespace Whole

/-- The least number that is kept. -/
def least : Int := -9223372036854775808

/-- The greatest number that is kept. -/
def greatest : Int := 9223372036854775807

/-- The nearest number within the range. -/
def clamp (n : Int) : Int := max least (min greatest n)

/-- One more digit on the right of a number, the result brought into the range at each step. -/
def extend (negative : Bool) (n : Int) (c : Char) : Int :=
  let shifted := clamp (n * 10)
  if negative then clamp (shifted - digitValue c) else clamp (shifted + digitValue c)

/-- The whole number a text begins with, within the range; zero when it begins with none. -/
def leading (t : Text) : Int :=
  let (negative, rest) := signed (skipSpace t)
  (digitRun rest).foldl (extend negative) 0

/-- The whole number a text begins with, whatever its size. -/
def exact (t : Text) : Int :=
  let (negative, rest) := signed (skipSpace t)
  let n : Int := natOfDigits (digitRun rest)
  if negative then -n else n

/-- A number in decimal digits, with a minus sign when it is negative. -/
def toText (n : Int) : Text :=
  if n < 0 then '-' :: Nat.toDigits 10 n.natAbs else Nat.toDigits 10 n.natAbs

end Whole
end Number
end Marginalia
