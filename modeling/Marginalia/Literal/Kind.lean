import Marginalia.Literal.Quote
import Marginalia.Text.Blank

/-!
# Kinds of literals

`LiteralKind.of` sorts the text of a literal by a small lexical grammar.  The rules are tried in a
fixed order and the first that applies decides; what none of them covers is `unknown`.  Lists and
objects are recognised by their brackets alone, their contents are not looked at.

A list literal is cut at every comma, also at one inside a quoted element or an inner list, and its
elements are trimmed (`Literal.elements`).  Brackets with nothing but blanks between them hold no
element, while any other text holds one more element than commas.
-/

set_option autoImplicit false
namespace Marginalia

/-- The kind of a literal. -/
inductive LiteralKind where
  | boolean
  | number
  | string
  | array
  | object
  | unknown
  deriving DecidableEq, Repr

namespace LiteralKind

/-- Every kind, in the order in which they are listed. -/
def all : List LiteralKind := [boolean, number, string, array, object, unknown]

/-- The word for a kind. -/
def name : LiteralKind → Text
  | boolean => "boolean".toList
  | number => "number".toList
  | string => "string".toList
  | array => "array".toList
  | object => "object".toList
  | unknown => "unknown".toList

/-- The kind a word names. -/
def ofName? (t : Text) : Option LiteralKind := all.find? fun k => k.name = t

@[simp] theorem ofName?_name (k : LiteralKind) : ofName? k.name = some k := by
  cases k <;> decide

/-- The bit that stands for a kind in a set of kinds; `unknown` is in no set. -/
def bit : LiteralKind → Nat
  | boolean => 1
  | number => 2
  | string => 4
  | array => 8
  | object => 16
  | unknown => 0

/-- The set of all kinds. -/
def allBits : Nat := (all.map bit).foldl (· + ·) 0

end LiteralKind

namespace Literal

/-- The ASCII digits, the only ones a number is written with. -/
def isDigit (c : Char) : Bool := '0' ≤ c && c ≤ '9'

/-- The digits a text begins with, at least one, and the rest. -/
def digits? (t : Text) : Option (Text × Text) :=
  match t.takeWhile isDigit with
  | [] => none
  | run => some (run, t.dropWhile isDigit)

/-- At least one digit, and digits only. -/
def isDigits (t : Text) : Bool := !t.isEmpty && t.all isDigit

/-- A text without its minus sign, if it begins with one. -/
def withoutSign : Text → Text
  | '-' :: r => r
  | t => t

/-- An optional minus sign, digits, and optionally a point followed by digits. -/
def isNumber (t : Text) : Bool :=
  match Text.cutAt? '.' (withoutSign t) with
  | some (whole, fraction) => isDigits whole && isDigits fraction
  | none => isDigits (withoutSign t)

/-- A bracketed text without a line feed. -/
def isEnclosed (opening closing : Char) : Text → Bool
  | [] => false
  | c :: r => c = opening && r.getLast? = some closing && !r.contains '\n'

/-- A quoted text whose inner marks are all escaped. -/
def isString (t : Text) : Bool :=
  match Quote.around? t with
  | some q => q.balances (Quote.between t)
  | none => false

end Literal

open Literal in
/-- The kind of a literal, given its text without blanks or a comment around it. -/
def LiteralKind.of (t : Text) : LiteralKind :=
  if t = "true".toList ∨ t = "false".toList then boolean
  else if isNumber t then number
  else if isEnclosed '[' ']' t then array
  else if isEnclosed '\x7b' '\x7d' t then object
  else if isString t then string
  else unknown

/-! ## Elements of lists -/

namespace Literal

/-- The text between the brackets; all of it when a bracket is missing. -/
def withoutBrackets : Text → Text
  | '[' :: r => if r.getLast? = some ']' then r.dropLast else '[' :: r
  | t => t

/-- The trimmed elements of a list literal. -/
def elements (t : Text) : List Text :=
  let inner := withoutBrackets t
  if Text.isBlankText inner then [] else (inner.splitOn ',').map Text.trim

theorem withoutBrackets_append (inner : Text) :
    withoutBrackets ('[' :: inner ++ [']']) = inner := by
  simp [withoutBrackets]

end Literal
end Marginalia
