import Marginalia.Setting.Remark

/-!
# Setting lines

A setting is a line that gives a literal, with a name (`limit: 10,`) or without (`"blue",`).
`Setting.of?` cuts such a line into its parts, and `Setting.withLiteral` puts it together again
around another literal.  Everything but the literal is kept as it was found, which is what makes
editing one literal safe: with its own literal a setting gives its line back.
-/

set_option autoImplicit false
namespace Marginalia

/-- A line that gives a literal, in parts. -/
structure Setting where
  /-- The indentation and the name. -/
  lead : Text
  /-- The assignment symbol and the blanks behind it, empty when the literal has no name. -/
  assignment : Text
  literal : Text
  /-- The blanks between the literal and the punctuation. -/
  padding : Text
  /-- A comma, a semicolon, or nothing. -/
  punctuation : Text
  /-- The blanks behind the punctuation, and the comment. -/
  remark : Text
  deriving DecidableEq, Repr

namespace Setting

/-- A line cut into the parts of a setting; none when it gives no literal. -/
def of? (line : Text) : Option Setting :=
  let (code, comment) := splitRemark line
  (Code.of? code).map fun c =>
    { lead := c.indent ++ c.name
      assignment := c.assignment
      literal := c.literal
      padding := c.padding
      punctuation := c.punctuation
      remark := c.blanks ++ comment }

/-- The line of a setting with another literal in the place of its own. -/
def withLiteral (s : Setting) (literal : Text) : Text :=
  s.lead ++ s.assignment ++ literal ++ s.padding ++ s.punctuation ++ s.remark

/-- The line of a setting. -/
def toText (s : Setting) : Text := s.withLiteral s.literal

/-- The kind of the literal. -/
def kind (s : Setting) : LiteralKind := LiteralKind.of s.literal

/-- Whether the line consists of the literal, without a name. -/
def isLone (s : Setting) : Bool := s.assignment.isEmpty

/-- Where the literal starts, in bytes from the beginning of the line. -/
def literalOffset (s : Setting) : Nat := Text.byteLength s.lead + Text.byteLength s.assignment

end Setting
end Marginalia
