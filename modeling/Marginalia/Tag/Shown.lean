import Marginalia.Number.Shortest
import Marginalia.Tag.Basic

/-!
# The value a literal shows

`Tag.shown` reads a literal for the form element that a tag asks for.  Strings lose their quotation
marks, but not their escapes, so that what is shown and handed in unchanged is written unchanged; a
list shows its elements one by one; a toggle shows `1` or `0`, whatever it is written with.

Most form elements exchange one text; check boxes and ranges exchange a list of texts (`Value`).
Each way in which a literal cannot be read or written is one `Fault`, with its wording in
`Fault.message` alone.
-/

set_option autoImplicit false
namespace Marginalia

/-! ## Values and faults -/

/-- What a form element shows or hands in. -/
inductive Value where
  | text (content : Text)
  | items (contents : List Text)
  deriving DecidableEq, Repr

namespace Value

/-- The text of a single value. -/
def text? : Value → Option Text
  | text content => some content
  | items _ => none

/-- The texts of a list of values. -/
def items? : Value → Option (List Text)
  | text _ => none
  | items contents => some contents

end Value

/-- The reason why a mark is passed over or a value is refused. -/
inductive Fault where
  /-- No mark has the requested hash. -/
  | hashNotFound
  /-- The mark names the users who may see it, and this one is not among them. -/
  | accessDenied
  /-- No line with text follows the mark. -/
  | missingConfigLine
  /-- The line below the mark holds no literal. -/
  | malformedLine
  /-- The tag does not accept this kind of literal. -/
  | illegalLiteral (tag : Tag) (found : LiteralKind)
  /-- The value has no form as this literal. -/
  | unsupportedValue (tag : Tag)
  deriving DecidableEq, Repr

namespace Fault

/-- The word for a fault. -/
def kind : Fault → Text
  | hashNotFound => "hashNotFound".toList
  | accessDenied => "accessDenied".toList
  | missingConfigLine => "missingConfigLine".toList
  | malformedLine => "malformedLine".toList
  | illegalLiteral .. => "illegalLiteral".toList
  | unsupportedValue _ => "unsupportedValue".toList

/-- The sentence that reports a fault. -/
def message : Fault → Text
  | hashNotFound => "no directive carries this hash".toList
  | accessDenied => "current user is not in the access list".toList
  | missingConfigLine => "directive is not followed by a config line".toList
  | malformedLine => "config line has no recognizable literal".toList
  | illegalLiteral tag found =>
    "@".toList ++ tag.name ++ " cannot govern a ".toList ++ found.name ++ " literal".toList
  | unsupportedValue tag =>
    "value cannot be written into this @".toList ++ tag.name ++ " literal".toList

end Fault

/-! ## Reading a literal -/

namespace Tag

/-- The kind of a literal, if the tag accepts it. -/
def checkedKind (tag : Tag) (literal : Text) : Except Fault LiteralKind :=
  let found := LiteralKind.of literal
  if tag.accepts found then .ok found else .error (.illegalLiteral tag found)

theorem checkedKind_eq_ok_iff {tag : Tag} {literal : Text} {k : LiteralKind} :
    tag.checkedKind literal = .ok k ↔ LiteralKind.of literal = k ∧ tag.accepts k = true := by
  unfold checkedKind
  by_cases h : tag.accepts (LiteralKind.of literal) = true
  · simp only [h, if_true, Except.ok.injEq]
    constructor
    · rintro rfl; exact ⟨rfl, h⟩
    · exact fun hk => hk.1
  · simp only [h]
    constructor
    · intro he; cases he
    · rintro ⟨rfl, hk⟩; exact absurd hk h

/-- What an element of a list shows: a string without its marks, anything else as it is. -/
def shownElement (element : Text) : Text :=
  if LiteralKind.of element = .string then unquoted element else element

/-- Whether a toggle with this text is on. -/
def isOn (t : Text) : Bool := t = "true".toList || Number.isOne t

/-- What a literal of a known kind shows before the tag is taken into account. -/
def plainValue (kind : LiteralKind) (literal : Text) : Value :=
  match kind with
  | .string => .text (unquoted literal)
  | .array => .items ((Literal.elements literal).map shownElement)
  | _ => .text literal

/-- What a value shows in the form element of a tag. -/
def present : Tag → Value → Value
  | toggle, .text t => .text (if isOn t then ['1'] else ['0'])
  | _, v => v

/-- The value a literal shows and the kind of the literal. -/
def shown (tag : Tag) (literal : Text) : Except Fault (Value × LiteralKind) :=
  match tag.checkedKind literal with
  | .ok kind => .ok (tag.present (plainValue kind literal), kind)
  | .error fault => .error fault

end Tag
end Marginalia
