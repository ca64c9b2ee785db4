import Marginalia.Literal.Kind

/-!
# Tags and the literals they may govern

A tag names the form element through which a literal is shown.  Which kinds of literals a tag
accepts is one table, `Tag.kinds`; no tag accepts an `unknown` literal.
-/

set_option autoImplicit false
namespace Marginalia

/-- The form element a mark asks for. -/
inductive Tag where
  | toggle
  | radio
  | checkbox
  | select
  | input
  | textarea
  | date
  | range
  | step
  | colorpicker
  deriving DecidableEq, Repr

namespace Tag

/-- Every tag, in the order in which they are listed. -/
def all : List Tag :=
  [toggle, radio, checkbox, select, input, textarea, date, range, step, colorpicker]

/-- The word for a tag, as it is written behind the at sign. -/
def name : Tag → Text
  | toggle => "toggle".toList
  | radio => "radio".toList
  | checkbox => "checkbox".toList
  | select => "select".toList
  | input => "input".toList
  | textarea => "textarea".toList
  | date => "date".toList
  | range => "range".toList
  | step => "step".toList
  | colorpicker => "colorpicker".toList

theorem mem_all (t : Tag) : t ∈ all := by cases t <;> decide

/-- The tag a word names. -/
def ofName? (word : Text) : Option Tag := all.find? fun t => t.name = word

@[simp] theorem ofName?_name (t : Tag) : ofName? t.name = some t := by cases t <;> decide

/-- The kinds of literals a tag may govern. -/
def kinds : Tag → List LiteralKind
  | toggle => [.boolean, .number, .string]
  | radio | select | input | step => [.number, .string]
  | checkbox | range => [.array]
  | textarea | date | colorpicker => [.string]

/-- Whether a literal of this kind may stand below a mark with this tag. -/
def accepts (t : Tag) (k : LiteralKind) : Bool := t.kinds.contains k

theorem accepts_unknown (t : Tag) : t.accepts .unknown = false := by cases t <;> rfl

/-- The kinds of literals a tag may govern, as a set of bits. -/
def kindBits (t : Tag) : Nat := (t.kinds.map LiteralKind.bit).foldl (· + ·) 0

end Tag
end Marginalia
