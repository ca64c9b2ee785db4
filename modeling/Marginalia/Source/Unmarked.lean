import Marginalia.Source.Placed

/-!
# A source without its marks

Removing the marks removes whole lines, those that carry a mark, with their endings.  Code in front
of a mark goes with it.
-/

set_option autoImplicit false
namespace Marginalia

/-- Whether a line carries a mark. -/
def Line.isMarked (l : Line) : Bool := (Mark.find? l.content).isSome

/-- A source without the lines that carry a mark. -/
def unmarked (source : Text) : Text :=
  Line.joined ((Line.ofText source).filter fun l => !l.isMarked)

end Marginalia
