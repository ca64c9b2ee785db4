import Marginalia.Tag.Shown

/-!
# The literal a value is written with

`Tag.written` turns a value that was handed in into a literal of the same shape as the one it
replaces: of the same kind, in the same quotation marks, and element by element of the kinds that
the list has.  A value that has no such form is refused, never written in another form.

The elements of a list find their models in one of two ways.  A list of the same length is matched
place by place; any other list takes all its elements after the first one.
-/

set_option autoImplicit false
namespace Marginalia
namespace Tag

/-- The word for a truth value. -/
def truth (on : Bool) : Text := if on then "true".toList else "false".toList

/-- The number a toggle hands in: the number a text begins with, or whether a list of boxes has a
checked one. -/
def switchReading : Value → Int
  | .text t => Number.Whole.leading t
  | .items boxes => if boxes.isEmpty then 0 else 1

/-- The quotation mark a literal is written with, double when it has none. -/
def quoteOf (literal : Text) : Quote := (Quote.around? literal).getD .double

/-! ## Elements of lists -/

/-- An item in the form of a model element; none when the model is no number, string or truth
value, or when the item is too large a number. -/
def coerced? (item model : Text) : Option Text :=
  match LiteralKind.of model with
  | .number => Number.normalized? item
  | .string => (Quote.around? model).map fun q => q.wrap item
  | .boolean => some (truth (item = "true".toList || Number.Whole.leading item = 1))
  | _ => none

/-- Each item with the element it takes its form from. -/
def withModels (models items : List Text) : List (Text × Option Text) :=
  if models.length = items.length then List.zip items (models.map some)
  else items.map fun item => (item, models.head?)

/-- The items in the form of their models; none when one of them has no such form. -/
def coercedItems? (models items : List Text) : Option (List Text) :=
  (withModels models items).mapM fun (item, model) => model.bind (coerced? (Text.trim item))

/-- A list literal in the form of another one. -/
def writtenItems (tag : Tag) (literal : Text) (items : List Text) : Except Fault Text :=
  match coercedItems? (Literal.elements literal) items with
  | some elements => .ok ('[' :: [','].intercalate elements ++ [']'])
  | none => .error (.unsupportedValue tag)

/-! ## Values -/

/-- The two bounds of a range written as one text with a single hyphen. -/
def bounds? (t : Text) : Option (List Text) :=
  match t.splitOn '-' with
  | [low, high] => some [low, high]
  | _ => none

/-- The items a value hands in for a list. -/
def itemsFor? : Tag → Value → Option (List Text)
  | _, .items contents => some contents
  | range, .text t => bounds? t
  | _, .text t => some [t]

/-- A text without its line breaks. -/
def flattened (t : Text) : Text := t.filter fun c => c ≠ '\r' && c ≠ '\n'

/-- The literal for a text handed in through a single form element. -/
def writtenText (tag : Tag) (kind : LiteralKind) (literal t : Text) : Except Fault Text :=
  match tag, kind with
  | input, .number =>
    match Number.normalized? t with
    | some number => .ok number
    | none => .error (.unsupportedValue tag)
  | textarea, _ => .ok ((quoteOf literal).wrap (flattened t))
  | date, _ | colorpicker, _ => .ok ((quoteOf literal).wrap t)
  | _, .number => .ok t
  | _, _ => .ok ((quoteOf literal).wrap t)

/-- The literal that stands for a value in the place of the given one. -/
def written (tag : Tag) (literal : Text) (value : Value) : Except Fault Text :=
  match tag.checkedKind literal with
  | .error fault => .error fault
  | .ok kind =>
    match tag with
    | toggle =>
      let reading := switchReading value
      match kind with
      | .boolean => .ok (truth (reading = 1))
      | .number => .ok (Number.Whole.toText reading)
      | _ => .ok ((quoteOf literal).wrap (Number.Whole.toText reading))
    | checkbox | range =>
      match tag.itemsFor? value with
      | some items => tag.writtenItems literal items
      | none => .error (.unsupportedValue tag)
    | _ =>
      match value with
      | .text t => tag.writtenText kind literal t
      | .items _ => .error (.unsupportedValue tag)

end Tag
end Marginalia
