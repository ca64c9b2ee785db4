import Marginalia.Form.Filled
import Marginalia.Json.Basic

/-!
# Forms and faults as JSON

Each kind of value has a pair of functions, one to the shape in which it is written and one from it.
Reading is generous about fields that it does not know and strict about those it does: a known field
must not be given twice, and it must be there unless it may be absent.  Whatever has fields may also
be given as a list of their values, in the order in which they are written (`record?`), and then
nothing may stand behind the last of them.  Attributes and entries have keys instead, so a list says
nothing about them.

A word that stands for one of several cases may be written as a string or as an object that has the
word as its only key and nothing under it.
-/

set_option autoImplicit false
namespace Marginalia
namespace Json

/-! ## Fields -/

/-- The value of a field that is given at most once; none inside when it is absent. -/
def optional? (fields : List (Text × Json)) (name : Text) : Option (Option Json) :=
  match fields.filter fun field => field.1 = name with
  | [] => some none
  | [(_, j)] => some (some j)
  | _ => none

/-- The value of a field that is given exactly once. -/
def required? (fields : List (Text × Json)) (name : Text) : Option Json :=
  (optional? fields name).join

/-- A word: a string, or the only key of an object with nothing under it. -/
def word? (nothing : Json → Bool) : Json → Option Text
  | string body => unescape? body
  | object [(key, j)] => if nothing j then unescape? key else none
  | _ => none

/-- Whether a value is `null`. -/
def isNull : Json → Bool
  | null => true
  | _ => false

/-- Whether a value is `null` or an object without fields. -/
def isNullOrEmpty : Json → Bool
  | null | object [] => true
  | _ => false

/-- An absent value, a `null`, or a value read as given. -/
def nullable? {α : Type} (read : Json → Option α) : Option Json → Option (Option α)
  | none | some null => some none
  | some j => (read j).map some

/-! ## Words -/

/-- A tag as its word. -/
def ofTag (t : Tag) : Json := ofText t.name

/-- The tag that a word names. -/
def tag? (j : Json) : Option Tag := (word? isNull j).bind Tag.ofName?

/-- A kind of literal as its word. -/
def ofKind (k : LiteralKind) : Json := ofText k.name

/-- The kind of literal that a word names. -/
def kind? (j : Json) : Option LiteralKind := (word? isNull j).bind LiteralKind.ofName?

/-! ## Values and attributes -/

/-- A value as a string or a list of strings. -/
def ofValue : Value → Json
  | .text t => ofText t
  | .items contents => array (contents.map ofText)

/-- The value that a string or a list of strings is. -/
def value : Json → Option Value
  | string body => (unescape? body).map .text
  | array items => (items.mapM text?).map .items
  | _ => none

/-- Attributes as an object. -/
def ofAttributes (a : Attributes) : Json := ofFields (a.pairs.map fun (key, v) => (key, ofText v))

/-- The attributes that an object of strings sets. -/
def attributes? (j : Json) : Option Attributes := do
  let fields ← fields? j
  let pairs ← fields.mapM fun (key, v) => (text? v).map fun t => (key, t)
  return ⟨Keyed.ofPairs pairs⟩

/-- The entries that an object of values sets. -/
def entries? (j : Json) : Option Entries := do
  let fields ← fields? j
  let pairs ← fields.mapM fun (key, v) => (value v).map fun x => (key, x)
  return Keyed.ofPairs pairs

/-! ## Forms -/

/-- A control; the hash is left out when there is none. -/
def ofControl (c : Control) : Json :=
  ofFields <|
    ("tag".toList, ofTag c.tag) ::
    (match c.hash with
      | some hash => [("hash".toList, ofText hash)]
      | none => []) ++
    [("attributes".toList, ofAttributes c.attributes), ("value".toList, ofValue c.value),
      ("jsType".toList, ofKind c.kind)]

/-- The names of the fields of a control. -/
def controlNames : List Text :=
  ["tag".toList, "hash".toList, "attributes".toList, "value".toList, "jsType".toList]

/-- The control that an object or a list describes. -/
def control? (j : Json) : Option Control := do
  let fields ← record? controlNames j
  let tag ← (required? fields "tag".toList).bind tag?
  let hash ← (optional? fields "hash".toList).bind (nullable? text?)
  let attributes ← (required? fields "attributes".toList).bind attributes?
  let value ← (required? fields "value".toList).bind value
  let kind ← (required? fields "jsType".toList).bind kind?
  return { tag, hash, attributes, value, kind }

/-- A group of controls. -/
def ofGroup (g : Group) : Json :=
  ofFields [("name".toList, ofText g.name), ("controls".toList, array (g.controls.map ofControl))]

/-- The group that an object or a list describes. -/
def group? (j : Json) : Option Group := do
  let fields ← record? ["name".toList, "controls".toList] j
  let name ← (required? fields "name".toList).bind text?
  let controls ← (required? fields "controls".toList).bind (list? control?)
  return { name, controls }

/-- A form. -/
def ofForm (f : Form) : Json := ofFields [("groups".toList, array (f.groups.map ofGroup))]

/-- The form that an object or a list describes. -/
def form? (j : Json) : Option Form := do
  let fields ← record? ["groups".toList] j
  let groups ← (required? fields "groups".toList).bind (list? group?)
  return { groups }

/-! ## Faults and refusals -/

/-- A fault: its word under `kind`, and what it is about. -/
def ofFault (f : Fault) : Json :=
  ofFields <|
    ("kind".toList, ofText f.kind) ::
    match f with
    | .illegalLiteral tag found => [("tag".toList, ofTag tag), ("found".toList, ofKind found)]
    | .unsupportedValue tag => [("tag".toList, ofTag tag)]
    | _ => []

/-- The names of the fields that a fault of a kind has besides. -/
def detailNames (kind : Text) : List Text :=
  if kind = (Fault.illegalLiteral .toggle .unknown).kind then ["tag".toList, "found".toList]
  else if kind = (Fault.unsupportedValue .toggle).kind then ["tag".toList]
  else []

/-- The fields of a fault.  Which ones a list holds is known from its first item, the kind. -/
def faultFields? : Json → Option (List (Text × Json))
  | array (kind :: details) =>
    (text? kind).bind fun k => record? ("kind".toList :: detailNames k) (array (kind :: details))
  | j => fields? j

/-- The fault of a kind, given its other fields. -/
def faultOfKind? (kind : Text) (fields : List (Text × Json)) : Option Fault :=
  let tag : Option Tag :=
    (required? fields "tag".toList).bind fun j => (word? isNullOrEmpty j).bind Tag.ofName?
  let found : Option LiteralKind :=
    (required? fields "found".toList).bind fun j =>
      (word? isNullOrEmpty j).bind LiteralKind.ofName?
  if kind = Fault.hashNotFound.kind then some .hashNotFound
  else if kind = Fault.accessDenied.kind then some .accessDenied
  else if kind = Fault.missingConfigLine.kind then some .missingConfigLine
  else if kind = Fault.malformedLine.kind then some .malformedLine
  else if kind = (Fault.illegalLiteral .toggle .unknown).kind then
    tag.bind fun t => found.map fun k => .illegalLiteral t k
  else if kind = (Fault.unsupportedValue .toggle).kind then tag.map .unsupportedValue
  else none

/-- The fault that an object or a list describes.  The kind may stand behind other fields, so those
have to be stored until it is known, and must be values that can be. -/
def fault? (around : Nat) (j : Json) : Option Fault := do
  let fields ← faultFields? j
  let kind ← (required? fields "kind".toList).bind text?
  let others := fields.filter fun field => field.1 ≠ "kind".toList
  if others.all fun field => field.2.isStorable (around + 1) then faultOfKind? kind others else none

/-- A refusal. -/
def ofRefusal (r : Refusal) : Json :=
  ofFields [("hash".toList, ofText r.hash), ("reason".toList, ofFault r.fault)]

/-- The refusal that an object or a list describes. -/
def refusal? (around : Nat) (j : Json) : Option Refusal := do
  let fields ← record? ["hash".toList, "reason".toList] j
  let hash ← (required? fields "hash".toList).bind text?
  let fault ← (required? fields "reason".toList).bind (fault? (around + 1))
  return { hash, fault }

/-- A source with values filled in. -/
def ofFilled (f : Filled) : Json :=
  ofFields [("content".toList, ofText f.content),
    ("failures".toList, array (f.refusals.map ofRefusal))]

/-- The filled source that an object or a list describes. -/
def filled? (j : Json) : Option Filled := do
  let fields ← record? ["content".toList, "failures".toList] j
  let content ← (required? fields "content".toList).bind text?
  let refusals ← (required? fields "failures".toList).bind (list? (refusal? 2))
  return { content, refusals }

end Json
end Marginalia
