import Marginalia.Setting.Basic
import Marginalia.Source.Placed
import Marginalia.Tag.Shown

/-!
# The form that a source describes

Each mark that a user may see, and whose literal the tag accepts, is one control of the form; the
others are passed over (`Placed.control` says why).  Controls are shown in groups: a group stands
where its first control does, the controls inside keep their order, and those without a group come
last, in a group without a name.
-/

set_option autoImplicit false
namespace Marginalia

/-- One element of a form. -/
structure Control where
  tag : Tag
  /-- The address under which a new value is handed in. -/
  hash : Option Text
  attributes : Attributes
  /-- The value it shows. -/
  value : Value
  /-- The kind of the literal behind it. -/
  kind : LiteralKind
  deriving DecidableEq, Repr

/-- The controls of one group. -/
structure Group where
  name : Text
  controls : List Control
  deriving DecidableEq, Repr

/-- A form: its groups in order. -/
structure Form where
  groups : List Group
  deriving DecidableEq, Repr

/-! ## From marks to controls -/

/-- The setting that a mark governs, for a user: access comes first, then the line, then what is on
it. -/
def Mark.setting (m : Mark) (user : Option Text) (content? : Option Text) : Except Fault Setting :=
  if m.attributes.visibleTo user then
    match content? with
    | none => .error .missingConfigLine
    | some content =>
      match Setting.of? content with
      | none => .error .malformedLine
      | some s => .ok s
  else .error .accessDenied

/-- The control that a mark stands for. -/
def Mark.control (m : Mark) (user : Option Text) (content? : Option Text) : Except Fault Control :=
  (m.setting user content?).bind fun s =>
    (m.tag.shown s.literal).map fun (value, kind) =>
      { tag := m.tag, hash := m.hash?, attributes := m.attributes, value, kind }

/-- The control that a mark in its place stands for. -/
def Placed.control (user : Option Text) (p : Placed) : Except Fault Control :=
  p.mark.control user p.content?

/-! ## Grouping -/

namespace Control

/-- The group a control belongs to. -/
def group? (c : Control) : Option Text := c.attributes.group?

end Control

namespace Form

/-- Some groups with one more control in the group of that name. -/
def addTo (name : Text) (c : Control) : List Group → List Group
  | [] => [⟨name, [c]⟩]
  | g :: rest =>
    if g.name = name then ⟨g.name, g.controls ++ [c]⟩ :: rest else g :: addTo name c rest

/-- The groups that have a name, in the order of their first controls. -/
def namedGroups (controls : List Control) : List Group :=
  controls.foldl (fun groups c =>
    match c.group? with
    | some name => addTo name c groups
    | none => groups) []

/-- A form with these controls. -/
def ofControls (controls : List Control) : Form :=
  let rest := controls.filter fun c => c.group?.isNone
  ⟨namedGroups controls ++ if rest.isEmpty then [] else [⟨[], rest⟩]⟩

/-- The controls of a form, group by group. -/
def controls (f : Form) : List Control := f.groups.flatMap Group.controls

/-- Whether a form has nothing to show. -/
def isEmpty (f : Form) : Bool := f.groups.isEmpty

/-- The group of a name. -/
def group? (f : Form) (name : Text) : Option Group := f.groups.find? fun g => g.name = name

end Form

/-- The controls that a user sees in a source, in the order of their marks. -/
def visibleControls (source : Text) (user : Option Text) : List Control :=
  (Placed.ofText source).filterMap fun p => (p.control user).toOption

/-- The form that a source describes for a user. -/
def form (source : Text) (user : Option Text) : Form :=
  Form.ofControls (visibleControls source user)

/-- The marks of a source that are no control for a user, and why. -/
def passedOver (source : Text) (user : Option Text) : List (Placed × Fault) :=
  (Placed.ofText source).filterMap fun p =>
    match p.control user with
    | .ok _ => none
    | .error fault => some (p, fault)

end Marginalia
