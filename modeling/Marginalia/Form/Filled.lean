import Marginalia.Form.Basic
import Marginalia.Tag.Written

/-!
# Filling in a form

Values are handed in under the hashes of the controls they are meant for.  `fill` writes each of
them into the literals that its hash addresses and leaves every other character of the source as it
was.  A value that a literal shows already leaves the literal as it is written, so handing in an
unchanged form changes nothing, whatever the spelling of the literals.

Nothing is lost silently: a mark whose literal cannot be written and a hash that no mark carries are
each reported as a refusal, the former in the order of the marks, the latter behind them in the
order of the hashes.
-/

set_option autoImplicit false
namespace Marginalia

/-- A value that was not written, and why. -/
structure Refusal where
  hash : Text
  fault : Fault
  deriving DecidableEq, Repr

/-- A source with values filled in. -/
structure Filled where
  content : Text
  refusals : List Refusal
  deriving DecidableEq, Repr

/-- Values under the hashes they are handed in with. -/
abbrev Entries := Keyed Value

/-- The value handed in for a mark, with its hash. -/
def Mark.request? (m : Mark) (entries : Entries) : Option (Text × Value) :=
  m.hash?.bind fun hash => (entries.get? hash).map fun value => (hash, value)

/-- The literal of a setting after a value is handed in: the same if it shows that value already. -/
def Tag.refilled (tag : Tag) (literal : Text) (value : Value) : Except Fault Text :=
  (tag.shown literal).bind fun (current, _) =>
    if current = value then .ok literal else tag.written literal value

/-- The line that a mark governs after a value is handed in. -/
def Mark.refilled (m : Mark) (user : Option Text) (content? : Option Text) (value : Value) :
    Except Fault Text :=
  (m.setting user content?).bind fun s =>
    (m.tag.refilled s.literal value).map s.withLiteral

/-- A line after filling in, together with the mark that governs it. -/
def filledLine (entries : Entries) (user : Option Text) : Option Mark × Line → Text
  | (none, l) => l.toText
  | (some m, l) =>
    match m.request? entries with
    | none => l.toText
    | some (_, value) =>
      match m.refilled user (some l.content) value with
      | .ok content => content ++ l.ending.toText
      | .error _ => l.toText

/-- The source after filling in. -/
def filledContent (source : Text) (entries : Entries) (user : Option Text) : Text :=
  (governors none (Line.ofText source)).flatMap (filledLine entries user)

/-- The refusal of a value by a mark that carries its hash. -/
def Placed.refusal? (entries : Entries) (user : Option Text) (p : Placed) : Option Refusal :=
  (p.mark.request? entries).bind fun (hash, value) =>
    match p.mark.refilled user p.content? value with
    | .ok _ => none
    | .error fault => some ⟨hash, fault⟩

/-- The hashes among the entries that no mark of the source carries, in order. -/
def unknownHashes (source : Text) (entries : Entries) : List Text :=
  let known := (Placed.ofText source).filterMap fun p => p.mark.hash?
  (entries.keys.filter fun hash => !known.contains hash).mergeSort Text.atMost

/-- A source with values filled in by a user. -/
def fill (source : Text) (entries : Entries) (user : Option Text) : Filled :=
  { content := filledContent source entries user
    refusals :=
      (Placed.ofText source).filterMap (Placed.refusal? entries user) ++
        (unknownHashes source entries).map fun hash => ⟨hash, .hashNotFound⟩ }

/-- The values that the controls of a form show, under their hashes. -/
def Form.entries (f : Form) : Entries :=
  Keyed.ofPairs (f.controls.filterMap fun c => c.hash.map fun hash => (hash, c.value))

end Marginalia
