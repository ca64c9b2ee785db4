import Marginalia.Command.Failure
import Marginalia.Json.Reader
import Marginalia.Json.Shapes

/-!
# Preferences

A file in the current folder may say who the user is and what commands do unless told otherwise.
Without the file nothing is preferred; a file that cannot be read or makes no sense is noted and
then treated as if it were not there.  It makes no sense if it has a field that nobody asks for, so
that a misspelled preference does not go unnoticed.  Instead of an object the file may hold a list,
which states the preferences in the order of their names.
-/

set_option autoImplicit false
namespace Marginalia

/-- What commands do unless told otherwise. -/
structure Preferences where
  /-- Who is asking. -/
  user : Option Text := none
  /-- Whether results are written back to the files. -/
  write : Bool := false
  /-- Whether forms are written with line breaks. -/
  pretty : Bool := false
  deriving DecidableEq, Repr

namespace Preferences

/-- Nothing is preferred. -/
def unset : Preferences := {}

/-- The fields of a file of preferences: where its shape is described, and the preferences. -/
def fieldNames : List Text :=
  ["$schema".toList, "user".toList, "write".toList, "pretty".toList]

/-- A truth value that may be absent. -/
def flag? : Option Json → Option Bool
  | none => some false
  | some (.bool b) => some b
  | some _ => none

/-- The preferences that an object or a list states. -/
def ofJson? (j : Json) : Option Preferences := do
  let fields ← Json.record? fieldNames j
  if fields.any fun field => !fieldNames.contains field.1 then none
  let _ ← (Json.optional? fields "$schema".toList).bind (Json.nullable? Json.text?)
  let user ← (Json.optional? fields "user".toList).bind (Json.nullable? Json.text?)
  let write ← (Json.optional? fields "write".toList).bind flag?
  let pretty ← (Json.optional? fields "pretty".toList).bind flag?
  return { user, write, pretty }

/-- The file of preferences. -/
def path : Path := ⟨"sigil.config.json".toList⟩

/-- The preferences on a disk, and what is noted about them. -/
def ofDisk (d : Disk) : Preferences × List Note :=
  if d.isThere path then
    match d.read path with
    | .error fault => (unset, [.unreadablePreferences fault])
    | .ok t =>
      match (Json.read? t).bind ofJson? with
      | none => (unset, [.invalidPreferences])
      | some preferences => (preferences, [])
  else (unset, [])

end Preferences
end Marginalia
