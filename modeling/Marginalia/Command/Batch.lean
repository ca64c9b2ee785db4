import Marginalia.Command.Failure

/-!
# Revising several files

A batch reads each file of a list, revises its text and, if asked to, writes back the texts that
have changed.  Each file is handled on its own: a file that cannot be read or written is reported
and leaves the others alone.  So the files fall into three kinds — those that failed, those that
changed and those that did not — and the report counts each of them once.

What reading and writing a file comes to is given as two functions, and the revising as a third,
which also knows the place of the file in the list.
-/

set_option autoImplicit false
namespace Marginalia

/-- What became of one file of a batch. -/
structure Handled where
  path : Path
  /-- The text that was to be written back, if any. -/
  written : Option Text
  /-- The revised text and whether it differs from what was read; or what went wrong. -/
  result : Except Failure (Text × Bool)

namespace Handled

/-- Whether the file failed. -/
def hasFailed (h : Handled) : Bool :=
  match h.result with
  | .error _ => true
  | .ok _ => false

/-- Whether the file was handled and its text changes. -/
def hasChanged (h : Handled) : Bool :=
  match h.result with
  | .error _ => false
  | .ok (_, changed) => changed

end Handled

/-- A way to revise files. -/
structure Batch where
  /-- What reading a file yields. -/
  read : Path → Except DiskFault Text
  /-- What writing a text to a file comes to. -/
  write : Path → Text → Except DiskFault Unit
  /-- Whether changes are written back. -/
  writes : Bool
  /-- What the texts become; the number is the place of the file in the list. -/
  revise : Nat → Text → Text
  /-- What is said to have been done to a file that changes. -/
  verb : Text

namespace Batch

/-- Handles one file. -/
def handle (b : Batch) (place : Nat) (p : Path) : Handled :=
  match b.read p with
  | .error fault => ⟨p, none, .error (.unreadable p fault)⟩
  | .ok source =>
    let output := b.revise place source
    if output = source then ⟨p, none, .ok (output, false)⟩
    else if b.writes then
      match b.write p output with
      | .error fault => ⟨p, some output, .error (.unwritable p fault)⟩
      | .ok () => ⟨p, some output, .ok (output, true)⟩
    else ⟨p, none, .ok (output, true)⟩

/-- Handles the files of a list. -/
def run (b : Batch) (paths : List Path) : List Handled := paths.mapIdx b.handle

/-! ## The report -/

/-- How many files changed. -/
def changed (files : List Handled) : Nat := files.countP Handled.hasChanged

/-- How many files failed. -/
def failed (files : List Handled) : Nat := files.countP Handled.hasFailed

/-- How many files were handled and did not change. -/
def unchanged (files : List Handled) : Nat := files.length - changed files - failed files

/-- The revised texts, one after another. -/
def outputs (files : List Handled) : Text :=
  files.flatMap fun h =>
    match h.result with
    | .ok (output, _) => output
    | .error _ => []

/-- What is written to standard output. -/
def out (b : Batch) (files : List Handled) : Text := if b.writes then [] else outputs files

/-- The lines about files that failed. -/
def complaints (files : List Handled) : Text :=
  files.flatMap fun h =>
    match h.result with
    | .ok _ => []
    | .error failure =>
      "Error processing ".toList ++ h.path.spelled ++ ": ".toList ++ failure.message ++ ['\n']

/-- A line that counts files, unless there are none to count. -/
def countLine (count : Nat) (what : Text) : Text :=
  if count = 0 then [] else "  ".toList ++ countText count ++ " file(s) ".toList ++ what ++ ['\n']

/-- The lines that count the files. -/
def summary (b : Batch) (files : List Handled) : Text :=
  "Processed ".toList ++ countText files.length ++ " file(s)\n".toList ++
    countLine (changed files) b.verb ++ countLine (unchanged files) "unchanged".toList

/-- What is written to standard error. -/
def err (b : Batch) (files : List Handled) : Text :=
  complaints files ++ if b.writes then b.summary files else []

/-- What is noted about files that change. -/
def notes (b : Batch) (files : List Handled) : List Note :=
  (files.filter Handled.hasChanged).map fun h => .revised b.verb h.path

/-- The failure of the batch as a whole. -/
def failure? (files : List Handled) : Option Failure :=
  if failed files = 0 then none else some (.files (failed files))

end Batch
end Marginalia
