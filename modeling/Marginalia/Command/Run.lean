import Marginalia.Command.Arguments
import Marginalia.Command.Batch
import Marginalia.Command.Preferences
import Marginalia.Digest.Identifier
import Marginalia.Json.Writer
import Marginalia.Search.Survey
import Marginalia.Source.Unmarked

/-!
# Running the tool

`run` answers a command line: what is written to standard output and standard error, the exit code,
what is noted, and the disk afterwards.  It is a function of the command line, of the disk, of what
comes in on standard input, and of the entropy that new identifiers are made from.

A command line that makes no sense exits with 2, a command that fails with 1.

Values for a form come from a file, an object that has them under their hashes, and from assignments
on the command line, each of which is text.  An assignment takes the place of what was there for its
hash, so of several the last one counts.
-/

set_option autoImplicit false
namespace Marginalia

/-- What a run of the tool comes to. -/
structure Outcome where
  exit : Nat
  out : Text
  err : Text
  notes : List Note
  /-- The disk afterwards. -/
  disk : Disk

/-- What surrounds a run of the tool. -/
structure Surroundings where
  disk : Disk
  /-- What comes in on standard input. -/
  input : ByteArray
  entropy : Entropy

namespace Outcome

/-- An outcome that leaves the disk alone. -/
def leaving (d : Disk) (out : Text) (notes : List Note) : Outcome :=
  { exit := 0, out, err := [], notes, disk := d }

/-- An outcome after a failure, if there is one. -/
def failingWith (o : Outcome) : Option Failure → Outcome
  | none => o
  | some failure =>
    { o with exit := 1, err := o.err ++ "Error: ".toList ++ failure.message ++ ['\n'] }

/-- The outcome of something that fails before it does anything. -/
def failed (d : Disk) (notes : List Note) (failure : Failure) : Outcome :=
  (leaving d [] notes).failingWith (some failure)

end Outcome

/-! ## Values for a form -/

namespace Entries

/-- The entries that a file of values states. -/
def ofFile (p : Path) (content : Except DiskFault Text) : Except Failure Entries :=
  match content with
  | .error fault => .error (.unreadable p fault)
  | .ok t =>
    match (Json.read? t).bind Json.entries? with
    | none => .error (.invalidValues p)
    | some entries => .ok entries

/-- The entries with one more assignment, cut at its first equals sign. -/
def assign (entries : Entries) (assignment : Text) : Except Failure Entries :=
  match Text.cutAt? '=' assignment with
  | some (hash, value) =>
    if hash = [] then .error (.notAnAssignment assignment)
    else .ok (Keyed.set hash (.text value) entries)
  | none => .error (.notAnAssignment assignment)

end Entries

/-- How many of some entries are said to have been written. -/
def Filled.writtenCount (f : Filled) (entries : Entries) : Nat :=
  entries.length - f.refusals.length

/-- The lines about values that were not written. -/
def Filled.complaints (f : Filled) : Text :=
  f.refusals.flatMap fun r =>
    "  ".toList ++ r.hash ++ ": ".toList ++ r.fault.message ++ ['\n']

/-- The failure of filling in a form as a whole. -/
def Filled.failure? (f : Filled) : Option Failure :=
  if f.refusals = [] then none else some (.refused f.refusals.length)

namespace Command

/-! ## Scripts -/

/-- The scripts that some patterns stand for, unless there are none. -/
def scripts (expand walk : Text → List Path) (patterns : List Text) : Except Failure (List Path) :=
  match survey expand walk patterns with
  | [] => .error (.noScripts patterns)
  | paths => .ok paths

/-- The scripts on a disk that some patterns stand for. -/
def scriptsOn (d : Disk) (patterns : List Text) : Except Failure (List Path) :=
  scripts (Expansion.expand d) (fun pattern => Walk.visited d ⟨pattern⟩) patterns

/-! ## Describing -/

/-- The form of a script under its path. -/
def report (p : Path) (f : Form) : Json :=
  Json.ofFields [("file".toList, Json.ofText p.spelled),
    ("groups".toList, .array (f.groups.map Json.ofGroup))]

/-- What is noted about the marks of a script. -/
def notesOn (p : Path) (source : Text) (user : Option Text) : List Note :=
  ((passedOver source user).map fun (m, fault) => Note.passedOver m.mark.tag m.start fault) ++
    [.described p (form source user).controls.length]

/-- The scripts among some files with their texts, up to the first that cannot be read. -/
def readAll (d : Disk) : List Path → List (Path × Text) × Option Failure
  | [] => ([], none)
  | p :: rest =>
    match d.read p with
    | .error fault => ([], some (.unreadable p fault))
    | .ok source =>
      let (sources, failure?) := readAll d rest
      ((p, source) :: sources, failure?)

/-- Writes out the forms of some scripts. -/
def describe (d : Disk) (patterns : List Text) (user : Option Text) (pretty : Bool) : Outcome :=
  match scriptsOn d patterns with
  | .error failure => .failed d [] failure
  | .ok paths =>
    let (sources, failure?) := readAll d paths
    let notes := sources.flatMap fun (p, source) => notesOn p source user
    match failure? with
    | some failure => .failed d notes failure
    | none =>
      let j : Json := .array (sources.map fun (p, source) => report p (form source user))
      .leaving d ((if pretty then j.pretty else j.compact) ++ ['\n']) notes

/-! ## Revising -/

/-- The disk after all that a batch wrote. -/
def afterWriting (d : Disk) (files : List Handled) : Disk :=
  files.foldl (fun d h =>
    match h.written with
    | some output => (d.write h.path output).toOption.getD d
    | none => d) d

/-- Revises some scripts. -/
def revise (d : Disk) (patterns : List Text) (writes : Bool) (verb : Text)
    (revising : Nat → Text → Text) : Outcome :=
  match scriptsOn d patterns with
  | .error failure => .failed d [] failure
  | .ok paths =>
    let batch : Batch :=
      { read := d.read
        write := fun p t => (d.write p t).map fun _ => ()
        writes, revise := revising, verb }
    let files := batch.run paths
    let outcome : Outcome :=
      { exit := 0, out := batch.out files, err := batch.err files, notes := batch.notes files
        disk := afterWriting d files }
    outcome.failingWith (Batch.failure? files)

/-! ## Filling in -/

/-- The entries for a form, from a file or from standard input and from assignments. -/
def entries (s : Surroundings) (values : Option Path) (assignments : List Text) :
    Except Failure Entries := do
  let start ←
    match values with
    | none => .ok []
    | some p =>
      Entries.ofFile p (if p.spelled = ['-'] then Disk.textOfBytes s.input else s.disk.read p)
  assignments.foldlM Entries.assign start

/-- What a form comes to after it is filled in. -/
def filledOutcome (d : Disk) (file : Path) (source : Text) (values : Entries) (user : Option Text)
    (writes : Bool) : Outcome :=
  let f := fill source values user
  let notes := f.refusals.map Note.refused
  if writes then
    match (if f.content = source then .ok d else d.write file f.content) with
    | .error fault => .failed d notes (.unwritable file fault)
    | .ok after =>
      let line := "Set ".toList ++ countText (f.writtenCount values) ++ " value(s) in ".toList ++
        file.spelled ++ ['\n']
      let outcome : Outcome :=
        { exit := 0, out := [], err := line ++ f.complaints, notes, disk := after }
      outcome.failingWith f.failure?
  else
    let outcome : Outcome := { exit := 0, out := f.content, err := f.complaints, notes, disk := d }
    outcome.failingWith f.failure?

/-- Fills in the form of a script. -/
def fillIn (s : Surroundings) (file : Path) (values : Option Path) (assignments : List Text)
    (user : Option Text) (writes : Bool) : Outcome :=
  match entries s values assignments with
  | .error failure => .failed s.disk [] failure
  | .ok values =>
    match s.disk.read file with
    | .error fault => .failed s.disk [] (.unreadable file fault)
    | .ok source => filledOutcome s.disk file source values user writes

/-! ## Tasks -/

/-- Does what a task asks for.  What the command line leaves open is as preferred. -/
def perform (s : Surroundings) (preferences : Preferences) : Task → Outcome
  | .describe patterns user pretty =>
    describe s.disk patterns (user <|> preferences.user) (pretty || preferences.pretty)
  | .address patterns write =>
    revise s.disk patterns (write || preferences.write) "hashed".toList fun place source =>
      addressed ((s.entropy.part place).mint 0) source
  | .fill file values assignments user write =>
    fillIn s file values assignments (user <|> preferences.user) (write || preferences.write)
  | .unmark patterns write =>
    revise s.disk patterns (write || preferences.write) "stripped".toList fun _ source =>
      unmarked source

/-- Does what a request asks for. -/
def runRequest (s : Surroundings) (r : Request) : Outcome :=
  let (preferences, noted) := Preferences.ofDisk s.disk
  let outcome := perform s preferences r.task
  { outcome with notes := (noted ++ outcome.notes).filter fun n => r.verbose || n.isWarning }

/-- What the tool is called, and which version of it this is. -/
def versionText : Text := "sigil 0.3.0\n".toList

/-- How to use the tool. -/
def usageText : Text :=
  ("Usage: sigil [--verbose] COMMAND\n\n" ++
    "  parse PATTERN... [-u USER] [--pretty]\n" ++
    "  hash PATTERN... [-w]\n" ++
    "  set FILE [--values FILE] [-s HASH=VALUE]... [-u USER] [-w]\n" ++
    "  strip PATTERN... [-w]\n").toList

/-- Answers a command line. -/
def run (s : Surroundings) (words : List Text) : Outcome :=
  match Request.ofArguments words with
  | .ok request => runRequest s request
  | .error .version => .leaving s.disk versionText []
  | .error .help => .leaving s.disk usageText []
  | .error .misuse => { exit := 2, out := [], err := usageText, notes := [], disk := s.disk }

end Command
end Marginalia
