import Marginalia.Disk.Path
import Marginalia.Text.Keyed

/-!
# Folders and files

A `Disk` is a tree of folders and files together with the folder that relative paths start from.
Reading and writing go through `locate`, which follows a path piece by piece: every piece, an empty
one and a `.` included, has to be looked up in a folder, so a slash behind the name of a file is
refused, and `..` leads to the folder around, from the root to the root.

Two things that may happen to a file that is written are left out here.  A write is taken to be all
or nothing: it replaces all bytes, or it fails and leaves the file as it was, and never breaks off
half-way.  And writing creates nothing: a path that leads nowhere is refused, so the names on a disk
never change.  All that is written has been read before, so the latter makes no difference as long
as nobody else takes files away in between.

A disk is built beforehand, by planting one entry after another (`Entry.plant`).
-/

set_option autoImplicit false
namespace Marginalia

/-- Why a file cannot be read or written. -/
inductive DiskFault where
  | notFound
  | denied
  | notAFolder
  | isAFolder
  /-- The bytes are no text. -/
  | notText
  deriving DecidableEq, Repr

/-- The words for a fault. -/
def DiskFault.message : DiskFault → Text
  | notFound => "No such file or directory (os error 2)".toList
  | denied => "Permission denied (os error 13)".toList
  | notAFolder => "Not a directory (os error 20)".toList
  | isAFolder => "Is a directory (os error 21)".toList
  | notText => "stream did not contain valid UTF-8".toList

/-- What a name in a folder stands for. -/
inductive Entry where
  /-- A file: its bytes, unless they may not be read, and whether they may be replaced. -/
  | file (bytes? : Option ByteArray) (writable : Bool)
  | folder (entries : List (Text × Entry))

/-- A tree of folders and the names that lead to the current one. -/
structure Disk where
  root : Entry
  here : List Text

namespace Entry

/-- The entries of a folder; none for a file. -/
def entries : Entry → List (Text × Entry)
  | folder es => es
  | file .. => []

/-- Whether an entry is a folder. -/
def isFolder : Entry → Bool
  | folder _ => true
  | file .. => false

/-- The entry of a name in a folder. -/
def child? (e : Entry) (name : Text) : Option Entry := e.entries.lookup name

/-- The entry that a list of names leads to. -/
def at? (e : Entry) (names : List Text) : Option Entry := names.foldlM child? e

/-- An entry with another one planted where a list of names leads; folders are made on the way. -/
def plant (e planted : Entry) : List Text → Entry
  | [] => planted
  | name :: rest =>
    let inner := (e.child? name).getD (folder [])
    folder (Keyed.set name (inner.plant planted rest) e.entries)

/-- An entry with other bytes in the file that a list of names leads to. -/
def replace (bytes : ByteArray) : List Text → Entry → Entry
  | [], file _ writable => file (some bytes) writable
  | name :: rest, folder es =>
    folder (es.map fun (n, e) => if n = name then (n, replace bytes rest e) else (n, e))
  | _, e => e

mutual

/-- The files below an entry, each with the names that lead to it, in order. -/
def files (names : List Text) : Entry → List (List Text × Option ByteArray)
  | file bytes? _ => [(names, bytes?)]
  | folder es => filesOfAll names es

/-- The files below the entries of a folder. -/
def filesOfAll (names : List Text) : List (Text × Entry) → List (List Text × Option ByteArray)
  | [] => []
  | (n, e) :: rest => files (names ++ [n]) e ++ filesOfAll names rest

end

end Entry

namespace Disk

/-! ## Following paths -/

/-- The names after one more piece of a path. -/
def enter (d : Disk) (names : List Text) (piece : Text) : Except DiskFault (List Text) :=
  match d.root.at? names with
  | some (.folder es) =>
    if piece = [] ∨ piece = ['.'] then .ok names
    else if piece = ['.', '.'] then .ok names.dropLast
    else if (es.lookup piece).isSome then .ok (names ++ [piece])
    else .error .notFound
  | some (.file ..) => .error .notAFolder
  | none => .error .notFound

/-- The names from the root that a path leads along. -/
def locate (d : Disk) (p : Path) : Except DiskFault (List Text) :=
  if p.spelled = [] then .error .notFound
  else
    match p.pieces with
    | [] :: rest => rest.foldlM d.enter []
    | pieces => pieces.foldlM d.enter d.here

/-- The entry that a path leads to. -/
def entry? (d : Disk) (p : Path) : Option Entry := (d.locate p).toOption.bind d.root.at?

/-- Whether a path leads anywhere. -/
def isThere (d : Disk) (p : Path) : Bool := (d.entry? p).isSome

/-- Whether a path leads to a folder. -/
def isFolder (d : Disk) (p : Path) : Bool :=
  match d.entry? p with
  | some e => e.isFolder
  | none => false

/-! ## Reading and writing -/

/-- The text that some bytes encode. -/
def textOfBytes (bytes : ByteArray) : Except DiskFault Text :=
  match String.fromUTF8? bytes with
  | some s => .ok s.toList
  | none => .error .notText

/-- The bytes that encode a text. -/
def bytesOfText (t : Text) : ByteArray := (String.ofList t).toUTF8

/-- The text of a file. -/
def read (d : Disk) (p : Path) : Except DiskFault Text := do
  match d.root.at? (← d.locate p) with
  | some (.file (some bytes) _) => textOfBytes bytes
  | some (.file none _) => .error .denied
  | some (.folder _) => .error .isAFolder
  | none => .error .notFound

/-- The disk with another text in a file, all of it or none; a file that is not there is not made. -/
def write (d : Disk) (p : Path) (t : Text) : Except DiskFault Disk := do
  let names ← d.locate p
  match d.root.at? names with
  | some (.file _ true) => .ok { d with root := d.root.replace (bytesOfText t) names }
  | some (.file _ false) => .error .denied
  | some (.folder _) => .error .isAFolder
  | none => .error .notFound

/-- The files whose bytes differ from those before, with the names that lead to them. -/
def changes (before after : Disk) : List (List Text × ByteArray) :=
  (after.root.files []).filterMap fun (names, bytes?) =>
    bytes?.bind fun bytes =>
      match before.root.at? names with
      | some (.file (some old) _) => if old == bytes then none else some (names, bytes)
      | _ => some (names, bytes)

end Disk
end Marginalia
