import Marginalia.Disk.Basic
import Marginalia.Search.Wildcard

/-!
# Expanding wildcards in paths

A path with wildcards stands for all the paths on a disk that fit it, name by name.  A name without
wildcards is not looked for in a folder but followed as it is, so it may also be `.` or `..`; a `**`
goes through folders of any depth; and a slash at the end asks for folders.

A pattern whose brackets or stars make no sense stands for nothing.
-/

set_option autoImplicit false
namespace Marginalia
namespace Expansion

/-! ## Patterns -/

/-- The characters that make a path a pattern. -/
def isWild (t : Text) : Bool := t.any fun c => c = '*' || c = '?' || c = '['

/-- What a pattern asks of one name. -/
inductive Step where
  /-- This very name. -/
  | exactly (name : Text)
  /-- A name that fits. -/
  | fitting (pieces : List Piece)
  /-- Any folders inside one another. -/
  | anyFolders
  deriving DecidableEq, Repr

/-- The ranges that the characters between brackets list: those with a dash between them as a range,
the others one by one. -/
def rangesOf : Text → List (Nat × Nat)
  | a :: '-' :: b :: r => (a.toNat, b.toNat) :: rangesOf r
  | a :: r => (a.toNat, a.toNat) :: rangesOf r
  | [] => []

/-- The characters between brackets, behind the opening one: a closing bracket that stands first is
one of them. -/
def bracketed? : Text → Option (Text × Text)
  | [] => none
  | first :: r => (Text.cutAt? ']' r).map fun (inner, rest) => (first :: inner, rest)

/-- The pieces of one name of a pattern.  Each step uses up a character, so `fuel` may be the length
of the name. -/
def piecesOf? : Nat → Text → Option (List Piece)
  | _, [] => some []
  | 0, _ => none
  | fuel + 1, c :: r =>
    if c = '?' then (piecesOf? fuel r).map (.one :: ·)
    else if c = '*' then
      if r.head? = some '*' then none else (piecesOf? fuel r).map (.run :: ·)
    else if c = '[' then
      let negated := r.head? = some '!'
      match bracketed? (if negated then r.tail else r) with
      | none => none
      | some (inner, rest) => (piecesOf? fuel rest).map (.oneOf negated (rangesOf inner) :: ·)
    else (piecesOf? fuel r).map (.unit c.toNat :: ·)

/-- What one name of a pattern asks for. -/
def stepOf? (name : Text) : Option Step :=
  if name = ['*', '*'] then some .anyFolders
  else if isWild name then (piecesOf? name.length name).map .fitting
  else some (.exactly name)

/-- Steps of which no two in a row ask for any folders. -/
def collapsed : List Step → List Step
  | .anyFolders :: rest =>
    match collapsed rest with
    | .anyFolders :: more => .anyFolders :: more
    | more => .anyFolders :: more
  | s :: rest => s :: collapsed rest
  | [] => []

/-- A pattern: where it starts, the steps from there, and whether it asks for a folder. -/
structure Pattern where
  start : Path
  steps : List Step
  foldersOnly : Bool

/-- The names of a path, without the nothing behind its last slash. -/
def namesOf (t : Text) : List Text :=
  let names := t.splitOn '/'
  if names.getLast? = some [] then names.dropLast else names

/-- The pattern that a text writes. -/
def Pattern.ofText? (t : Text) : Option Pattern :=
  let absolute := t.head? = some '/'
  ((namesOf (if absolute then t.tail else t)).mapM stepOf?).map fun steps =>
    { start := ⟨if absolute then ['/'] else ['.']⟩
      steps := collapsed steps
      foldersOnly := t.getLast? = some '/' }

/-! ## Expansion -/

/-- The path of an entry, without the `.` that a search starts at. -/
def entryPath (p : Path) (name : Text) : Path := if p.isHere then ⟨name⟩ else p.join name

/-- The entries of a folder: their names and paths. -/
def entriesOf (d : Disk) (p : Path) : List (Text × Path) :=
  match d.entry? p with
  | some e => e.entries.map fun (name, _) => (name, entryPath p name)
  | none => []

mutual

/-- The paths of everything below an entry, with the last name of each. -/
def below (p : Path) : Entry → List (Text × Path)
  | .file .. => []
  | .folder es => belowAll p es

/-- The paths of the entries of a folder and of everything below them. -/
def belowAll (p : Path) : List (Text × Entry) → List (Text × Path)
  | [] => []
  | (name, e) :: rest =>
    (name, entryPath p name) :: below (entryPath p name) e ++ belowAll p rest

end

/-- The paths of everything below a folder of a disk. -/
def everythingBelow (d : Disk) (p : Path) : List (Text × Path) :=
  match d.entry? p with
  | some e => below p e
  | none => []

/-- Whether a name in a folder is what a step asks for. -/
def Step.fits (name : Text) : Step → Bool
  | exactly n => n == name
  | fitting pieces => Wildcard.covers pieces (name.map Char.toNat)
  | anyFolders => true

/-- The names `.` and `..`, as far as a step that begins with a dot fits them. -/
def dots (s : Step) : List Text :=
  match s with
  | .fitting (.unit u :: _) =>
    if u = '.'.toNat then [['.'], ['.', '.']].filter fun name => s.fits name else []
  | _ => []

/-- The paths that some steps lead to from a path. -/
def follow (d : Disk) : List Step → Path → List Path
  | [], p => [p]
  | .exactly name :: rest, p =>
    let next := entryPath p name
    let special := name = ['.'] ∨ name = ['.', '.']
    if (if special then d.isFolder p else d.isThere next) then follow d rest next else []
  | .anyFolders :: [], p => (everythingBelow d p).map Prod.snd |>.filter d.isFolder
  | .anyFolders :: s :: rest, p =>
    ((everythingBelow d p).filter fun (name, _) => s.fits name).flatMap fun (_, q) =>
      follow d rest q
  | s :: rest, p =>
    ((entriesOf d p).filter fun (name, _) => s.fits name).flatMap (fun (_, q) => follow d rest q) ++
      (if d.isFolder p then dots s else []).flatMap fun name => follow d rest (p.join name)

/-- The paths on a disk that a pattern stands for. -/
def expand (d : Disk) (t : Text) : List Path :=
  match Pattern.ofText? t with
  | none => []
  | some pattern =>
    (follow d pattern.steps pattern.start).filter fun p => !pattern.foldersOnly || d.isFolder p

end Expansion
end Marginalia
