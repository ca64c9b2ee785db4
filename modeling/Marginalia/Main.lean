import Marginalia.Command.Run

/-!
# The tool

The program copies what the command line can reach from the file system into a `Disk`, lets
`Command.run` answer, and carries the answer out: it writes back the files that have changed, prints
the texts and exits with the code.  Everything else is decided by `Command.run`.
-/

set_option autoImplicit false
namespace Marginalia
namespace Tool

/-- Some names from the root as a path of the file system. -/
def spelling (names : List Text) : String :=
  "/" ++ "/".intercalate (names.map String.ofList)

/-- The bytes of a file, if they may be read. -/
def bytesAt (names : List Text) : IO (Option ByteArray) := do
  try
    return some (← IO.FS.readBinFile (spelling names))
  catch _ => return none

/-- Whether the bytes of a file may be replaced. -/
def isWritable (names : List Text) : IO Bool := do
  try
    let _ ← IO.FS.Handle.mk (spelling names) .append
    return true
  catch _ => return false

/-- A file. -/
def fileAt (names : List Text) : IO Entry := do
  return .file (← bytesAt names) (← isWritable names)

/-- What is at a place: a folder if `some true`, something else if `some false`. -/
def isFolderAt (names : List Text) : IO (Option Bool) := do
  try
    let found ← ((← IO.currentDir) / spelling names).metadata
    return some (found.type matches .dir)
  catch _ => return none

/-- Whether there is a link at a place. -/
def isLink (names : List Text) : IO Bool := do
  try
    let found ← ((← IO.currentDir) / spelling names).symlinkMetadata
    return found.type matches .symlink
  catch _ => return false

/-- The names in a folder. -/
def namesIn (names : List Text) : IO (List Text) := do
  try
    let found ← ((← IO.currentDir) / spelling names).readDir
    return found.toList.map fun e => e.fileName.toList
  catch _ => return []

/-- Whether the bytes of a file that was not named itself can matter. -/
def isOfInterest (name : Text) : Bool :=
  (Path.mk name).isScript || name = ".ignore".toList || name = ".gitignore".toList

/-- What a repository keeps about its files, as far as a search asks for it. -/
def repositoryAt (names : List Text) : IO Entry := do
  let path := ["info".toList, "exclude".toList]
  match ← isFolderAt (names ++ path) with
  | some false => return (Entry.folder []).plant (← fileAt (names ++ path)) path
  | _ => return .folder []

/-- A folder with everything below it; links to folders are not followed. -/
partial def folderAt (names : List Text) : IO Entry := do
  let mut entries := #[]
  for name in ← namesIn names do
    let inner := names ++ [name]
    if name = ".git".toList then
      entries := entries.push (name, ← repositoryAt inner)
    else
      match ← isFolderAt inner with
      | some true =>
        if ← isLink inner then entries := entries.push (name, .folder [])
        else entries := entries.push (name, ← folderAt inner)
      | some false =>
        if isOfInterest name then entries := entries.push (name, ← fileAt inner)
        else entries := entries.push (name, .file none false)
      | none => pure ()
  return .folder entries.toList

/-- The ignore files of a folder, planted in a tree. -/
def plantIgnores (names : List Text) (root : Entry) : IO Entry := do
  let mut root := root
  for name in [".ignore".toList, ".gitignore".toList] do
    if (← isFolderAt (names ++ [name])) = some false then
      root := root.plant (← fileAt (names ++ [name])) (names ++ [name])
  if (← isFolderAt (names ++ [".git".toList])).isSome then
    root := root.plant (← repositoryAt (names ++ [".git".toList])) (names ++ [".git".toList])
  return root

/-- A tree with what is at a place planted in it, and the ignore files around the place. -/
def plantPlace (root : Entry) (names : List Text) : IO Entry := do
  let mut root := root
  for depth in List.range names.length do
    root ← plantIgnores (names.take depth) root
  match ← isFolderAt names with
  | some true => return root.plant (← folderAt names) names
  | some false => return root.plant (← fileAt names) names
  | none => return root

/-- As much of the file system as some places need, seen from the current folder. -/
def diskFor (here : List Text) (places : List Path) : IO Disk := do
  let empty := (Entry.folder []).plant (.folder []) here
  let root ← (places.map (Path.namesFrom here)).foldlM plantPlace empty
  return { root, here }

/-- All bytes of a stream. -/
partial def readAll (stream : IO.FS.Stream) (seen : ByteArray) : IO ByteArray := do
  let more ← stream.read 65536
  if more.isEmpty then return seen else readAll stream (seen ++ more)

/-- The number that some bytes write, the lowest first. -/
def numberOf (bytes : ByteArray) : Nat := bytes.toList.foldr (fun b n => n * 256 + b.toNat) 0

/-- The entropy of this run. -/
def entropyNow : IO Entropy := do
  let seed ← IO.getRandomBytes 8
  let now ← IO.monoNanosNow
  return { nanoseconds := now, noise := fun k => (numberOf seed + k) % UInt64.size }

/-- Prints an outcome and writes back the files that have changed. -/
def carryOut (before : Disk) (o : Outcome) : IO UInt32 := do
  for (names, bytes) in before.changes o.disk do
    IO.FS.writeBinFile (spelling names) bytes
  for note in o.notes do
    IO.eprintln (String.ofList note.line)
  IO.print (String.ofList o.out)
  IO.eprint (String.ofList o.err)
  return o.exit.toUInt32

/-- Runs the tool. -/
def answer (words : List Text) : IO UInt32 := do
  let here := Path.namesFrom [] ⟨(← IO.currentDir).toString.toList⟩
  let task? := (Request.ofArguments words).toOption.map Request.task
  let places := match task? with
    | some task => task.places ++ [Preferences.path]
    | none => []
  let disk ← diskFor here places
  let input ← match task? with
    | some task => if task.wantsInput then readAll (← IO.getStdin) .empty else pure .empty
    | none => pure .empty
  carryOut disk (Command.run { disk, input, entropy := ← entropyNow } words)

end Tool
end Marginalia

/-- Answers the command line. -/
def main (words : List String) : IO UInt32 :=
  Marginalia.Tool.answer (words.map String.toList)
