import Marginalia.Search.Expansion
import Marginalia.Search.Ignore

/-!
# The scripts that patterns stand for

Scripts are named by patterns: one with wildcards stands for the paths that fit it, any other for
the paths that a walk from it visits.  `survey` gathers the scripts among them in the order of their
paths, each once, under the spelling it was found by first.  How a pattern with wildcards is
expanded and how a folder is walked are arguments, so that what a survey promises does not hang on
either.

A walk visits the entry it starts at, whatever that is, and everything below it except what is to be
passed over.  Every folder around an entry has a say in that: the rules of `.ignore` files come
first, those of `.gitignore` files second and the private list of a repository third, and of each
sort the nearest folder that says anything decides.  The latter two count only inside a repository
and only up to its folder.  Names with a dot in front are passed over unless a rule keeps them.
-/

set_option autoImplicit false
namespace Marginalia

/-! ## Walking through folders -/

namespace Walk

/-- What a folder says about the entries below it. -/
structure Scope where
  /-- How many names lead to the folder. -/
  depth : Nat
  ignore : List Ignore.Rule
  gitIgnore : List Ignore.Rule
  gitExclude : List Ignore.Rule
  isRepository : Bool

/-- The rules in a file below an entry. -/
def rulesAt (e : Entry) (names : List Text) : List Ignore.Rule :=
  match e.at? names with
  | some (.file (some bytes) _) => Ignore.rulesOf bytes
  | _ => []

/-- What a folder says, when that many names lead to it. -/
def Scope.ofFolder (depth : Nat) (e : Entry) : Scope :=
  { depth
    ignore := rulesAt e [".ignore".toList]
    gitIgnore := rulesAt e [".gitignore".toList]
    gitExclude := rulesAt e [".git".toList, "info".toList, "exclude".toList]
    isRepository := (e.child? ".git".toList).isSome }

/-- A path below the folder of a scope, given all the names that lead along it. -/
def Scope.relative (s : Scope) (names : List Text) : Text :=
  ((names.drop s.depth).intersperse ['/']).flatten

/-- The scopes up to the nearest repository, it included. -/
def upToRepository : List Scope → List Scope
  | [] => []
  | s :: outer => if s.isRepository then [s] else s :: upToRepository outer

/-- What the nearest of some scopes that says anything says about an entry. -/
def nearest? (scopes : List Scope) (rules : Scope → List Ignore.Rule) (names : List Text)
    (isFolder : Bool) : Option Verdict :=
  scopes.findSome? fun s => Ignore.verdict? (rules s) (s.relative names) isFolder

/-- What the folders around an entry say about it, the innermost first. -/
def verdict? (scopes : List Scope) (names : List Text) (isFolder : Bool) : Option Verdict :=
  let inside := if scopes.any Scope.isRepository then upToRepository scopes else []
  nearest? scopes Scope.ignore names isFolder
    <|> nearest? inside Scope.gitIgnore names isFolder
    <|> nearest? inside Scope.gitExclude names isFolder

/-- Whether an entry is passed over. -/
def passesOver (scopes : List Scope) (names : List Text) (isFolder : Bool) : Bool :=
  match verdict? scopes names isFolder with
  | some .ignored => true
  | some .kept => false
  | none => (names.getLast?.bind List.head?) = some '.'

mutual

/-- The paths below an entry that a walk visits. -/
def below (scopes : List Scope) (names : List Text) (p : Path) : Entry → List Path
  | .file .. => []
  | .folder es => belowAll (.ofFolder names.length (.folder es) :: scopes) names p es

/-- The paths of and below the entries of a folder that a walk visits. -/
def belowAll (scopes : List Scope) (names : List Text) (p : Path) : List (Text × Entry) → List Path
  | [] => []
  | (name, e) :: rest =>
    (if passesOver scopes (names ++ [name]) e.isFolder then []
      else p.join name :: below scopes (names ++ [name]) (p.join name) e) ++
    belowAll scopes names p rest

end

/-- The scopes of the folders that lead to an entry, the innermost first. -/
def scopesAround (root : Entry) (names : List Text) : List Scope :=
  (List.range names.length).reverse.filterMap fun depth =>
    (root.at? (names.take depth)).map (Scope.ofFolder depth)

/-- The paths that a walk from a path visits; a lone `-` stands for no file. -/
def visited (d : Disk) (p : Path) : List Path :=
  if p.spelled = ['-'] then []
  else
    match d.locate p with
    | .error _ => []
    | .ok names =>
      match d.root.at? names with
      | some e => p :: below (scopesAround d.root names) names p e
      | none => []

end Walk

/-! ## Gathering scripts -/

/-- Paths without those that say the same as the one before. -/
def withoutRepeats : List Path → List Path
  | [] => []
  | p :: rest => p :: behind p rest
where
  /-- The paths behind one that has been taken. -/
  behind (last : Path) : List Path → List Path
    | [] => []
    | p :: rest => if last.same p then behind last rest else p :: behind p rest

/-- The scripts that one pattern stands for. -/
def scriptsOf (expand walk : Text → List Path) (pattern : Text) : List Path :=
  if Expansion.isWild pattern then
    (expand pattern).filter fun p => p.isScript && !p.isInstalled
  else (walk pattern).filter Path.isScript

/-- The scripts that some patterns stand for. -/
def survey (expand walk : Text → List Path) (patterns : List Text) : List Path :=
  withoutRepeats ((patterns.flatMap (scriptsOf expand walk)).mergeSort Path.atMost)

end Marginalia
