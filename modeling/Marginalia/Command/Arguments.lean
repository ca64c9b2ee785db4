import Marginalia.Search.Expansion

/-!
# Arguments of the tool

The words of a command line are read from left to right, and the first that asks for help or makes
no sense decides, whatever stands behind it (`Halt`).  An option may be given by its long name, with
its value behind an equals sign or in the next word, or by its letter; letters may share one dash,
and what stands behind the letter of an option with a value is the value.  A value in a word of its
own must not look like an option.  Two dashes end the options, and a lone dash is no option.

## What is here

* `Choice`, `Signature` — what a command may be given.
* `Signature.read` — the options and operands among some words.
* `Request.ofArguments` — the task that a command line asks for.
* `Task.places` — what a task can reach.  It looks at the places that it names and below them, and
  at nothing else but the ignore files of the folders around those places, so it is enough to know
  that much of a file system to run it.
-/

set_option autoImplicit false
namespace Marginalia

/-- Why a command line asks for no task. -/
inductive Halt where
  /-- It makes no sense. -/
  | misuse
  | help
  | version
  deriving DecidableEq, Repr

/-- An option that a command knows. -/
structure Choice where
  long : Text
  letter : Option Char
  /-- Whether a value goes with it. -/
  valued : Bool
  /-- Whether it may be given more than once. -/
  repeatable : Bool
  /-- Whether its value is a path, and so not empty. -/
  isPath : Bool
  deriving DecidableEq, Repr

namespace Choice

/-- An option without a value. -/
def flag (long : Text) (letter : Option Char) : Choice :=
  { long, letter, valued := false, repeatable := false, isPath := false }

/-- An option with a value. -/
def single (long : Text) (letter : Option Char) : Choice :=
  { flag long letter with valued := true }

/-- Notes are shown. -/
def verbose : Choice := flag "verbose".toList none

/-- Who is asking. -/
def user : Choice := single "user".toList (some 'u')

/-- Forms are written with line breaks. -/
def pretty : Choice := flag "pretty".toList none

/-- Results are written back to the files. -/
def write : Choice := flag "write".toList (some 'w')

/-- A file of values. -/
def values : Choice := { single "values".toList none with isPath := true }

/-- An assignment of a value to a hash. -/
def set : Choice := { single "set".toList (some 's') with repeatable := true }

end Choice

/-- What a command may be given. -/
structure Signature where
  choices : List Choice
  /-- Whether its operand is a single file; otherwise it takes any number of patterns. -/
  oneFile : Bool

/-- Options with their values, and operands, in the order in which they are given. -/
structure Given where
  options : List (Choice × Text)
  operands : List Text

namespace Given

/-- Whether an option is given. -/
def has (g : Given) (c : Choice) : Bool := g.options.any fun o => o.1 = c

/-- The values of an option. -/
def valuesOf (g : Given) (c : Choice) : List Text :=
  (g.options.filter fun o => o.1 = c).map Prod.snd

end Given

/-! ## Words -/

/-- What one word says, or a letter of it. -/
inductive Saying where
  | operand (t : Text)
  | option (c : Choice) (value : Text)
  /-- An option whose value is the next word. -/
  | awaiting (c : Choice)
  /-- The options end. -/
  | dashes
  | halt (h : Halt)
  deriving DecidableEq, Repr

/-- Whether a word looks like an option. -/
def looksLikeOption : Text → Bool
  | '-' :: _ :: _ => true
  | _ => false

/-- What an option by its long name says. -/
def longSaying (known : List Choice) (halts : List (Text × Char × Halt)) (name : Text)
    (value? : Option Text) : Saying :=
  match halts.find? fun (long, _) => long = name with
  | some (_, _, h) => .halt (if value?.isSome then .misuse else h)
  | none =>
    match known.find? fun c => c.long = name, value? with
    | none, _ => .halt .misuse
    | some c, none => if c.valued then .awaiting c else .option c []
    | some c, some v => if c.valued then .option c v else .halt .misuse

/-- What the letters behind a dash say. -/
def letterSayings (known : List Choice) (halts : List (Text × Char × Halt)) : Text → List Saying
  | [] => []
  | letter :: r =>
    match halts.find? fun (_, l, _) => l = letter with
    | some (_, _, h) => [.halt h]
    | none =>
      match known.find? fun c => c.letter = some letter with
      | none => [.halt .misuse]
      | some c =>
        if c.valued then
          match r with
          | [] => [.awaiting c]
          | '=' :: v => [.option c v]
          | v => [.option c v]
        else .option c [] :: letterSayings known halts r

/-- What a word says. -/
def sayings (known : List Choice) (halts : List (Text × Char × Halt)) : Text → List Saying
  | ['-', '-'] => [.dashes]
  | '-' :: '-' :: r =>
    match Text.cutAt? '=' r with
    | some (name, v) => [longSaying known halts name (some v)]
    | none => [longSaying known halts r none]
  | '-' :: l :: r => letterSayings known halts (l :: r)
  | t => [.operand t]

/-! ## Commands -/

namespace Signature

/-- Asking any command for help. -/
def halts : List (Text × Char × Halt) := [("help".toList, 'h', .help)]

/-- One more operand. -/
def addOperand (s : Signature) (g : Given) (t : Text) : Except Halt Given :=
  if s.oneFile ∧ (t = [] ∨ g.operands ≠ []) then .error .misuse
  else .ok { g with operands := g.operands ++ [t] }

/-- One more option. -/
def addOption (g : Given) (c : Choice) (value : Text) : Except Halt Given :=
  if (g.has c ∧ ¬ c.repeatable) ∨ (c.isPath ∧ value = []) then .error .misuse
  else .ok { g with options := g.options ++ [(c, value)] }

/-- What is known after one more saying: what is given, and the option whose value comes next. -/
def hear (s : Signature) (state : Given × Option Choice) :
    Saying → Except Halt (Given × Option Choice)
  | .operand t => (s.addOperand state.1 t).map fun g => (g, none)
  | .option c value => (addOption state.1 c value).map fun g => (g, none)
  | .awaiting c => .ok (state.1, some c)
  | .dashes => .ok state
  | .halt h => .error h

/-- What some words give, after those that gave `g`. -/
def readFrom (s : Signature) (g : Given) : List Text → Except Halt Given
  | [] => .ok g
  | word :: rest =>
    if word = ['-', '-'] then rest.foldlM s.addOperand g
    else
      match (sayings s.choices halts word).foldlM s.hear (g, none) with
      | .error h => .error h
      | .ok (g, none) => readFrom s g rest
      | .ok (g, some c) =>
        match rest with
        | [] => .error .misuse
        | value :: later =>
          if looksLikeOption value then .error .misuse
          else
            match addOption g c value with
            | .error h => .error h
            | .ok g => readFrom s g later

/-- What some words give to a command; it wants at least one operand. -/
def read (s : Signature) (words : List Text) : Except Halt Given :=
  (readFrom s ⟨[], []⟩ words).bind fun g => if g.operands = [] then .error .misuse else .ok g

end Signature

/-! ## Requests -/

/-- What the tool can be asked to do. -/
inductive Task where
  /-- Write out the forms of some scripts. -/
  | describe (patterns : List Text) (user : Option Text) (pretty : Bool)
  /-- Give the marks of some scripts addresses. -/
  | address (patterns : List Text) (write : Bool)
  /-- Fill in the form of a script. -/
  | fill (file : Path) (values : Option Path) (assignments : List Text) (user : Option Text)
      (write : Bool)
  /-- Take the marks out of some scripts. -/
  | unmark (patterns : List Text) (write : Bool)
  deriving DecidableEq, Repr

/-- A task, and whether notes are to be shown. -/
structure Request where
  task : Task
  verbose : Bool
  deriving DecidableEq, Repr

namespace Request

/-- What `parse` may be given. -/
def describing : Signature := ⟨[.verbose, .user, .pretty], false⟩

/-- What `hash` and `strip` may be given. -/
def revising : Signature := ⟨[.verbose, .write], false⟩

/-- What `set` may be given. -/
def filling : Signature := ⟨[.verbose, .values, .set, .user, .write], true⟩

/-- The names of the commands. -/
def commandNames : List Text :=
  ["parse".toList, "hash".toList, "set".toList, "strip".toList, "help".toList]

/-- A request with what is given to its command. -/
def ofGiven (verbose : Bool) (g : Given) (task : Task) : Request :=
  { task, verbose := verbose || g.has .verbose }

/-- The request that a command and the words behind it make. -/
def ofCommand (verbose : Bool) (name : Text) (words : List Text) : Except Halt Request :=
  if name = "parse".toList then
    (describing.read words).map fun g =>
      ofGiven verbose g (.describe g.operands (g.valuesOf .user).head? (g.has .pretty))
  else if name = "hash".toList then
    (revising.read words).map fun g => ofGiven verbose g (.address g.operands (g.has .write))
  else if name = "strip".toList then
    (revising.read words).map fun g => ofGiven verbose g (.unmark g.operands (g.has .write))
  else if name = "set".toList then
    (filling.read words).map fun g =>
      ofGiven verbose g <|
        .fill ⟨g.operands.head?.getD []⟩ ((g.valuesOf .values).head?.map Path.mk)
          (g.valuesOf .set) (g.valuesOf .user).head? (g.has .write)
  else if name = "help".toList then
    match words with
    | [] => .error .help
    | [topic] => .error (if commandNames.contains topic then .help else .misuse)
    | _ => .error .misuse
  else .error .misuse

/-- Asking the tool for help or for its version. -/
def halts : List (Text × Char × Halt) :=
  [("help".toList, 'h', .help), ("version".toList, 'V', .version)]

/-- The request that some words make, the options in front of the command included. -/
def readFrom (verbose : Bool) : List Text → Except Halt Request
  | [] => .error .misuse
  | word :: rest =>
    match sayings [.verbose] halts word with
    | [.operand name] => ofCommand verbose name rest
    | [.option _ _] => if verbose then .error .misuse else readFrom true rest
    | .halt h :: _ => .error h
    | _ => .error .misuse

/-- The request that a command line makes. -/
def ofArguments (words : List Text) : Except Halt Request := readFrom false words

end Request

/-! ## Reach -/

/-- The names that a path leads along from a folder; `..` takes the last name back. -/
def Path.namesFrom (here : List Text) (p : Path) : List Text :=
  p.components.foldl (fun names c =>
    match c with
    | .root => []
    | .here => names
    | .up => names.dropLast
    | .name n => names ++ [n]) here

/-- The place that a pattern names: the one that the part in front of its wildcards leads to. -/
def Expansion.lead (pattern : Text) : Path :=
  if isWild pattern then
    ⟨((pattern.splitOn '/').takeWhile fun name => !isWild name).flatMap (· ++ ['/'])⟩
  else ⟨pattern⟩

/-- The places that a task names. -/
def Task.places : Task → List Path
  | .describe patterns .. => patterns.map Expansion.lead
  | .address patterns _ => patterns.map Expansion.lead
  | .fill file values .. => file :: values.toList
  | .unmark patterns _ => patterns.map Expansion.lead

/-- Whether a task takes values from standard input. -/
def Task.wantsInput : Task → Bool
  | .fill _ values .. => values = some ⟨['-']⟩
  | _ => false

end Marginalia
