import Marginalia.Number.Binary64

/-!
# JSON values

A `Json` keeps the texts of its strings and numbers as they are written.  What they mean is asked
for only where the value is used (`text?`), so a part that nobody looks at has to have the right
form but need not make sense: a string in it may name half of a surrogate pair, and a number may be too
large to be stored.  `isStorable` tells whether a value would survive being stored instead.
-/

set_option autoImplicit false
namespace Marginalia

/-- A JSON value.  Strings and keys are the text between their quotation marks, escapes included. -/
inductive Json where
  | null
  | bool (b : Bool)
  | number (lexeme : Text)
  | string (body : Text)
  | array (items : List Json)
  | object (fields : List (Text × Json))

namespace Json

/-! ## Strings -/

/-- The digit of a number below sixteen, letters in lower case. -/
def hexDigit (n : Nat) : Char := Nat.digitChar n

/-- The value of a hexadecimal digit, letters in either case. -/
def hexValue? (c : Char) : Option Nat :=
  if '0' ≤ c ∧ c ≤ '9' then some (c.toNat - '0'.toNat)
  else if 'a' ≤ c ∧ c ≤ 'f' then some (c.toNat - 'a'.toNat + 10)
  else if 'A' ≤ c ∧ c ≤ 'F' then some (c.toNat - 'A'.toNat + 10)
  else none

/-- The number that four hexadecimal digits write. -/
def hexFour? (a b c d : Char) : Option Nat := do
  let a ← hexValue? a
  let b ← hexValue? b
  let c ← hexValue? c
  let d ← hexValue? d
  return 4096 * a + 256 * b + 16 * c + d

/-- The control characters, which a string must not hold. -/
def isControl (c : Char) : Bool := c.toNat < 0x20

/-- A character as it is written in a string: marks and backslashes escaped, control characters by
their short escape if they have one and by their number otherwise. -/
def escapeChar (c : Char) : Text :=
  if c = '"' then ['\\', '"']
  else if c = '\\' then ['\\', '\\']
  else if c = '\x08' then ['\\', 'b']
  else if c = '\x0c' then ['\\', 'f']
  else if c = '\n' then ['\\', 'n']
  else if c = '\r' then ['\\', 'r']
  else if c = '\t' then ['\\', 't']
  else if isControl c then
    ['\\', 'u', '0', '0', hexDigit (c.toNat / 16), hexDigit (c.toNat % 16)]
  else [c]

/-- A text as it is written in a string. -/
def escape (t : Text) : Text := t.flatMap escapeChar

/-- The character that stands behind a backslash, for the escapes of one letter. -/
def shortEscape? (c : Char) : Option Char :=
  if c = '"' then some '"'
  else if c = '\\' then some '\\'
  else if c = '/' then some '/'
  else if c = 'b' then some '\x08'
  else if c = 'f' then some '\x0c'
  else if c = 'n' then some '\n'
  else if c = 'r' then some '\r'
  else if c = 't' then some '\t'
  else none

/-- Whether a number is the first half of a surrogate pair. -/
def isHighSurrogate (n : Nat) : Bool := 0xD800 ≤ n && n < 0xDC00

/-- Whether a number is the second half of a surrogate pair. -/
def isLowSurrogate (n : Nat) : Bool := 0xDC00 ≤ n && n < 0xE000

/-- The text that a string writes; none when it names half of a surrogate pair. -/
def unescape? : Text → Option Text
  | [] => some []
  | '\\' :: 'u' :: a :: b :: c :: d :: r =>
    match hexFour? a b c d with
    | none => none
    | some n =>
      if isHighSurrogate n then
        match r with
        | '\\' :: 'u' :: a' :: b' :: c' :: d' :: r' =>
          match hexFour? a' b' c' d' with
          | none => none
          | some m =>
            if isLowSurrogate m then
              (unescape? r').map
                (Char.ofNat (0x10000 + 0x400 * (n - 0xD800) + (m - 0xDC00)) :: ·)
            else none
        | _ => none
      else if isLowSurrogate n then none
      else (unescape? r).map (Char.ofNat n :: ·)
  | '\\' :: c :: r =>
    match shortEscape? c with
    | none => none
    | some e => (unescape? r).map (e :: ·)
  | c :: r => if c = '\\' then none else (unescape? r).map (c :: ·)

/-- A text as a JSON value. -/
def ofText (t : Text) : Json := string (escape t)

/-- The text of a string. -/
def text? : Json → Option Text
  | string body => unescape? body
  | _ => none

/-! ## Lists and objects -/

/-- The items of a list, each read in the same way. -/
def list? {α : Type} (read : Json → Option α) : Json → Option (List α)
  | array items => items.mapM read
  | _ => none

/-- The fields of an object under the texts of their keys. -/
def fields? : Json → Option (List (Text × Json))
  | object fields => fields.mapM fun (key, j) => (unescape? key).map fun k => (k, j)
  | _ => none

/-- The fields of an object, or the items of a list under these names, in order.  A list may stop
early but holds nothing that has no name. -/
def record? (names : List Text) : Json → Option (List (Text × Json))
  | array items => if items.length ≤ names.length then some (names.zip items) else none
  | j => fields? j

/-- An object with these keys. -/
def ofFields (fields : List (Text × Json)) : Json :=
  object (fields.map fun (key, j) => (escape key, j))

/-! ## Values that can be stored -/

/-- How many lists and objects a value opens inside one another. -/
def depth : Json → Nat
  | array items => 1 + depthOfItems items
  | object fields => 1 + depthOfFields fields
  | _ => 0
where
  depthOfItems : List Json → Nat
    | [] => 0
    | j :: rest => max (depth j) (depthOfItems rest)
  depthOfFields : List (Text × Json) → Nat
    | [] => 0
    | (_, j) :: rest => max (depth j) (depthOfFields rest)

/-- Whether every string of a value writes a text and every number is finite when rounded. -/
def isMeaningful : Json → Bool
  | number lexeme => (Number.Binary64.nearest? (Number.Decimal.leading lexeme)).isSome
  | string body => (unescape? body).isSome
  | array items => meaningfulItems items
  | object fields => meaningfulFields fields
  | _ => true
where
  meaningfulItems : List Json → Bool
    | [] => true
    | j :: rest => isMeaningful j && meaningfulItems rest
  meaningfulFields : List (Text × Json) → Bool
    | [] => true
    | (key, j) :: rest => (unescape? key).isSome && isMeaningful j && meaningfulFields rest

/-- How many lists and objects may be open inside one another where values are stored. -/
def deepest : Nat := 127

/-- Whether a value could be stored inside `around` open lists and objects. -/
def isStorable (around : Nat) (j : Json) : Bool := j.isMeaningful && around + j.depth ≤ deepest

end Json
end Marginalia
