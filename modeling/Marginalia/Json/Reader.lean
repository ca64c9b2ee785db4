import Marginalia.Json.Basic

/-!
# Reading JSON

`Json.read?` reads a whole text as one value.  It recurses into lists and objects with a bound on
the number of steps; twice the length of the text is always enough, because a list or an object uses up
its bracket before its first item is read.

What may follow a number is not the number's business: the reader takes the longest number there is,
and whoever comes next refuses what is left of a malformed one.
-/

set_option autoImplicit false
namespace Marginalia
namespace Json

/-- The blanks that may stand between the parts of a value. -/
def isSpace (c : Char) : Bool := c = ' ' || c = '\n' || c = '\t' || c = '\r'

/-- A text without the blanks in front. -/
def skipSpace (t : Text) : Text := t.dropWhile isSpace

/-! ## Strings and numbers -/

/-- Reads a string body up to its closing mark; `seen` is what has been read of it, last character
first. -/
def bodyFrom? (seen : Text) : Text → Option (Text × Text)
  | [] => none
  | '"' :: r => some (seen.reverse, r)
  | '\\' :: 'u' :: a :: b :: c :: d :: r =>
    if (hexFour? a b c d).isSome then bodyFrom? (d :: c :: b :: a :: 'u' :: '\\' :: seen) r
    else none
  | '\\' :: c :: r => if (shortEscape? c).isSome then bodyFrom? (c :: '\\' :: seen) r else none
  | c :: r => if isControl c ∨ c = '\\' then none else bodyFrom? (c :: seen) r

/-- The body of a string, behind its opening mark, and the rest. -/
def body? (t : Text) : Option (Text × Text) := bodyFrom? [] t

open Literal (digits?)

/-- The whole part of a number, which has no zero in front of other digits. -/
def whole? : Text → Option (Text × Text)
  | '0' :: r => some (['0'], r)
  | t => digits? t

/-- The point and the digits behind it, if they are there. -/
def fraction (t : Text) : Text × Text :=
  match t with
  | '.' :: r =>
    match digits? r with
    | some (run, rest) => ('.' :: run, rest)
    | none => ([], t)
  | _ => ([], t)

/-- The exponent, if it is there. -/
def exponent (t : Text) : Text × Text :=
  match t with
  | c :: r =>
    if c = 'e' ∨ c = 'E' then
      let (sign, unsigned) : Text × Text :=
        match r with
        | '-' :: u => (['-'], u)
        | '+' :: u => (['+'], u)
        | _ => ([], r)
      match digits? unsigned with
      | some (run, rest) => (c :: sign ++ run, rest)
      | none => ([], t)
    else ([], t)
  | [] => ([], t)

/-- An unsigned number at the beginning of a text, and the rest. -/
def unsigned? (t : Text) : Option (Text × Text) :=
  (whole? t).map fun (whole, r) =>
    let (places, r') := fraction r
    let (power, rest) := exponent r'
    (whole ++ places ++ power, rest)

/-- A number at the beginning of a text, and the rest. -/
def number? : Text → Option (Text × Text)
  | '-' :: r => (unsigned? r).map fun (n, rest) => ('-' :: n, rest)
  | t => unsigned? t

/-- A value without parts at the beginning of a text, and the rest. -/
def atom? (t : Text) : Option (Json × Text) :=
  match "null".toList.isPrefixOf? t, "true".toList.isPrefixOf? t, "false".toList.isPrefixOf? t with
  | some r, _, _ => some (null, r)
  | _, some r, _ => some (bool true, r)
  | _, _, some r => some (bool false, r)
  | _, _, _ => (number? t).map fun (n, rest) => (number n, rest)

/-! ## Values -/

mutual

/-- A value at the beginning of a text, and the rest. -/
def value? : Nat → Text → Option (Json × Text)
  | 0, _ => none
  | steps + 1, t =>
    match skipSpace t with
    | '"' :: r => (body? r).map fun (body, rest) => (string body, rest)
    | '[' :: r =>
      match skipSpace r with
      | ']' :: rest => some (array [], rest)
      | _ => (items? steps r).map fun (items, rest) => (array items, rest)
    | '\x7b' :: r =>
      match skipSpace r with
      | '\x7d' :: rest => some (object [], rest)
      | _ => (members? steps r).map fun (fields, rest) => (object fields, rest)
    | t' => atom? t'

/-- The items of a list up to its closing bracket, at least one, and the rest. -/
def items? : Nat → Text → Option (List Json × Text)
  | 0, _ => none
  | steps + 1, t =>
    match value? steps t with
    | none => none
    | some (j, r) =>
      match skipSpace r with
      | ']' :: rest => some ([j], rest)
      | ',' :: r' => (items? steps r').map fun (items, rest) => (j :: items, rest)
      | _ => none

/-- The fields of an object up to its closing brace, at least one, and the rest. -/
def members? : Nat → Text → Option (List (Text × Json) × Text)
  | 0, _ => none
  | steps + 1, t =>
    match skipSpace t with
    | '"' :: r =>
      match body? r with
      | none => none
      | some (key, r') =>
        match skipSpace r' with
        | ':' :: r'' =>
          match value? steps r'' with
          | none => none
          | some (j, r''') =>
            match skipSpace r''' with
            | '\x7d' :: rest => some ([(key, j)], rest)
            | ',' :: more =>
              (members? steps more).map fun (fields, rest) => ((key, j) :: fields, rest)
            | _ => none
        | _ => none
    | _ => none

end

/-- The value that a text writes; none when it writes none, or something besides. -/
def read? (t : Text) : Option Json :=
  match value? (2 * t.length + 2) t with
  | some (j, rest) => if skipSpace rest = [] then some j else none
  | none => none

end Json
end Marginalia
