import Marginalia.Json.Basic

/-!
# Writing JSON

`Json.compact` writes a value without blanks, `Json.pretty` with every item and every field on a
line of its own, indented by two blanks for each list or object around it.  In both an empty list or
object is a pair of brackets.
-/

set_option autoImplicit false
namespace Marginalia
namespace Json

/-- A value without parts, written. -/
def atomText : Json → Text
  | null => "null".toList
  | bool true => "true".toList
  | bool false => "false".toList
  | number lexeme => lexeme
  | string body => '"' :: body ++ ['"']
  | array _ | object _ => []

mutual

/-- A value without blanks. -/
def compact : Json → Text
  | array items => '[' :: compactItems items ++ [']']
  | object fields => '\x7b' :: compactFields fields ++ ['\x7d']
  | j => atomText j

/-- Items, separated by commas. -/
def compactItems : List Json → Text
  | [] => []
  | [j] => compact j
  | j :: rest => compact j ++ ',' :: compactItems rest

/-- Fields, separated by commas. -/
def compactFields : List (Text × Json) → Text
  | [] => []
  | [(key, j)] => '"' :: key ++ '"' :: ':' :: compact j
  | (key, j) :: rest => '"' :: key ++ '"' :: ':' :: compact j ++ ',' :: compactFields rest

end

/-- The beginning of a line inside that many lists and objects. -/
def indentation (level : Nat) : Text := '\n' :: List.replicate (2 * level) ' '

mutual

/-- A value with line breaks, inside `level` lists and objects. -/
def prettyAt (level : Nat) : Json → Text
  | array [] => ['[', ']']
  | object [] => ['\x7b', '\x7d']
  | array items => '[' :: prettyItems (level + 1) items ++ indentation level ++ [']']
  | object fields => '\x7b' :: prettyFields (level + 1) fields ++ indentation level ++ ['\x7d']
  | j => atomText j

/-- Items on lines of their own, separated by commas. -/
def prettyItems (level : Nat) : List Json → Text
  | [] => []
  | [j] => indentation level ++ prettyAt level j
  | j :: rest => indentation level ++ prettyAt level j ++ ',' :: prettyItems level rest

/-- Fields on lines of their own, separated by commas. -/
def prettyFields (level : Nat) : List (Text × Json) → Text
  | [] => []
  | [(key, j)] => indentation level ++ '"' :: key ++ '"' :: ':' :: ' ' :: prettyAt level j
  | (key, j) :: rest =>
    indentation level ++ '"' :: key ++ '"' :: ':' :: ' ' :: prettyAt level j ++
      ',' :: prettyFields level rest

end

/-- A value with line breaks. -/
def pretty (j : Json) : Text := prettyAt 0 j

end Json
end Marginalia
