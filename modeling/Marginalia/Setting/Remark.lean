import Marginalia.Setting.Code

/-!
# Code and comment of a line

Two slashes open a comment, but they also stand in strings (`"http://…"`) and in the elements of a
list, so looking for them does not tell a comment from a literal.  A line is therefore cut in one of
two ways.

* `Lone.cut?` — a line that is a number or a quoted text without escapes, with or without
  punctuation and a comment, is read from the left: whatever the quotation marks enclose belongs to
  the literal.
* `lastRemark` — any other line is searched from the right, and its comment starts at the first pair
  of slashes whose left side still holds a literal of a known kind.  A pair that is turned down is
  skipped as a whole, so of three slashes in a row only the last two are a candidate.

`splitRemark` puts the two together.  A line without a comment has all of its text in the code.
-/

set_option autoImplicit false
namespace Marginalia
namespace Setting

/-! ## Lines that are one literal -/

namespace Lone

open Literal (digits?)

/-- The unsigned number a text begins with, and the rest. -/
def unsigned? (t : Text) : Option (Text × Text) :=
  (digits? t).map fun (whole, rest) =>
    match rest with
    | '.' :: r =>
      match digits? r with
      | some (fraction, r') => (whole ++ '.' :: fraction, r')
      | none => (whole, rest)
    | _ => (whole, rest)

/-- The number a text begins with, and the rest. -/
def number? : Text → Option (Text × Text)
  | '-' :: r => (unsigned? r).map fun (number, rest) => ('-' :: number, rest)
  | t => unsigned? t

/-- The quoted text without escapes a text begins with, and the rest: it runs to the next mark of
the same sort, and no line break comes before that. -/
def quoted? : Text → Option (Text × Text)
  | [] => none
  | c :: r =>
    match Quote.ofChar? c with
    | none => none
    | some _ =>
      let ends : Char → Bool := fun d => d = c || d = '\r' || d = '\n'
      match r.dropWhile fun d => !ends d with
      | [] => none
      | d :: rest =>
        if d = c then some (c :: (r.takeWhile fun d => !ends d) ++ [c], rest) else none

/-- The number or quoted text a text begins with, and the rest. -/
def literal? (t : Text) : Option (Text × Text) := (number? t).orElse fun _ => quoted? t

/-- One comma or semicolon at the beginning, and the rest. -/
def punctuation : Text → Text × Text
  | ',' :: r => ([','], r)
  | ';' :: r => ([';'], r)
  | t => ([], t)

/-- Whether a text is empty or a comment that reaches to its end. -/
def endsLine : Text → Bool
  | [] => true
  | '/' :: '/' :: r => !r.contains '\n'
  | _ => false

/-- The code and the comment of a line that is one number or one quoted text without escapes. -/
def cut? (line : Text) : Option (Text × Text) :=
  match literal? (Text.trimStart line) with
  | none => none
  | some (literal, rest) =>
    let (mark, after) := punctuation rest
    let comment := Text.trimStart after
    if endsLine comment then
      some (Text.leadingBlanks line ++ literal ++ mark ++ Text.leadingBlanks after, comment)
    else none

end Lone

/-! ## Searching from the right -/

/-- The cut at the last acceptable pair of slashes.  The first argument is the part still to be
searched, last character first, and the second is the part already passed. -/
def lastRemarkFrom (passed : Text) : Text → Option (Text × Text)
  | [] => none
  | [_] => none
  | c :: d :: before =>
    if c = '/' ∧ d = '/' then
      if Code.kindIn before.reverse = .unknown then lastRemarkFrom ('/' :: '/' :: passed) before
      else some (before.reverse, '/' :: '/' :: passed)
    else lastRemarkFrom (c :: passed) (d :: before)

/-- The code and the comment of a line, the comment starting at the last pair of slashes that has a
literal of a known kind on its left. -/
def lastRemark (line : Text) : Option (Text × Text) := lastRemarkFrom [] line.reverse

theorem lastRemarkFrom_toText {passed rest code comment : Text}
    (h : lastRemarkFrom passed rest = some (code, comment)) :
    code ++ comment = rest.reverse ++ passed := by
  fun_induction lastRemarkFrom passed rest with
  | case1 => cases h
  | case2 => cases h
  | case3 passed c d before hc _ ih => obtain ⟨rfl, rfl⟩ := hc; simpa using ih h
  | case4 passed c d before hc _ => obtain ⟨rfl, rfl⟩ := hc; cases h; simp
  | case5 passed c d before _ ih => simpa using ih h

/-! ## Both together -/

/-- The code and the comment of a line. -/
def splitRemark (line : Text) : Text × Text :=
  match Lone.cut? line with
  | some parts => parts
  | none => (lastRemark line).getD (line, [])

end Setting
end Marginalia
