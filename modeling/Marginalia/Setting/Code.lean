import Marginalia.Literal.Kind
import Marginalia.Text.Blank

/-!
# The code of a line, cut around its literal

`Code.of?` cuts a line that carries no comment into seven parts whose concatenation is the line
again (`Code.of?_toText`): the indentation, the name, the assignment symbol with the blanks behind
it, the literal, the blanks behind that, a comma or semicolon, and the blanks at the end.  A line
that consists of a number or a string is that literal, and has neither name nor symbol.

The parts come from cutting a list in two, again and again, never from offsets into the line: so no
cut can miss the middle of a character, and no two parts can overlap.

A colon or an equals sign at the very beginning of the text has no name before it.  It does not
count, and neither does any later sign of that kind: `Assignment.counts` leaves that sign out, and
the first of the remaining signs is the one that assigns.
-/

set_option autoImplicit false
namespace Marginalia

/-! ## Name, symbol and literal -/

/-- A text cut at its assignment symbol. -/
structure Assignment where
  /-- What stands before the symbol. -/
  name : Text
  /-- The symbol and the blanks behind it. -/
  symbol : Text
  /-- The rest, without blanks in front. -/
  literal : Text
  deriving DecidableEq, Repr

namespace Assignment

/-- Whether a character is a sign that assigns in this text: a colon or an equals sign, unless the
text begins with one like it. -/
def counts (t : Text) (c : Char) : Bool := (c = ':' || c = '=') && t.head? ≠ some c

/-- A text cut at the first sign that assigns in it. -/
def of? (t : Text) : Option Assignment :=
  match t.dropWhile fun c => !counts t c with
  | [] => none
  | sign :: after =>
    some ⟨t.takeWhile fun c => !counts t c, sign :: Text.leadingBlanks after, Text.trimStart after⟩

/-- The parts of an assignment, joined. -/
def toText (a : Assignment) : Text := a.name ++ a.symbol ++ a.literal

theorem of?_toText {t : Text} {a : Assignment} (h : of? t = some a) : a.toText = t := by
  unfold of? at h
  split at h
  · cases h
  · rename_i sign after hd
    cases h
    simp only [toText, List.append_assoc, List.cons_append, Text.leadingBlanks_append_trimStart]
    rw [← hd, List.takeWhile_append_dropWhile]

end Assignment

/-! ## The seven parts -/

/-- The comma or semicolon a text ends with. -/
def closingPunctuation (t : Text) : Text :=
  match t.getLast? with
  | some c => if c = ',' ∨ c = ';' then [c] else []
  | none => []

/-- A text without the comma or semicolon it ends with. -/
def withoutPunctuation (t : Text) : Text :=
  if closingPunctuation t = [] then t else t.dropLast

theorem withoutPunctuation_append (t : Text) :
    withoutPunctuation t ++ closingPunctuation t = t := by
  unfold withoutPunctuation closingPunctuation
  cases h : t.getLast? with
  | none => simp
  | some c =>
    obtain ⟨r, rfl⟩ := List.getLast?_eq_some_iff.1 h
    by_cases hc : c = ',' ∨ c = ';' <;> simp [hc]

/-- A line without a comment, cut around its literal. -/
structure Code where
  indent : Text
  name : Text
  assignment : Text
  literal : Text
  padding : Text
  punctuation : Text
  blanks : Text
  deriving DecidableEq, Repr

namespace Code

/-- The parts of a line, joined. -/
def toText (c : Code) : Text :=
  c.indent ++ c.name ++ c.assignment ++ c.literal ++ c.padding ++ c.punctuation ++ c.blanks

/-- Whether a text is a literal that may have a line to itself. -/
def standsAlone (t : Text) : Bool :=
  match LiteralKind.of t with
  | .number | .string => true
  | _ => false

/-- A line cut around its literal; none when it is neither a lone literal nor an assignment. -/
def of? (line : Text) : Option Code :=
  let content := Text.trimEnd line
  let core := withoutPunctuation content
  let statement := Text.trim core
  let cut := if standsAlone statement then some ⟨[], [], statement⟩ else Assignment.of? statement
  cut.map fun a =>
    { indent := Text.leadingBlanks core
      name := a.name
      assignment := a.symbol
      literal := a.literal
      padding := Text.trailingBlanks (Text.trimStart core)
      punctuation := closingPunctuation content
      blanks := Text.trailingBlanks line }

/-- **No character of a line is lost when it is cut.** -/
theorem of?_toText {line : Text} {c : Code} (h : of? line = some c) : c.toText = line := by
  unfold of? at h
  simp only [Option.map_eq_some_iff] at h
  obtain ⟨a, ha, rfl⟩ := h
  have hs : a.name ++ a.symbol ++ a.literal
      = Text.trim (withoutPunctuation (Text.trimEnd line)) := by
    split at ha
    · cases ha; simp
    · exact Assignment.of?_toText ha
  simp only [toText]
  rw [List.append_assoc _ a.name, List.append_assoc _ (a.name ++ a.symbol), hs, Text.trim,
    List.append_assoc (Text.leadingBlanks _), Text.trimEnd_append_trailingBlanks,
    Text.leadingBlanks_append_trimStart, withoutPunctuation_append,
    Text.trimEnd_append_trailingBlanks]

/-- The kind of the literal of a line, `unknown` when it has none. -/
def kindIn (line : Text) : LiteralKind :=
  match of? line with
  | some c => LiteralKind.of c.literal
  | none => .unknown

end Code
end Marginalia
