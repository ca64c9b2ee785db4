import Marginalia.Text.Basic

/-!
# Lines and their endings

A source is its lines in order, each with the line break that ends it: a carriage return and line
feed, either of them alone, or nothing for a last line that the source breaks off in.  Reading adds
one character at a time at the front (`Line.push`), so that facts about all sources follow by
induction on the text, and joining the lines gives the source back (`joined_ofText`).
-/

set_option autoImplicit false
namespace Marginalia

/-- What ends a line. -/
inductive Ending where
  /-- A carriage return and a line feed. -/
  | crlf
  /-- A line feed. -/
  | lf
  /-- A carriage return. -/
  | cr
  /-- The end of the source. -/
  | absent
  deriving DecidableEq, Repr

/-- The characters that end a line. -/
def Ending.toText : Ending → Text
  | .crlf => ['\r', '\n']
  | .lf => ['\n']
  | .cr => ['\r']
  | .absent => []

/-- A line without its ending, and the ending. -/
structure Line where
  content : Text
  ending : Ending
  deriving DecidableEq, Repr

namespace Line

/-- The characters of a line, those of its ending included. -/
def toText (l : Line) : Text := l.content ++ l.ending.toText

/-- Whether a line has no characters before its ending. -/
def isEmpty (l : Line) : Bool := l.content.isEmpty

/-- The bytes of a line, those of its ending included. -/
def byteLength (l : Line) : Nat := Text.byteLength l.toText

/-- A source with one more character in front. -/
def push (c : Char) (lines : List Line) : List Line :=
  if c = '\n' then ⟨[], .lf⟩ :: lines
  else if c = '\r' then
    match lines with
    | ⟨[], .lf⟩ :: rest => ⟨[], .crlf⟩ :: rest
    | _ => ⟨[], .cr⟩ :: lines
  else
    match lines with
    | l :: rest => ⟨c :: l.content, l.ending⟩ :: rest
    | [] => [⟨[c], .absent⟩]

/-- The lines of a source. -/
def ofText (source : Text) : List Line := source.foldr push []

/-- The source that consists of these lines. -/
def joined (lines : List Line) : Text := lines.flatMap toText

theorem joined_push (c : Char) (lines : List Line) : joined (push c lines) = c :: joined lines := by
  unfold push
  split
  · rename_i h; subst h; simp [joined, toText, Ending.toText]
  · split
    · rename_i h; subst h
      split <;> simp [joined, toText, Ending.toText]
    · split <;> simp [joined, toText, Ending.toText]

/-- **The lines of a source make up the source.** -/
theorem joined_ofText (source : Text) : joined (ofText source) = source := by
  induction source with
  | nil => rfl
  | cons c r ih => rw [ofText, List.foldr_cons, joined_push]; exact congrArg _ ih

end Line
end Marginalia
