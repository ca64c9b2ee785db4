import Marginalia.Mark.Basic
import Marginalia.Source.Line

/-!
# Marks in a source

A mark governs the first line below it that has any text.  Seen from the lines, each line with text
is governed by the mark of the last such line above it, if that line has one; so no line is governed
by two marks, and a line that carries a mark may itself be governed by another one.

`Placed.ofLines` walks down the lines once and notes for each mark where it stands and what it
governs.  Places are byte offsets from the beginning of the source; nothing but reports depends on
them.  `governors` is the same relation seen from the governed lines, which is the view that editing
needs.
-/

set_option autoImplicit false
namespace Marginalia

/-- A mark in its place. -/
structure Placed where
  mark : Mark
  /-- Where the comment starts. -/
  start : Nat
  /-- Whether the line of the mark has an ending. -/
  terminated : Bool
  /-- The line that the mark governs, and where that line starts. -/
  governed : Option (Nat × Line)
  deriving Repr

namespace Placed

/-- Where the comment ends. -/
def stop (p : Placed) : Nat := p.start + Text.byteLength p.mark.text

/-- The text of the line that the mark governs. -/
def content? (p : Placed) : Option Text := p.governed.map fun at_ => at_.2.content

/-- The first line that has any text, and where it starts. -/
def firstFilled? (offset : Nat) : List Line → Option (Nat × Line)
  | [] => none
  | l :: rest => if l.isEmpty then firstFilled? (offset + l.byteLength) rest else some (offset, l)

/-- The marks of some lines, the first of which starts at an offset. -/
def ofLines (offset : Nat) : List Line → List Placed
  | [] => []
  | l :: rest =>
    let next := offset + l.byteLength
    let below := ofLines next rest
    match Mark.find? l.content with
    | none => below
    | some mark =>
      { mark
        start := offset + (Text.byteLength l.content - Text.byteLength mark.text)
        terminated := l.ending ≠ .absent
        governed := firstFilled? next rest } :: below

/-- The marks of a source. -/
def ofText (source : Text) : List Placed := ofLines 0 (Line.ofText source)

end Placed

/-- Each line with the mark that governs it; `above` is the mark of the last line with text above
the first of them. -/
def governors (above : Option Mark) : List Line → List (Option Mark × Line)
  | [] => []
  | l :: rest =>
    if l.isEmpty then (none, l) :: governors above rest
    else (above, l) :: governors (Mark.find? l.content) rest

@[simp] theorem map_snd_governors (above : Option Mark) (lines : List Line) :
    (governors above lines).map Prod.snd = lines := by
  induction lines generalizing above with
  | nil => rfl
  | cons l r ih =>
    unfold governors
    split <;> simp [ih]

end Marginalia
