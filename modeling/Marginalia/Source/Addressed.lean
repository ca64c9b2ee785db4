import Marginalia.Source.Placed

/-!
# Giving every mark an address

A mark can be found again by its hash.  `addressed` appends one to every mark that has none and
whose line is terminated; a mark in an unfinished last line is left for later, since it may still be
typed.  Whether a mark has a hash is judged by its text: any `hash="` in it counts.

The identifiers come from outside, as a function of how many were asked for before and of the
position of the mark.  That position is where the text of the mark occurs, looked for from just
behind the position found last; so marks with the same text have different positions, and all
positions are known before the first identifier is made (`stampPositions`).
-/

set_option autoImplicit false
namespace Marginalia

/-- Where identifiers come from: the number of those made before and a position give the next. -/
abbrev Mint := Nat → Nat → Text

/-- The position of a text, looked for from an offset on.  The offset itself stands for a position
that is not found. -/
def occurrence (source text : Text) (offset : Nat) : Nat :=
  match (Text.dropBytes? offset source).bind (Text.findBytes? text) with
  | some distance => offset + distance
  | none => offset

/-- Whether a text writes a hash. -/
def writesHash (t : Text) : Bool := Text.holds "hash=\"".toList t

/-- The mark of a line that still needs an address. -/
def Line.unaddressed? (l : Line) : Option Mark :=
  if l.ending = .absent then none
  else (Mark.find? l.content).filter fun m => !writesHash m.text

/-- The positions of some marks in a source, each looked for behind the one before. -/
def occurrences (source : Text) : Nat → List Mark → List Nat
  | _, [] => []
  | offset, m :: rest =>
    let position := occurrence source m.text offset
    position :: occurrences source (position + 1) rest

/-- The positions for which identifiers are asked for. -/
def stampPositions (source : Text) : List Nat :=
  occurrences source 0 ((Line.ofText source).filterMap Line.unaddressed?)

/-- The attribute that gives a mark its address. -/
def addressText (identifier : Text) : Text := " hash=\"v".toList ++ identifier ++ ['"']

/-- The lines with an address behind every mark that needs one, taken from a list of identifiers. -/
def stampLines : List Text → List Line → List Line
  | _, [] => []
  | identifiers, l :: rest =>
    match l.unaddressed?, identifiers with
    | some _, identifier :: later =>
      ⟨l.content ++ addressText identifier, l.ending⟩ :: stampLines later rest
    | _, _ => l :: stampLines identifiers rest

/-- A source in which every mark that can have an address has one. -/
def addressed (mint : Mint) (source : Text) : Text :=
  Line.joined (stampLines ((stampPositions source).mapIdx mint) (Line.ofText source))

end Marginalia
