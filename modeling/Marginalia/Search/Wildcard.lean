/-!
# Wildcards

A wildcard pattern is a list of pieces, each of which stands for some stretch of what is matched.
`covers` keeps the set of all rests that the pieces so far can leave and asks at the end whether
nothing is left in one of them; since a set of rests is never larger than what is matched is long,
no pattern takes more than polynomial time.

What is matched is a list of numbers: characters by their code points, or bytes, as the one who asks
sees fit.  The slash has the same number in both.
-/

set_option autoImplicit false
namespace Marginalia

/-- What one piece of a pattern stands for. -/
inductive Piece where
  /-- This unit. -/
  | unit (u : Nat)
  /-- Any unit but a slash. -/
  | one
  /-- Any number of units, but no slash. -/
  | run
  /-- A unit that is in one of the ranges, or in none of them if negated. -/
  | oneOf (negated : Bool) (ranges : List (Nat × Nat))
  /-- Any folders in front of a path, down to their last slash, or none. -/
  | leadingFolders
  /-- A slash, or any folders between two slashes. -/
  | innerFolders
  /-- A slash and anything behind it. -/
  | contents
  /-- Anything. -/
  | everything
  deriving DecidableEq, Repr

namespace Wildcard

/-- The slash. -/
def slash : Nat := 47

/-- A list and what remains of it after any number of units. -/
def endings : List Nat → List (List Nat)
  | [] => [[]]
  | x :: r => (x :: r) :: endings r

/-- A list and what remains of it after any number of units other than slashes. -/
def endingsInName : List Nat → List (List Nat)
  | [] => [[]]
  | x :: r => (x :: r) :: if x = slash then [] else endingsInName r

/-- What remains of a list behind any of its slashes. -/
def behindSlashes : List Nat → List (List Nat)
  | [] => []
  | x :: r => if x = slash then r :: behindSlashes r else behindSlashes r

/-- Whether a unit is in one of some ranges. -/
def inRanges (ranges : List (Nat × Nat)) (x : Nat) : Bool :=
  ranges.any fun (low, high) => low ≤ x && x ≤ high

/-- What may remain of a list after a piece. -/
def rests : Piece → List Nat → List (List Nat)
  | .unit u, x :: r => if x = u then [r] else []
  | .one, x :: r => if x = slash then [] else [r]
  | .oneOf negated ranges, x :: r => if inRanges ranges x != negated then [r] else []
  | .run, t => endingsInName t
  | .leadingFolders, t => t :: behindSlashes t
  | .innerFolders, x :: r => if x = slash then r :: behindSlashes r else []
  | .contents, x :: r => if x = slash then endings r else []
  | .everything, t => endings t
  | _, [] => []

/-- Whether some pieces stand for a list as a whole. -/
def covers (pieces : List Piece) (t : List Nat) : Bool :=
  (pieces.foldl (fun left piece => (left.flatMap (rests piece)).eraseDups) [t]).contains []

end Wildcard
end Marginalia
