import Marginalia.Text.Basic

/-!
# Paths

A path is kept as it was spelled, since that is how it is reported.  What it says is its list of
components: repeated slashes say nothing, and neither does a `.`, unless a relative path begins with
it.  So `a//b` and `a/./b` are one path while `./a` and `a` are two, and `components` is what paths
are compared by.

## What is here

* `Path.components`, `Path.same` — what a path says, and when two paths say the same.
* `Path.atMost` — the order of paths: component by component, the root first, then `.`, `..` and the
  names in the order of their characters (`Component.rank`).
* `Path.extension?`, `Path.isScript` — the ending of the last name.
-/

set_option autoImplicit false
namespace Marginalia

/-- One step of a path. -/
inductive Component where
  /-- The slash that an absolute path begins with. -/
  | root
  /-- The `.` that a relative path may begin with. -/
  | here
  /-- A step to the folder around. -/
  | up
  /-- A step to an entry of a folder. -/
  | name (n : Text)
  deriving DecidableEq, Repr

/-- A path as it was spelled. -/
structure Path where
  spelled : Text
  deriving DecidableEq, Repr

namespace Component

/-- What a piece between two slashes stands for; nothing if it is empty or a `.`. -/
def ofPiece? (piece : Text) : Option Component :=
  if piece = [] ∨ piece = ['.'] then none
  else if piece = ['.', '.'] then some up
  else some (name piece)

/-- A word that is ordered as the component is. -/
def rank : Component → List Nat
  | root => [0]
  | here => [1]
  | up => [2]
  | name n => 3 :: n.map Char.toNat

theorem rank_injective {a b : Component} (h : a.rank = b.rank) : a = b := by
  have inj {s t : Text} (ht : s.map Char.toNat = t.map Char.toNat) : s = t :=
    List.map_inj_right (fun _ _ => Char.toNat_inj.1) |>.1 ht
  cases a <;> cases b <;> simp only [rank, List.cons.injEq] at h <;> try omega
  · rfl
  · rfl
  · rfl
  · rw [inj h.2]

end Component

namespace Path

/-- The pieces of a path between its slashes. -/
def pieces (p : Path) : List Text := p.spelled.splitOn '/'

/-- What the first of several pieces stands for: an empty one for the root. -/
def opening (piece : Text) : List Component :=
  if piece = [] then [.root] else if piece = ['.'] then [.here]
  else (Component.ofPiece? piece).toList

/-- What a path says. -/
def components (p : Path) : List Component :=
  if p.spelled = [] then []
  else
    match p.pieces with
    | [] => []
    | first :: rest => opening first ++ rest.filterMap Component.ofPiece?

/-- Whether two paths say the same. -/
def same (p q : Path) : Bool := p.components == q.components

/-- The words by which paths are ordered. -/
def rank (p : Path) : List (List Nat) := p.components.map Component.rank

/-- Whether a path does not come after another. -/
def atMost (p q : Path) : Bool :=
  !List.lex q.rank p.rank fun a b => List.lex a b fun m n => m < n

/-- **Paths of the same rank say the same.** -/
theorem rank_eq_iff {p q : Path} : p.rank = q.rank ↔ p.components = q.components :=
  ⟨fun h => List.map_inj_right (fun _ _ => Component.rank_injective) |>.1 h,
    fun h => by rw [rank, rank, h]⟩

/-- Whether a path says nothing but `.`. -/
def isHere (p : Path) : Bool := p.components == [.here]

/-- The path of an entry of a folder. -/
def join (p : Path) (name : Text) : Path :=
  if p.spelled = [] ∨ p.spelled.getLast? = some '/' then ⟨p.spelled ++ name⟩
  else ⟨p.spelled ++ '/' :: name⟩

/-! ## Names -/

/-- The name that a path ends with. -/
def fileName? (p : Path) : Option Text :=
  match p.components.getLast? with
  | some (.name n) => some n
  | _ => none

/-- The part of a name behind its last dot, unless there is nothing before that dot. -/
def extensionOf? (name : Text) : Option Text :=
  match name.reverse.dropWhile (· ≠ '.') with
  | [] | [_] => none
  | _ :: _ :: _ => some (name.reverse.takeWhile (· ≠ '.')).reverse

/-- The extension of the name that a path ends with. -/
def extension? (p : Path) : Option Text := p.fileName?.bind extensionOf?

/-- The extensions of scripts. -/
def scriptExtensions : List Text := ["js".toList, "mjs".toList, "cjs".toList]

/-- Whether a path ends with the name of a script. -/
def isScript (p : Path) : Bool :=
  match p.extension? with
  | some e => scriptExtensions.contains e
  | none => false

/-- Whether a path leads through a folder of installed packages. -/
def isInstalled (p : Path) : Bool := p.components.contains (.name "node_modules".toList)

end Path
end Marginalia
