import Marginalia.Mark.Attributes
import Marginalia.Tag.Basic

/-!
# Marks

A mark is a comment of the form `// @tag attributes` that reaches to the end of its line.  It may
stand behind code, so a line is searched from the left, and the first place at which the form is met
is the mark: everything behind that place belongs to it, further marks included.  A line has at most
one mark for that reason.

`Mark.startingAt?` tests one place.  Spaces, and no other blanks, separate the slashes, the tag and
the attributes; if nothing but spaces follows the tag, the last of them is the attribute text, so a
tag with a single space behind it is no mark.
-/

set_option autoImplicit false
namespace Marginalia

/-- A comment that names a tag. -/
structure Mark where
  tag : Tag
  /-- The whole comment. -/
  text : Text
  /-- The text behind the tag. -/
  details : Text
  deriving DecidableEq, Repr

namespace Mark

/-- A text without the spaces in front; none when there is no space. -/
def afterSpaces? : Text → Option Text
  | ' ' :: r => some (r.dropWhile (· = ' '))
  | _ => none

/-- The attribute text behind a tag. -/
def details? (t : Text) : Option Text :=
  match t with
  | ' ' :: r =>
    match r.dropWhile (· = ' ') with
    | [] => if r = [] then none else some [' ']
    | rest => some rest
  | _ => none

/-- The tag a text begins with, and the attribute text behind it. -/
def tagged? (t : Text) : Option (Tag × Text) :=
  Tag.all.findSome? fun tag =>
    (tag.name.isPrefixOf? t).bind fun r => (details? r).map fun details => (tag, details)

/-- The mark that a text is, if it has the form of one from its first character on. -/
def startingAt? (t : Text) : Option Mark :=
  match t with
  | '/' :: '/' :: r =>
    match afterSpaces? r with
    | some ('@' :: r') => (tagged? r').map fun (tag, details) => ⟨tag, t, details⟩
    | _ => none
  | _ => none

/-- The mark of a line: the one at the first place where there is one. -/
def find? : Text → Option Mark
  | [] => none
  | c :: r =>
    match startingAt? (c :: r) with
    | some m => some m
    | none => find? r

/-- The attributes of a mark. -/
def attributes (m : Mark) : Attributes := Attributes.ofText m.details

/-- The address of a mark. -/
def hash? (m : Mark) : Option Text := m.attributes.hash?

theorem startingAt?_text {t : Text} {m : Mark} (h : startingAt? t = some m) : m.text = t := by
  unfold startingAt? at h
  split at h
  · split at h
    · obtain ⟨⟨tag, details⟩, -, rfl⟩ := Option.map_eq_some_iff.1 h; rfl
    · cases h
  · cases h

/-- A mark reaches to the end of its line. -/
theorem find?_suffix {t : Text} {m : Mark} (h : find? t = some m) : m.text <:+ t := by
  induction t with
  | nil => cases h
  | cons c r ih =>
    unfold find? at h
    split at h
    · rename_i m' hm
      cases h
      exact ⟨[], startingAt?_text hm⟩
    · exact (ih h).trans (List.suffix_cons c r)

end Mark

end Marginalia
