import Marginalia.Text.Blank
import Marginalia.Text.Keyed

/-!
# Attributes of a mark

Attributes are written `key="value"`, one after another.  A value runs to the next quotation mark,
so it may hold blanks and equals signs but no quotation mark.  Reading stops without complaint where
the text no longer has that form (`readPairs`); what was read up to there counts.

`Attributes` keeps the order in which keys first appear.  A key that is written again takes the
later value in its first place.

A mark may name the users it is meant for, separated by semicolons.  A list that names nobody
restricts nobody; one that names somebody admits those users and no one without a name (`Access`).
-/

set_option autoImplicit false
namespace Marginalia

/-- Keys and their values, in the order in which the keys first appeared. -/
structure Attributes where
  pairs : Keyed Text
  deriving DecidableEq, Repr

namespace Attributes

/-- The value of a key. -/
def get? (a : Attributes) (key : Text) : Option Text := Keyed.get? a.pairs key

/-- The attributes with a new value for a key. -/
def insert (a : Attributes) (key value : Text) : Attributes := ⟨Keyed.set key value a.pairs⟩

/-! ## Reading -/

/-- One attribute at the beginning of a text: its key, its value, and the rest without the blanks
in front. -/
def readPair? (t : Text) : Option (Text × Text × Text) :=
  match Text.cutAt? '=' t with
  | some (key, '"' :: body) =>
    (Text.cutAt? '"' body).map fun (value, rest) => (Text.trim key, value, Text.trimStart rest)
  | _ => none

theorem readPair?_lt {t key value rest : Text} (h : readPair? t = some (key, value, rest)) :
    rest.length < t.length := by
  unfold readPair? at h
  split at h
  · rename_i k body hcut
    obtain ⟨⟨v, r⟩, hv, he⟩ := Option.map_eq_some_iff.1 h
    have h1 := Text.cutAt?_eq_some hcut
    have h2 := Text.cutAt?_eq_some hv
    simp only [Prod.mk.injEq] at he
    have h3 : rest.length ≤ r.length := by
      rw [← he.2.2, Text.trimStart]; exact (List.dropWhile_sublist _).length_le
    rw [h1, h2]
    simp only [List.length_append, List.length_cons]
    omega
  · cases h

/-- The attributes a text begins with, as far as they go. -/
def readPairs (t : Text) : List (Text × Text) :=
  match _h : readPair? t with
  | none => []
  | some (key, value, rest) => (key, value) :: readPairs rest
termination_by t.length
decreasing_by exact readPair?_lt _h

/-- The attributes a text writes.  A value without a key is passed over. -/
def ofText (t : Text) : Attributes :=
  ⟨Keyed.ofPairs ((readPairs (Text.trim t)).filter fun pair => !pair.1.isEmpty)⟩

/-! ## Attributes with a meaning -/

/-- The value of a key, unless it is empty. -/
def getFilled? (a : Attributes) (key : Text) : Option Text :=
  (a.get? key).filter fun v => !v.isEmpty

/-- The address of the mark. -/
def hash? (a : Attributes) : Option Text := a.getFilled? "hash".toList

/-- The group the mark belongs to. -/
def group? (a : Attributes) : Option Text := a.getFilled? "group".toList

end Attributes

/-! ## Who may see a mark -/

/-- The users a mark is meant for. -/
structure Access where
  users : List Text
  deriving DecidableEq, Repr

namespace Access

/-- The users named in a text, each once, in order. -/
def ofText (t : Text) : Access :=
  ⟨(((t.splitOn ';').map Text.trim).filter fun user => !user.isEmpty).eraseDups⟩

/-- Whether a user is named. -/
def allows (a : Access) : Option Text → Bool
  | some user => a.users.contains user
  | none => false

/-- Whether nobody is named. -/
def isEmpty (a : Access) : Bool := a.users.isEmpty

end Access

namespace Attributes

/-- The users a mark is meant for, if it names any. -/
def access? (a : Attributes) : Option Access :=
  ((a.get? "access".toList).map Access.ofText).filter fun list => !list.isEmpty

/-- Whether a user may see the mark. -/
def visibleTo (a : Attributes) (user : Option Text) : Bool :=
  match a.access? with
  | some list => list.allows user
  | none => true

end Attributes
end Marginalia
