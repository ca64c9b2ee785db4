/-!
# Text as a list of characters

Everything this library reads or writes is a `Text`, a list of characters, so that cutting a text
into parts and joining the parts again are `++` and its laws.  Positions matter only where they are
reported, and there they are counted in bytes of the UTF-8 encoding: `byteLength` measures a text,
`dropBytes?` and `findBytes?` turn a byte offset into the rest of a text and back.

## What is here

* `byteLength` — additive over `++`, and zero for the empty text only.
* `dropBytes?`, `findBytes?` — the rest of a text at a byte offset, and the offset of the first
  occurrence of another text.
* `holds`, `cutAt?` — occurrence of a text, and the cut at the first occurrence of a character.
-/

set_option autoImplicit false
namespace Marginalia

/-- A text: its characters in order. -/
abbrev Text := List Char

namespace Text

/-! ## Bytes -/

/-- The number of bytes of a text in UTF-8. -/
def byteLength (t : Text) : Nat := t.foldr (fun c n => c.utf8Size + n) 0

@[simp] theorem byteLength_nil : byteLength [] = 0 := rfl

@[simp] theorem byteLength_cons (c : Char) (t : Text) :
    byteLength (c :: t) = c.utf8Size + byteLength t := by
  simp [byteLength]

@[simp] theorem byteLength_append (s t : Text) :
    byteLength (s ++ t) = byteLength s + byteLength t := by
  induction s with
  | nil => simp
  | cons c r ih => simp [ih, Nat.add_assoc]

theorem byteLength_eq_zero_iff {t : Text} : byteLength t = 0 ↔ t = [] := by
  cases t with
  | nil => simp
  | cons c r => have := c.utf8Size_pos; simp; omega

/-- The rest of a text from a byte offset on; none when the offset is past the end or inside a
character. -/
def dropBytes? : Nat → Text → Option Text
  | 0, t => some t
  | _ + 1, [] => none
  | n + 1, c :: r => if c.utf8Size ≤ n + 1 then dropBytes? (n + 1 - c.utf8Size) r else none

@[simp] theorem dropBytes?_byteLength_append (s t : Text) :
    dropBytes? (byteLength s) (s ++ t) = some t := by
  induction s with
  | nil => cases t <;> simp [dropBytes?]
  | cons c r ih =>
    have hc := c.utf8Size_pos
    obtain ⟨n, hn⟩ : ∃ n, byteLength (c :: r) = n + 1 := ⟨byteLength (c :: r) - 1, by
      simp only [byteLength_cons]; omega⟩
    have hle : c.utf8Size ≤ n + 1 := by simp only [byteLength_cons] at hn; omega
    have hr : n + 1 - c.utf8Size = byteLength r := by simp only [byteLength_cons] at hn; omega
    rw [hn, List.cons_append, dropBytes?, if_pos hle, hr, ih]

/-! ## Order -/

/-- Whether a text does not come after another, by the first characters that differ. -/
def atMost (s t : Text) : Bool := !List.lex t s fun c d => c.toNat < d.toNat

/-! ## Occurrences -/

/-- The bytes before the first occurrence of `needle`, counted from `before` on. -/
def findBytesFrom? (needle : Text) : Nat → Text → Option Nat
  | before, [] => if needle = [] then some before else none
  | before, c :: r =>
    if needle.isPrefixOf (c :: r) then some before
    else findBytesFrom? needle (before + c.utf8Size) r

/-- The byte offset of the first occurrence of `needle`. -/
def findBytes? (needle t : Text) : Option Nat := findBytesFrom? needle 0 t

/-- Whether `needle` occurs in a text. -/
def holds (needle t : Text) : Bool := (findBytes? needle t).isSome

/-- The text before and after the first occurrence of a character. -/
def cutAt? (c : Char) (t : Text) : Option (Text × Text) :=
  match t.dropWhile (· ≠ c) with
  | [] => none
  | _ :: after => some (t.takeWhile (· ≠ c), after)

/-- Cutting loses the one separator and nothing else. -/
theorem cutAt?_eq_some {c : Char} {t before after : Text} (h : cutAt? c t = some (before, after)) :
    t = before ++ c :: after := by
  unfold cutAt? at h
  split at h
  · cases h
  · rename_i d r hd
    have hne : t.dropWhile (fun x => decide (x ≠ c)) ≠ [] := by rw [hd]; exact List.cons_ne_nil _ _
    have hc := List.head_dropWhile_not (fun x : Char => decide (x ≠ c)) hne
    simp only [hd, List.head_cons, decide_eq_false_iff_not, ne_eq, Decidable.not_not] at hc
    have ht := List.takeWhile_append_dropWhile (p := fun x : Char => decide (x ≠ c)) (l := t)
    cases h
    rw [hd, hc] at ht
    exact ht.symm

end Text
end Marginalia
