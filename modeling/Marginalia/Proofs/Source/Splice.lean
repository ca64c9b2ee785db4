import Marginalia.Text.Basic

/-!
# Replacing stretches of a text

An edit replaces the bytes between two offsets.  `splice?` carries out a list of edits in one pass
from the left: it copies up to the start of an edit, writes the new text and goes on behind the end,
and it passes over an edit that starts before the point it has reached.

`Patched` says the same without looking for offsets: it is the relation between a text and the text
that comes of it, built up from stretches that are kept and stretches that are replaced.  Edits that
are related in this way ascend and do not overlap, none of them is passed over, and `splice?` finds
every offset it needs (`Patched.splice?_eq`).
-/

set_option autoImplicit false
namespace Marginalia

namespace Text

/-- The first bytes of a text; none when there are not so many or the last is inside a character. -/
def takeBytes? : Nat → Text → Option Text
  | 0, _ => some []
  | _ + 1, [] => none
  | n + 1, c :: r =>
    if c.utf8Size ≤ n + 1 then (takeBytes? (n + 1 - c.utf8Size) r).map (c :: ·) else none

@[simp] theorem takeBytes?_byteLength_append (s t : Text) :
    takeBytes? (byteLength s) (s ++ t) = some s := by
  induction s with
  | nil => cases t <;> simp [takeBytes?]
  | cons c r ih =>
    have hc := c.utf8Size_pos
    obtain ⟨n, hn⟩ : ∃ n, byteLength (c :: r) = n + 1 :=
      ⟨byteLength (c :: r) - 1, by rw [byteLength_cons]; omega⟩
    rw [byteLength_cons] at hn
    have hle : c.utf8Size ≤ n + 1 := by omega
    have hr : n + 1 - c.utf8Size = byteLength r := by omega
    rw [byteLength_cons, hn, List.cons_append, takeBytes?, if_pos hle, hr, ih]
    rfl

/-- The bytes of a text between two offsets; none when they are out of order, or one of them is past
the end or inside a character. -/
def slice? (start stop : Nat) (t : Text) : Option Text :=
  if start ≤ stop then (dropBytes? start t).bind (takeBytes? (stop - start)) else none

theorem slice?_append (s kept t : Text) :
    slice? (byteLength s) (byteLength s + byteLength kept) (s ++ (kept ++ t)) = some kept := by
  rw [slice?, if_pos (Nat.le_add_right _ _), dropBytes?_byteLength_append, Option.bind_some,
    Nat.add_sub_cancel_left, takeBytes?_byteLength_append]

end Text

/-! ## Edits -/

/-- The bytes from `start` to `stop`, and the text that takes their place. -/
structure Edit where
  start : Nat
  stop : Nat
  text : Text
  deriving DecidableEq, Repr

namespace Edit

/-- An edit that ends before another one starts. -/
def Before (e f : Edit) : Prop := e.stop ≤ f.start

/-- The edits that are carried out when everything before an offset is done already: one that starts
before the point reached is passed over. -/
def applied : Nat → List Edit → List Edit
  | _, [] => []
  | reached, e :: rest =>
    if e.start < reached then applied reached rest else e :: applied e.stop rest

/-- A text from an offset on, with these edits carried out one after another. -/
def splicedFrom? (source : Text) : Nat → List Edit → Option Text
  | reached, [] => Text.dropBytes? reached source
  | reached, e :: rest =>
    (Text.slice? reached e.start source).bind fun kept =>
      (splicedFrom? source e.stop rest).map fun tail => kept ++ e.text ++ tail

end Edit

/-- A text with edits carried out from the left; none when an edit misses the text. -/
def splice? (source : Text) (edits : List Edit) : Option Text :=
  Edit.splicedFrom? source 0 (Edit.applied 0 edits)

/-! ## Texts that differ in edited stretches only -/

/-- The second text is the first one, which starts at an offset, with these edits: every stretch
either is kept or is what one of the edits replaces. -/
inductive Patched : Nat → List Edit → Text → Text → Prop where
  /-- Nothing is left. -/
  | nil {offset : Nat} : Patched offset [] [] []
  /-- A stretch without an edit stays. -/
  | keep {offset : Nat} {edits : List Edit} {old new : Text} (kept : Text)
      (h : Patched (offset + Text.byteLength kept) edits old new) :
      Patched offset edits (kept ++ old) (kept ++ new)
  /-- A stretch with an edit gives way to its text. -/
  | replace {offset : Nat} {edits : List Edit} {old new : Text} (replaced text : Text)
      (h : Patched (offset + Text.byteLength replaced) edits old new) :
      Patched offset (⟨offset, offset + Text.byteLength replaced, text⟩ :: edits)
        (replaced ++ old) (text ++ new)

namespace Patched

variable {offset : Nat} {edits : List Edit} {old new : Text}

theorem refl (t : Text) : Patched offset [] t t := by
  simpa using keep t nil

theorem single (replaced text : Text) :
    Patched offset [⟨offset, offset + Text.byteLength replaced, text⟩] replaced text := by
  simpa using replace replaced text nil

theorem append {edits' : List Edit} {old' new' : Text} (h : Patched offset edits old new)
    (h' : Patched (offset + Text.byteLength old) edits' old' new') :
    Patched offset (edits ++ edits') (old ++ old') (new ++ new') := by
  induction h with
  | nil => simpa using h'
  | keep kept _ ih =>
    rw [List.append_assoc, List.append_assoc]
    refine keep kept (ih ?_)
    rwa [Text.byteLength_append, ← Nat.add_assoc] at h'
  | replace replaced text _ ih =>
    rw [List.append_assoc, List.append_assoc, List.cons_append]
    refine replace replaced text (ih ?_)
    rwa [Text.byteLength_append, ← Nat.add_assoc] at h'

/-! ### Where the edits stand -/

theorem offset_le (h : Patched offset edits old new) : ∀ e ∈ edits, offset ≤ e.start := by
  induction h with
  | nil => simp
  | keep kept _ ih => exact fun e he => Nat.le_trans (Nat.le_add_right _ _) (ih e he)
  | replace replaced text _ ih =>
    intro e he
    rcases List.mem_cons.1 he with rfl | he
    · exact Nat.le_refl _
    · exact Nat.le_trans (Nat.le_add_right _ _) (ih e he)

/-- The edits ascend and keep off each other. -/
theorem pairwise (h : Patched offset edits old new) : edits.Pairwise Edit.Before := by
  induction h with
  | nil => exact List.Pairwise.nil
  | keep _ _ ih => exact ih
  | replace replaced text h ih => exact List.pairwise_cons.2 ⟨h.offset_le, ih⟩

end Patched

/-- Edits that ascend and keep off each other are all carried out. -/
theorem Edit.applied_eq_self {reached : Nat} {edits : List Edit} (hp : edits.Pairwise Edit.Before)
    (hr : ∀ e ∈ edits, reached ≤ e.start) : Edit.applied reached edits = edits := by
  induction edits generalizing reached with
  | nil => rfl
  | cons e rest ih =>
    obtain ⟨he, hrest⟩ := List.pairwise_cons.1 hp
    have hle : ¬e.start < reached := Nat.not_lt.2 (hr e List.mem_cons_self)
    rw [Edit.applied, if_neg hle, ih hrest he]

namespace Patched

variable {offset : Nat} {edits : List Edit} {old new : Text}

theorem applied_eq (h : Patched offset edits old new) : Edit.applied offset edits = edits :=
  Edit.applied_eq_self h.pairwise h.offset_le

/-- What is done and what is only copied so far are kept apart, since a stretch is copied as one
piece up to the next edit. -/
theorem splicedFrom?_eq (h : Patched offset edits old new) (done copied : Text)
    (ho : offset = Text.byteLength done + Text.byteLength copied) :
    Edit.splicedFrom? (done ++ (copied ++ old)) (Text.byteLength done) edits
      = some (copied ++ new) := by
  induction h generalizing done copied with
  | nil => rw [Edit.splicedFrom?, Text.dropBytes?_byteLength_append]
  | keep kept _ ih =>
    have h' := ih done (copied ++ kept) (by rw [ho, Text.byteLength_append, Nat.add_assoc])
    simpa only [List.append_assoc] using h'
  | replace replaced text _ ih =>
    have h' := ih (done ++ (copied ++ replaced)) [] (by simp [ho, Nat.add_assoc])
    have hstop : Text.byteLength (done ++ (copied ++ replaced))
        = Text.byteLength done + Text.byteLength copied + Text.byteLength replaced := by
      simp [Nat.add_assoc]
    rw [hstop, List.nil_append, List.nil_append] at h'
    simp only [List.append_assoc] at h'
    rw [Edit.splicedFrom?, ho, Text.slice?_append, Option.bind_some, h', Option.map_some,
      List.append_assoc]

/-- **Carrying out the edits gives the second text**, and no edit misses the first. -/
theorem splice?_eq {source result : Text} (h : Patched 0 edits source result) :
    splice? source edits = some result := by
  rw [splice?, h.applied_eq]
  simpa using h.splicedFrom?_eq [] [] rfl

end Patched

/-- An edit that starts before the one in front of it ends is passed over. -/
example : splice? ['a', 'b', 'c', 'd'] [⟨0, 2, ['X']⟩, ⟨1, 3, ['Y']⟩, ⟨3, 4, ['Z']⟩]
    = some ['X', 'c', 'Z'] := by decide

end Marginalia
