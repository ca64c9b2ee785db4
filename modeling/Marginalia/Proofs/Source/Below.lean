import Marginalia.Proofs.Source.LineByLine

/-!
# What stands below a mark

Which line a mark governs is told by the lines below it: it is the first that is not empty.  Who has
only the text can start where the mark ends, pass over all line breaks that follow, and take what
stands between there and the next one.  `Text.slotBelow?` is that search, with the offsets in bytes
that it works with.

Empty lines and line breaks are not the same in number, since a carriage return and a line feed end
one line together, but the search never counts them.  That it must pass over one line break at least
makes no difference either, because a mark reaches to the end of its line.

* `Line.Precedes.leadingBreak_eq` — the line break that ends a line, found in the text.
* `Placed.slotBelow?_eq` — **the search finds the line that the mark governs**.
-/

set_option autoImplicit false
namespace Marginalia

namespace Text

/-- The line break that a text begins with. -/
def leadingBreak : Text → Text
  | '\r' :: '\n' :: _ => ['\r', '\n']
  | '\r' :: _ => ['\r']
  | '\n' :: _ => ['\n']
  | _ => []

/-- The first place that is not a line break, counted from an offset on: where it is, the text from
there to the next line break, and that line break. -/
def slotFrom? (offset : Nat) (t : Text) : Option (Nat × Text × Text) :=
  let start := offset + byteLength (t.takeWhile isBreak)
  match t.dropWhile isBreak with
  | [] => none
  | slot =>
    some (start, slot.takeWhile (fun c => !isBreak c),
      leadingBreak (slot.dropWhile fun c => !isBreak c))

/-- What stands below the line that ends at a place; none when the place misses the text, and none
inside when nothing stands there. -/
def slotBelow? (place : Nat) (t : Text) : Option (Option (Nat × Text × Text)) :=
  (dropBytes? place t).map fun behind =>
    if behind.takeWhile isBreak = [] then none else slotFrom? place behind

variable {breaks content behind : Text}

/-- Line breaks are passed over. -/
theorem slotFrom?_append (h : ∀ c ∈ breaks, isBreak c = true) (offset : Nat) (t : Text) :
    slotFrom? offset (breaks ++ t) = slotFrom? (offset + byteLength breaks) t := by
  rw [slotFrom?, slotFrom?, List.takeWhile_append_of_pos h, List.dropWhile_append_of_pos h,
    byteLength_append, Nat.add_assoc]

theorem slotFrom?_eq (hone : onOneLine content = true) (hne : content ≠ [])
    (hends : ∀ c ∈ behind.head?, isBreak c = true) (offset : Nat) :
    slotFrom? offset (content ++ behind) = some (offset, content, leadingBreak behind) := by
  obtain ⟨c, rest, rfl⟩ := List.exists_cons_of_ne_nil hne
  have hc : isBreak c = false := isBreak_of_mem hone List.mem_cons_self
  have hcut := (takeWhile_dropWhile_iff (t := c :: rest ++ behind) (f := fun c => !isBreak c)).2
    ⟨rfl, fun d hd => by rw [isBreak_of_mem hone hd]; rfl, fun d hd => by rw [hends d hd]; rfl⟩
  rw [List.cons_append] at hcut ⊢
  rw [slotFrom?, List.takeWhile_cons_of_neg (by simp [hc]), List.dropWhile_cons_of_neg (by simp [hc])]
  simp only [hcut]
  rfl

end Text

namespace Line

variable {l : Line} {rest lines : List Line}

/-- What follows the text of a line begins with the ending of the line, and with no more. -/
theorem Precedes.leadingBreak_eq (h : l.Precedes rest) (horderly : Orderly rest) :
    Text.leadingBreak (l.ending.toText ++ joined rest) = l.ending.toText := by
  cases he : l.ending with
  | absent =>
    rw [(h.last he).2]
    rfl
  | lf => rfl
  | crlf => rfl
  | cr =>
    -- a line feed behind the carriage return would be a line of its own
    cases hjoined : joined rest with
    | nil => rfl
    | cons c t =>
      have hc : c ≠ '\n' := by
        rintro rfl
        refine h.apart he ?_
        rw [← ofText_joined horderly, hjoined]
        rfl
      simp [Ending.toText, Text.leadingBreak, hc]

/-- A governed line as the search gives it. -/
def slot (at_ : Nat × Line) : Nat × Text × Text :=
  (at_.1, at_.2.content, at_.2.ending.toText)

/-- **The first line that is not empty is what stands behind the first line breaks.** -/
theorem slotFrom?_joined (h : Orderly lines) (offset : Nat) :
    Text.slotFrom? offset (joined lines) = (Placed.firstFilled? offset lines).map slot := by
  induction lines generalizing offset with
  | nil => rfl
  | cons l rest ih =>
    rw [joined_cons, Placed.firstFilled?]
    split
    · rename_i hempty
      have hcontent := isEmpty_iff.1 hempty
      have hlength : l.byteLength = Text.byteLength l.ending.toText := by
        rw [byteLength, toText, hcontent, List.nil_append]
      rw [hcontent, List.nil_append, Text.slotFrom?_append fun c hc => Ending.isBreak_of_mem hc,
        ih h.2, hlength]
    · rename_i hfilled
      rw [Text.slotFrom?_eq h.1.oneLine (by simpa [isEmpty] using hfilled) h.1.ends,
        h.1.leadingBreak_eq h.2]
      rfl

end Line

namespace Placed

variable {p : Placed} {source : Text}

/-- **What stands below a mark is the line that it governs**, and the search misses the text
nowhere. -/
theorem slotBelow?_eq (hp : p ∈ ofText source) :
    Text.slotBelow? p.stop source = some (p.governed.map Line.slot) := by
  obtain ⟨above, l, below, hlines, hl⟩ := exists_inLine_of_mem_ofText hp
  have hrun := Line.isRun_of_ofText hlines
  have horderly : Line.Orderly (above ++ l :: below) := hlines ▸ Line.orderly_ofText source
  have hdrop : Text.dropBytes? p.stop source = some (l.ending.toText ++ Line.joined below) := by
    rw [hl.stop_eq, ← Text.byteLength_append, hrun.split, ← List.append_assoc]
    exact Text.dropBytes?_byteLength_append _ _
  have hbreaks : ∀ c ∈ l.ending.toText, isBreak c = true := fun c hc => Ending.isBreak_of_mem hc
  have hoffset : Text.byteLength (Line.joined above) + l.byteLength
      = p.stop + Text.byteLength l.ending.toText := by
    rw [hl.stop_eq, Line.byteLength, Line.toText, Text.byteLength_append, Nat.add_assoc]
  rw [Text.slotBelow?, hdrop, Option.map_some, hl.governed, hoffset]
  by_cases habsent : l.ending = .absent
  · rw [(horderly.precedes.last habsent).2, habsent]
    rfl
  · have hpassed : (l.ending.toText ++ Line.joined below).takeWhile isBreak ≠ [] := by
      rw [List.takeWhile_append_of_pos hbreaks]
      exact List.append_ne_nil_of_left_ne_nil (mt Ending.toText_eq_nil_iff.1 habsent) _
    rw [if_neg hpassed, Text.slotFrom?_append hbreaks, Line.slotFrom?_joined horderly.of_append.2]

/-- A mark above two empty lines, one of which ends with two characters, and one at the end. -/
example :
    let source := "// @date x\r\r\n\ny\r\n// @step z\n".toList
    (ofText source).map (fun p => Text.slotBelow? p.stop source)
      = [some (some (14, "y".toList, "\r\n".toList)), some none] := by
  decide +kernel

end Placed
end Marginalia
