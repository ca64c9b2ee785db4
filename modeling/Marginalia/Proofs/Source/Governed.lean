import Marginalia.Source.Placed

/-!
# Which mark governs which line

`Placed.ofLines` looks from the marks down to the lines they govern, `governors` from the lines up
to the marks that govern them.  Reading a form needs the first view and filling it in needs the
second, so what is known about one has to be carried over to the other.

## What is here

* `governedFrom` — the governed lines, each with its mark and the offset at which it starts.  It is
  what the two views have in common: `governedFrom_none` reads it off the marks, and
  `exists_mem_governedFrom` off the lines.
* `Placed.view` and `governings` — a mark with the text it governs, and all of them without any
  offset.  Everything that does not report a place depends on these alone (`map_view_ofLines`).
* `governorBelow` — the mark that governs whatever comes next, with which `governors` and
  `governedFrom` can be cut at any line.
* `Placed.exists_lines_of_governed` — a governed line, found in the source.
-/

set_option autoImplicit false
namespace Marginalia

theorem Line.isEmpty_iff {l : Line} : l.isEmpty = true ↔ l.content = [] := List.isEmpty_iff

theorem Line.isEmpty_eq_false_iff {l : Line} : l.isEmpty = false ↔ l.content ≠ [] :=
  List.isEmpty_eq_false_iff

theorem Mark.find?_of_isEmpty {l : Line} (h : l.isEmpty = true) : Mark.find? l.content = none := by
  rw [Line.isEmpty_iff.1 h]
  rfl

theorem Mark.not_isEmpty_of_find? {l : Line} {m : Mark} (h : Mark.find? l.content = some m) :
    ¬l.isEmpty = true := by
  intro he
  rw [Mark.find?_of_isEmpty he] at h
  cases h

/-! ## Governed lines with their offsets -/

/-- The governed lines among some lines, the first of which starts at an offset; `above` is the
mark that governs the first of them that has any text. -/
def governedFrom (above : Option Mark) (offset : Nat) : List Line → List (Mark × Nat × Line)
  | [] => []
  | l :: rest =>
    if l.isEmpty then governedFrom above (offset + l.byteLength) rest
    else (above.map fun m => (m, offset, l)).toList ++
      governedFrom (Mark.find? l.content) (offset + l.byteLength) rest

/-- The mark of a place with the line it governs. -/
def Placed.governing? (p : Placed) : Option (Mark × Nat × Line) :=
  p.governed.map fun at_ => (p.mark, at_)

/-- The first line with text is governed by the mark above, and every other governed line by a mark
among the lines. -/
theorem governedFrom_eq (above : Option Mark) (offset : Nat) (lines : List Line) :
    governedFrom above offset lines
      = (above.bind fun m => (Placed.firstFilled? offset lines).map fun at_ => (m, at_)).toList ++
        (Placed.ofLines offset lines).filterMap Placed.governing? := by
  induction lines generalizing above offset with
  | nil => cases above <;> rfl
  | cons l rest ih =>
    by_cases hl : l.isEmpty = true
    · rw [governedFrom, if_pos hl, ih, Placed.firstFilled?, if_pos hl]
      simp only [Placed.ofLines, Mark.find?_of_isEmpty hl]
    · rw [governedFrom, if_neg hl, ih, Placed.firstFilled?, if_neg hl]
      simp only [Placed.ofLines]
      congr 1
      · cases above <;> rfl
      · cases Mark.find? l.content with
        | none => rfl
        | some m =>
          rw [List.filterMap_cons]
          cases hf : Placed.firstFilled? (offset + l.byteLength) rest <;>
            simp [Placed.governing?]

theorem governedFrom_none (offset : Nat) (lines : List Line) :
    governedFrom none offset lines
      = (Placed.ofLines offset lines).filterMap Placed.governing? := by
  rw [governedFrom_eq]
  rfl

theorem exists_mem_governedFrom {above : Option Mark} {m : Mark} {l : Line} (offset : Nat)
    {lines : List Line} (h : (some m, l) ∈ governors above lines) :
    ∃ start, (m, start, l) ∈ governedFrom above offset lines := by
  induction lines generalizing above offset with
  | nil => cases h
  | cons a rest ih =>
    rw [governors] at h
    rw [governedFrom]
    split at h
    · rename_i ha
      rw [if_pos ha]
      rcases List.mem_cons.1 h with h | h
      · cases h
      · exact ih _ h
    · rename_i ha
      rw [if_neg ha]
      rcases List.mem_cons.1 h with h | h
      · obtain ⟨rfl, rfl⟩ := Prod.mk.inj h
        exact ⟨offset, List.mem_append_left _ (by simp)⟩
      · obtain ⟨start, hs⟩ := ih (offset + a.byteLength) h
        exact ⟨start, List.mem_append_right _ hs⟩

/-- **A line that is governed is governed by a mark of the source.** -/
theorem exists_placed_of_mem_governors {source : Text} {m : Mark} {l : Line}
    (h : (some m, l) ∈ governors none (Line.ofText source)) :
    ∃ p ∈ Placed.ofText source, p.mark = m ∧ p.content? = some l.content := by
  obtain ⟨start, hs⟩ := exists_mem_governedFrom 0 h
  rw [governedFrom_none] at hs
  obtain ⟨p, hp, hg⟩ := List.mem_filterMap.1 hs
  obtain ⟨at_, hat, he⟩ := Option.map_eq_some_iff.1 hg
  cases he
  exact ⟨p, hp, rfl, by rw [Placed.content?, hat]; rfl⟩

/-! ## Marks without their places -/

/-- A mark and the text of the line it governs. -/
def Placed.view (p : Placed) : Mark × Option Text := (p.mark, p.content?)

/-- The first line that has any text, wherever the lines start. -/
def Line.firstFilled? (lines : List Line) : Option Line :=
  (Placed.firstFilled? 0 lines).map Prod.snd

/-- The marks of some lines, each with the text of the line it governs. -/
def governings : List Line → List (Mark × Option Text)
  | [] => []
  | l :: rest =>
    match Mark.find? l.content with
    | none => governings rest
    | some m => (m, (Line.firstFilled? rest).map Line.content) :: governings rest

theorem Placed.map_snd_firstFilled? (offset : Nat) (lines : List Line) :
    (Placed.firstFilled? offset lines).map Prod.snd = Line.firstFilled? lines := by
  rw [Line.firstFilled?]
  generalize 0 = offset'
  induction lines generalizing offset offset' with
  | nil => rfl
  | cons l rest ih =>
    rw [Placed.firstFilled?, Placed.firstFilled?]
    split
    · exact ih _ _
    · rfl

theorem Line.firstFilled?_cons (l : Line) (rest : List Line) :
    Line.firstFilled? (l :: rest) = if l.isEmpty then Line.firstFilled? rest else some l := by
  rw [Line.firstFilled?, Placed.firstFilled?]
  split
  · exact Placed.map_snd_firstFilled? _ rest
  · rfl

/-- **Offsets decide nothing but themselves**: without them, the marks of some lines do not depend
on where the lines start. -/
theorem map_view_ofLines (offset : Nat) (lines : List Line) :
    (Placed.ofLines offset lines).map Placed.view = governings lines := by
  induction lines generalizing offset with
  | nil => rfl
  | cons l rest ih =>
    simp only [Placed.ofLines, governings]
    cases Mark.find? l.content with
    | none => exact ih _
    | some m =>
      rw [List.map_cons, ih, ← Placed.map_snd_firstFilled? (offset + l.byteLength) rest,
        Option.map_map]
      rfl

theorem map_view_ofText (source : Text) :
    (Placed.ofText source).map Placed.view = governings (Line.ofText source) :=
  map_view_ofLines 0 _

theorem map_mark_ofLines (offset : Nat) (lines : List Line) :
    (Placed.ofLines offset lines).map Placed.mark
      = lines.filterMap fun l => Mark.find? l.content := by
  induction lines generalizing offset with
  | nil => rfl
  | cons l rest ih =>
    simp only [Placed.ofLines, List.filterMap_cons]
    cases Mark.find? l.content with
    | none => exact ih _
    | some m => rw [List.map_cons, ih]

/-! ## Cutting the lines in two -/

/-- The mark that governs what comes next; `above` is the one from above the lines. -/
def governorBelow (above : Option Mark) : List Line → Option Mark
  | [] => above
  | l :: rest => governorBelow (if l.isEmpty then above else Mark.find? l.content) rest

theorem governors_append (above : Option Mark) (lines below : List Line) :
    governors above (lines ++ below)
      = governors above lines ++ governors (governorBelow above lines) below := by
  induction lines generalizing above with
  | nil => rfl
  | cons l rest ih =>
    rw [List.cons_append, governors, governors, governorBelow]
    split <;> simp [ih]

theorem governedFrom_append (above : Option Mark) (offset : Nat) (lines below : List Line) :
    governedFrom above offset (lines ++ below)
      = governedFrom above offset lines ++
        governedFrom (governorBelow above lines) (offset + Text.byteLength (Line.joined lines))
          below := by
  induction lines generalizing above offset with
  | nil => simp [governedFrom, governorBelow, Line.joined]
  | cons l rest ih =>
    have hoffset : offset + l.byteLength + Text.byteLength (Line.joined rest)
        = offset + Text.byteLength (Line.joined (l :: rest)) := by
      simp [Line.joined, Line.byteLength, Nat.add_assoc]
    rw [List.cons_append, governedFrom, governedFrom, governorBelow, ih, ih, hoffset]
    split <;> simp

theorem Placed.exists_lines_of_firstFilled? {offset start : Nat} {lines : List Line} {l : Line}
    (above : Option Mark) (h : Placed.firstFilled? offset lines = some (start, l)) :
    ∃ before below, lines = before ++ l :: below ∧ l.isEmpty = false ∧
      start = offset + Text.byteLength (Line.joined before) ∧
      governorBelow above before = above := by
  induction lines generalizing offset with
  | nil => cases h
  | cons a rest ih =>
    rw [Placed.firstFilled?] at h
    split at h
    · rename_i ha
      obtain ⟨before, below, rfl, hl, rfl, hg⟩ := ih h
      refine ⟨a :: before, below, rfl, hl, ?_, by rw [governorBelow, if_pos ha, hg]⟩
      simp [Line.joined, Line.byteLength, Nat.add_assoc]
    · rename_i ha
      cases h
      exact ⟨[], rest, rfl, by simpa using ha, by simp [Line.joined], rfl⟩

theorem Placed.exists_lines_of_mem_ofLines {offset start : Nat} {lines : List Line} {l : Line}
    {p : Placed} (above : Option Mark) (hp : p ∈ Placed.ofLines offset lines)
    (hg : p.governed = some (start, l)) :
    ∃ before below, lines = before ++ l :: below ∧ l.isEmpty = false ∧
      start = offset + Text.byteLength (Line.joined before) ∧
      governorBelow above before = some p.mark := by
  induction lines generalizing offset above with
  | nil => cases hp
  | cons a rest ih =>
    simp only [Placed.ofLines] at hp
    -- either the mark stands in this line, or further down
    have hdown : p ∈ Placed.ofLines (offset + a.byteLength) rest →
        ∃ before below, a :: rest = before ++ l :: below ∧ l.isEmpty = false ∧
          start = offset + Text.byteLength (Line.joined before) ∧
          governorBelow above before = some p.mark := by
      intro hp
      obtain ⟨before, below, rfl, hl, rfl, hb⟩ :=
        ih (if a.isEmpty then above else Mark.find? a.content) hp
      refine ⟨a :: before, below, rfl, hl, ?_, hb⟩
      simp [Line.joined, Line.byteLength, Nat.add_assoc]
    split at hp
    · exact hdown hp
    · rename_i m hm
      rcases List.mem_cons.1 hp with rfl | hp
      · obtain ⟨before, below, rfl, hl, rfl, hb⟩ :=
          Placed.exists_lines_of_firstFilled? (some m) hg
        refine ⟨a :: before, below, rfl, hl, ?_,
          by rw [governorBelow, if_neg (Mark.not_isEmpty_of_find? hm), hm, hb]⟩
        simp [Line.joined, Line.byteLength, Nat.add_assoc]
      · exact hdown hp

/-- **A governed line, found in the source**: it stands where it is said to start, and the mark is
the one that governs whatever comes at that point. -/
theorem Placed.exists_lines_of_governed {source : Text} {start : Nat} {l : Line} {p : Placed}
    (hp : p ∈ Placed.ofText source) (hg : p.governed = some (start, l)) :
    ∃ before below, Line.ofText source = before ++ l :: below ∧ l.isEmpty = false ∧
      start = Text.byteLength (Line.joined before) ∧
      governorBelow none before = some p.mark := by
  simpa using Placed.exists_lines_of_mem_ofLines none hp hg

end Marginalia
