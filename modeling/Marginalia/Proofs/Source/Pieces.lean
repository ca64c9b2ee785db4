import Marginalia.Proofs.Mark.Located

/-!
# The pieces of a text

A text is cut at every line break, and the pieces that have any text are kept.  That forgets which
line breaks there are and how many, so it is the view to take where these do not count.

Pieces and marks are told from a text in the same way: a line break separates what is in front of
it from what is behind it.  What follows from that alone is said once, for anything that is
`Separated`: the lines of a source answer each for itself, whatever texts they are given
(`Separated.flatMap_lines`).

## What is here

* `Separated` and `Separated.flatMap_lines` — what is told from a text by its lines.
* `separated_marksIn`, `separated_pieces` — marks and pieces are.
* `pieces_eq` — the pieces of a source are the texts of its lines, without the empty ones.
-/

set_option autoImplicit false
namespace Marginalia

/-! ## What line breaks separate -/

/-- What can be told from a text by telling it from what stands before and behind a line break. -/
structure Separated {α : Type} (f : Text → List α) : Prop where
  nil : f [] = []
  append_break : ∀ {c : Char}, isBreak c = true → ∀ s t, f (s ++ c :: t) = f s ++ f t

theorem separated_marksIn : Separated marksIn := ⟨rfl, marksIn_append_break⟩

/-- Only the last of some lines may have no ending. -/
theorem Line.Orderly.ended {lines : List Line} (h : Line.Orderly lines) :
    lines.Pairwise fun l _ => l.ending ≠ .absent := by
  induction lines with
  | nil => exact List.Pairwise.nil
  | cons l rest ih =>
    refine List.pairwise_cons.2 ⟨fun l' hl' he => ?_, ih h.2⟩
    rw [(h.1.last he).2] at hl'
    cases hl'

namespace Separated

variable {α β : Type} {f : Text → List α}

theorem append_ending (hf : Separated f) {e : Ending} (he : e ≠ .absent) (s t : Text) :
    f (s ++ (e.toText ++ t)) = f s ++ f t := by
  cases e with
  | lf => exact hf.append_break rfl s t
  | cr => exact hf.append_break rfl s t
  | crlf =>
    have ht : f ('\n' :: t) = f t := by
      rw [← List.nil_append ('\n' :: t), hf.append_break rfl, hf.nil, List.nil_append]
    exact (hf.append_break rfl s ('\n' :: t)).trans (by rw [ht])
  | absent => exact absurd rfl he

/-- **Each line answers for itself**, whatever texts the lines are given: the endings keep them
apart. -/
theorem flatMap_lines (hf : Separated f) (text : β → Text) (line : β → Line) {given : List β}
    (h : given.Pairwise fun g _ => (line g).ending ≠ .absent) :
    f (given.flatMap fun g => text g ++ (line g).ending.toText)
      = given.flatMap fun g => f (text g) := by
  induction given with
  | nil => exact hf.nil
  | cons g rest ih =>
    obtain ⟨hg, hrest⟩ := List.pairwise_cons.1 h
    rw [List.flatMap_cons, List.flatMap_cons, List.append_assoc]
    by_cases he : (line g).ending = .absent
    · obtain rfl : rest = [] := List.eq_nil_iff_forall_not_mem.2 fun a ha => hg a ha he
      simp [he, Ending.toText]
    · rw [hf.append_ending he, ih hrest]

theorem joined (hf : Separated f) {lines : List Line}
    (h : lines.Pairwise fun l _ => l.ending ≠ .absent) :
    f (Line.joined lines) = lines.flatMap fun l => f l.content :=
  hf.flatMap_lines Line.content id h

/-- The lines of a source, each with the mark that governs it, may be given other texts. -/
theorem flatMap_governors (hf : Separated f) (text : Option Mark × Line → Text)
    (above : Option Mark) {lines : List Line} (h : Line.Orderly lines) :
    f ((governors above lines).flatMap fun g => text g ++ g.2.ending.toText)
      = (governors above lines).flatMap fun g => f (text g) := by
  have hended : ((governors above lines).map Prod.snd).Pairwise fun l _ => l.ending ≠ .absent := by
    rw [map_snd_governors]
    exact h.ended
  exact hf.flatMap_lines text Prod.snd (List.pairwise_map.1 hended)

end Separated

/-! ## Pieces -/

/-- The texts between the line breaks of a text, the empty ones left out. -/
def Text.pieces (t : Text) : List Text := (t.splitOnP isBreak).filter fun piece => !piece.isEmpty

theorem separated_pieces : Separated Text.pieces where
  nil := by simp [Text.pieces]
  append_break hc s t := by
    rw [Text.pieces, List.splitOnP_append_cons s t hc, List.filter_append]
    rfl

/-- A text on one line is one piece, or none if it is empty. -/
theorem pieces_of_oneLine {t : Text} (h : onOneLine t = true) :
    Text.pieces t = if t.isEmpty then [] else [t] := by
  rw [Text.pieces, List.splitOnP_eq_singleton fun c hc => isBreak_of_mem h hc]
  cases t <;> rfl

/-- The texts of the lines that have any text. -/
def Line.filledTexts (lines : List Line) : List Text :=
  (lines.filter fun l => !l.isEmpty).map Line.content

theorem Line.filledTexts_cons (l : Line) (rest : List Line) :
    filledTexts (l :: rest) = if l.isEmpty then filledTexts rest
      else l.content :: filledTexts rest := by
  rw [filledTexts, List.filter_cons]
  cases l.isEmpty <;> rfl

theorem Line.filledTexts_eq {lines : List Line} (h : Line.Orderly lines) :
    filledTexts lines = lines.flatMap fun l => Text.pieces l.content := by
  induction lines with
  | nil => rfl
  | cons l rest ih =>
    rw [filledTexts_cons, List.flatMap_cons, pieces_of_oneLine h.1.oneLine, ← ih h.2, ← isEmpty]
    cases l.isEmpty <;> rfl

/-- **The pieces of a source are the texts of its lines**, without the empty ones. -/
theorem pieces_eq (source : Text) : Text.pieces source = Line.filledTexts (Line.ofText source) := by
  have horderly := Line.orderly_ofText source
  rw [Line.filledTexts_eq horderly, ← separated_pieces.joined horderly.ended, Line.joined_ofText]

end Marginalia
