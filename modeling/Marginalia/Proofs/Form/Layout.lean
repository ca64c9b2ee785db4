import Marginalia.Proofs.Form.Hidden
import Marginalia.Proofs.Source.Pieces

/-!
# Line endings and blank lines carry no meaning

Which lines a source has depends on its line breaks; what the source says depends on its pieces
alone.  Two sources with the same pieces describe the same form to every user, refuse the same
values for the same reasons, and after filling in they have the same pieces again
(`sameButLayout_of_pieces_eq`).  How lines end, how many empty ones stand between them, and whether
the last one is ended, is layout.

Offsets are not a part of this: they differ from the first line break on.  So the lines are put
aside first.  `governingsOf` and `refilledPieces` say what marks govern and what filling in writes,
and they know only pieces.
-/

set_option autoImplicit false
namespace Marginalia

/-! ## Marks, told from pieces -/

/-- The marks of some pieces, each with the piece it governs. -/
def governingsOf : List Text → List (Mark × Option Text)
  | [] => []
  | t :: rest =>
    match Mark.find? t with
    | none => governingsOf rest
    | some m => (m, rest.head?) :: governingsOf rest

theorem head?_filledTexts (lines : List Line) :
    (Line.filledTexts lines).head? = (Line.firstFilled? lines).map Line.content := by
  rw [Line.filledTexts, List.head?_map]
  congr 1
  induction lines with
  | nil => rfl
  | cons l rest ih =>
    rw [List.filter_cons, Line.firstFilled?_cons]
    cases l.isEmpty with
    | true => exact ih
    | false => rfl

/-- **What a mark governs is told from the pieces.** -/
theorem governings_eq (lines : List Line) :
    governings lines = governingsOf (Line.filledTexts lines) := by
  induction lines with
  | nil => rfl
  | cons l rest ih =>
    rw [Line.filledTexts_cons, governings]
    by_cases hl : l.isEmpty = true
    · rw [if_pos hl, Mark.find?_of_isEmpty hl]
      exact ih
    · rw [if_neg hl, governingsOf, ih]
      cases Mark.find? l.content with
      | none => rfl
      | some m =>
        exact congrArg (fun text => (m, text) :: governingsOf (Line.filledTexts rest))
          (head?_filledTexts rest).symm

/-! ## Filling in, told from pieces -/

section

variable {entries : Entries} {user : Option Text}

/-- The pieces that filling in makes of some pieces; `above` is the mark that governs the first. -/
def refilledPieces (entries : Entries) (user : Option Text) : Option Mark → List Text → List Text
  | _, [] => []
  | above, t :: rest =>
    Text.pieces (filledText entries user (above, ⟨t, .absent⟩)) ++
      refilledPieces entries user (Mark.find? t) rest

/-- The ending of a line has no say in what is written into it. -/
theorem filledText_absent (above : Option Mark) (l : Line) :
    filledText entries user (above, l) = filledText entries user (above, ⟨l.content, .absent⟩) :=
  rfl

theorem flatMap_pieces_filledText (above : Option Mark) (lines : List Line) :
    ((governors above lines).flatMap fun g => Text.pieces (filledText entries user g))
      = refilledPieces entries user above (Line.filledTexts lines) := by
  induction lines generalizing above with
  | nil => rfl
  | cons l rest ih =>
    rw [Line.filledTexts_cons, governors]
    by_cases hl : l.isEmpty = true
    · have hnil : filledText entries user (none, l) = [] := Line.isEmpty_iff.1 hl
      rw [if_pos hl, if_pos hl, List.flatMap_cons, hnil, separated_pieces.nil, List.nil_append, ih]
    · rw [if_neg hl, if_neg hl, List.flatMap_cons, ih, refilledPieces, ← filledText_absent]

/-- **Filling in a source works on its pieces.**  A value may bring line breaks along, and then one
piece becomes several. -/
theorem pieces_fill (source : Text) (entries : Entries) (user : Option Text) :
    Text.pieces (fill source entries user).content
      = refilledPieces entries user none (Text.pieces source) := by
  have hlines : (governors none (Line.ofText source)).flatMap (filledLine entries user)
      = (governors none (Line.ofText source)).flatMap fun g =>
        filledText entries user g ++ g.2.ending.toText :=
    List.flatMap_congr fun g _ => filledLine_eq entries user g
  calc Text.pieces (fill source entries user).content
      = Text.pieces ((governors none (Line.ofText source)).flatMap fun g =>
          filledText entries user g ++ g.2.ending.toText) := congrArg Text.pieces hlines
    _ = (governors none (Line.ofText source)).flatMap fun g =>
          Text.pieces (filledText entries user g) :=
        separated_pieces.flatMap_governors _ none (Line.orderly_ofText source)
    _ = refilledPieces entries user none (Text.pieces source) := by
        rw [flatMap_pieces_filledText, pieces_eq]

end

/-! ## The capstone -/

/-- Two sources that nothing but their layout can tell apart. -/
structure SameButLayout (source source' : Text) (user : Option Text) : Prop where
  form : form source user = form source' user
  refusals : ∀ entries : Entries,
    (fill source entries user).refusals = (fill source' entries user).refusals
  /-- What is written is the same but for layout, too. -/
  content : ∀ entries : Entries,
    Text.pieces (fill source entries user).content
      = Text.pieces (fill source' entries user).content

/-- **Line endings and blank lines carry no meaning.** -/
theorem sameButLayout_of_pieces_eq {source source' : Text}
    (h : Text.pieces source = Text.pieces source') (user : Option Text) :
    SameButLayout source source' user := by
  have hgovernings : governings (Line.ofText source) = governings (Line.ofText source') := by
    rw [governings_eq, governings_eq, ← pieces_eq, ← pieces_eq, h]
  have hseen : List.Forall₂ (SeenAlike user) (governings (Line.ofText source))
      (governings (Line.ofText source')) := by
    rw [hgovernings]
    exact List.forall₂_same.2 fun g _ => SeenAlike.refl user g
  exact
    { form := form_congr hseen
      refusals := refusals_congr hseen
      content := fun entries => by rw [pieces_fill, pieces_fill, h] }

/-- Blank lines below a mark, a last line with and without an ending, and a value with line breaks
of its own. -/
theorem sameButLayout_blank_lines :
    let source := ("// @textarea hash=\"a\"\r\n\r\n\nx = 'b'; // c\r" ++
      "// @radio hash=\"d\"\ny = 1").toList
    let source' := ("\n// @textarea hash=\"a\"\rx = 'b'; // c\n" ++
      "// @radio hash=\"d\"\r\n\ny = 1\r\r").toList
    let entries : Entries := [("a".toList, .text "e".toList), ("d".toList, .text "2\r\n3".toList)]
    Text.pieces source = Text.pieces source' ∧ SameButLayout source source' none ∧
      (fill source entries none).content
        = ("// @textarea hash=\"a\"\r\n\r\n\nx = 'e'; // c\r" ++
          "// @radio hash=\"d\"\ny = 2\r\n3").toList ∧
      (fill source' entries none).content
        = ("\n// @textarea hash=\"a\"\rx = 'e'; // c\n" ++
          "// @radio hash=\"d\"\r\n\ny = 2\r\n3\r\r").toList := by
  intro source source' entries
  have h : Text.pieces source = Text.pieces source' := by decide +kernel
  exact ⟨h, sameButLayout_of_pieces_eq h none, by decide +kernel, by decide +kernel⟩

end Marginalia
