import Mathlib.Data.List.Basic
import Marginalia.Proofs.Form.Rewriting
import Marginalia.Proofs.Source.Pieces

/-!
# Filling in a form and the marks of the source

A literal is written as the value says, and a value may be any text: one that holds two slashes and
a tag is found as a mark when the source is read again.  A line below a mark may also carry a mark
of its own, and then the literal that is replaced can be a part of that mark, its hash for instance.
So filling in does not keep marks in general (`marksIn_fill_ne`).

It does keep them as long as a rewriting stays clear of them (`Setting.KeepsMarks`): the mark of the
line, if there is one, begins behind the literal, and no mark begins within what is written.  Each
line answers for itself, since line breaks separate marks, also those that a value brings along; so
a rewriting that is not clear has no effect on the marks of any other line.  `marksIn_fill` says
both.
-/

set_option autoImplicit false
namespace Marginalia

/-! ## One setting -/

namespace Setting

/-- The mark of the line, if it has one, begins behind the literal. -/
def MarkBehind (s : Setting) (content : Text) : Prop :=
  ∀ m ∈ Mark.find? content, m.text.length ≤ s.behind.length

instance (s : Setting) (content : Text) : Decidable (s.MarkBehind content) :=
  inferInstanceAs (Decidable (∀ m ∈ Mark.find? content, m.text.length ≤ s.behind.length))

/-- Writing this literal keeps clear of marks: it is the one that stands there already, or the mark
of the line begins behind it and none begins within it. -/
def KeepsMarks (s : Setting) (content literal : Text) : Prop :=
  literal = s.literal ∨ s.MarkBehind content ∧ MarkFree literal s.behind

instance (s : Setting) (content literal : Text) : Decidable (s.KeepsMarks content literal) :=
  inferInstanceAs (Decidable (_ ∨ _))

variable {s : Setting} {content literal : Text}

/-- The literal has no say in whether a mark begins in front of it. -/
theorem markFree_before (hs : of? content = some s) (hone : onOneLine content = true) {x y : Text}
    (h : MarkFree s.before x) : MarkFree s.before y := by
  have hblank : ∀ c, Text.isBlank c = true → c ≠ '/' := by
    rintro _ hc rfl
    cases hc
  rcases of?_shape hs with hb | ⟨sign, blanks, hsign, hb, he⟩
  · exact .of_forall_ne_slash fun c hc => hblank c (hb c hc)
  · rw [he, MarkFree.append_iff] at h ⊢
    refine ⟨h.1.append_sign (foreign_of_sign hsign) ?_ _, .of_forall_ne_slash fun c hc => ?_⟩
    · rw [of?_eq_append hs, before] at hone
      exact (onOneLine_append.1 (onOneLine_append.1 (onOneLine_append.1 hone).1).1).1
    · rcases List.mem_cons.1 hc with rfl | hc
      · exact (foreign_of_sign hsign).slash
      · exact hblank c (hb c hc)

/-- **As long as the mark of the line begins behind the literal, what matters is whether a mark
begins within the new one.** -/
theorem marksIn_withLiteral_eq_iff (hs : of? content = some s) (hone : onOneLine content = true)
    (hm : s.MarkBehind content) :
    marksIn (s.withLiteral literal) = marksIn content ↔ MarkFree literal s.behind := by
  have hcontent := of?_eq_append hs
  have hold : MarkFree (s.before ++ s.literal) s.behind :=
    .of_find? (hcontent ▸ hone) (hcontent ▸ hm)
  have hnew : MarkFree s.before (literal ++ s.behind) :=
    markFree_before hs hone (MarkFree.append_iff.1 hold).1
  have hbehind : onOneLine s.behind = true := by
    rw [hcontent] at hone
    exact (onOneLine_append.1 hone).2
  have hwritten : marksIn (s.withLiteral literal) = marksIn (literal ++ s.behind) := by
    rw [withLiteral_eq, List.append_assoc, hnew.marksIn_append]
  have hstood : marksIn content = marksIn s.behind := by
    rw [hcontent, hold.marksIn_append]
  rw [hwritten, hstood]
  exact marksIn_append_eq_iff hbehind

theorem marksIn_withLiteral (hs : of? content = some s) (hone : onOneLine content = true)
    (h : s.KeepsMarks content literal) : marksIn (s.withLiteral literal) = marksIn content := by
  rcases h with rfl | ⟨hm, hfree⟩
  · rw [← toText, of?_toText hs]
  · exact (marksIn_withLiteral_eq_iff hs hone hm).2 hfree

end Setting

/-! ## All lines -/

/-- What is written into a line keeps clear of marks. -/
def ClearOfMarks (entries : Entries) (user : Option Text) (g : Option Mark × Line) : Prop :=
  ∀ m ∈ g.1, ∀ r ∈ m.rewriting? entries user g.2.content, r.1.KeepsMarks g.2.content r.2

section Filled

variable {entries : Entries} {user : Option Text} {g : Option Mark × Line}

theorem marksIn_filledText (hone : onOneLine g.2.content = true)
    (h : ClearOfMarks entries user g) :
    marksIn (filledText entries user g) = marksIn g.2.content := by
  rcases filledText_cases entries user g with hg | ⟨m, s, literal, hm, hr, hg⟩
  · rw [hg]
  · rw [hg]
    exact Setting.marksIn_withLiteral (Mark.of?_of_rewriting? hr) hone (h m hm (s, literal) hr)

theorem marksIn_filledText_eq_iff (hone : onOneLine g.2.content = true) {m : Mark}
    (hg : g.1 = some m) {r : Setting × Text} (hr : m.rewriting? entries user g.2.content = some r)
    (hm : r.1.MarkBehind g.2.content) :
    marksIn (filledText entries user g) = marksIn g.2.content ↔ MarkFree r.2 r.1.behind := by
  obtain ⟨above, l⟩ := g
  cases hg
  rw [filledText_of_rewriting? hr]
  exact Setting.marksIn_withLiteral_eq_iff (Mark.of?_of_rewriting? hr) hone hm

end Filled

theorem marksIn_lines (source : Text) :
    marksIn source
      = (governors none (Line.ofText source)).flatMap fun g => marksIn g.2.content := by
  have hsource : source = (governors none (Line.ofText source)).flatMap fun g =>
      g.2.content ++ g.2.ending.toText := by
    conv => lhs; rw [← Line.joined_ofText source, ← map_snd_governors none (Line.ofText source)]
    rw [Line.joined, List.flatMap_map]
    rfl
  conv => lhs; rw [hsource]
  exact separated_marksIn.flatMap_governors _ none (Line.orderly_ofText source)

theorem marksIn_filledContent (source : Text) (entries : Entries) (user : Option Text) :
    marksIn (filledContent source entries user)
      = (governors none (Line.ofText source)).flatMap fun g =>
          marksIn (filledText entries user g) := by
  rw [filledContent, ← separated_marksIn.flatMap_governors _ none (Line.orderly_ofText source)]
  exact congrArg marksIn (List.flatMap_congr fun g _ => filledLine_eq entries user g)

/-- What filling in does to the marks of a source, line by line. -/
structure MarksByLine (source : Text) (entries : Entries) (user : Option Text) : Prop where
  /-- The marks that stood there are those of the lines, one line after another. -/
  stood : marksIn source
    = (governors none (Line.ofText source)).flatMap fun g => marksIn g.2.content
  /-- The marks that stand there now are those of the lines that are written instead. -/
  stands : marksIn (fill source entries user).content
    = (governors none (Line.ofText source)).flatMap fun g => marksIn (filledText entries user g)
  /-- A line has the marks it had if it is not rewritten, or rewritten clear of marks. -/
  clear : ∀ g ∈ governors none (Line.ofText source), ClearOfMarks entries user g →
    marksIn (filledText entries user g) = marksIn g.2.content
  /-- A rewritten line whose own mark, if any, begins behind its literal has the marks it had only
  if no mark begins in what is written. -/
  only : ∀ g ∈ governors none (Line.ofText source), ∀ m, g.1 = some m →
    ∀ r, m.rewriting? entries user g.2.content = some r → r.1.MarkBehind g.2.content →
      (marksIn (filledText entries user g) = marksIn g.2.content ↔ MarkFree r.2 r.1.behind)
  /-- If all lines are clear, the source has the marks it had: with their tags, their attributes
  and their whole text. -/
  kept : (∀ g ∈ governors none (Line.ofText source), ClearOfMarks entries user g) →
    marksIn (fill source entries user).content = marksIn source

/-- **Filling in keeps the marks of every line that it stays clear of**, and no line has a say in
the marks of another one. -/
theorem marksIn_fill (source : Text) (entries : Entries) (user : Option Text) :
    MarksByLine source entries user := by
  have hone : ∀ g ∈ governors none (Line.ofText source), onOneLine g.2.content = true := by
    intro g hg
    refine (Line.orderly_ofText source).oneLine _ ?_
    rw [← map_snd_governors none (Line.ofText source)]
    exact List.mem_map_of_mem hg
  have hclear : ∀ g ∈ governors none (Line.ofText source), ClearOfMarks entries user g →
      marksIn (filledText entries user g) = marksIn g.2.content :=
    fun g hg h => marksIn_filledText (hone g hg) h
  refine ⟨marksIn_lines source, marksIn_filledContent source entries user, hclear, ?_, ?_⟩
  · intro g hg m hm r hr hbehind
    exact marksIn_filledText_eq_iff (hone g hg) hm hr hbehind
  · intro hall
    calc marksIn (fill source entries user).content
        = (governors none (Line.ofText source)).flatMap fun g =>
            marksIn (filledText entries user g) := marksIn_filledContent source entries user
      _ = (governors none (Line.ofText source)).flatMap fun g => marksIn g.2.content :=
          List.flatMap_congr fun g hg => hclear g hg (hall g hg)
      _ = marksIn source := (marksIn_lines source).symm

/-- **Marks are not kept in general**, not even their tags and attributes.  In the first source a
number is replaced by a text that brings a mark along; in the second one the literal that is
replaced is the address of the mark below. -/
theorem marksIn_fill_ne :
    (let source := "// @radio hash=\"a\"\nx = 1\n".toList
      let entries := [("a".toList, .text "2 // @toggle hash=\"b\"".toList)]
      (marksIn (fill source entries none).content).map (fun m => (m.tag, m.details))
        ≠ (marksIn source).map fun m => (m.tag, m.details)) ∧
    (let source := "// @input hash=\"a\"\n// @toggle hash=\"b\"\nx = true\n".toList
      let entries := [("a".toList, .text "c".toList)]
      (marksIn (fill source entries none).content).map (fun m => (m.tag, m.details))
        ≠ (marksIn source).map fun m => (m.tag, m.details)) := by
  decide +kernel

end Marginalia
