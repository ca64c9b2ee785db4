import Marginalia.Proofs.Mark.Located

/-!
# Lines and the runs of a text

Which lines a text has is said by reading it from the back (`Line.ofText`), and that reading has to
tell a carriage return from a carriage return with its line feed.  Seen from the text there is a
simpler notion: a run is a piece without line breaks that cannot be made longer.  Here the two are
matched: the text of a line is a run, and a run that has any text is the text of one line.

The empty runs are the exception, and the only one: there is one between a carriage return and its
line feed, and one behind a last line break, and neither is a line.

## What is here

* `IsRun` — a maximal piece of a text without line breaks, with what stands before and behind it.
* `Line.isRun_of_ofText` — a line is a run.
* `Line.ofText_append` — a text cut behind a line break has the lines of both parts.
* `IsRun.exists_line` — a run that has any text is a line.
-/

set_option autoImplicit false
namespace Marginalia

/-- A maximal piece of a text without line breaks. -/
structure IsRun (source before run after : Text) : Prop where
  split : source = before ++ (run ++ after)
  oneLine : onOneLine run = true
  /-- It cannot be made longer in front. -/
  begins : ∀ c ∈ before.getLast?, isBreak c = true
  /-- It cannot be made longer at the end. -/
  ends : ∀ c ∈ after.head?, isBreak c = true

theorem Ending.toText_eq_nil_iff {e : Ending} : e.toText = [] ↔ e = .absent := by
  cases e <;> simp [toText]

theorem Ending.isBreak_of_mem {e : Ending} {c : Char} (h : c ∈ e.toText) : isBreak c = true := by
  have hall : e.toText.all isBreak = true := by cases e <;> rfl
  exact List.all_eq_true.1 hall c h

namespace Line

variable {source before run after t : Text} {above below lines rest : List Line} {l : Line}

/-! ## A line is a run -/

/-- Nothing follows the text of a line exactly if the source breaks off in it. -/
theorem Precedes.append_eq_nil_iff (h : l.Precedes rest) :
    l.ending.toText ++ joined rest = [] ↔ l.ending = .absent := by
  rw [List.append_eq_nil_iff, Ending.toText_eq_nil_iff, and_iff_left_iff_imp]
  intro he
  rw [(h.last he).2, joined_nil]

/-- What follows the text of a line does not go on with it. -/
theorem Precedes.ends (h : l.Precedes rest) :
    ∀ c ∈ (l.ending.toText ++ joined rest).head?, isBreak c = true := by
  intro c hc
  cases he : l.ending with
  | absent =>
    rw [he, (h.last he).2] at hc
    cases hc
  | lf | cr | crlf =>
    rw [he] at hc
    cases hc
    decide

theorem Orderly.precedes (h : Orderly (above ++ l :: below)) : l.Precedes below := by
  induction above with
  | nil => exact h.1
  | cons a rest ih => exact ih h.2

theorem Orderly.of_append (h : Orderly (above ++ below)) : Orderly below := by
  induction above with
  | nil => exact h
  | cons a rest ih => exact ih h.2

/-- What precedes a line ends with a line break. -/
theorem Orderly.begins (h : Orderly (above ++ below)) (hne : below ≠ []) :
    ∀ c ∈ (joined above).getLast?, isBreak c = true := by
  induction above with
  | nil =>
    intro c hc
    cases hc
  | cons a rest ih =>
    intro c hc
    have hending : a.ending ≠ .absent := fun he =>
      hne (List.append_eq_nil_iff.1 (h.1.last he).2).2
    rw [joined_cons, ← List.append_assoc, List.getLast?_append] at hc
    cases hlast : (joined rest).getLast? with
    | some d =>
      rw [hlast] at hc
      exact ih h.2 c (hlast.trans hc)
    | none =>
      -- nothing but the ending of this line is left to be the last
      rw [hlast, Option.none_or, List.getLast?_append] at hc
      refine Ending.isBreak_of_mem (e := a.ending) (List.mem_of_getLast? ?_)
      cases he : a.ending with
      | absent => exact absurd he hending
      | lf | cr | crlf =>
        rw [he] at hc
        exact hc

/-- **A line of a source is a run of it.** -/
theorem isRun_of_ofText (h : ofText source = above ++ l :: below) :
    IsRun source (joined above) l.content (l.ending.toText ++ joined below) := by
  have horderly : Orderly (above ++ l :: below) := h ▸ orderly_ofText source
  exact
    { split := by rw [← joined_cons, ← joined_append, ← h, joined_ofText]
      oneLine := horderly.oneLine l (by simp)
      begins := horderly.begins (List.cons_ne_nil _ _)
      ends := horderly.precedes.ends }

/-! ## A run is a line -/

theorem ofText_ne_nil (h : t ≠ []) : ofText t ≠ [] := fun hnil =>
  h (by rw [← joined_ofText t, hnil, joined_nil])

/-- What is put in front of a source goes into its first line. -/
theorem push_append (c : Char) (hne : lines ≠ []) (more : List Line) :
    push c (lines ++ more) = push c lines ++ more := by
  obtain ⟨l, rest, rfl⟩ := List.exists_cons_of_ne_nil hne
  by_cases hn : c = '\n'
  · subst hn
    rfl
  by_cases hr : c = '\r'
  · subst hr
    by_cases hl : l = ⟨[], .lf⟩
    · subst hl
      rfl
    · rw [push_return_of_head (by simpa using hl), push_return_of_head (by simpa using hl)]
      rfl
  · rw [List.cons_append, push_of_not_break hr hn, push_of_not_break hr hn]
    rfl

/-- **A text cut behind a line break has the lines of both parts**, unless the cut goes between a
carriage return and its line feed. -/
theorem ofText_append (hbegins : ∀ c ∈ before.getLast?, isBreak c = true)
    (hhead : (ofText t).head? ≠ some ⟨[], .lf⟩) :
    ofText (before ++ t) = ofText before ++ ofText t := by
  induction before with
  | nil => rfl
  | cons c r ih =>
    rw [List.cons_append, ofText_cons, ofText_cons]
    by_cases hr : r = []
    · subst hr
      have hc : c = '\r' ∨ c = '\n' := by simpa [isBreak] using hbegins c rfl
      rcases hc with rfl | rfl
      · rw [List.nil_append, push_return_of_head hhead]
        rfl
      · rfl
    · have hlast : ∀ d ∈ r.getLast?, isBreak d = true := by
        rwa [List.getLast?_cons_of_ne_nil hr] at hbegins
      rw [ih hlast, push_append c (ofText_ne_nil hr)]

/-- A text that begins with a line break begins with the end of an empty line. -/
theorem exists_ofText_cons_eq {c : Char} (hc : isBreak c = true) (t : Text) :
    ∃ e below, ofText (c :: t) = ⟨[], e⟩ :: below := by
  have hc' : c = '\r' ∨ c = '\n' := by simpa [isBreak] using hc
  rw [ofText_cons]
  rcases hc' with rfl | rfl
  · unfold push
    rw [if_neg (by decide), if_pos rfl]
    split
    · exact ⟨_, _, rfl⟩
    · exact ⟨_, _, rfl⟩
  · exact ⟨_, _, rfl⟩

theorem exists_ofText_eq (hone : onOneLine run = true) (hne : run ≠ [])
    (hends : ∀ c ∈ after.head?, isBreak c = true) :
    ∃ e below, ofText (run ++ after) = ⟨run, e⟩ :: below := by
  cases after with
  | nil =>
    rw [List.append_nil]
    exact ⟨_, _, ofText_content_absent hone hne⟩
  | cons c t =>
    obtain ⟨e, below, h⟩ := exists_ofText_cons_eq (hends c rfl) t
    exact ⟨e, below, ofText_content hone h⟩

end Line

/-- **A run that has any text is a line.** -/
theorem IsRun.exists_line {source before run after : Text} (h : IsRun source before run after)
    (hne : run ≠ []) :
    ∃ above l below, Line.ofText source = above ++ l :: below ∧ Line.joined above = before ∧
      l.content = run := by
  obtain ⟨e, below, hrun⟩ := Line.exists_ofText_eq h.oneLine hne h.ends
  have hhead : (Line.ofText (run ++ after)).head? ≠ some ⟨[], .lf⟩ := by
    rw [hrun, List.head?_cons]
    intro he
    exact hne (congrArg Line.content (Option.some.inj he))
  refine ⟨Line.ofText before, ⟨run, e⟩, below, ?_, Line.joined_ofText before, rfl⟩
  rw [h.split, Line.ofText_append h.begins hhead, hrun]

end Marginalia
