import Mathlib.Data.List.Pairwise
import Marginalia.Proofs.Mark.Pattern
import Marginalia.Proofs.Source.Runs
import Marginalia.Proofs.Text.Offset

/-!
# The marks of a source, line by line

There are three views of the marks of a source.  `Placed.ofLines` walks down the lines and looks
once into each.  `Pattern.scan` goes through the text from left to right and knows nothing of lines.
And one can say what is to be found without saying how: in each run of characters that are no line
breaks, the first place at which the form of a mark is met, and everything behind it in that run.
Here the three are shown to agree, so a place reported for a mark may be read in any of them.

## What is here

* `Mark.IsFirst` and `Mark.find?_first` — the mark of a line stands at the first place at which the
  form of a mark is met.
* `Placed.exists_inLine_of_mem_ofLines`, `Placed.exists_mem_ofLines` and
  `Placed.pairwise_ofLines` — walking down the lines finds the mark of each line, finds nothing
  else, and finds them in the order in which they stand.
* `Placed.forall₂_scanFrom` — so does going through the text.
* `Placed.ofText_lineByLine` — **the marks of a source are those of its runs**, one each at most.
-/

set_option autoImplicit false
namespace Marginalia

/-! ## The mark of a line -/

namespace Mark

variable {run t : Text} {m : Mark}

/-- The first place of a run at which the form of a mark is met: the code before it, and the run
from there on. -/
structure IsFirst (run code text : Text) : Prop where
  split : run = code ++ text
  form : HasForm text
  first : ∀ code' text', run = code' ++ text' → HasForm text' → code.length ≤ code'.length

/-- The comment in full: slashes, spaces, the tag, spaces, and the attribute text, which is not
empty and takes no space that it can do without. -/
def IsSpelled (m : Mark) : Prop :=
  ∃ spaces more, m.text = opening spaces m.tag ++ (List.replicate (more + 1) ' ' ++ m.details) ∧
    m.details ≠ [] ∧ (m.details = [' '] ∨ m.details.head? ≠ some ' ')

/-- **The mark of a line stands at the first place at which the form of a mark is met.** -/
theorem find?_first (h : find? run = some m) : ∃ code, IsFirst run code m.text := by
  induction run with
  | nil => cases h
  | cons c r ih =>
    rw [find?] at h
    split at h
    · rename_i m' hm
      cases h
      have hform : HasForm (c :: r) := startingAt?_ne_none_iff.1 (by rw [hm]; simp)
      rw [startingAt?_text hm]
      exact ⟨[], rfl, hform, fun _ _ _ _ => Nat.zero_le _⟩
    · rename_i hnone
      obtain ⟨code, hsplit, hform, hfirst⟩ := ih h
      refine ⟨c :: code, by rw [hsplit]; rfl, hform, fun code' text' hsplit' hform' => ?_⟩
      cases code' with
      | nil =>
        rw [hsplit', List.nil_append] at hnone
        exact absurd hnone (startingAt?_ne_none_iff.2 hform')
      | cons d code' =>
        have hle := hfirst code' text' (List.cons.inj hsplit').2 hform'
        simpa using hle

theorem find?_of_startingAt? (h : startingAt? t = some m) : find? t = some m := by
  cases t with
  | nil => cases h
  | cons c r => rw [find?, h]

/-- A line in which the form of a mark is met has one. -/
theorem exists_find?_eq {text : Text} (h : HasForm text) (code : Text) :
    ∃ m, find? (code ++ text) = some m := by
  induction code with
  | nil =>
    obtain ⟨m, hm⟩ := Option.ne_none_iff_exists'.1 (startingAt?_ne_none_iff.2 h)
    exact ⟨m, find?_of_startingAt? hm⟩
  | cons c code ih =>
    obtain ⟨m, hm⟩ := ih
    rw [List.cons_append, find?]
    split
    · exact ⟨_, rfl⟩
    · exact ⟨m, hm⟩

theorem isSpelled_of_find? (h : find? run = some m) : m.IsSpelled := by
  obtain ⟨spaces, r, htext, hd, -⟩ := startingAt?_eq_some_iff.1 (startingAt?_of_find? h)
  obtain ⟨more, rfl, hne, hhead⟩ := exists_spaces_of_details? hd
  exact ⟨spaces, more, htext, hne, hhead⟩

end Mark

namespace Placed

variable {lines below : List Line} {l : Line} {p q : Placed} {offset : Nat}

/-! ## Walking down the lines -/

/-- A mark in the line that follows some text, with the lines below it. -/
structure InLine (p : Placed) (offset : Nat) (l : Line) (below : List Line) : Prop where
  mark : Mark.find? l.content = some p.mark
  start : p.start = offset + (Text.byteLength l.content - Text.byteLength p.mark.text)
  terminated : p.terminated = true ↔ l.ending ≠ .absent
  governed : p.governed = firstFilled? (offset + l.byteLength) below

theorem InLine.stop_eq (h : p.InLine offset l below) :
    p.stop = offset + Text.byteLength l.content := by
  obtain ⟨w, hw⟩ := Mark.find?_suffix h.mark
  rw [stop, h.start, ← hw, Text.byteLength_append]
  omega

/-- The first of some lines has a mark of its own, or none. -/
theorem ofLines_cons (offset : Nat) (l : Line) (rest : List Line) :
    (Mark.find? l.content = none ∧
      ofLines offset (l :: rest) = ofLines (offset + l.byteLength) rest) ∨
    ∃ p : Placed, p.InLine offset l rest ∧
      ofLines offset (l :: rest) = p :: ofLines (offset + l.byteLength) rest := by
  rw [ofLines]
  cases hfind : Mark.find? l.content with
  | none => exact Or.inl ⟨rfl, rfl⟩
  | some m => exact Or.inr ⟨_, ⟨hfind, rfl, by simp, rfl⟩, rfl⟩

theorem exists_inLine_of_mem_ofLines (h : p ∈ ofLines offset lines) :
    ∃ above l below, lines = above ++ l :: below ∧
      p.InLine (offset + Text.byteLength (Line.joined above)) l below := by
  induction lines generalizing offset with
  | nil => cases h
  | cons a rest ih =>
    have hdown (hmem : p ∈ ofLines (offset + a.byteLength) rest) :
        ∃ above l below, a :: rest = above ++ l :: below ∧
          p.InLine (offset + Text.byteLength (Line.joined above)) l below := by
      obtain ⟨above, l, below, rfl, hp⟩ := ih hmem
      refine ⟨a :: above, l, below, rfl, ?_⟩
      simpa [Line.joined, Line.byteLength, Nat.add_assoc] using hp
    obtain ⟨-, hof⟩ | ⟨q, hq, hof⟩ := ofLines_cons offset a rest
    · rw [hof] at h
      exact hdown h
    · rw [hof] at h
      rcases List.mem_cons.1 h with rfl | hmem
      · exact ⟨[], a, rest, rfl, by simpa using hq⟩
      · exact hdown hmem

theorem exists_mem_ofLines {m : Mark} (h : Mark.find? l.content = some m) (offset : Nat)
    (above below : List Line) :
    ∃ p ∈ ofLines offset (above ++ l :: below),
      p.InLine (offset + Text.byteLength (Line.joined above)) l below := by
  induction above generalizing offset with
  | nil =>
    obtain ⟨hnone, -⟩ | ⟨p, hp, hof⟩ := ofLines_cons offset l below
    · cases h.symm.trans hnone
    · exact ⟨p, by rw [List.nil_append, hof]; exact List.mem_cons_self, by simpa using hp⟩
  | cons a rest ih =>
    obtain ⟨p, hmem, hp⟩ := ih (offset + a.byteLength)
    refine ⟨p, ?_, by simpa [Line.joined, Line.byteLength, Nat.add_assoc] using hp⟩
    obtain ⟨-, hof⟩ | ⟨q, -, hof⟩ := ofLines_cons offset a (rest ++ l :: below)
    · rw [List.cons_append, hof]
      exact hmem
    · rw [List.cons_append, hof]
      exact List.mem_cons_of_mem _ hmem

/-- **Marks are found in the order in which they stand**, with at least a line break between one and
the next. -/
theorem pairwise_ofLines (h : Line.Orderly lines) (offset : Nat) :
    (ofLines offset lines).Pairwise fun p q => p.stop < q.start := by
  induction lines generalizing offset with
  | nil => exact List.Pairwise.nil
  | cons l rest ih =>
    obtain ⟨-, hof⟩ | ⟨p, hp, hof⟩ := ofLines_cons offset l rest
    · rw [hof]
      exact ih h.2 _
    · rw [hof]
      refine List.pairwise_cons.2 ⟨fun q hq => ?_, ih h.2 _⟩
      obtain ⟨above, l', below, hrest, hq⟩ := exists_inLine_of_mem_ofLines hq
      -- there is a line below, so this one has an ending
      have hpos : Text.byteLength l.ending.toText ≠ 0 := by
        rw [Ne, Text.byteLength_eq_zero_iff, Ending.toText_eq_nil_iff]
        intro habsent
        rw [(h.1.last habsent).2] at hrest
        simp at hrest
      have hlength : l.byteLength = Text.byteLength l.content + Text.byteLength l.ending.toText :=
        Text.byteLength_append _ _
      have hstop := hp.stop_eq
      have hstart := hq.start
      omega

/-! ## Going through the text -/

/-- A place at which the pattern is read, and a mark in its place. -/
structure Agrees (found : Pattern.Found) (p : Placed) : Prop where
  start : found.start = p.start
  reads : Mark.Reads found.reads p.mark

/-- **Going through the text finds the same marks as walking down the lines.** -/
theorem forall₂_scanFrom (h : Line.Orderly lines) (offset : Nat) :
    List.Forall₂ Agrees (Pattern.scanFrom Mark.pattern offset (Line.joined lines))
      (ofLines offset lines) := by
  induction lines generalizing offset with
  | nil =>
    rw [Line.joined_nil, Pattern.scanFrom]
    exact List.Forall₂.nil
  | cons l rest ih =>
    -- behind the text of the line, nothing is found until the next one begins
    have hrest : List.Forall₂ Agrees (Pattern.scanFrom Mark.pattern
        (offset + Text.byteLength l.content) (l.ending.toText ++ Line.joined rest))
        (ofLines (offset + l.byteLength) rest) := by
      rw [Mark.scanFrom_breaks fun c hc => Ending.isBreak_of_mem hc, Nat.add_assoc,
        ← Text.byteLength_append]
      exact ih h.2 _
    rw [Line.joined_cons]
    obtain ⟨hnone, hof⟩ | ⟨p, hp, hof⟩ := ofLines_cons offset l rest
    · rw [hof, Mark.scanFrom_of_find?_none hnone h.1.ends]
      exact hrest
    · obtain ⟨reads, hreads, hscan⟩ :=
        Mark.exists_scanFrom_eq hp.mark h.1.oneLine h.1.ends offset
      rw [hof, hscan]
      exact List.Forall₂.cons ⟨hp.start.symm, hreads⟩ hrest

/-! ## The runs of a source -/

/-- A mark that stands in a run, behind some code. -/
structure StandsIn (p : Placed) (before code run : Text) : Prop where
  first : Mark.IsFirst run code p.mark.text
  start : p.start = Text.byteLength (before ++ code)
  stop : p.stop = Text.byteLength (before ++ run)

/-- The marks of a source, as they can be told without saying how they are found. -/
structure LineByLine (source : Text) (placed : List Placed) : Prop where
  /-- Each mark stands in a run, at the first place at which the form of a mark is met, and reaches
  to the end of the run. -/
  stands : ∀ p ∈ placed, ∃ before code run after,
    IsRun source before run after ∧ p.StandsIn before code run
  /-- A run in which the form of a mark is met has one mark. -/
  found : ∀ before run after, IsRun source before run after →
    (∃ code text, run = code ++ text ∧ Mark.HasForm text) →
    ∃! p, p ∈ placed ∧ ∃ code, p.StandsIn before code run
  /-- The marks are given in order, and they do not meet. -/
  ascending : placed.Pairwise fun p q => p.stop < q.start
  text : ∀ p ∈ placed, Text.slice? p.start p.stop source = some p.mark.text
  spelled : ∀ p ∈ placed, p.mark.IsSpelled
  terminated : ∀ p ∈ placed, (p.terminated = true ↔ p.stop ≠ Text.byteLength source)
  /-- They are what is found by going through the text with the pattern of a mark. -/
  scanned : List.Forall₂ Agrees (Pattern.scan Mark.pattern source) placed

variable {source before code run after : Text}

theorem InLine.exists_standsIn (h : p.InLine (Text.byteLength before) l below) :
    ∃ code, p.StandsIn before code l.content := by
  obtain ⟨code, hfirst⟩ := Mark.find?_first h.mark
  refine ⟨code, hfirst, ?_, by rw [h.stop_eq, Text.byteLength_append]⟩
  rw [h.start, hfirst.split, Text.byteLength_append, Text.byteLength_append, Nat.add_sub_cancel]

theorem StandsIn.slice?_eq (h : p.StandsIn before code run) (hrun : IsRun source before run after) :
    Text.slice? p.start p.stop source = some p.mark.text := by
  have hsplit : source = (before ++ code) ++ (p.mark.text ++ after) := by
    rw [hrun.split, h.first.split, List.append_assoc, List.append_assoc]
  have hstop : p.stop = Text.byteLength ((before ++ code) ++ p.mark.text) := by
    rw [h.stop, h.first.split, List.append_assoc]
  exact Text.slice?_eq hsplit h.start hstop

/-- A line has no ending exactly if a mark in it reaches to the end of the source. -/
theorem InLine.terminated_iff {above below : List Line}
    (h : p.InLine (Text.byteLength (Line.joined above)) l below)
    (hlines : Line.ofText source = above ++ l :: below) :
    p.terminated = true ↔ p.stop ≠ Text.byteLength source := by
  have horderly : Line.Orderly (above ++ l :: below) := hlines ▸ Line.orderly_ofText source
  have hlength := congrArg Text.byteLength (Line.isRun_of_ofText hlines).split
  rw [Text.byteLength_append, Text.byteLength_append, ← Nat.add_assoc, ← h.stop_eq] at hlength
  rw [h.terminated, hlength, Ne, ← horderly.precedes.append_eq_nil_iff,
    ← Text.byteLength_eq_zero_iff]
  omega

theorem exists_inLine_of_mem_ofText (h : p ∈ ofText source) :
    ∃ above l below, Line.ofText source = above ++ l :: below ∧
      p.InLine (Text.byteLength (Line.joined above)) l below := by
  simpa using exists_inLine_of_mem_ofLines h

theorem exists_mem_ofText (h : IsRun source before run after)
    (hform : ∃ code text, run = code ++ text ∧ Mark.HasForm text) :
    ∃ p ∈ ofText source, ∃ code, p.StandsIn before code run := by
  obtain ⟨code, text, hrun, hform⟩ := hform
  obtain ⟨m, hm⟩ := Mark.exists_find?_eq hform code
  have hne : run ≠ [] := by
    rintro rfl
    obtain ⟨-, rfl⟩ := List.append_eq_nil_iff.1 hrun.symm
    obtain ⟨_, _, _, _, hnil⟩ := hform
    cases hnil
  obtain ⟨above, l, below, hlines, rfl, rfl⟩ := h.exists_line hne
  rw [← hrun] at hm
  obtain ⟨p, hmem, hp⟩ := exists_mem_ofLines hm 0 above below
  refine ⟨p, by rwa [ofText, hlines], ?_⟩
  rw [Nat.zero_add] at hp
  exact hp.exists_standsIn

/-- Two marks of a source that start at the same place are the same. -/
theorem eq_of_start_eq (hp : p ∈ ofText source) (hq : q ∈ ofText source)
    (h : p.start = q.start) : p = q := by
  have hne : (ofText source).Pairwise fun p q => p.start ≠ q.start :=
    (pairwise_ofLines (Line.orderly_ofText source) 0).imp fun hlt heq => by
      rw [stop] at hlt
      omega
  have hsymm : Std.Symm fun p q : Placed => p.start ≠ q.start := ⟨fun _ _ hne => hne.symm⟩
  by_contra hpq
  exact hne.forall hp hq hpq h

theorem StandsIn.start_eq {code' : Text} (hp : p.StandsIn before code run)
    (hq : q.StandsIn before code' run) : p.start = q.start := by
  have hle := hp.first.first _ _ hq.first.split hq.first.form
  have hge := hq.first.first _ _ hp.first.split hp.first.form
  have hcode : code = code' :=
    (List.append_inj (hp.first.split.symm.trans hq.first.split) (Nat.le_antisymm hle hge)).1
  rw [hp.start, hq.start, hcode]

/-- **The marks of a source are those of its runs.**  In each run of characters that are no line
breaks, the first place at which the form of a mark is met is where a mark starts; it reaches to the
end of the run, and nothing else is found.  Going through the text with the pattern of a mark finds
the same. -/
theorem ofText_lineByLine (source : Text) : LineByLine source (ofText source) where
  stands p hp := by
    obtain ⟨above, l, below, hlines, hl⟩ := exists_inLine_of_mem_ofText hp
    obtain ⟨code, hcode⟩ := hl.exists_standsIn
    exact ⟨_, code, _, _, Line.isRun_of_ofText hlines, hcode⟩
  found before run after hrun hform := by
    obtain ⟨p, hp, code, hcode⟩ := exists_mem_ofText hrun hform
    refine ⟨p, ⟨hp, code, hcode⟩, ?_⟩
    rintro q ⟨hq, code', hcode'⟩
    exact eq_of_start_eq hq hp (hcode'.start_eq hcode)
  ascending := pairwise_ofLines (Line.orderly_ofText source) 0
  text p hp := by
    obtain ⟨above, l, below, hlines, hl⟩ := exists_inLine_of_mem_ofText hp
    obtain ⟨code, hcode⟩ := hl.exists_standsIn
    exact hcode.slice?_eq (Line.isRun_of_ofText hlines)
  spelled p hp := by
    obtain ⟨above, l, below, -, hl⟩ := exists_inLine_of_mem_ofText hp
    exact Mark.isSpelled_of_find? hl.mark
  terminated p hp := by
    obtain ⟨above, l, below, hlines, hl⟩ := exists_inLine_of_mem_ofText hp
    exact hl.terminated_iff hlines
  scanned := by
    have h := forall₂_scanFrom (Line.orderly_ofText source) 0
    rwa [Line.joined_ofText] at h

/-- A third slash, a tag that does not exist in front of one that does, a mark within a mark, and
nothing but spaces. -/
example : (ofText "x /// @toggle  a // @radio b\r// @hash // @step   ".toList).map
    (fun p => (p.start, p.mark.tag, String.ofList p.mark.details, p.terminated)) =
      [(3, .toggle, "a // @radio b", true), (38, .step, " ", false)] := by
  decide +kernel

end Placed
end Marginalia
