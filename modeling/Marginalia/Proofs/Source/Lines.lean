import Mathlib.Data.List.Forall2
import Marginalia.Literal.Quote
import Marginalia.Source.Line

/-!
# The lines of a source, seen from the lines

`Line.joined_ofText` says that the lines of a source make up the source.  This file is about the
other direction: which lists of lines are the lines of the text they make up.

## What is here

* `Line.Orderly` — lines none of which can be read differently for what follows it: their contents
  hold no line break, only the last may break off, and no lone carriage return meets a lone line
  feed.
* `Line.orderly_ofText` and `Line.ofText_joined` — the lines of a source are orderly, and orderly
  lines are the lines of the text they make up.
* `Line.Orderly.replace` — the text of a line may be replaced by any other text that fills one line;
  so the lines around a replaced line stay what they were.
* `Line.Orderly.rewritten` — the same for all lines at once.
-/

set_option autoImplicit false
namespace Marginalia

theorem onOneLine_append {s t : Text} :
    onOneLine (s ++ t) = true ↔ onOneLine s = true ∧ onOneLine t = true := by
  rw [onOneLine, List.all_append, Bool.and_eq_true]
  exact Iff.rfl

theorem onOneLine_cons {c : Char} {t : Text} :
    onOneLine (c :: t) = true ↔ (c ≠ '\r' ∧ c ≠ '\n') ∧ onOneLine t = true := by
  simp [onOneLine]

theorem not_mem_of_onOneLine {t : Text} (h : onOneLine t = true) : '\n' ∉ t := by
  intro hmem
  have hbreak := List.all_eq_true.1 h _ hmem
  simp at hbreak

namespace Line

/-! ## Orderly lines -/

/-- A line that keeps its reading when these lines follow it. -/
structure Precedes (l : Line) (rest : List Line) : Prop where
  /-- The content holds no line break. -/
  oneLine : onOneLine l.content = true
  /-- A line that breaks off has some text, and nothing follows it. -/
  last : l.ending = .absent → l.content ≠ [] ∧ rest = []
  /-- A carriage return on its own is not followed by a line feed. -/
  apart : l.ending = .cr → rest.head? ≠ some ⟨[], .lf⟩

/-- Lines each of which keeps its reading when the later ones follow it. -/
def Orderly : List Line → Prop
  | [] => True
  | l :: rest => l.Precedes rest ∧ Orderly rest

theorem Precedes.oneLine_cons {c : Char} {l : Line} {rest : List Line} (h : l.Precedes rest)
    (hr : c ≠ '\r') (hn : c ≠ '\n') : Precedes ⟨c :: l.content, l.ending⟩ rest where
  oneLine := onOneLine_cons.2 ⟨⟨hr, hn⟩, h.oneLine⟩
  last he := ⟨List.cons_ne_nil _ _, (h.last he).2⟩
  apart := h.apart

/-! ## The lines of a source are orderly -/

theorem push_of_not_break {c : Char} (hr : c ≠ '\r') (hn : c ≠ '\n') (l : Line)
    (rest : List Line) : push c (l :: rest) = ⟨c :: l.content, l.ending⟩ :: rest := by
  simp [push, hr, hn]

theorem push_return_of_head {lines : List Line} (h : lines.head? ≠ some ⟨[], .lf⟩) :
    push '\r' lines = ⟨[], .cr⟩ :: lines := by
  unfold push
  rw [if_neg (by decide), if_pos rfl]
  split
  · exact absurd rfl h
  · rfl

theorem orderly_push (c : Char) {lines : List Line} (h : Orderly lines) :
    Orderly (push c lines) := by
  by_cases hn : c = '\n'
  · subst hn
    exact ⟨⟨rfl, by simp, by simp⟩, h⟩
  by_cases hr : c = '\r'
  · subst hr
    by_cases hl : lines.head? = some ⟨[], .lf⟩
    · obtain ⟨rest, rfl⟩ := List.head?_eq_some_iff.1 hl
      exact ⟨⟨rfl, by simp, by simp⟩, h.2⟩
    · rw [push_return_of_head hl]
      exact ⟨⟨rfl, by simp, fun _ => hl⟩, h⟩
  cases lines with
  | nil =>
    have hone : onOneLine [c] = true := onOneLine_cons.2 ⟨⟨hr, hn⟩, rfl⟩
    unfold push
    rw [if_neg hn, if_neg hr]
    exact ⟨⟨hone, by simp, by simp⟩, trivial⟩
  | cons l rest =>
    rw [push_of_not_break hr hn]
    exact ⟨h.1.oneLine_cons hr hn, h.2⟩

theorem orderly_ofText (source : Text) : Orderly (ofText source) := by
  induction source with
  | nil => trivial
  | cons c r ih => exact orderly_push c ih

theorem Orderly.oneLine {lines : List Line} (h : Orderly lines) :
    ∀ l ∈ lines, onOneLine l.content = true := by
  induction lines with
  | nil => simp
  | cons a rest ih => exact List.forall_mem_cons.2 ⟨h.1.oneLine, ih h.2⟩

/-! ## Orderly lines are read back -/

theorem ofText_cons (c : Char) (t : Text) : ofText (c :: t) = push c (ofText t) := rfl

@[simp] theorem joined_nil : joined [] = [] := rfl

@[simp] theorem joined_cons (l : Line) (rest : List Line) :
    joined (l :: rest) = l.content ++ (l.ending.toText ++ joined rest) := by
  simp [joined, toText]

@[simp] theorem joined_append (above below : List Line) :
    joined (above ++ below) = joined above ++ joined below := by
  simp [joined]

/-- The content of a line is read up to the ending, whatever comes after. -/
theorem ofText_content {content t : Text} {e : Ending} {rest : List Line}
    (hc : onOneLine content = true) (ht : ofText t = ⟨[], e⟩ :: rest) :
    ofText (content ++ t) = ⟨content, e⟩ :: rest := by
  induction content with
  | nil => exact ht
  | cons c r ih =>
    obtain ⟨⟨hr, hn⟩, hrest⟩ := onOneLine_cons.1 hc
    rw [List.cons_append, ofText_cons, ih hrest, push_of_not_break hr hn]

theorem ofText_content_absent {content : Text} (hc : onOneLine content = true)
    (hne : content ≠ []) : ofText content = [⟨content, .absent⟩] := by
  induction content with
  | nil => exact absurd rfl hne
  | cons c r ih =>
    obtain ⟨⟨hr, hn⟩, hrest⟩ := onOneLine_cons.1 hc
    cases r with
    | nil => simp [ofText, push, hr, hn]
    | cons d s => rw [ofText_cons, ih hrest (List.cons_ne_nil _ _), push_of_not_break hr hn]

/-- **Orderly lines are the lines of the text they make up.** -/
theorem ofText_joined {lines : List Line} (h : Orderly lines) : ofText (joined lines) = lines := by
  induction lines with
  | nil => rfl
  | cons l rest ih =>
    obtain ⟨hl, hrest⟩ := h
    obtain ⟨content, ending⟩ := l
    rw [joined_cons]
    cases ending with
    | absent =>
      obtain ⟨hne, rfl⟩ := hl.last rfl
      simpa [Ending.toText] using ofText_content_absent hl.oneLine hne
    | lf =>
      refine ofText_content hl.oneLine ?_
      rw [Ending.toText, List.singleton_append, ofText_cons, ih hrest]
      rfl
    | cr =>
      refine ofText_content hl.oneLine ?_
      rw [Ending.toText, List.singleton_append, ofText_cons, ih hrest]
      exact push_return_of_head (hl.apart rfl)
    | crlf =>
      refine ofText_content hl.oneLine ?_
      rw [Ending.toText, List.cons_append, List.singleton_append, ofText_cons, ofText_cons,
        ih hrest]
      rfl

/-! ## Parts of orderly lines -/

/-- What a line tells about the lines below it looks only at the first of them. -/
theorem Precedes.congr {l : Line} {rest rest' : List Line} (h : l.Precedes rest)
    (hne : rest ≠ []) (hhead : rest'.head? = some ⟨[], .lf⟩ → rest.head? = some ⟨[], .lf⟩) :
    l.Precedes rest' where
  oneLine := h.oneLine
  last he := absurd (h.last he).2 hne
  apart he := fun hl => h.apart he (hhead hl)

/-- **A line may get another text.**  The lines around it are read as before, as long as the new
text fills one line. -/
theorem Orderly.replace {above below : List Line} {l : Line} {text : Text}
    (h : Orderly (above ++ l :: below)) (hone : onOneLine text = true) (hne : text ≠ []) :
    Orderly (above ++ ⟨text, l.ending⟩ :: below) := by
  induction above with
  | nil => exact ⟨⟨hone, fun he => ⟨hne, (h.1.last he).2⟩, h.1.apart⟩, h.2⟩
  | cons a rest ih =>
    refine ⟨h.1.congr (by simp) ?_, ih h.2⟩
    cases rest with
    | nil => simpa using fun hnil => absurd hnil hne
    | cons b tail => exact id

/-- A line that another one may stand in for: it has the same ending, its text keeps to one line,
and it is not empty where the other one is not. -/
structure Rewritten (l l' : Line) : Prop where
  ending : l'.ending = l.ending
  oneLine : onOneLine l'.content = true
  filled : l'.content = [] → l.content = []

/-- **All lines may get other texts**, as long as no line becomes empty. -/
theorem Orderly.rewritten {lines lines' : List Line} (h : Orderly lines)
    (hr : List.Forall₂ Rewritten lines lines') : Orderly lines' := by
  induction hr with
  | nil => trivial
  | @cons l l' rest rest' hl hrest ih =>
    refine ⟨⟨hl.oneLine, fun he => ?_, fun he hhead => ?_⟩, ih h.2⟩
    · obtain ⟨hne, rfl⟩ := h.1.last (hl.ending ▸ he)
      exact ⟨fun hnil => hne (hl.filled hnil), List.forall₂_nil_left_iff.1 hrest⟩
    · -- a line feed alone below would have been alone before
      obtain ⟨tail', rfl⟩ := List.head?_eq_some_iff.1 hhead
      cases hrest with
      | @cons b _ tail _ hb _ =>
        obtain ⟨content, ending⟩ := b
        obtain rfl : content = [] := hb.filled rfl
        obtain rfl : Ending.lf = ending := hb.ending
        exact h.1.apart (hl.ending ▸ he) rfl

end Line
end Marginalia
