import Mathlib.Data.List.DropRight
import Marginalia.Proofs.Source.Below
import Marginalia.Proofs.Source.Pieces
import Marginalia.Source.Unmarked

/-!
# Cutting marks out of a text

Marks are taken out by dropping lines (`unmarked`).  Who does not want to cut a source into lines
can do the same in one pass over the text: from each place at which the pattern of a mark is found,
go back to the line break before it and on past the line break behind it, copy what lies between the
point reached and the former, and go on from the latter.  `cutOut?` is that pass, with the offsets
in bytes that it works with.

It does not matter that the pass never sees a line, nor that a carriage return and a line feed may
come to stand next to each other when the lines between them are gone: the two give the same text
(`cutOut?_eq`), and there is no mark in it (`marksIn_unmarked`), so a second time there is nothing
left to take out.  `unmarked_leavesOut` puts this together.
-/

set_option autoImplicit false
namespace Marginalia

/-! ## Finding the ends of a line -/

namespace Text

/-- Where the line through a place starts: behind the last line break before the place. -/
def lineStart? (place : Nat) (t : Text) : Option Nat :=
  (takeBytes? place t).map fun before => byteLength (before.rdropWhile fun c => !isBreak c)

/-- Where the next line starts, seen from the end of one: behind the line break that is there. -/
def lineStop? (place : Nat) (t : Text) : Option Nat :=
  (dropBytes? place t).map fun after => place + byteLength (leadingBreak after)

variable {before code after : Text}

/-- The way back ends at a line break, or at the beginning of the text. -/
theorem lineStart?_eq (hbegins : ∀ c ∈ before.getLast?, isBreak c = true)
    (hcode : onOneLine code = true) (after : Text) :
    lineStart? (byteLength (before ++ code)) (before ++ code ++ after)
      = some (byteLength before) := by
  have hback : (before ++ code).rdropWhile (fun c => !isBreak c) = before := by
    rw [List.rdropWhile, List.reverse_append, List.dropWhile_append_of_pos]
    · refine List.rdropWhile_eq_self_iff.2 fun hne => ?_
      simpa using hbegins _ (List.getLast?_eq_getLast_of_ne_nil hne)
    · intro c hc
      rw [isBreak_of_mem hcode (List.mem_reverse.1 hc)]
      rfl
  rw [lineStart?, takeBytes?_byteLength_append, Option.map_some, hback]

theorem lineStop?_eq (before after : Text) :
    lineStop? (byteLength before) (before ++ after)
      = some (byteLength before + byteLength (leadingBreak after)) := by
  rw [lineStop?, dropBytes?_byteLength_append, Option.map_some]

end Text

/-! ## One pass over the text -/

/-- The places between which the pattern of a mark is read in a text. -/
def markSpans (source : Text) : List (Nat × Nat) :=
  (Pattern.scan Mark.pattern source).map fun found =>
    (found.start, found.start + Text.byteLength found.reads.flatten)

/-- A text from the point reached on, without the lines through these places. -/
def cutFrom? (source : Text) : Nat → List (Nat × Nat) → Option Text
  | reached, [] => Text.dropBytes? reached source
  | reached, (start, stop) :: rest =>
    (Text.lineStart? start source).bind fun lineStart =>
      (Text.lineStop? stop source).bind fun lineStop =>
        (Text.slice? reached (max lineStart reached) source).bind fun kept =>
          (cutFrom? source (max reached lineStop) rest).map fun tail => kept ++ tail

/-- A text with the lines of its marks cut out; none when the pass misses the text. -/
def cutOut? (source : Text) : Option Text := cutFrom? source 0 (markSpans source)

/-- A stretch of a text, widened to whole lines, is taken out by an edit. -/
structure TakenOut (source : Text) (span : Nat × Nat) (e : Edit) : Prop where
  start : Text.lineStart? span.1 source = some e.start
  stop : Text.lineStop? span.2 source = some e.stop
  ordered : e.start ≤ e.stop
  text : e.text = []

/-- As long as the lines ascend, the pass carries out the edits that take them out: the point
reached is never behind the start of a line, nor before the end of one. -/
theorem cutFrom?_eq {source : Text} {spans : List (Nat × Nat)} {edits : List Edit}
    (h : List.Forall₂ (TakenOut source) spans edits) (hp : edits.Pairwise Edit.Before)
    {reached : Nat} (hr : ∀ e ∈ edits, reached ≤ e.start) :
    cutFrom? source reached spans = Edit.splicedFrom? source reached edits := by
  induction h generalizing reached with
  | nil => rfl
  | @cons span e spans edits he _ ih =>
    obtain ⟨start, stop⟩ := span
    obtain ⟨hbefore, hp⟩ := List.pairwise_cons.1 hp
    have hstart : reached ≤ e.start := hr e List.mem_cons_self
    have hstop : reached ≤ e.stop := hstart.trans he.ordered
    rw [cutFrom?, he.start, Option.bind_some, he.stop, Option.bind_some, Nat.max_eq_left hstart,
      Nat.max_eq_right hstop, ih hp hbefore, Edit.splicedFrom?, he.text]
    simp only [List.append_nil]

/-! ## The lines that are taken out -/

/-- The edits that take marked lines out; the first line starts at an offset. -/
def removals (offset : Nat) : List Line → List Edit
  | [] => []
  | l :: rest =>
    if l.isMarked then ⟨offset, offset + l.byteLength, []⟩ :: removals (offset + l.byteLength) rest
    else removals (offset + l.byteLength) rest

theorem patched_removals (offset : Nat) (lines : List Line) :
    Patched offset (removals offset lines) (Line.joined lines)
      (Line.joined (lines.filter fun l => !l.isMarked)) := by
  induction lines generalizing offset with
  | nil => exact Patched.nil
  | cons l rest ih =>
    rw [removals, List.filter_cons, Line.joined, List.flatMap_cons]
    cases l.isMarked with
    | true => exact Patched.replace l.toText [] (ih _)
    | false => exact Patched.keep l.toText (ih _)

/-- **Each mark that is found takes its line out.** -/
theorem forall₂_removals {source : Text} {above lines : List Line}
    (h : Line.ofText source = above ++ lines) :
    List.Forall₂ (TakenOut source)
      ((Placed.ofLines (Text.byteLength (Line.joined above)) lines).map fun p => (p.start, p.stop))
      (removals (Text.byteLength (Line.joined above)) lines) := by
  induction lines generalizing above with
  | nil => exact List.Forall₂.nil
  | cons l rest ih =>
    have hlines : Line.ofText source = (above ++ [l]) ++ rest := by simpa using h
    have hoffset : Text.byteLength (Line.joined (above ++ [l]))
        = Text.byteLength (Line.joined above) + l.byteLength := by
      simp [Line.byteLength, Line.toText]
    have hrest := ih hlines
    rw [hoffset] at hrest
    obtain ⟨hnone, hof⟩ | ⟨p, hp, hof⟩ := Placed.ofLines_cons _ l rest
    · rw [hof, removals, Line.isMarked, hnone]
      exact hrest
    · rw [hof, removals, Line.isMarked, hp.mark, List.map_cons]
      refine List.Forall₂.cons ?_ hrest
      have hrun := Line.isRun_of_ofText h
      have horderly : Line.Orderly (above ++ l :: rest) := h ▸ Line.orderly_ofText source
      obtain ⟨code, hcode⟩ := hp.exists_standsIn
      have honline : onOneLine (code ++ p.mark.text) = true := hcode.first.split ▸ hrun.oneLine
      have hstart : source = Line.joined above ++ code ++
          (p.mark.text ++ (l.ending.toText ++ Line.joined rest)) := by
        rw [hrun.split, hcode.first.split]
        simp only [List.append_assoc]
      have hstop : source = Line.joined above ++ l.content ++
          (l.ending.toText ++ Line.joined rest) := by
        rw [hrun.split, List.append_assoc]
      exact
        { start := by
            conv => lhs; rw [hcode.start, hstart]
            exact Text.lineStart?_eq hrun.begins (onOneLine_append.1 honline).1 _
          stop := by
            conv => lhs; rw [hcode.stop, hstop]
            rw [Text.lineStop?_eq, horderly.precedes.leadingBreak_eq horderly.of_append.2,
              Text.byteLength_append, Nat.add_assoc, ← Text.byteLength_append]
            rfl
          ordered := Nat.le_add_right _ _
          text := rfl }

theorem markSpans_eq (source : Text) :
    markSpans source = (Placed.ofText source).map fun p => (p.start, p.stop) := by
  have hscan := Placed.forall₂_scanFrom (Line.orderly_ofText source) 0
  rw [Line.joined_ofText] at hscan
  rw [markSpans, Placed.ofText, ← List.forall₂_eq_eq_eq, List.forall₂_map_left_iff,
    List.forall₂_map_right_iff]
  refine hscan.imp fun found p h => ?_
  rw [Placed.stop, h.start, h.reads.text]

/-- **The pass drops the lines that carry a mark**, and misses the text nowhere. -/
theorem cutOut?_eq (source : Text) : cutOut? source = some (unmarked source) := by
  have hlines : Line.ofText source = [] ++ Line.ofText source := rfl
  have hremovals := forall₂_removals hlines
  have hpatched := patched_removals 0 (Line.ofText source)
  rw [Line.joined_ofText] at hpatched
  calc cutOut? source
      = cutFrom? source 0 ((Placed.ofText source).map fun p => (p.start, p.stop)) := by
        rw [cutOut?, markSpans_eq]
    _ = Edit.splicedFrom? source 0 (removals 0 (Line.ofText source)) :=
        cutFrom?_eq hremovals hpatched.pairwise fun _ _ => Nat.zero_le _
    _ = splice? source (removals 0 (Line.ofText source)) := by
        rw [splice?, hpatched.applied_eq]
    _ = some (unmarked source) := hpatched.splice?_eq

/-! ## Nothing is left to take out -/

theorem Line.isMarked_iff {l : Line} :
    l.isMarked = true ↔ ∃ code text, l.content = code ++ text ∧ Mark.HasForm text := by
  rw [isMarked, Option.isSome_iff_exists]
  constructor
  · rintro ⟨m, hm⟩
    obtain ⟨code, hfirst⟩ := Mark.find?_first hm
    exact ⟨code, m.text, hfirst.split, hfirst.form⟩
  · rintro ⟨code, text, hsplit, hform⟩
    rw [hsplit]
    exact Mark.exists_find?_eq hform code

/-- Lines without a mark make up a text without a mark, wherever lines are missing between them. -/
theorem marksIn_joined_filter {lines : List Line} (h : Line.Orderly lines) :
    marksIn (Line.joined (lines.filter fun l => !l.isMarked)) = [] := by
  rw [separated_marksIn.joined (h.ended.filter _), List.flatMap_eq_nil_iff]
  intro l hl
  obtain ⟨hmem, hmarked⟩ := List.mem_filter.1 hl
  have hnone : Mark.find? l.content = none := by simpa [Line.isMarked] using hmarked
  rw [marksIn_of_oneLine (h.oneLine l hmem), hnone]
  rfl

theorem marksIn_unmarked (source : Text) : marksIn (unmarked source) = [] :=
  marksIn_joined_filter (Line.orderly_ofText source)

theorem unmarked_eq_self {source : Text} (h : marksIn source = []) : unmarked source = source := by
  rw [marksIn_eq, List.filterMap_eq_nil_iff] at h
  have hfilter : (Line.ofText source).filter (fun l => !l.isMarked) = Line.ofText source :=
    List.filter_eq_self.2 fun l hl => by rw [Line.isMarked, h l hl]; rfl
  rw [unmarked, hfilter, Line.joined_ofText]

/-- What is left of a source without its marks. -/
structure LeavesOut (source result : Text) : Prop where
  /-- The lines that carry no mark are left, each with its ending, in their order. -/
  lines : result = Line.joined ((Line.ofText source).filter fun l => !l.isMarked)
  /-- A line carries a mark if the form of one is met somewhere in it. -/
  marked : ∀ l ∈ Line.ofText source,
    l.isMarked = true ↔ ∃ code text, l.content = code ++ text ∧ Mark.HasForm text
  /-- One pass over the text from mark to mark leaves the same. -/
  pass : cutOut? source = some result
  /-- No mark is left, and none has come about. -/
  bare : Placed.ofText result = []
  notFound : Pattern.scan Mark.pattern result = []
  /-- So nothing is taken out a second time. -/
  again : unmarked result = result

/-- **Taking the marks out leaves the other lines as they are**, and no mark. -/
theorem unmarked_leavesOut (source : Text) : LeavesOut source (unmarked source) := by
  have hmarks := marksIn_unmarked source
  have hnone : Placed.ofText (unmarked source) = [] := List.map_eq_nil_iff.1 hmarks
  refine ⟨rfl, fun _ _ => Line.isMarked_iff, cutOut?_eq source, hnone, ?_, unmarked_eq_self hmarks⟩
  have hspans : markSpans (unmarked source) = [] := by
    rw [markSpans_eq, hnone]
    rfl
  exact List.map_eq_nil_iff.1 hspans

/-- Neighbouring marks, and a carriage return that comes to stand before a line feed. -/
example : unmarked "a\r// @date x\r\nb // @step y\n\nc\r// @input z".toList
    = "a\r\nc\r".toList := by decide +kernel

end Marginalia
