import Mathlib.Data.List.Count
import Marginalia.Proofs.Form.Rewriting
import Marginalia.Proofs.Source.Below
import Marginalia.Proofs.Source.Governed
import Marginalia.Proofs.Source.Splice

/-!
# Filling in a form changes literals and nothing else

`fill` goes over the lines of a source and never counts a byte.  Seen from outside it is an edit of
the source, and this file gives that view: the literals that are rewritten, each with the bytes it
takes up, and the source with exactly these bytes replaced.

## What is here

* `Rewriting` and `rewritings` — the settings that are rewritten, in the order of their marks, and
  two ways to see one as an edit: of its literal alone, or of its whole line with the ending.
* `patched_governedFrom` — the one induction over the lines.  It rests on `governedFrom`, in which
  marks and lines come in the same order, because no line is governed by two marks.
* `fill_conserves` — **the capstone**.  The edits ascend and do not overlap, so none is passed over
  when they are carried out from the left; what comes out is the content that `fill` gives; and
  every value handed in is answered for exactly once.
-/

set_option autoImplicit false
namespace Marginalia

/-! ## Settings that are rewritten -/

/-- A setting that is rewritten: its line, the offset at which the line starts, and the literal that
is written. -/
structure Rewriting where
  start : Nat
  line : Line
  setting : Setting
  literal : Text

namespace Rewriting

/-- The edit of the literal alone. -/
def literalEdit (r : Rewriting) : Edit where
  start := r.start + r.setting.literalOffset
  stop := r.start + r.setting.literalOffset + Text.byteLength r.setting.literal
  text := r.literal

/-- The edit of the whole line. -/
def lineEdit (r : Rewriting) : Edit where
  start := r.start
  stop := r.start + r.line.byteLength
  text := r.setting.withLiteral r.literal ++ r.line.ending.toText

end Rewriting

/-- The rewriting of a governed line, if it has one. -/
def rewritingAt? (entries : Entries) (user : Option Text) (g : Mark × Nat × Line) :
    Option Rewriting :=
  (g.1.rewriting? entries user g.2.2.content).map fun r =>
    { start := g.2.1, line := g.2.2, setting := r.1, literal := r.2 }

/-- The rewriting that a mark in its place asks for, if a value is handed in for it and can be
written. -/
def Placed.rewriting? (entries : Entries) (user : Option Text) (p : Placed) : Option Rewriting :=
  p.governing?.bind (rewritingAt? entries user)

/-- The settings that are rewritten, in the order of their marks. -/
def rewritings (source : Text) (entries : Entries) (user : Option Text) : List Rewriting :=
  (Placed.ofText source).filterMap (Placed.rewriting? entries user)

section Patching

variable {entries : Entries} {user : Option Text}

theorem rewritings_eq (source : Text) :
    rewritings source entries user
      = (governedFrom none 0 (Line.ofText source)).filterMap (rewritingAt? entries user) := by
  rw [governedFrom_none, List.filterMap_filterMap]
  rfl

theorem rewritingAt?_eq_some_iff {g : Mark × Nat × Line} {r : Rewriting} :
    rewritingAt? entries user g = some r ↔
      g.2 = (r.start, r.line) ∧
        g.1.rewriting? entries user r.line.content = some (r.setting, r.literal) := by
  obtain ⟨m, start, l⟩ := g
  rw [rewritingAt?, Option.map_eq_some_iff]
  constructor
  · rintro ⟨⟨s, literal⟩, h, rfl⟩
    exact ⟨rfl, h⟩
  · rintro ⟨he, h⟩
    cases he
    exact ⟨_, h, rfl⟩

/-! ## The source as edits leave it -/

/-- A way to see rewritings as edits that leave what is around the literal. -/
def EditsLiteral (edit : Rewriting → Edit) : Prop :=
  ∀ r : Rewriting, Setting.of? r.line.content = some r.setting →
    Patched r.start [edit r] r.line.toText
      (r.setting.withLiteral r.literal ++ r.line.ending.toText)

theorem Rewriting.toText_line {r : Rewriting} (h : Setting.of? r.line.content = some r.setting) :
    r.line.toText = r.setting.before ++ (r.setting.literal ++
      (r.setting.behind ++ r.line.ending.toText)) := by
  conv => lhs; rw [Line.toText, Setting.of?_eq_append h]
  simp only [List.append_assoc]

theorem editsLiteral_literalEdit : EditsLiteral Rewriting.literalEdit := by
  intro r h
  rw [Rewriting.toText_line h, Setting.withLiteral_eq, List.append_assoc, List.append_assoc]
  refine Patched.keep _ ?_
  rw [Setting.byteLength_before]
  exact Patched.replace _ _ (Patched.refl _)

theorem editsLiteral_lineEdit : EditsLiteral Rewriting.lineEdit :=
  fun _ _ => Patched.single _ _

variable {edit : Rewriting → Edit}

theorem EditsLiteral.patched_line (hedit : EditsLiteral edit) (above : Option Mark) (start : Nat)
    (l : Line) :
    Patched start
      (((above.map fun m => (m, start, l)).toList.filterMap (rewritingAt? entries user)).map edit)
      l.toText (filledLine entries user (above, l)) := by
  rw [filledLine_eq]
  cases above with
  | none => exact Patched.refl _
  | some m =>
    cases hr : m.rewriting? entries user l.content with
    | none =>
      have hnone : rewritingAt? entries user (m, start, l) = none := by
        rw [rewritingAt?, hr]
        rfl
      rw [filledText_of_rewriting?_none hr, ← Line.toText]
      simpa [hnone] using Patched.refl l.toText
    | some parts =>
      obtain ⟨s, literal⟩ := parts
      have hsome : rewritingAt? entries user (m, start, l) = some ⟨start, l, s, literal⟩ :=
        rewritingAt?_eq_some_iff.2 ⟨rfl, hr⟩
      rw [filledText_of_rewriting? hr]
      simpa [hsome] using hedit ⟨start, l, s, literal⟩ (Mark.of?_of_rewriting? hr)

/-- **Filling in some lines is carrying out the edits of their rewritings.** -/
theorem EditsLiteral.patched_lines (hedit : EditsLiteral edit) (above : Option Mark) (offset : Nat)
    (lines : List Line) :
    Patched offset
      (((governedFrom above offset lines).filterMap (rewritingAt? entries user)).map edit)
      (Line.joined lines) ((governors above lines).flatMap (filledLine entries user)) := by
  induction lines generalizing above offset with
  | nil => exact Patched.nil
  | cons l rest ih =>
    rw [governedFrom, governors, Line.joined, List.flatMap_cons]
    split
    · exact Patched.keep _ (ih _ _)
    · rw [List.filterMap_append, List.map_append, List.flatMap_cons]
      exact (hedit.patched_line above offset l).append (ih _ _)

theorem EditsLiteral.patched_fill (hedit : EditsLiteral edit) (source : Text) (entries : Entries)
    (user : Option Text) :
    Patched 0 ((rewritings source entries user).map edit) source
      (fill source entries user).content := by
  have h : Patched 0 _ _ (fill source entries user).content :=
    hedit.patched_lines none 0 (Line.ofText source)
  rwa [Line.joined_ofText, ← rewritings_eq] at h

end Patching

/-! ## What is rewritten, and what is refused -/

/-- A rewriting that carries out what a mark is asked for. -/
structure Rewriting.Answers (r : Rewriting) (p : Placed) (user : Option Text) (value : Value) :
    Prop where
  /-- The user may see the mark. -/
  visible : p.mark.attributes.visibleTo user = true
  /-- The line is the one below the mark. -/
  governed : p.governed = some (r.start, r.line)
  /-- The literal is the one on that line. -/
  setting : Setting.of? r.line.content = some r.setting
  /-- A literal that shows the value stays, and any other gives way to the one that stands for it. -/
  literal : ∃ current kind, p.mark.tag.shown r.setting.literal = .ok (current, kind) ∧
    (current = value ∧ r.literal = r.setting.literal ∨
      current ≠ value ∧ p.mark.tag.written r.setting.literal value = .ok r.literal)

/-- What becomes of a mark: nothing, one rewriting or one refusal. -/
inductive Placed.Accounted (entries : Entries) (user : Option Text) (p : Placed) : Prop where
  /-- No value is handed in for the mark. -/
  | unasked (asked : p.mark.request? entries = none) (rewriting : p.rewriting? entries user = none)
      (refusal : p.refusal? entries user = none)
  /-- The value is written. -/
  | rewritten (hash : Text) (value : Value) (r : Rewriting)
      (asked : p.mark.request? entries = some (hash, value))
      (rewriting : p.rewriting? entries user = some r) (answers : r.Answers p user value)
      (refusal : p.refusal? entries user = none)
  /-- The value is refused. -/
  | refused (hash : Text) (value : Value) (fault : Fault)
      (asked : p.mark.request? entries = some (hash, value))
      (rewriting : p.rewriting? entries user = none)
      (refusal : p.refusal? entries user = some ⟨hash, fault⟩) (known : fault ≠ .hashNotFound)

section Accounts

variable {entries : Entries} {user : Option Text} {p : Placed}

theorem Placed.rewriting?_eq_some_iff {r : Rewriting} :
    p.rewriting? entries user = some r ↔
      p.governed = some (r.start, r.line) ∧
        p.mark.rewriting? entries user r.line.content = some (r.setting, r.literal) := by
  simp only [Placed.rewriting?, Placed.governing?, Option.bind_eq_some_iff, Option.map_eq_some_iff,
    rewritingAt?_eq_some_iff]
  constructor
  · rintro ⟨-, ⟨at_, hg, rfl⟩, rfl, hr⟩
    exact ⟨hg, hr⟩
  · rintro ⟨hg, hr⟩
    exact ⟨_, ⟨_, hg, rfl⟩, rfl, hr⟩

theorem Placed.answers_of_rewriting? {hash : Text} {value : Value} {r : Rewriting}
    (ha : p.mark.request? entries = some (hash, value))
    (hr : p.rewriting? entries user = some r) : r.Answers p user value := by
  obtain ⟨hg, hm⟩ := Placed.rewriting?_eq_some_iff.1 hr
  obtain ⟨hash', value', ha', hs, hl⟩ := Mark.rewriting?_eq_some_iff.1 hm
  obtain ⟨rfl, rfl⟩ := Prod.mk.inj (Option.some.inj (ha.symm.trans ha'))
  obtain ⟨hv, -⟩ := Mark.setting_eq_ok_iff.1 hs
  exact ⟨hv, hg, Mark.of?_of_rewriting? hm, Tag.refilled_eq_ok_iff.1 hl⟩

theorem Placed.refusal?_of_ok {hash text : Text} {value : Value}
    (ha : p.mark.request? entries = some (hash, value))
    (hf : p.mark.refilled user p.content? value = .ok text) :
    p.refusal? entries user = none := by
  rw [Placed.refusal?, ha, Option.bind_some]
  simp only [hf]

theorem Placed.refusal?_of_error {hash : Text} {value : Value} {fault : Fault}
    (ha : p.mark.request? entries = some (hash, value))
    (hf : p.mark.refilled user p.content? value = .error fault) :
    p.refusal? entries user = some ⟨hash, fault⟩ := by
  rw [Placed.refusal?, ha, Option.bind_some]
  simp only [hf]

/-- Rewriting and refusal exclude each other, and one of them happens. -/
theorem Placed.rewriting?_eq_none_iff {hash : Text} {value : Value}
    (ha : p.mark.request? entries = some (hash, value)) :
    p.rewriting? entries user = none ↔
      ∃ fault, p.mark.refilled user p.content? value = .error fault := by
  constructor
  · intro hr
    cases hg : p.governed with
    | none =>
      cases hf : p.mark.refilled user p.content? value with
      | error fault => exact ⟨fault, rfl⟩
      | ok text =>
        obtain ⟨s, literal, hs, -⟩ := Mark.refilled_eq_ok_iff.1 hf
        obtain ⟨-, content, hc, -⟩ := Mark.setting_eq_ok_iff.1 hs
        rw [Placed.content?, hg] at hc
        cases hc
    | some at_ =>
      rw [Placed.content?, hg]
      refine Mark.exists_refilled_eq_error ha ?_
      rw [Placed.rewriting?, Placed.governing?, hg, Option.map_some, Option.bind_some,
        rewritingAt?, Option.map_eq_none_iff] at hr
      exact hr
  · rintro ⟨fault, hf⟩
    refine Option.eq_none_iff_forall_not_mem.2 fun r hr => ?_
    obtain ⟨hg, hm⟩ := Placed.rewriting?_eq_some_iff.1 hr
    rw [Placed.content?, hg] at hf
    cases hf.symm.trans (Mark.refilled_eq_ok_of_rewriting? ha hm)

/-- **Each mark is accounted for.** -/
theorem Placed.accounted (entries : Entries) (user : Option Text) (p : Placed) :
    p.Accounted entries user := by
  cases ha : p.mark.request? entries with
  | none =>
    refine .unasked ha ?_ (by rw [Placed.refusal?, ha]; rfl)
    refine Option.eq_none_iff_forall_not_mem.2 fun r hr => ?_
    obtain ⟨-, hm⟩ := Placed.rewriting?_eq_some_iff.1 hr
    rw [Mark.rewriting?, ha] at hm
    cases hm
  | some request =>
    obtain ⟨hash, value⟩ := request
    cases hf : p.mark.refilled user p.content? value with
    | ok text =>
      have hr : p.rewriting? entries user ≠ none := fun hn => by
        obtain ⟨fault, he⟩ := (Placed.rewriting?_eq_none_iff ha).1 hn
        cases hf.symm.trans he
      obtain ⟨r, hr⟩ := Option.ne_none_iff_exists'.1 hr
      exact .rewritten hash value r ha hr (Placed.answers_of_rewriting? ha hr)
        (Placed.refusal?_of_ok ha hf)
    | error fault =>
      refine .refused hash value fault ha ((Placed.rewriting?_eq_none_iff ha).2 ⟨fault, hf⟩)
        (Placed.refusal?_of_error ha hf) ?_
      rintro rfl
      exact Mark.refilled_ne_hashNotFound hf

/-- A refusal answers for a value that is handed in for the mark. -/
theorem Placed.asked_of_refusal? {r : Refusal} (h : p.refusal? entries user = some r) :
    (∃ value, p.mark.request? entries = some (r.hash, value)) ∧ r.fault ≠ .hashNotFound := by
  cases p.accounted entries user with
  | unasked _ _ hr => cases hr.symm.trans h
  | rewritten _ _ _ _ _ _ hr => cases hr.symm.trans h
  | refused hash value fault asked _ hr known =>
    obtain rfl := Option.some.inj (hr.symm.trans h)
    exact ⟨⟨value, asked⟩, known⟩

end Accounts

/-! ## Hashes that no mark carries -/

section Unknown

variable {source : Text} {entries : Entries} {user : Option Text} {hash : Text}

theorem mem_unknownHashes :
    hash ∈ unknownHashes source entries ↔
      hash ∈ entries.keys ∧ ∀ p ∈ Placed.ofText source, p.mark.hash? ≠ some hash := by
  rw [unknownHashes, List.mem_mergeSort, List.mem_filter]
  simp

theorem nodup_unknownHashes (distinct : entries.keys.Nodup) :
    (unknownHashes source entries).Nodup :=
  (List.mergeSort_perm _ _).nodup_iff.2 (distinct.filter _)

/-- Only what no mark carries is reported as unknown. -/
theorem not_mem_refusals_of_marks :
    (⟨hash, .hashNotFound⟩ : Refusal) ∉
      (Placed.ofText source).filterMap (Placed.refusal? entries user) := by
  intro h
  obtain ⟨p, -, hp⟩ := List.mem_filterMap.1 h
  exact (Placed.asked_of_refusal? hp).2 rfl

theorem count_hashNotFound (distinct : entries.keys.Nodup) :
    (fill source entries user).refusals.count ⟨hash, .hashNotFound⟩
      = if hash ∈ entries.keys ∧ ∀ p ∈ Placed.ofText source, p.mark.hash? ≠ some hash
        then 1 else 0 := by
  have hinj : Function.Injective fun h : Text => (⟨h, .hashNotFound⟩ : Refusal) :=
    fun _ _ he => congrArg Refusal.hash he
  calc _ = (unknownHashes source entries).count hash := by
        rw [fill, List.count_append, List.count_eq_zero_of_not_mem not_mem_refusals_of_marks,
          Nat.zero_add, List.count_map_of_injective _ _ hinj]
    _ = _ := by simp only [(nodup_unknownHashes distinct).count, mem_unknownHashes]

end Unknown

/-! ## The capstone -/

/-- What filling in keeps of a source, and how it answers for the values handed in. -/
structure Conserves (source : Text) (entries : Entries) (user : Option Text) : Prop where
  /-- The content is the source with the literals of the rewritings replaced; all else is kept. -/
  content : Patched 0 ((rewritings source entries user).map Rewriting.literalEdit) source
    (fill source entries user).content
  /-- The bytes that are replaced are those of the literal. -/
  literals : ∀ r ∈ rewritings source entries user,
    Text.slice? r.literalEdit.start r.literalEdit.stop source = some r.setting.literal
  /-- The line that is rewritten is the one that stands below the mark: behind the line breaks that
  follow the mark, and up to the next one. -/
  governed : ∀ p ∈ Placed.ofText source,
    Text.slotBelow? p.stop source = some (p.governed.map Line.slot)
  /-- Replacing the whole lines in one pass gives the same content. -/
  lines : splice? source ((rewritings source entries user).map Rewriting.lineEdit)
    = some (fill source entries user).content
  /-- The lines ascend and do not overlap. -/
  apart : ((rewritings source entries user).map Rewriting.lineEdit).Pairwise Edit.Before
  /-- No rewriting is passed over. -/
  applied : Edit.applied 0 ((rewritings source entries user).map Rewriting.lineEdit)
    = (rewritings source entries user).map Rewriting.lineEdit
  /-- Each mark is left alone, rewritten once or refused once. -/
  marks : ∀ p ∈ Placed.ofText source, p.Accounted entries user
  /-- The refusals of the marks come first, in the order of the marks. -/
  refusals : (fill source entries user).refusals
    = (Placed.ofText source).filterMap (Placed.refusal? entries user) ++
      (unknownHashes source entries).map fun hash => ⟨hash, .hashNotFound⟩
  /-- A hash is reported as unknown once if it was handed in and no mark carries it, and never
  otherwise. -/
  unknown : ∀ hash, (fill source entries user).refusals.count ⟨hash, .hashNotFound⟩
    = if hash ∈ entries.keys ∧ ∀ p ∈ Placed.ofText source, p.mark.hash? ≠ some hash then 1 else 0

theorem slice?_literalEdit {source : Text} {entries : Entries} {user : Option Text} {r : Rewriting}
    (hr : r ∈ rewritings source entries user) :
    Text.slice? r.literalEdit.start r.literalEdit.stop source = some r.setting.literal := by
  obtain ⟨p, hp, hr⟩ := List.mem_filterMap.1 hr
  obtain ⟨hg, hm⟩ := Placed.rewriting?_eq_some_iff.1 hr
  obtain ⟨above, below, hl, -, hs, -⟩ := Placed.exists_lines_of_governed hp hg
  have hline := Rewriting.toText_line (Mark.of?_of_rewriting? hm)
  have hsource : source = (Line.joined above ++ r.setting.before) ++ (r.setting.literal ++
      (r.setting.behind ++ r.line.ending.toText ++ Line.joined below)) := by
    rw [← Line.joined_ofText source, hl]
    simp only [Line.joined, List.flatMap_append, List.flatMap_cons, hline, List.append_assoc]
  have hstart : r.literalEdit.start = Text.byteLength (Line.joined above ++ r.setting.before) := by
    rw [Text.byteLength_append, ← hs, Setting.byteLength_before]
    rfl
  have hstop : r.literalEdit.stop
      = r.literalEdit.start + Text.byteLength r.setting.literal := rfl
  rw [hstop, hstart, hsource]
  exact Text.slice?_append _ _ _

/-- **Filling in a form replaces literals and nothing else**, and answers for every value. -/
theorem fill_conserves (source : Text) (entries : Entries) (user : Option Text)
    (distinct : entries.keys.Nodup) : Conserves source entries user :=
  have hlines := editsLiteral_lineEdit.patched_fill source entries user
  { content := editsLiteral_literalEdit.patched_fill source entries user
    literals := fun _ => slice?_literalEdit
    governed := fun _ => Placed.slotBelow?_eq
    lines := hlines.splice?_eq
    apart := hlines.pairwise
    applied := hlines.applied_eq
    marks := fun p _ => p.accounted entries user
    refusals := rfl
    unknown := fun _ => count_hashNotFound distinct }

/-- The line below the first mark carries a mark as well, and is rewritten as a setting. -/
theorem fill_conserves_crlf :
    (let source := "// @input hash=\"a\"\r\n// @select hash=\"b\"\r\nx = 1;\r\n".toList
      let entries : Entries := [("a".toList, .text "c".toList), ("b".toList, .text "2".toList),
        ("z".toList, .text "0".toList)]
      Conserves source entries none ∧ fill source entries none
        = { content := "// @input hash=\"a\"\r\n// @select hash=\"c\"\r\nx = 2;\r\n".toList,
            refusals := [⟨"z".toList, .hashNotFound⟩] }) :=
  ⟨fill_conserves _ _ none (by decide), by decide +kernel⟩

end Marginalia
