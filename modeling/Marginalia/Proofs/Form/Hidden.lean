import Mathlib.Data.List.Forall2
import Marginalia.Proofs.Form.Controls
import Marginalia.Proofs.Form.Edits
import Marginalia.Proofs.Source.Lines

/-!
# What a user may not see has no influence

A mark may name the users it is meant for.  For anyone else the line below it might hold any text:
the form is the same, the same values are refused for the same reasons, and the line stays as it is.

## Why it holds

* `Mark.setting` asks for the user before it looks at the line, so a hidden mark gives the same
  fault whatever it governs (`SeenAlike`, `SeenAlike.control_eq`, `SeenAlike.refusal_eq`).
* No line is governed by two marks, so the line below a hidden mark is looked at for no other mark
  (`seenAlike_governings`).
* The lines around a replaced line are read as before (`Line.Orderly.replace`), as long as the new
  text fills one line and carries no mark of its own (`PlainLine`).

`hidden_line` puts the three together.  Offsets do change behind the line, but neither a form nor a
refusal reports one.
-/

set_option autoImplicit false
namespace Marginalia

/-! ## Marks that a user cannot tell apart -/

/-- Two governed texts that a user cannot tell apart: they are the same, or the mark is hidden. -/
def SeenAlike (user : Option Text) (g g' : Mark × Option Text) : Prop :=
  g.1 = g'.1 ∧ (g.2 = g'.2 ∨ g.1.attributes.visibleTo user = false)

theorem SeenAlike.refl (user : Option Text) (g : Mark × Option Text) : SeenAlike user g g :=
  ⟨rfl, Or.inl rfl⟩

theorem filterMap_eq_of_forall₂ {α β γ : Type} {R : α → β → Prop} {f : α → Option γ}
    {g : β → Option γ} {l : List α} {l' : List β} (h : List.Forall₂ R l l')
    (hfg : ∀ a b, R a b → f a = g b) : l.filterMap f = l'.filterMap g := by
  induction h with
  | nil => rfl
  | cons hr _ ih => rw [List.filterMap_cons, List.filterMap_cons, hfg _ _ hr, ih]

/-- The refusal of a value by a mark, given with the text it governs. -/
def refusalOf? (entries : Entries) (user : Option Text) (g : Mark × Option Text) :
    Option Refusal :=
  (g.1.request? entries).bind fun request =>
    match g.1.refilled user g.2 request.2 with
    | .ok _ => none
    | .error fault => some ⟨request.1, fault⟩

theorem filterMap_refusal? (source : Text) (entries : Entries) (user : Option Text) :
    (Placed.ofText source).filterMap (Placed.refusal? entries user)
      = (governings (Line.ofText source)).filterMap (refusalOf? entries user) := by
  rw [← map_view_ofText, List.filterMap_map]
  rfl

theorem filterMap_hash? (source : Text) :
    ((Placed.ofText source).filterMap fun p => p.mark.hash?)
      = (governings (Line.ofText source)).filterMap fun g => g.1.hash? := by
  rw [← map_view_ofText, List.filterMap_map]
  rfl

namespace SeenAlike

variable {user : Option Text} {g g' : Mark × Option Text}

theorem control_eq (h : SeenAlike user g g') :
    (g.1.control user g.2).toOption = (g'.1.control user g'.2).toOption := by
  obtain ⟨m, content?⟩ := g
  obtain ⟨m', content?'⟩ := g'
  obtain ⟨rfl, rfl | hidden⟩ := h
  · rfl
  · rw [Mark.control_of_hidden hidden, Mark.control_of_hidden hidden]

theorem refusal_eq (h : SeenAlike user g g') (entries : Entries) :
    refusalOf? entries user g = refusalOf? entries user g' := by
  obtain ⟨m, content?⟩ := g
  obtain ⟨m', content?'⟩ := g'
  obtain ⟨rfl, rfl | hidden⟩ := h
  · rfl
  · simp only [refusalOf?, Mark.refilled, Mark.setting_of_hidden hidden]

end SeenAlike

/-- Sources whose marks a user cannot tell apart describe the same form to that user. -/
theorem form_congr {source source' : Text} {user : Option Text}
    (h : List.Forall₂ (SeenAlike user) (governings (Line.ofText source))
      (governings (Line.ofText source'))) : form source user = form source' user := by
  rw [form, form, visibleControls_eq, visibleControls_eq, controlsOf, controlsOf,
    filterMap_eq_of_forall₂ h fun _ _ => SeenAlike.control_eq]

/-- Sources whose marks a user cannot tell apart refuse the same values of that user. -/
theorem refusals_congr {source source' : Text} {user : Option Text}
    (h : List.Forall₂ (SeenAlike user) (governings (Line.ofText source))
      (governings (Line.ofText source'))) (entries : Entries) :
    (fill source entries user).refusals = (fill source' entries user).refusals := by
  have hmarks := filterMap_eq_of_forall₂ h fun _ _ hr => hr.refusal_eq entries
  have hhashes := filterMap_eq_of_forall₂ h fun _ _ hr => congrArg Mark.hash? hr.1
  rw [fill, fill, filterMap_refusal?, filterMap_refusal?, unknownHashes, unknownHashes,
    filterMap_hash?, filterMap_hash?, hmarks, hhashes]

/-! ## Replacing the line below a hidden mark -/

/-- A text that fills one line and carries no mark. -/
structure PlainLine (t : Text) : Prop where
  filled : t ≠ []
  oneLine : onOneLine t = true
  unmarked : Mark.find? t = none

theorem firstFilled?_append {above below below' : List Line}
    (h : Line.firstFilled? (above ++ below) ≠ Line.firstFilled? (above ++ below')) :
    ∀ l ∈ above, l.isEmpty = true := by
  induction above with
  | nil => simp
  | cons a rest ih =>
    rw [List.cons_append, List.cons_append, Line.firstFilled?_cons, Line.firstFilled?_cons] at h
    by_cases ha : a.isEmpty = true
    · rw [if_pos ha, if_pos ha] at h
      exact List.forall_mem_cons.2 ⟨ha, ih h⟩
    · rw [if_neg ha, if_neg ha] at h
      exact absurd rfl h

theorem governorBelow_of_isEmpty {above : Option Mark} {lines : List Line}
    (h : ∀ l ∈ lines, l.isEmpty = true) : governorBelow above lines = above := by
  induction lines with
  | nil => rfl
  | cons l rest ih =>
    rw [governorBelow, if_pos (h l List.mem_cons_self),
      ih fun a ha => h a (List.mem_cons_of_mem _ ha)]

/-- **A line below a hidden mark is seen by no one it is hidden from.**  The text of a line is
looked at for the last mark above it and for no other. -/
theorem seenAlike_governings {user : Option Text} {above : Option Mark} {m : Mark}
    (hidden : m.attributes.visibleTo user = false) {lines below : List Line} {l l' : Line}
    (hm : governorBelow above lines = some m) (hl : Mark.find? l.content = none)
    (hl' : Mark.find? l'.content = none) :
    List.Forall₂ (SeenAlike user) (governings (lines ++ l :: below))
      (governings (lines ++ l' :: below)) := by
  induction lines generalizing above with
  | nil =>
    rw [List.nil_append, List.nil_append, governings, governings, hl, hl']
    exact List.forall₂_same.2 fun g _ => SeenAlike.refl user g
  | cons a rest ih =>
    rw [governorBelow] at hm
    rw [List.cons_append, List.cons_append, governings, governings]
    cases ha : Mark.find? a.content with
    | none => exact ih hm
    | some n =>
      refine List.Forall₂.cons ⟨rfl, ?_⟩ (ih hm)
      by_cases hsame : Line.firstFilled? (rest ++ l :: below)
          = Line.firstFilled? (rest ++ l' :: below)
      · exact Or.inl (by rw [hsame])
      · -- nothing filled stands between, so this is the hidden mark
        rw [if_neg (Mark.not_isEmpty_of_find? ha), ha,
          governorBelow_of_isEmpty (firstFilled?_append hsame)] at hm
        cases hm
        exact Or.inr hidden

/-! ## What becomes of the line -/

/-- Filling in leaves the stretch `kept` as it stands between `before` and `after`: these become
`before'` and `after'` by edits of their own, and no edit is left over for the stretch. -/
def LeavesAlone (entries : Entries) (user : Option Text) (before kept after before' after' : Text) :
    Prop :=
  (fill (before ++ (kept ++ after)) entries user).content = before' ++ (kept ++ after') ∧
    ∃ left right,
      (rewritings (before ++ (kept ++ after)) entries user).map Rewriting.literalEdit
        = left ++ right ∧
      Patched 0 left before before' ∧
      Patched (Text.byteLength before + Text.byteLength kept) right after after'

section Lines

variable {entries : Entries} {user : Option Text} {m : Mark} {above below : List Line} {l : Line}

theorem filledLine_of_hidden (hidden : m.attributes.visibleTo user = false) (l : Line) :
    filledLine entries user (some m, l) = l.toText := by
  rw [filledLine_eq, filledText_of_rewriting?_none (Mark.rewriting?_of_hidden hidden _)]
  rfl

theorem rewritingAt?_of_hidden (hidden : m.attributes.visibleTo user = false) (start : Nat)
    (l : Line) : rewritingAt? entries user (m, start, l) = none := by
  rw [rewritingAt?, Mark.rewriting?_of_hidden hidden]
  rfl

/-- The parts around the line are filled in on their own: the mark above it does not reach past it,
and it carries no mark itself. -/
theorem leavesAlone_of_lines (hidden : m.attributes.visibleTo user = false)
    (hm : governorBelow none above = some m) (hfilled : l.isEmpty = false)
    (hplain : Mark.find? l.content = none)
    (hlines : Line.ofText (Line.joined (above ++ l :: below)) = above ++ l :: below) :
    LeavesAlone entries user (Line.joined above) l.content
      (l.ending.toText ++ Line.joined below)
      ((governors none above).flatMap (filledLine entries user))
      (l.ending.toText ++ (governors none below).flatMap (filledLine entries user)) := by
  have hne : ¬l.isEmpty = true := by rw [hfilled]; decide
  have hjoined : Line.joined (above ++ l :: below)
      = Line.joined above ++ (l.content ++ (l.ending.toText ++ Line.joined below)) := by
    rw [Line.joined_append, Line.joined_cons]
  constructor
  · rw [← hjoined, fill, filledContent, hlines, governors_append, hm, governors, if_neg hne,
      hplain, List.flatMap_append, List.flatMap_cons, filledLine_of_hidden hidden, Line.toText]
    simp only [List.append_assoc]
  · have hedits := editsLiteral_literalEdit
    refine ⟨_, _, ?_, hedits.patched_lines none 0 above,
      Patched.keep _ (hedits.patched_lines none _ below)⟩
    rw [← hjoined, rewritings_eq, hlines, governedFrom_append, hm, governedFrom, if_neg hne,
      hplain, List.filterMap_append, List.map_append, List.filterMap_append, Option.map_some,
      Option.toList_some, List.filterMap_cons, rewritingAt?_of_hidden hidden, List.filterMap_nil,
      List.nil_append]
    simp [Line.byteLength, Line.toText, Nat.add_assoc]

end Lines

/-! ## The capstone -/

/-- The text that starts at a byte has no influence on a user.  With any other text that fills one
line and carries no mark in its place, the user gets the same form, and handing in values gives the
same refusals; and in either case the text stays as it stands, while everything around it becomes
the same. -/
def NoInfluence (source : Text) (user : Option Text) (start : Nat) (content : Text) : Prop :=
  ∃ before after, source = before ++ (content ++ after) ∧ Text.byteLength before = start ∧
    (∀ text, PlainLine text → form (before ++ (text ++ after)) user = form source user) ∧
    ∀ entries : Entries, ∃ before' after',
      LeavesAlone entries user before content after before' after' ∧
      ∀ text, PlainLine text →
        LeavesAlone entries user before text after before' after' ∧
        (fill (before ++ (text ++ after)) entries user).refusals
          = (fill source entries user).refusals

/-- **What a user may not see has no influence**: the line below a hidden mark, unless that line
carries a mark itself. -/
theorem hidden_line (source : Text) (user : Option Text) {p : Placed}
    (hp : p ∈ Placed.ofText source) {start : Nat} {l : Line} (hg : p.governed = some (start, l))
    (hidden : p.mark.attributes.visibleTo user = false) (hplain : Mark.find? l.content = none) :
    NoInfluence source user start l.content := by
  obtain ⟨above, below, hlines, hfilled, hstart, hm⟩ := Placed.exists_lines_of_governed hp hg
  have horderly : Line.Orderly (above ++ l :: below) := hlines ▸ Line.orderly_ofText source
  have hjoined : ∀ content, Line.joined (above ++ ⟨content, l.ending⟩ :: below)
      = Line.joined above ++ (content ++ (l.ending.toText ++ Line.joined below)) := by
    intro content
    rw [Line.joined_append, Line.joined_cons]
  have hsource : source
      = Line.joined above ++ (l.content ++ (l.ending.toText ++ Line.joined below)) := by
    rw [← hjoined, ← hlines, Line.joined_ofText]
  -- the lines after the replacement are the same lines, with one text exchanged
  have hreplaced : ∀ text, PlainLine text →
      Line.ofText (Line.joined (above ++ ⟨text, l.ending⟩ :: below))
        = above ++ ⟨text, l.ending⟩ :: below := fun text ht =>
    Line.ofText_joined (horderly.replace ht.oneLine ht.filled)
  have hseen : ∀ text, PlainLine text → List.Forall₂ (SeenAlike user)
      (governings (Line.ofText
        (Line.joined above ++ (text ++ (l.ending.toText ++ Line.joined below)))))
      (governings (Line.ofText source)) := fun text ht => by
    rw [← hjoined, hreplaced text ht, hlines]
    exact seenAlike_governings hidden hm ht.unmarked hplain
  refine ⟨Line.joined above, l.ending.toText ++ Line.joined below, hsource, hstart.symm,
    fun text ht => form_congr (hseen text ht), fun entries => ⟨_, _,
      leavesAlone_of_lines hidden hm hfilled hplain (Line.ofText_joined horderly),
      fun text ht => ⟨?_, refusals_congr (hseen text ht) entries⟩⟩⟩
  exact leavesAlone_of_lines hidden hm (Line.isEmpty_eq_false_iff.2 ht.filled) ht.unmarked
    (hreplaced text ht)

/-- A mark for one user, above a setting of another one. -/
theorem hidden_line_bob :
    NoInfluence ("// @input hash=\"a\" access=\"alice\"\nx = 1\n" ++
        "// @toggle hash=\"b\"\ny = true\n").toList
      (some "bob".toList) 34 "x = 1".toList :=
  hidden_line _ _ (p := (Placed.ofText _).head (by decide +kernel)) (l := ⟨"x = 1".toList, .lf⟩)
    (List.head_mem _) (by decide +kernel) (by decide +kernel) (by decide +kernel)

end Marginalia
