import Mathlib.Data.List.Perm.Basic
import Marginalia.Form.Basic
import Marginalia.Proofs.Form.Rewriting
import Marginalia.Proofs.Source.Governed

/-!
# The controls of a form

A form is made of the controls that a user sees, and these depend on each mark and the text it
governs alone.  This file says when a mark is a control (`Mark.control_eq_ok_iff`), that grouping
neither adds nor loses a control (`Form.controls_ofControls_perm`), and that the places of the marks
do not matter (`visibleControls_eq`).
-/

set_option autoImplicit false
namespace Marginalia

/-! ## From marks to controls -/

namespace Mark

variable {m : Mark} {user : Option Text} {content? : Option Text}

/-- **A mark is a control** if its setting can be reached and the literal shows a value. -/
theorem control_eq_ok_iff {c : Control} :
    m.control user content? = .ok c ↔
      ∃ s value kind, m.setting user content? = .ok s ∧
        m.tag.shown s.literal = .ok (value, kind) ∧
        c = { tag := m.tag, hash := m.hash?, attributes := m.attributes, value, kind } := by
  rw [control, Except.bind_eq_ok_iff]
  simp only [Except.map_eq_ok_iff]
  constructor
  · rintro ⟨s, hs, ⟨value, kind⟩, hv, rfl⟩
    exact ⟨s, value, kind, hs, hv, rfl⟩
  · rintro ⟨s, value, kind, hs, hv, rfl⟩
    exact ⟨s, hs, (value, kind), hv, rfl⟩

theorem control_of_hidden (h : m.attributes.visibleTo user = false) (content? : Option Text) :
    m.control user content? = .error .accessDenied := by
  rw [control, setting_of_hidden h]
  rfl

end Mark

/-- The controls of some marks, given with the text they govern. -/
def controlsOf (user : Option Text) (marks : List (Mark × Option Text)) : List Control :=
  marks.filterMap fun g => (g.1.control user g.2).toOption

/-- Which controls a user sees does not depend on where the marks stand. -/
theorem visibleControls_eq (source : Text) (user : Option Text) :
    visibleControls source user = controlsOf user (governings (Line.ofText source)) := by
  rw [visibleControls, ← map_view_ofText, controlsOf, List.filterMap_map]
  rfl

theorem mem_visibleControls {source : Text} {user : Option Text} {c : Control} :
    c ∈ visibleControls source user ↔
      ∃ p ∈ Placed.ofText source, p.mark.control user p.content? = .ok c := by
  simp only [visibleControls, List.mem_filterMap, Except.toOption_eq_some_iff]
  rfl

/-! ## Grouping -/

namespace Form

/-- One more control in one of the groups. -/
theorem controls_addTo_perm (name : Text) (c : Control) (groups : List Group) :
    ((addTo name c groups).flatMap Group.controls).Perm
      (c :: groups.flatMap Group.controls) := by
  induction groups with
  | nil => exact List.Perm.refl _
  | cons g rest ih =>
    rw [addTo]
    split
    · rw [List.flatMap_cons, List.flatMap_cons, List.append_assoc, List.singleton_append]
      exact List.perm_middle
    · rw [List.flatMap_cons, List.flatMap_cons]
      exact (ih.append_left _).trans List.perm_middle

/-- One more control in the groups, if it names a group. -/
def addNamed (groups : List Group) (c : Control) : List Group :=
  match c.group? with
  | some name => addTo name c groups
  | none => groups

theorem namedGroups_eq (controls : List Control) :
    namedGroups controls = controls.foldl addNamed [] := rfl

theorem controls_foldl_addNamed_perm (controls : List Control) (groups : List Group) :
    ((controls.foldl addNamed groups).flatMap Group.controls).Perm
      ((controls.filter fun c => !c.group?.isNone) ++ groups.flatMap Group.controls) := by
  induction controls generalizing groups with
  | nil => exact List.Perm.refl _
  | cons c rest ih =>
    rw [List.foldl_cons, List.filter_cons]
    refine (ih _).trans ?_
    rw [addNamed]
    cases c.group? with
    | none => exact List.Perm.refl _
    | some name =>
      exact ((controls_addTo_perm name c groups).append_left _).trans List.perm_middle

/-- **Grouping neither adds nor loses a control**, nor shows one twice. -/
theorem controls_ofControls_perm (controls : List Control) :
    (ofControls controls).controls.Perm controls := by
  have hrest : ∀ rest : List Control,
      (if rest.isEmpty then [] else [(⟨[], rest⟩ : Group)]).flatMap Group.controls = rest := by
    intro rest
    cases rest <;> simp
  have hnamed := controls_foldl_addNamed_perm controls []
  rw [List.flatMap_nil, List.append_nil, ← namedGroups_eq] at hnamed
  rw [Form.controls, ofControls, List.flatMap_append, hrest]
  exact ((hnamed.append_right _).trans List.perm_append_comm).trans
    (List.filter_append_perm _ controls)

theorem mem_controls_form {source : Text} {user : Option Text} {c : Control} :
    c ∈ (form source user).controls ↔
      ∃ p ∈ Placed.ofText source, p.mark.control user p.content? = .ok c :=
  (controls_ofControls_perm _).mem_iff.trans mem_visibleControls

end Form
end Marginalia
