import Mathlib.Data.List.Basic
import Mathlib.Data.List.Induction
import Marginalia.Proofs.Form.Controls
import Marginalia.Proofs.Text.Keyed

/-!
# The groups of a form

A form is built by putting one control after another into its group, and a group that is not there
yet is added at the end.  What comes of it is said here without that walk.  The names of the groups
are the names that the controls have, each once, in the order in which they come up first, with the
missing name put last; and the group of a name holds the controls of that name, in their order
(`Form.grouped_ofControls`).

## What is here

* `Form.addTo_map` and `Form.namedGroups_append` — one more control, and what it does to the groups.
* `Form.namedGroups_eq_map` — all of them, by induction on the controls from the end.
* `Form.Grouped` — the groups of a form in terms of the controls alone.
* `Placed.Resolves` and `form_grouped` — which control a mark is, and **the form of a source: every
  mark that a user may see, with a literal that its tag accepts, is one control in one group.**
-/

set_option autoImplicit false
namespace Marginalia

/-! ## Names -/

namespace Control

variable {c : Control} {name : Text}

/-- The name a control is grouped under: what its mark says, and empty when it says nothing. -/
def groupName (c : Control) : Text := (c.attributes.get? "group".toList).getD []

theorem group?_eq (c : Control) :
    c.group? = if c.groupName = [] then none else some c.groupName := by
  have hgroup : c.group? = (c.attributes.get? "group".toList).filter fun v => !v.isEmpty := rfl
  rw [hgroup, groupName]
  cases c.attributes.get? "group".toList with
  | none => rfl
  | some v => cases v <;> rfl

/-- No control names a group by the empty name. -/
theorem group?_eq_some_iff : c.group? = some name ↔ name ≠ [] ∧ c.groupName = name := by
  rw [group?_eq, Option.ite_none_left_eq_some, Option.some_inj]
  exact and_congr_left fun h => h ▸ Iff.rfl

theorem group?_eq_none_iff : c.group? = none ↔ c.groupName = [] := by
  rw [group?_eq]
  split <;> simp [*]

theorem isNone_group? : c.group?.isNone = decide (c.groupName = []) := by
  rw [Bool.eq_iff_iff, Option.isNone_iff_eq_none, group?_eq_none_iff, decide_eq_true_iff]

end Control

namespace Form

variable {c : Control} {name : Text} {names : List Text} {done controls : List Control}

/-- The group that a name has among some controls. -/
def groupOf (controls : List Control) (name : Text) : Group :=
  ⟨name, controls.filter fun c => c.groupName = name⟩

/-- The names of some controls, each once, in the order in which they come up first. -/
def namesOf (controls : List Control) : List Text := (controls.map Control.groupName).eraseDups

theorem mem_namesOf : name ∈ namesOf controls ↔ ∃ c ∈ controls, c.groupName = name := by
  rw [namesOf, List.mem_eraseDups, List.mem_map]

theorem namesOf_append (done : List Control) (c : Control) :
    namesOf (done ++ [c])
      = if c.groupName ∈ namesOf done then namesOf done else namesOf done ++ [c.groupName] := by
  simp only [namesOf, List.map_append, List.map_singleton, eraseDups_append_singleton,
    List.mem_eraseDups]

/-! ## One more control -/

theorem groupOf_append (done : List Control) (c : Control) (name : Text) :
    groupOf (done ++ [c]) name
      = if c.groupName = name then ⟨name, (groupOf done name).controls ++ [c]⟩
        else groupOf done name := by
  rw [groupOf, groupOf, List.filter_append]
  by_cases h : c.groupName = name <;> simp [h]

/-- A group that no control was in yet has the one control. -/
theorem groupOf_append_of_new (h : c.groupName ∉ namesOf done) :
    groupOf (done ++ [c]) c.groupName = ⟨c.groupName, [c]⟩ := by
  have hnone : done.filter (fun d => d.groupName = c.groupName) = [] :=
    List.filter_eq_nil_iff.2 fun d hd he => h (mem_namesOf.2 ⟨d, hd, by simpa using he⟩)
  rw [groupOf_append, if_pos rfl, groupOf, hnone]
  rfl

theorem map_groupOf_append (h : c.groupName ∉ names) :
    names.map (groupOf (done ++ [c])) = names.map (groupOf done) :=
  List.map_congr_left fun name hname => by
    rw [groupOf_append, if_neg fun he : c.groupName = name => h (he ▸ hname)]

/-- **One more control goes into the group of its name**, which is there exactly if the name has
come up before. -/
theorem addTo_map (hnodup : names.Nodup) (done : List Control) (c : Control) :
    addTo c.groupName c (names.map (groupOf done))
      = if c.groupName ∈ names then names.map (groupOf (done ++ [c]))
        else names.map (groupOf done) ++ [⟨c.groupName, [c]⟩] := by
  induction names with
  | nil => rfl
  | cons name rest ih =>
    obtain ⟨hname, hrest⟩ := List.nodup_cons.1 hnodup
    rw [List.map_cons, addTo]
    have hgroup : (groupOf done name).name = name := rfl
    rw [hgroup]
    by_cases h : name = c.groupName
    · subst h
      rw [if_pos rfl, if_pos List.mem_cons_self, List.map_cons, map_groupOf_append hname,
        groupOf_append, if_pos rfl]
    · have hne : c.groupName ≠ name := fun he => h he.symm
      rw [if_neg h, ih hrest, List.map_cons, groupOf_append, if_neg hne]
      simp only [List.mem_cons, hne, false_or]
      split <;> rfl

/-- The names of groups that some controls have, each once, in the order in which they come up
first. -/
def groupNames (controls : List Control) : List Text :=
  (namesOf controls).filter fun name => !name.isEmpty

theorem mem_groupNames : name ∈ groupNames controls ↔ name ∈ namesOf controls ∧ name ≠ [] := by
  rw [groupNames, List.mem_filter, Bool.not_eq_true', List.isEmpty_eq_false_iff]

theorem pairwise_groupNames (controls : List Control) :
    (groupNames controls).Pairwise fun a b =>
      (controls.map Control.groupName).idxOf a < (controls.map Control.groupName).idxOf b :=
  (pairwise_eraseDups _).filter _

theorem nodup_groupNames (controls : List Control) : (groupNames controls).Nodup :=
  (pairwise_groupNames controls).imp fun h he => by
    subst he
    exact Nat.lt_irrefl _ h

theorem groupNames_append (hne : c.groupName ≠ []) :
    groupNames (done ++ [c]) = if c.groupName ∈ groupNames done then groupNames done
      else groupNames done ++ [c.groupName] := by
  have hmem : c.groupName ∈ groupNames done ↔ c.groupName ∈ namesOf done := by
    rw [mem_groupNames, and_iff_left hne]
  simp only [hmem]
  rw [groupNames, namesOf_append]
  split
  · rfl
  · rw [List.filter_append, groupNames, List.filter_singleton,
      List.isEmpty_eq_false_iff.2 hne]
    rfl

theorem groupNames_append_of_nil (h : c.groupName = []) :
    groupNames (done ++ [c]) = groupNames done := by
  rw [groupNames, namesOf_append, h]
  split
  · rfl
  · rw [List.filter_append]
    exact List.append_nil _

theorem namedGroups_append (done : List Control) (c : Control) :
    namedGroups (done ++ [c]) = addNamed (namedGroups done) c := by
  rw [namedGroups_eq, List.foldl_append, ← namedGroups_eq]
  rfl

/-! ## All controls -/

/-- **The groups with a name**, in the order in which their names come up first. -/
theorem namedGroups_eq_map (controls : List Control) :
    namedGroups controls = (groupNames controls).map (groupOf controls) := by
  induction controls using List.reverseRecOn with
  | nil => rfl
  | append_singleton done c ih =>
    rw [namedGroups_append, ih, addNamed]
    cases hc : c.group? with
    | none =>
      have hnil := Control.group?_eq_none_iff.1 hc
      have hnew : c.groupName ∉ groupNames done := fun h => (mem_groupNames.1 h).2 hnil
      rw [groupNames_append_of_nil hnil, map_groupOf_append hnew]
    | some name =>
      obtain ⟨hne, rfl⟩ := Control.group?_eq_some_iff.1 hc
      rw [groupNames_append hne]
      refine (addTo_map (nodup_groupNames done) done c).trans ?_
      split
      · rfl
      · rename_i hnew
        have hnew' : c.groupName ∉ namesOf done := fun h => hnew (mem_groupNames.2 ⟨h, hne⟩)
        rw [List.map_append, map_groupOf_append hnew, List.map_singleton,
          groupOf_append_of_new hnew']

/-- The names of the groups of a form with these controls. -/
def shownNames (controls : List Control) : List Text :=
  groupNames controls ++ if [] ∈ namesOf controls then [[]] else []

theorem mem_shownNames : name ∈ shownNames controls ↔ name ∈ namesOf controls := by
  rw [shownNames, List.mem_append, mem_groupNames]
  by_cases hname : name = []
  · subst hname
    split <;> simp_all
  · split <;> simp [hname]

theorem groups_ofControls (controls : List Control) :
    (ofControls controls).groups = (shownNames controls).map (groupOf controls) := by
  have hrest : controls.filter (fun c => c.group?.isNone) = (groupOf controls []).controls := by
    simp only [Control.isNone_group?]
    rfl
  have hempty : (groupOf controls []).controls.isEmpty = true ↔ [] ∉ namesOf controls := by
    rw [List.isEmpty_iff, groupOf, List.filter_eq_nil_iff, mem_namesOf]
    simp
  rw [ofControls, hrest, namedGroups_eq_map, shownNames, List.map_append]
  by_cases h : [] ∈ namesOf controls
  · have hfilled : ¬(groupOf controls []).controls.isEmpty = true := fun he => hempty.1 he h
    rw [if_pos h, if_neg hfilled]
    rfl
  · rw [if_neg h, if_pos (hempty.2 h)]
    rfl

/-! ## The groups of a form -/

/-- Whether the group of one name stands before that of another: by the first controls in them, and
none stands behind the group without a name. -/
structure NameBefore (controls : List Control) (a b : Text) : Prop where
  named : a ≠ []
  first : b ≠ [] →
    (controls.map Control.groupName).idxOf a < (controls.map Control.groupName).idxOf b

theorem NameBefore.ne {a b : Text} (h : NameBefore controls a b) : a ≠ b := by
  rintro rfl
  exact Nat.lt_irrefl _ (h.first h.named)

/-- How a form shows some controls. -/
structure Grouped (f : Form) (controls : List Control) : Prop where
  filled : ∀ g ∈ f.groups, g.controls ≠ []
  /-- A group holds the controls of its name, all of them and in their order. -/
  members : ∀ g ∈ f.groups, g.controls = controls.filter fun c => c.groupName = g.name
  distinct : (f.groups.map Group.name).Nodup
  ordered : f.groups.Pairwise fun g h => NameBefore controls g.name h.name
  /-- Each control is shown, and shown once. -/
  once : f.controls.Perm controls
  /-- A group is found by its name if there are controls of that name. -/
  found : ∀ name, f.group? name
    = if ∃ c ∈ controls, c.groupName = name then
        some ⟨name, controls.filter fun c => c.groupName = name⟩
      else none

theorem pairwise_shownNames (controls : List Control) :
    (shownNames controls).Pairwise (NameBefore controls) := by
  have hnamed : (groupNames controls).Pairwise (NameBefore controls) :=
    (pairwise_groupNames controls).imp_of_mem fun ha _ h => ⟨(mem_groupNames.1 ha).2, fun _ => h⟩
  refine List.pairwise_append.2 ⟨hnamed, ?_, fun a ha b hb => ?_⟩
  · split
    · exact List.pairwise_singleton _ _
    · exact List.Pairwise.nil
  · split at hb
    · obtain rfl := List.mem_singleton.1 hb
      exact ⟨(mem_groupNames.1 ha).2, fun h => absurd rfl h⟩
    · cases hb

theorem find?_groupOf (names : List Text) (controls : List Control) (name : Text) :
    (names.map (groupOf controls)).find? (fun g => g.name = name)
      = if name ∈ names then some (groupOf controls name) else none := by
  induction names with
  | nil => rfl
  | cons a rest ih =>
    rw [List.map_cons, List.find?_cons, ih]
    by_cases h : a = name
    · subst h
      simp [groupOf]
    · have h' : ¬name = a := fun he => h he.symm
      simp [groupOf, h, h']

/-- **A form shows each control in the group of its name.** -/
theorem grouped_ofControls (controls : List Control) :
    Grouped (ofControls controls) controls := by
  have hordered : (ofControls controls).groups.Pairwise fun g h =>
      NameBefore controls g.name h.name := by
    rw [groups_ofControls]
    exact List.pairwise_map.2 (pairwise_shownNames controls)
  have hdistinct : ((ofControls controls).groups.map Group.name).Nodup :=
    List.pairwise_map.2 (hordered.imp NameBefore.ne)
  refine ⟨?_, ?_, hdistinct, hordered, controls_ofControls_perm controls, fun name => ?_⟩
  · rw [groups_ofControls]
    intro g hg
    obtain ⟨name, hname, rfl⟩ := List.mem_map.1 hg
    obtain ⟨c, hc, he⟩ := mem_namesOf.1 (mem_shownNames.1 hname)
    exact List.ne_nil_of_mem (List.mem_filter.2 ⟨hc, by simpa using he⟩)
  · rw [groups_ofControls]
    intro g hg
    obtain ⟨name, -, rfl⟩ := List.mem_map.1 hg
    rfl
  · rw [group?, groups_ofControls, find?_groupOf]
    simp only [mem_shownNames, mem_namesOf]
    rfl

end Form

/-! ## The form of a source -/

/-- A mark in its place is this control: the user may see it, there is a setting below it, and its
tag accepts the literal. -/
structure Placed.Resolves (p : Placed) (user : Option Text) (c : Control) : Prop where
  visible : p.mark.attributes.visibleTo user = true
  setting : ∃ content s, p.content? = some content ∧ Setting.of? content = some s ∧
    p.mark.tag.accepts (LiteralKind.of s.literal) = true ∧
    c = { tag := p.mark.tag, hash := p.mark.hash?, attributes := p.mark.attributes,
          value := p.mark.tag.present (Tag.plainValue (LiteralKind.of s.literal) s.literal),
          kind := LiteralKind.of s.literal }

theorem Placed.control_eq_ok_iff {p : Placed} {user : Option Text} {c : Control} :
    p.control user = .ok c ↔ p.Resolves user c := by
  rw [Placed.control, Mark.control_eq_ok_iff]
  simp only [Mark.setting_eq_ok_iff, Tag.shown_eq_ok_iff, Tag.checkedKind_eq_ok_iff]
  constructor
  · rintro ⟨s, _, _, ⟨hv, content, hc, hs⟩, ⟨⟨rfl, ha⟩, rfl⟩, rfl⟩
    exact ⟨hv, content, s, hc, hs, ha, rfl⟩
  · rintro ⟨hv, content, s, hc, hs, ha, rfl⟩
    exact ⟨s, _, _, ⟨hv, content, hc, hs⟩, ⟨⟨rfl, ha⟩, rfl⟩, rfl⟩

/-- **The form of a source shows the controls that its marks resolve to**, in the order of the marks,
each in the group of its name and nothing else. -/
theorem form_grouped (source : Text) (user : Option Text) :
    (∀ p ∈ Placed.ofText source, ∀ c, p.control user = .ok c ↔ p.Resolves user c) ∧
      (form source user).Grouped
        ((Placed.ofText source).filterMap fun p => (p.control user).toOption) :=
  ⟨fun _ _ _ => Placed.control_eq_ok_iff, Form.grouped_ofControls _⟩

/-- Two groups in turn, a mark without a group in between, one whose group has no name, one that is
meant for somebody else, and one whose literal its tag does not accept. -/
theorem form_grouped_in_turn :
    let source := ("// @input group=\"d\" access=\"alice\"\nx = 0\n" ++
      "// @input group=\"b\"\nx = 1\n// @input group=\"\"\nx = 2\n" ++
      "// @input group=\"a\"\nx = 3\n// @range group=\"c\"\nx = 4\n" ++
      "// @input n\nx = 5\n// @input group=\"b\"\nx = 6").toList
    let shown (group? : Option Text) (value : Char) : Control :=
      { tag := .input, hash := none, value := .text [value], kind := .number
        attributes := ⟨group?.toList.map fun name => ("group".toList, name)⟩ }
    let f := form source (some "bob".toList)
    f.groups.map Group.name = [['b'], ['a'], []] ∧
      f.group? ['b'] = some ⟨['b'], [shown (some ['b']) '1', shown (some ['b']) '6']⟩ ∧
      f.group? ['a'] = some ⟨['a'], [shown (some ['a']) '3']⟩ ∧
      f.group? [] = some ⟨[], [shown (some []) '2', shown none '5']⟩ ∧
      f.group? ['c'] = none ∧ f.group? ['d'] = none := by
  intro source shown f
  let controls : List Control := [shown (some ['b']) '1', shown (some []) '2',
    shown (some ['a']) '3', shown none '5', shown (some ['b']) '6']
  have hresolved : (Placed.ofText source).filterMap
      (fun p => (p.control (some "bob".toList)).toOption) = controls := by decide +kernel
  have hform : f = Form.ofControls controls := congrArg Form.ofControls hresolved
  have hgrouped := (form_grouped source (some "bob".toList)).2
  rw [hresolved] at hgrouped
  refine ⟨by rw [hform]; decide +kernel, ?_, ?_, ?_, ?_, ?_⟩ <;>
    rw [hgrouped.found] <;> decide +kernel

end Marginalia
