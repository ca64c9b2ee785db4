import Marginalia.Json.Shapes
import Marginalia.Proofs.Except
import Marginalia.Proofs.Form.Controls
import Marginalia.Proofs.Json.Spelling
import Marginalia.Proofs.Text.Keyed

/-!
# Results that were written and read

What is found in a source and what became of filling it in are handed on as JSON.  Whoever reads
that gets what was written, to the last attribute: the two directions of a shape are inverse to each
other where it matters, which is on the values that a source can give.

They are not inverse on all values.  An object sets its keys one after another when it is read, so
attributes that hold a key twice would come back with one of the two.  That those of a mark never do
is the one fact about sources that is needed here (`Attributes.nodup_keys_ofText`); everything else
holds of any form.

Two things have to be said of each shape: that some text spells it, and that it is read as what it
was made of.  They go from the parts to the whole in the same way, so they are one property,
`Json.Survives`.

## What is here

* `Json.Survives` — what has to be said of a shape, and the lemmas that say it, part by part.
* `Json.survives_attributes_iff` — the attributes that are read as they were.
* `Json.survives_form` and `Json.survives_filled` — the two results, of which the second one needs
  nothing.
* `ReadsBack` and `results_readBack` — **the form of a source and the source filled in are read
  as they were written, in either layout and in any other.**
-/

set_option autoImplicit false
namespace Marginalia

theorem mapM_map_of_forall {α β : Type} {f : α → β} {g : β → Option α} {l : List α}
    (h : ∀ a ∈ l, g (f a) = some a) : (l.map f).mapM g = some l :=
  List.mapM_eq_some_iff.2 (List.forall₂_map_left_iff.2 (List.forall₂_same.2 h))

namespace Json

/-- The fields of an object are read under the keys that they were given. -/
theorem fields?_ofFields (fields : List (Text × Json)) : fields? (ofFields fields) = some fields :=
  mapM_map_of_forall fun p _ => by simp only [unescape?_escape, Option.map_some]

theorem record?_ofFields (names : List Text) (fields : List (Text × Json)) :
    record? names (ofFields fields) = some fields :=
  fields?_ofFields fields

/-! ## Surviving -/

/-- Something that can be written, and is read as what it was from the value that was written. -/
structure Survives {α : Type} (write : α → Json) (read : Json → Option α) (a : α) : Prop where
  spelled : Spellable (write a)
  read : read (write a) = some a

theorem survives_text (t : Text) : Survives ofText text? t := ⟨spellable_ofText t, text?_ofText t⟩

/-- A word may be written as an object too, but it is not. -/
theorem word?_ofText (nothing : Json → Bool) (t : Text) : word? nothing (ofText t) = some t :=
  unescape?_escape t

theorem survives_tag (t : Tag) : Survives ofTag tag? t := by
  refine ⟨spellable_ofText _, ?_⟩
  rw [tag?, ofTag, word?_ofText, Option.bind_some, Tag.ofName?_name]

theorem survives_kind (k : LiteralKind) : Survives ofKind kind? k := by
  refine ⟨spellable_ofText _, ?_⟩
  rw [kind?, ofKind, word?_ofText, Option.bind_some, LiteralKind.ofName?_name]

section

variable {α : Type} {write : α → Json} {read : Json → Option α}

/-- The values of a list survive one by one. -/
theorem Survives.list {l : List α} (h : ∀ a ∈ l, Survives write read a) :
    Survives (fun l => array (l.map write)) (list? read) l := by
  refine ⟨spellable_array fun j hj => ?_, mapM_map_of_forall fun a ha => (h a ha).read⟩
  obtain ⟨a, ha, rfl⟩ := List.mem_map.1 hj
  exact (h a ha).spelled

/-- A field is read as what was written in it. -/
theorem Survives.field {a : α} (h : Survives write read a) {fields : List (Text × Json)}
    {name : Text} (hf : required? fields name = some (write a)) :
    (required? fields name).bind read = some a := by
  rw [hf]
  exact h.read

end

theorem survives_value (v : Value) : Survives ofValue value v := by
  cases v with
  | text t =>
    refine ⟨spellable_ofText t, ?_⟩
    rw [ofValue, ofText, value, unescape?_escape, Option.map_some]
  | items contents =>
    obtain ⟨hspelled, hread⟩ := Survives.list fun t (_ : t ∈ contents) => survives_text t
    refine ⟨hspelled, ?_⟩
    rw [list?] at hread
    rw [ofValue, value, hread, Option.map_some]

/-! ## Attributes and controls -/

/-- Attributes are read by setting one after another. -/
theorem attributes?_ofAttributes (a : Attributes) :
    attributes? (ofAttributes a) = some ⟨Keyed.ofPairs a.pairs⟩ := by
  have hpairs : (a.pairs.map fun p => (p.1, ofText p.2)).mapM
      (fun p => (text? p.2).map fun t => (p.1, t)) = some a.pairs :=
    mapM_map_of_forall fun p _ => by rw [text?_ofText, Option.map_some]
  rw [attributes?, ofAttributes, fields?_ofFields, Option.bind_eq_bind, Option.bind_some]
  exact Option.bind_eq_some_iff.2 ⟨_, hpairs, rfl⟩

theorem spellable_ofAttributes (a : Attributes) : Spellable (ofAttributes a) := by
  refine spellable_ofFields fun p hp => ?_
  obtain ⟨⟨key, v⟩, -, rfl⟩ := List.mem_map.1 hp
  exact spellable_ofText v

/-- **Attributes are read as they were if no key stands in them twice**, and only then. -/
theorem survives_attributes_iff {a : Attributes} :
    Survives ofAttributes attributes? a ↔ (Keyed.keys a.pairs).Nodup := by
  have hread : attributes? (ofAttributes a) = some a ↔ Keyed.ofPairs a.pairs = a.pairs := by
    rw [attributes?_ofAttributes, Option.some.injEq, Attributes.mk.injEq]
  rw [← Keyed.ofPairs_eq_self_iff, ← hread]
  exact ⟨Survives.read, fun h => ⟨spellable_ofAttributes a, h⟩⟩

/-- A key that stands twice comes back once, in its first place and with its last value. -/
example : attributes? (ofAttributes ⟨[(['k'], ['1']), (['a'], []), (['k'], ['2'])]⟩)
    = some ⟨[(['k'], ['2']), (['a'], [])]⟩ := by decide

/-- What a control is read from. -/
theorem control?_eq {j : Json} {fields : List (Text × Json)} {c : Control}
    (hfields : record? controlNames j = some fields)
    (htag : (required? fields "tag".toList).bind tag? = some c.tag)
    (hhash : (optional? fields "hash".toList).bind (nullable? text?) = some c.hash)
    (hattributes : (required? fields "attributes".toList).bind attributes? = some c.attributes)
    (hvalue : (required? fields "value".toList).bind value = some c.value)
    (hkind : (required? fields "jsType".toList).bind kind? = some c.kind) :
    control? j = some c := by
  simp only [control?, hfields, htag, hhash, hattributes, hvalue, hkind, Option.bind_eq_bind,
    Option.bind_some]
  rfl

theorem survives_control {c : Control} (h : (Keyed.keys c.attributes.pairs).Nodup) :
    Survives ofControl control? c := by
  obtain ⟨tag, hash, attributes, v, kind⟩ := c
  have htag := survives_tag tag
  have hattributes := survives_attributes_iff.2 h
  have hvalue := survives_value v
  have hkind := survives_kind kind
  cases hash with
  | none =>
    constructor
    · refine spellable_ofFields ?_
      simp only [List.cons_append, List.nil_append, List.forall_mem_cons]
      exact ⟨htag.spelled, hattributes.spelled, hvalue.spelled, hkind.spelled,
        List.forall_mem_nil _⟩
    · exact control?_eq (record?_ofFields _ _) (htag.field rfl) rfl (hattributes.field rfl)
        (hvalue.field rfl) (hkind.field rfl)
  | some hash =>
    have hhash := survives_text hash
    constructor
    · refine spellable_ofFields ?_
      simp only [List.cons_append, List.nil_append, List.forall_mem_cons]
      exact ⟨htag.spelled, hhash.spelled, hattributes.spelled, hvalue.spelled, hkind.spelled,
        List.forall_mem_nil _⟩
    · exact control?_eq (record?_ofFields _ _) (htag.field rfl)
        (congrArg (Option.map some) hhash.read) (hattributes.field rfl) (hvalue.field rfl)
        (hkind.field rfl)

/-! ## Forms -/

theorem group?_eq {j : Json} {fields : List (Text × Json)} {g : Group}
    (hfields : record? ["name".toList, "controls".toList] j = some fields)
    (hname : (required? fields "name".toList).bind text? = some g.name)
    (hcontrols : (required? fields "controls".toList).bind (list? control?) = some g.controls) :
    group? j = some g := by
  simp only [group?, hfields, hname, hcontrols, Option.bind_eq_bind, Option.bind_some]
  rfl

theorem survives_group {g : Group}
    (h : ∀ c ∈ g.controls, (Keyed.keys c.attributes.pairs).Nodup) : Survives ofGroup group? g := by
  have hname := survives_text g.name
  have hcontrols := Survives.list fun c hc => survives_control (h c hc)
  constructor
  · exact spellable_ofFields (List.forall_mem_cons.2
      ⟨hname.spelled, List.forall_mem_singleton.2 hcontrols.spelled⟩)
  · exact group?_eq (record?_ofFields _ _) (hname.field rfl) (hcontrols.field rfl)

theorem form?_eq {j : Json} {fields : List (Text × Json)} {f : Form}
    (hfields : record? ["groups".toList] j = some fields)
    (hgroups : (required? fields "groups".toList).bind (list? group?) = some f.groups) :
    form? j = some f := by
  simp only [form?, hfields, hgroups, Option.bind_eq_bind, Option.bind_some]
  rfl

/-- **A form survives** if none of its controls has an attribute twice. -/
theorem survives_form {f : Form} (h : ∀ c ∈ f.controls, (Keyed.keys c.attributes.pairs).Nodup) :
    Survives ofForm form? f := by
  have hgroups := Survives.list fun g (hg : g ∈ f.groups) =>
    survives_group fun c hc => h c (List.mem_flatMap.2 ⟨g, hg, hc⟩)
  constructor
  · exact spellable_ofFields (List.forall_mem_singleton.2 hgroups.spelled)
  · exact form?_eq (record?_ofFields _ _) (hgroups.field rfl)

/-! ## Faults and refusals

The kind of a fault may stand behind the other fields, so these are stored before they are read.
Words take no room: they open no list and no object. -/

theorem isStorable_ofText {around : Nat} (h : around ≤ deepest) (t : Text) :
    isStorable around (ofText t) = true := by
  have hmeaningful : isMeaningful (ofText t) = true := by
    rw [ofText, isMeaningful, unescape?_escape, Option.isSome_some]
  rw [isStorable, hmeaningful, Bool.true_and]
  exact decide_eq_true h

/-- The fields of a fault besides its kind. -/
def faultDetails : Fault → List (Text × Json)
  | .illegalLiteral tag found => [("tag".toList, ofTag tag), ("found".toList, ofKind found)]
  | .unsupportedValue tag => [("tag".toList, ofTag tag)]
  | _ => []

theorem ofFault_eq (f : Fault) :
    ofFault f = ofFields (("kind".toList, ofText f.kind) :: faultDetails f) := by
  cases f <;> rfl

theorem exists_of_mem_faultDetails {f : Fault} {p : Text × Json} (h : p ∈ faultDetails f) :
    p.1 ≠ "kind".toList ∧ ∃ t, p.2 = ofText t := by
  have htag : "tag".toList ≠ "kind".toList := by decide
  have hfound : "found".toList ≠ "kind".toList := by decide
  cases f with
  | illegalLiteral tag found =>
    simp only [faultDetails, List.mem_cons, List.not_mem_nil, or_false] at h
    obtain rfl | rfl := h
    · exact ⟨htag, _, rfl⟩
    · exact ⟨hfound, _, rfl⟩
  | unsupportedValue tag =>
    obtain rfl := List.mem_singleton.1 h
    exact ⟨htag, _, rfl⟩
  | _ => exact absurd h List.not_mem_nil

theorem faultOfKind?_kind (f : Fault) : faultOfKind? f.kind (faultDetails f) = some f := by
  cases f with
  | illegalLiteral tag found =>
    have h : faultOfKind? (Fault.illegalLiteral tag found).kind
          (faultDetails (.illegalLiteral tag found))
        = ((word? isNullOrEmpty (ofTag tag)).bind Tag.ofName?).bind fun t =>
          ((word? isNullOrEmpty (ofKind found)).bind LiteralKind.ofName?).map fun k =>
            .illegalLiteral t k := rfl
    rw [h, ofTag, ofKind, word?_ofText, word?_ofText, Option.bind_some, Option.bind_some,
      Tag.ofName?_name, LiteralKind.ofName?_name]
    rfl
  | unsupportedValue tag =>
    have h : faultOfKind? (Fault.unsupportedValue tag).kind (faultDetails (.unsupportedValue tag))
        = ((word? isNullOrEmpty (ofTag tag)).bind Tag.ofName?).map .unsupportedValue := rfl
    rw [h, ofTag, word?_ofText, Option.bind_some, Tag.ofName?_name]
    rfl
  | _ => rfl

/-- **A fault survives** wherever a word could be stored. -/
theorem survives_fault {around : Nat} (h : around < deepest) (f : Fault) :
    Survives ofFault (fault? around) f := by
  have hkind := survives_text f.kind
  constructor
  · rw [ofFault_eq]
    refine spellable_ofFields (List.forall_mem_cons.2 ⟨hkind.spelled, fun p hp => ?_⟩)
    obtain ⟨-, t, ht⟩ := exists_of_mem_faultDetails hp
    rw [ht]
    exact spellable_ofText t
  · have hrequired : required? (("kind".toList, ofText f.kind) :: faultDetails f) "kind".toList
        = some (ofText f.kind) := by
      cases f <;> rfl
    have hothers : (("kind".toList, ofText f.kind) :: faultDetails f).filter
        (fun field => field.1 ≠ "kind".toList) = faultDetails f := by
      rw [List.filter_cons_of_neg (by simp), List.filter_eq_self]
      exact fun p hp => decide_eq_true (exists_of_mem_faultDetails hp).1
    have hstorable :
        (faultDetails f).all (fun field => field.2.isStorable (around + 1)) = true := by
      rw [List.all_eq_true]
      intro p hp
      obtain ⟨-, t, ht⟩ := exists_of_mem_faultDetails hp
      rw [ht]
      exact isStorable_ofText h t
    have hfields : faultFields? (ofFields (("kind".toList, ofText f.kind) :: faultDetails f))
        = some (("kind".toList, ofText f.kind) :: faultDetails f) := fields?_ofFields _
    rw [fault?, ofFault_eq, hfields]
    simp only [Option.bind_eq_bind, Option.bind_some, hkind.field hrequired, hothers, hstorable,
      if_true]
    exact faultOfKind?_kind f

theorem refusal?_eq {around : Nat} {j : Json} {fields : List (Text × Json)} {r : Refusal}
    (hfields : record? ["hash".toList, "reason".toList] j = some fields)
    (hhash : (required? fields "hash".toList).bind text? = some r.hash)
    (hfault : (required? fields "reason".toList).bind (fault? (around + 1)) = some r.fault) :
    refusal? around j = some r := by
  simp only [refusal?, hfields, hhash, hfault, Option.bind_eq_bind, Option.bind_some]
  rfl

theorem survives_refusal {around : Nat} (h : around + 1 < deepest) (r : Refusal) :
    Survives ofRefusal (refusal? around) r := by
  have hhash := survives_text r.hash
  have hfault := survives_fault h r.fault
  constructor
  · exact spellable_ofFields (List.forall_mem_cons.2
      ⟨hhash.spelled, List.forall_mem_singleton.2 hfault.spelled⟩)
  · exact refusal?_eq (record?_ofFields _ _) (hhash.field rfl) (hfault.field rfl)

theorem filled?_eq {j : Json} {fields : List (Text × Json)} {f : Filled}
    (hfields : record? ["content".toList, "failures".toList] j = some fields)
    (hcontent : (required? fields "content".toList).bind text? = some f.content)
    (hrefusals : (required? fields "failures".toList).bind (list? (refusal? 2))
      = some f.refusals) : filled? j = some f := by
  simp only [filled?, hfields, hcontent, hrefusals, Option.bind_eq_bind, Option.bind_some]
  rfl

/-- **What became of filling in survives**, whatever it holds. -/
theorem survives_filled (f : Filled) : Survives ofFilled filled? f := by
  have hcontent := survives_text f.content
  have hrefusals := Survives.list fun r (_ : r ∈ f.refusals) =>
    survives_refusal (show 2 + 1 < deepest by decide) r
  constructor
  · exact spellable_ofFields (List.forall_mem_cons.2
      ⟨hcontent.spelled, List.forall_mem_singleton.2 hrefusals.spelled⟩)
  · exact filled?_eq (record?_ofFields _ _) (hcontent.field rfl) (hrefusals.field rfl)

end Json

/-! ## Results -/

/-- No key stands twice in the attributes of a text. -/
theorem Attributes.nodup_keys_ofText (t : Text) : (Keyed.keys (Attributes.ofText t).pairs).Nodup :=
  Keyed.nodup_keys_ofPairs _

theorem nodup_keys_of_mem_controls {source : Text} {user : Option Text} {c : Control}
    (h : c ∈ (form source user).controls) : (Keyed.keys c.attributes.pairs).Nodup := by
  obtain ⟨p, -, hp⟩ := Form.mem_controls_form.1 h
  obtain ⟨s, v, kind, -, -, rfl⟩ := Mark.control_eq_ok_iff.1 hp
  exact Attributes.nodup_keys_ofText _

/-- Something is read as what it was from a text that was written. -/
structure ReadsBack {α : Type} (write : α → Json) (read : Json → Option α) (a : α) : Prop where
  compact : (Json.read? (write a).compact).bind read = some a
  pretty : (Json.read? (write a).pretty).bind read = some a
  /-- It need not be one of the two layouts. -/
  spaced : ∀ t, Json.Spaced (write a) t → (Json.read? t).bind read = some a

theorem Json.Survives.readsBack {α : Type} {write : α → Json} {read : Json → Option α} {a : α}
    (h : Json.Survives write read a) : ReadsBack write read a := by
  constructor
  · rw [h.spelled.read?_compact, Option.bind_some, h.read]
  · rw [h.spelled.read?_pretty, Option.bind_some, h.read]
  · intro t ht
    rw [ht.read?_eq, Option.bind_some, h.read]

/-- **The form of a source and the source filled in are read as they were written.** -/
theorem results_readBack (source : Text) (user : Option Text) :
    ReadsBack Json.ofForm Json.form? (form source user) ∧
      ∀ entries, ReadsBack Json.ofFilled Json.filled? (fill source entries user) :=
  ⟨(Json.survives_form fun _ hc => nodup_keys_of_mem_controls hc).readsBack,
    fun _ => (Json.survives_filled _).readsBack⟩

end Marginalia
