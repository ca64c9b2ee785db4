import Mathlib.Data.List.Nodup
import Marginalia.Command.Preferences
import Marginalia.Proofs.Disk.Written
import Marginalia.Proofs.Except

/-!
# The preferences in force

A run that is told neither who asks nor whether to write goes by the file of preferences, so what it
does cannot be said without saying what that file means.  `Preferences.States` does so in terms of
the JSON value in the file: an object states each preference at most once, in any order, and nothing
else; a list states them in their order and may stop early.  What is not stated is as if there were
no file.

The decoder asks for one field after another and rejects a repeated field only when its turn comes.
It finds every repetition all the same, because a field that it does not ask for is rejected before
(`Preferences.nodup_of_count_le`).

* `Preferences.ofJson?_eq_some_iff` — the decoder reads exactly what is stated.
* `Preferences.inForce_iff` — **the preferences of a run are the ones in force.**
-/

set_option autoImplicit false
namespace Marginalia

/-! ## Fields that may be absent -/

/-- The fields of an object as they are written, and under the texts of their keys. -/
def Json.Fields (written given : List (Text × Json)) : Prop :=
  List.Forall₂ (fun w g => Json.unescape? w.1 = some g.1 ∧ w.2 = g.2) written given

/-- A text that may be absent or `null`. -/
inductive Json.StatesText : Option Json → Option Text → Prop
  | absent : StatesText none none
  | null : StatesText (some .null) none
  | text {body t : Text} : Json.unescape? body = some t → StatesText (some (.string body)) (some t)

/-- A truth value that is false when it is absent. -/
inductive Json.StatesFlag : Option Json → Bool → Prop
  | absent : StatesFlag none false
  | bool (b : Bool) : StatesFlag (some (.bool b)) b

section

variable {fields : List (Text × Json)} {name : Text} {x? : Option Json}

theorem Json.fields?_object_eq_some_iff {written given : List (Text × Json)} :
    fields? (.object written) = some given ↔ Fields written given := by
  rw [fields?, List.mapM_eq_some_iff]
  refine ⟨fun h => h.imp fun w g hw => ?_, fun h => h.imp fun w g hw => ?_⟩
  · obtain ⟨k, hk, rfl⟩ := Option.map_eq_some_iff.1 hw
    exact ⟨hk, rfl⟩
  · exact Option.map_eq_some_iff.2 ⟨g.1, hw.1, by rw [hw.2]⟩

theorem Json.nullable?_text?_eq_some_iff {t? : Option Text} :
    nullable? text? x? = some t? ↔ StatesText x? t? := by
  constructor
  · intro h
    match x? with
    | none => cases h; exact .absent
    | some .null => cases h; exact .null
    | some (.string body) =>
      obtain ⟨t, ht, rfl⟩ := Option.map_eq_some_iff.1 h
      exact .text ht
  · rintro (_ | _ | ht)
    · rfl
    · rfl
    · exact Option.map_eq_some_iff.2 ⟨_, ht, rfl⟩

theorem Preferences.flag?_eq_some_iff {b : Bool} : flag? x? = some b ↔ Json.StatesFlag x? b := by
  constructor
  · intro h
    match x? with
    | none => cases h; exact .absent
    | some (.bool b) => cases h; exact .bool b
  · rintro (_ | _) <;> rfl

theorem Json.lookup_eq_head?_filter (fields : List (Text × Json)) (name : Text) :
    fields.lookup name = ((fields.filter fun field => field.1 = name).head?).map Prod.snd := by
  induction fields with
  | nil => rfl
  | cons field rest ih =>
    rw [List.lookup_cons, ih]
    by_cases h : field.1 = name
    · simp [h]
    · simp [h, beq_eq_false_iff_ne.2 (Ne.symm h)]

/-- A field is found when it is given at most once. -/
theorem Json.optional?_eq_some_iff : optional? fields name = some x? ↔
    (fields.map Prod.fst).count name ≤ 1 ∧ fields.lookup name = x? := by
  have hcount : (fields.map Prod.fst).count name
      = (fields.filter fun field => field.1 = name).length := by
    rw [List.count, List.countP_map, List.countP_eq_length_filter]
    simp only [Function.comp_def, beq_eq_decide]
  rw [optional?, hcount, lookup_eq_head?_filter]
  generalize (fields.filter fun field => field.1 = name) = found
  match found with
  | [] => simp
  | [(_, j)] => simp
  | _ :: _ :: _ => simp

theorem Json.bind_optional?_eq_some_iff {α : Type} {read : Option Json → Option α} {a : α} :
    (optional? fields name).bind read = some a ↔
      (fields.map Prod.fst).count name ≤ 1 ∧ read (fields.lookup name) = some a := by
  simp only [Option.bind_eq_some_iff, optional?_eq_some_iff, and_assoc, exists_and_left,
    exists_eq_left']

end

namespace Preferences

/-! ## What a value states -/

/-- The preferences that a value states. -/
inductive States : Json → Preferences → Prop
  | object {written given : List (Text × Json)} {schema? user? : Option Text} {write pretty : Bool} :
      Json.Fields written given → (given.map Prod.fst).Nodup →
      (∀ name ∈ given.map Prod.fst,
        name ∈ ["$schema".toList, "user".toList, "write".toList, "pretty".toList]) →
      Json.StatesText (given.lookup "$schema".toList) schema? →
      Json.StatesText (given.lookup "user".toList) user? →
      Json.StatesFlag (given.lookup "write".toList) write →
      Json.StatesFlag (given.lookup "pretty".toList) pretty →
      States (.object written) ⟨user?, write, pretty⟩
  | list {items : List Json} {schema? user? : Option Text} {write pretty : Bool} :
      items.length ≤ 4 →
      Json.StatesText items[0]? schema? → Json.StatesText items[1]? user? →
      Json.StatesFlag items[2]? write → Json.StatesFlag items[3]? pretty →
      States (.array items) ⟨user?, write, pretty⟩

/-- Fields under the texts of their keys that state preferences. -/
structure InFields (fields : List (Text × Json)) (p : Preferences) : Prop where
  once : (fields.map Prod.fst).Nodup
  known : ∀ name ∈ fields.map Prod.fst, name ∈ fieldNames
  schema : ∃ t?, Json.StatesText (fields.lookup "$schema".toList) t?
  user : Json.StatesText (fields.lookup "user".toList) p.user
  write : Json.StatesFlag (fields.lookup "write".toList) p.write
  pretty : Json.StatesFlag (fields.lookup "pretty".toList) p.pretty

variable {j : Json} {fields : List (Text × Json)} {p : Preferences}

/-- Keys that are all asked for, and each found once, are different. -/
theorem nodup_of_count_le (known : ∀ name ∈ fields.map Prod.fst, name ∈ fieldNames)
    (once : ∀ name ∈ fieldNames, (fields.map Prod.fst).count name ≤ 1) :
    (fields.map Prod.fst).Nodup :=
  List.nodup_iff_count_le_one.2 fun name => by
    by_cases h : name ∈ fields.map Prod.fst
    · exact once name (known name h)
    · rw [List.count_eq_zero_of_not_mem h]
      exact Nat.zero_le 1

theorem ofJson?_eq_bind (j : Json) : ofJson? j = (Json.record? fieldNames j).bind fun fields =>
    if fields.any fun field => !fieldNames.contains field.1 then none
    else ((Json.optional? fields "$schema".toList).bind (Json.nullable? Json.text?)).bind fun _ =>
      ((Json.optional? fields "user".toList).bind (Json.nullable? Json.text?)).bind fun user =>
      ((Json.optional? fields "write".toList).bind flag?).bind fun write =>
      ((Json.optional? fields "pretty".toList).bind flag?).map fun pretty =>
        { user, write, pretty } := by
  rw [ofJson?]
  refine congrArg (Option.bind _) (funext fun fields => ?_)
  split
  · rfl
  · simp only [Option.pure_def, Option.bind_eq_bind, Option.map_eq_bind, Function.comp_def]

/-- The decoder asks for each field, and no other. -/
theorem ofJson?_eq_some_iff_inFields :
    ofJson? j = some p ↔ ∃ fields, Json.record? fieldNames j = some fields ∧ InFields fields p := by
  rw [ofJson?_eq_bind, Option.bind_eq_some_iff]
  refine exists_congr fun fields => and_congr_right fun _ => ?_
  have hany : (¬ (fields.any fun field => !fieldNames.contains field.1) = true) ↔
      ∀ name ∈ fields.map Prod.fst, name ∈ fieldNames := by simp
  rw [Option.ite_none_left_eq_some, hany]
  constructor
  · rintro ⟨known, h⟩
    obtain ⟨schema, hschema, h⟩ := Option.bind_eq_some_iff.1 h
    obtain ⟨user, huser, h⟩ := Option.bind_eq_some_iff.1 h
    obtain ⟨write, hwrite, h⟩ := Option.bind_eq_some_iff.1 h
    obtain ⟨pretty, hpretty, rfl⟩ := Option.map_eq_some_iff.1 h
    rw [Json.bind_optional?_eq_some_iff, Json.nullable?_text?_eq_some_iff] at hschema huser
    rw [Json.bind_optional?_eq_some_iff, flag?_eq_some_iff] at hwrite hpretty
    have once : ∀ name ∈ fieldNames, (fields.map Prod.fst).count name ≤ 1 := by
      simp only [fieldNames, List.forall_mem_cons]
      exact ⟨hschema.1, huser.1, hwrite.1, hpretty.1, by simp⟩
    exact ⟨nodup_of_count_le known once, known, ⟨schema, hschema.2⟩, huser.2, hwrite.2, hpretty.2⟩
  · rintro ⟨nodup, known, ⟨schema, hschema⟩, huser, hwrite, hpretty⟩
    have once := List.nodup_iff_count_le_one.1 nodup
    have hschema := Json.bind_optional?_eq_some_iff.2
      ⟨once _, Json.nullable?_text?_eq_some_iff.2 hschema⟩
    have huser := Json.bind_optional?_eq_some_iff.2
      ⟨once _, Json.nullable?_text?_eq_some_iff.2 huser⟩
    have hwrite := Json.bind_optional?_eq_some_iff.2 ⟨once _, flag?_eq_some_iff.2 hwrite⟩
    have hpretty := Json.bind_optional?_eq_some_iff.2 ⟨once _, flag?_eq_some_iff.2 hpretty⟩
    refine ⟨known, ?_⟩
    rw [hschema, Option.bind_some, huser, Option.bind_some, hwrite, Option.bind_some, hpretty,
      Option.map_some]

/-- The items of a list under their names state what they state in order. -/
theorem inFields_zip_iff {items : List Json} (h : items.length ≤ 4) :
    InFields (fieldNames.zip items) p ↔
      (∃ t?, Json.StatesText items[0]? t?) ∧ Json.StatesText items[1]? p.user ∧
      Json.StatesFlag items[2]? p.write ∧ Json.StatesFlag items[3]? p.pretty := by
  have hfields : (fieldNames.zip items).map Prod.fst = fieldNames.take items.length ∧
      (fieldNames.zip items).lookup "$schema".toList = items[0]? ∧
      (fieldNames.zip items).lookup "user".toList = items[1]? ∧
      (fieldNames.zip items).lookup "write".toList = items[2]? ∧
      (fieldNames.zip items).lookup "pretty".toList = items[3]? := by
    match items with
    | [] => exact ⟨rfl, rfl, rfl, rfl, rfl⟩
    | [_] => exact ⟨rfl, rfl, rfl, rfl, rfl⟩
    | [_, _] => exact ⟨rfl, rfl, rfl, rfl, rfl⟩
    | [_, _, _] => exact ⟨rfl, rfl, rfl, rfl, rfl⟩
    | [_, _, _, _] => exact ⟨rfl, rfl, rfl, rfl, rfl⟩
  obtain ⟨hkeys, hschema, huser, hwrite, hpretty⟩ := hfields
  have hsublist := List.take_sublist items.length fieldNames
  rw [← hkeys] at hsublist
  rw [← hschema, ← huser, ← hwrite, ← hpretty]
  constructor
  · rintro ⟨-, -, hschema, huser, hwrite, hpretty⟩
    exact ⟨hschema, huser, hwrite, hpretty⟩
  · rintro ⟨hschema, huser, hwrite, hpretty⟩
    exact ⟨hsublist.nodup (by decide), fun _ hname => hsublist.subset hname, hschema, huser,
      hwrite, hpretty⟩

/-- **The decoder reads what a value states.** -/
theorem ofJson?_eq_some_iff : ofJson? j = some p ↔ States j p := by
  rw [ofJson?_eq_some_iff_inFields]
  constructor
  · rintro ⟨fields, hfields, h⟩
    match j with
    | .array items =>
      rw [Json.record?, Option.ite_none_right_eq_some] at hfields
      obtain ⟨hlength, hfields⟩ := hfields
      cases hfields
      obtain ⟨⟨schema?, hschema⟩, huser, hwrite, hpretty⟩ := (inFields_zip_iff hlength).1 h
      exact .list hlength hschema huser hwrite hpretty
    | .object written =>
      obtain ⟨schema?, hschema⟩ := h.schema
      exact .object (Json.fields?_object_eq_some_iff.1 hfields) h.once h.known hschema h.user
        h.write h.pretty
  · rintro (⟨keys, nodup, known, hschema, huser, hwrite, hpretty⟩ |
      ⟨hlength, hschema, huser, hwrite, hpretty⟩)
    · exact ⟨_, Json.fields?_object_eq_some_iff.2 keys, nodup, known, ⟨_, hschema⟩, huser, hwrite,
        hpretty⟩
    · exact ⟨_, if_pos hlength, (inFields_zip_iff hlength).2 ⟨⟨_, hschema⟩, huser, hwrite, hpretty⟩⟩

/-! ## On a disk -/

/-- The preferences that the file of preferences puts in force: those that it states, and none if it
cannot be read or states none. -/
inductive InForce (d : Disk) : Preferences → Prop
  | stated {t : Text} {j : Json} {p : Preferences} : d.read ⟨"sigil.config.json".toList⟩ = .ok t →
      Json.read? t = some j → States j p → InForce d p
  | unset : (∀ t j p, d.read ⟨"sigil.config.json".toList⟩ = .ok t → Json.read? t = some j →
      ¬ States j p) → InForce d ⟨none, false, false⟩

variable {d : Disk}

/-- The preferences that are found are those that are read, if there are any. -/
theorem ofDisk_fst (d : Disk) : (ofDisk d).1
    = (((d.read path).toOption.bind Json.read?).bind ofJson?).getD unset := by
  rw [ofDisk]
  cases hread : d.read path with
  | error fault => split <;> rfl
  | ok t =>
    rw [if_pos (Disk.isThere_of_read hread)]
    dsimp only [Except.toOption, Option.bind_some]
    cases (Json.read? t).bind ofJson? <;> rfl

theorem bind_ofJson?_eq_some_iff :
    ((d.read path).toOption.bind Json.read?).bind ofJson? = some p ↔
      ∃ t j, d.read path = .ok t ∧ Json.read? t = some j ∧ States j p := by
  simp only [Option.bind_eq_some_iff, Except.toOption_eq_some_iff, ofJson?_eq_some_iff]
  exact ⟨fun ⟨j, ⟨t, hread, hjson⟩, h⟩ => ⟨t, j, hread, hjson, h⟩,
    fun ⟨t, j, hread, hjson, h⟩ => ⟨j, ⟨t, hread, hjson⟩, h⟩⟩

/-- **The preferences of a run are the ones in force.** -/
theorem inForce_iff : InForce d p ↔ p = (ofDisk d).1 := by
  rw [ofDisk_fst]
  cases hfound : ((d.read path).toOption.bind Json.read?).bind ofJson? with
  | none =>
    have hnone {t j p} (hread : d.read path = .ok t) (hjson : Json.read? t = some j) :
        ¬ States j p := fun h => by
      cases hfound.symm.trans (bind_ofJson?_eq_some_iff.2 ⟨t, j, hread, hjson, h⟩)
    constructor
    · rintro (⟨hread, hjson, h⟩ | -)
      · exact absurd h (hnone hread hjson)
      · rfl
    · rintro rfl
      exact .unset fun _ _ _ => hnone
  | some q =>
    obtain ⟨t, j, hread, hjson, hq⟩ := bind_ofJson?_eq_some_iff.1 hfound
    constructor
    · rintro (⟨hread, hjson, h⟩ | hnone)
      · exact Option.some.inj
          ((bind_ofJson?_eq_some_iff.2 ⟨_, _, hread, hjson, h⟩).symm.trans hfound)
      · exact absurd hq (hnone t j q hread hjson)
    · rintro rfl
      exact .stated hread hjson hq

end Preferences
end Marginalia
