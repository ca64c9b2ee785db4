import Marginalia.Json.Writer
import Marginalia.Proofs.Json.Strings

/-!
# Texts that spell a value

A value can be laid out in many ways, and which one a writer chose is nothing that a reader asks
about.  So the two are not compared with each other.  Between them stands a grammar: `Json.Spaced`
says which texts spell a value, with any blanks between its parts.  That a value is read back from
what was written of it takes one theorem about the reader and one about each writer, and a third
layout would take a third one about the writer alone.

The grammar is that of values whose strings were escaped, without numbers, which nothing that is
written here holds.  It follows the reader in one respect only: blanks behind a value belong to it,
as do those in front, so that a list is its items with commas between them and nothing else.

## What is here

* `Json.Spells` and `Json.Spaced` — the grammar: a text spells a value, without or with blanks
  around it.
* `Json.Spaced.read?_eq` — **whatever spells a value is read as that value.**  By induction on the
  spelling; the bound on the steps is twice the length of what is read.
* `Json.spells_compact` and `Json.spells_pretty` — **both writers spell what they write.**
* `Json.Spellable` — the values that can be spelled, which is told from their parts.
-/

set_option autoImplicit false
namespace Marginalia
namespace Json

/-! ## Blanks -/

/-- A text of blanks. -/
def Spaces (w : Text) : Prop := ∀ c ∈ w, isSpace c = true

theorem spaces_nil : Spaces [] := fun _ h => absurd h List.not_mem_nil

theorem spaces_replicate (n : Nat) : Spaces (List.replicate n ' ') := by
  intro c hc
  rw [List.eq_of_mem_replicate hc]
  rfl

theorem spaces_indentation (level : Nat) : Spaces (indentation level) := by
  intro c hc
  rcases List.mem_cons.1 hc with rfl | hc
  · rfl
  · exact spaces_replicate _ c hc

theorem skipSpace_append {w : Text} (hw : Spaces w) (t : Text) :
    skipSpace (w ++ t) = skipSpace t := by
  rw [skipSpace, List.dropWhile_append_of_pos hw]
  rfl

theorem skipSpace_cons {c : Char} (hc : isSpace c = false) (t : Text) :
    skipSpace (c :: t) = c :: t := by
  rw [skipSpace, List.dropWhile_cons, hc]
  rfl

/-- Blanks end where something else stands. -/
theorem skipSpace_append_cons {w : Text} (hw : Spaces w) {c : Char} (hc : isSpace c = false)
    (t : Text) : skipSpace (w ++ c :: t) = c :: t := by
  rw [skipSpace_append hw, skipSpace_cons hc]

/-! ## The grammar -/

mutual

/-- A text spells a value, from its first character to its last. -/
inductive Spells : Json → Text → Prop where
  | null : Spells null "null".toList
  | bool (b : Bool) : Spells (bool b) (if b then "true".toList else "false".toList)
  | string (t : Text) : Spells (ofText t) ('"' :: (escape t ++ ['"']))
  | emptyArray {w : Text} (hw : Spaces w) : Spells (array []) ('[' :: (w ++ [']']))
  | array {items : List Json} {s : Text} (h : SpellsItems items s) :
      Spells (array items) ('[' :: (s ++ [']']))
  | emptyObject {w : Text} (hw : Spaces w) : Spells (object []) ('\x7b' :: (w ++ ['\x7d']))
  | object {fields : List (Text × Json)} {s : Text} (h : SpellsFields fields s) :
      Spells (object fields) ('\x7b' :: (s ++ ['\x7d']))

/-- A text spells a value with blanks around it. -/
inductive Spaced : Json → Text → Prop where
  | intro {j : Json} {v s w : Text} (hv : Spaces v) (h : Spells j s) (hw : Spaces w) :
      Spaced j (v ++ (s ++ w))

/-- A text spells the items of a list that has some. -/
inductive SpellsItems : List Json → Text → Prop where
  | one {j : Json} {s : Text} (h : Spaced j s) : SpellsItems [j] s
  | more {j : Json} {s : Text} {items : List Json} {r : Text} (h : Spaced j s)
      (hr : SpellsItems items r) : SpellsItems (j :: items) (s ++ ',' :: r)

/-- A text spells a field of an object. -/
inductive SpellsField : Text × Json → Text → Prop where
  | intro {v : Text} (hv : Spaces v) (key : Text) {w : Text} (hw : Spaces w) {j : Json} {s : Text}
      (h : Spaced j s) :
      SpellsField (escape key, j) (v ++ '"' :: (escape key ++ '"' :: (w ++ ':' :: s)))

/-- A text spells the fields of an object that has some. -/
inductive SpellsFields : List (Text × Json) → Text → Prop where
  | one {field : Text × Json} {s : Text} (h : SpellsField field s) : SpellsFields [field] s
  | more {field : Text × Json} {s : Text} {fields : List (Text × Json)} {r : Text}
      (h : SpellsField field s) (hr : SpellsFields fields r) :
      SpellsFields (field :: fields) (s ++ ',' :: r)

end

theorem Spells.spaced {j : Json} {s : Text} (h : Spells j s) : Spaced j s := by
  have := Spaced.intro spaces_nil h spaces_nil
  rwa [List.append_nil] at this

/-- A value begins with something else than a blank or the end of a list. -/
theorem Spells.exists_cons {j : Json} {s : Text} (h : Spells j s) :
    ∃ c r, s = c :: r ∧ isSpace c = false ∧ c ≠ ']' := by
  cases h with
  | bool b => cases b <;> exact ⟨_, _, rfl, rfl, by decide⟩
  | _ => exact ⟨_, _, rfl, rfl, by decide⟩

theorem Spaced.skipSpace_ne {j : Json} {s : Text} (h : Spaced j s) (t u : Text) :
    skipSpace (s ++ t) ≠ ']' :: u := by
  obtain ⟨hv, hs, -⟩ := h
  obtain ⟨c, r, rfl, hspace, hc⟩ := hs.exists_cons
  rw [List.append_assoc, List.cons_append, List.cons_append, skipSpace_append_cons hv hspace]
  exact fun he => hc (List.cons.inj he).1

theorem SpellsItems.skipSpace_ne {items : List Json} {s : Text} (h : SpellsItems items s)
    (t u : Text) : skipSpace (s ++ t) ≠ ']' :: u := by
  cases h with
  | one h => exact h.skipSpace_ne t u
  | more h hr =>
    rw [List.append_assoc]
    exact h.skipSpace_ne _ u

theorem SpellsField.skipSpace_ne {field : Text × Json} {s : Text} (h : SpellsField field s)
    (t u : Text) : skipSpace (s ++ t) ≠ '\x7d' :: u := by
  obtain ⟨hv, key, hw, h⟩ := h
  rw [List.append_assoc, List.cons_append, skipSpace_append_cons hv rfl]
  exact fun he => absurd (List.cons.inj he).1 (by decide)

theorem SpellsFields.skipSpace_ne {fields : List (Text × Json)} {s : Text}
    (h : SpellsFields fields s) (t u : Text) : skipSpace (s ++ t) ≠ '\x7d' :: u := by
  cases h with
  | one h => exact h.skipSpace_ne t u
  | more h hr =>
    rw [List.append_assoc]
    exact h.skipSpace_ne _ u

/-! ## One step of the reader -/

section

variable {steps : Nat} {r rest : Text}

theorem value?_append {w : Text} (hw : Spaces w) (steps : Nat) (t : Text) :
    value? steps (w ++ t) = value? steps t := by
  cases steps with
  | zero => rw [value?, value?]
  | succ steps => rw [value?, value?, skipSpace_append hw]

theorem value?_string (t : Text) :
    value? (steps + 1) ('"' :: (escape t ++ '"' :: rest)) = some (ofText t, rest) := by
  simp only [value?, skipSpace_cons (show isSpace '"' = false from rfl), body?_escape]
  rfl

theorem value?_emptyArray (h : skipSpace r = ']' :: rest) :
    value? (steps + 1) ('[' :: r) = some (array [], rest) := by
  simp only [value?, skipSpace_cons (show isSpace '[' = false from rfl), h]

theorem value?_array {items : List Json} (hne : ∀ u, skipSpace r ≠ ']' :: u)
    (h : items? steps r = some (items, rest)) :
    value? (steps + 1) ('[' :: r) = some (array items, rest) := by
  simp only [value?, skipSpace_cons (show isSpace '[' = false from rfl), h]
  rfl

theorem value?_emptyObject (h : skipSpace r = '\x7d' :: rest) :
    value? (steps + 1) ('\x7b' :: r) = some (object [], rest) := by
  simp only [value?, skipSpace_cons (show isSpace '\x7b' = false from rfl), h]

theorem value?_object {fields : List (Text × Json)} (hne : ∀ u, skipSpace r ≠ '\x7d' :: u)
    (h : members? steps r = some (fields, rest)) :
    value? (steps + 1) ('\x7b' :: r) = some (object fields, rest) := by
  simp only [value?, skipSpace_cons (show isSpace '\x7b' = false from rfl), h]
  rfl

theorem items?_one {j : Json} {w : Text} (hw : Spaces w)
    (h : value? steps r = some (j, w ++ ']' :: rest)) :
    items? (steps + 1) r = some ([j], rest) := by
  simp only [items?, h, skipSpace_append_cons hw (show isSpace ']' = false from rfl)]

theorem items?_more {j : Json} {w t : Text} {items : List Json} (hw : Spaces w)
    (h : value? steps r = some (j, w ++ ',' :: t)) (ht : items? steps t = some (items, rest)) :
    items? (steps + 1) r = some (j :: items, rest) := by
  simp only [items?, h, skipSpace_append_cons hw (show isSpace ',' = false from rfl), ht]
  rfl

/-- What becomes of a field with this text behind it. -/
def membersFrom? (steps : Nat) (field : Text × Json) : Text → Option (List (Text × Json) × Text)
  | '\x7d' :: rest => some ([field], rest)
  | ',' :: more => (members? steps more).map fun (fields, rest) => (field :: fields, rest)
  | _ => none

theorem members?_eq {v : Text} (hv : Spaces v) (key : Text) {w : Text} (hw : Spaces w) {j : Json}
    {t : Text} (h : value? steps r = some (j, t)) :
    members? (steps + 1) (v ++ '"' :: (escape key ++ '"' :: (w ++ ':' :: r)))
      = membersFrom? steps (escape key, j) (skipSpace t) := by
  simp only [members?, skipSpace_append_cons hv (show isSpace '"' = false from rfl), body?_escape,
    skipSpace_append_cons hw (show isSpace ':' = false from rfl), h]
  rfl

end

/-! ## Reading what is spelled

A value takes two steps for each of its characters, which is more than it needs.  A list takes one
step more than a value of the same length, since it looks for its first item before it has read
anything. -/

mutual

theorem Spells.value?_eq {j : Json} {s : Text} : Spells j s → ∀ (steps : Nat) (rest : Text),
    2 * s.length ≤ steps → value? steps (s ++ rest) = some (j, rest)
  | .null, steps + 1, rest, _ => rfl
  | .bool true, steps + 1, rest, _ => rfl
  | .bool false, steps + 1, rest, _ => rfl
  | .string t, steps + 1, rest, _ => by
    rw [List.cons_append, List.append_assoc]
    exact value?_string t
  | .emptyArray hw, steps + 1, rest, _ => by
    rw [List.cons_append, List.append_assoc]
    exact value?_emptyArray (skipSpace_append_cons hw rfl rest)
  | .array h, steps + 1, rest, hsteps => by
    rw [List.length_cons, List.length_append, List.length_singleton] at hsteps
    rw [List.cons_append, List.append_assoc]
    exact value?_array (h.skipSpace_ne _) (h.items?_eq steps rest (by omega))
  | .emptyObject hw, steps + 1, rest, _ => by
    rw [List.cons_append, List.append_assoc]
    exact value?_emptyObject (skipSpace_append_cons hw rfl rest)
  | .object h, steps + 1, rest, hsteps => by
    rw [List.length_cons, List.length_append, List.length_singleton] at hsteps
    rw [List.cons_append, List.append_assoc]
    exact value?_object (h.skipSpace_ne _) (h.members?_eq steps rest (by omega))

/-- The blanks behind a value are left to whoever comes next. -/
theorem Spaced.value?_eq {j : Json} {s : Text} : Spaced j s → ∀ (steps : Nat) (rest : Text),
    2 * s.length ≤ steps → ∃ w, Spaces w ∧ value? steps (s ++ rest) = some (j, w ++ rest)
  | .intro hv h hw, steps, rest, hsteps => by
    rw [List.length_append, List.length_append] at hsteps
    refine ⟨_, hw, ?_⟩
    rw [List.append_assoc, List.append_assoc, value?_append hv]
    exact h.value?_eq steps _ (by omega)

theorem SpellsItems.items?_eq {items : List Json} {s : Text} : SpellsItems items s →
    ∀ (steps : Nat) (rest : Text), 2 * s.length + 1 ≤ steps →
      items? steps (s ++ ']' :: rest) = some (items, rest)
  | .one h, steps + 1, rest, hsteps => by
    obtain ⟨w, hw, hvalue⟩ := h.value?_eq steps (']' :: rest) (Nat.le_of_succ_le_succ hsteps)
    exact items?_one hw hvalue
  | .more h hr, steps + 1, rest, hsteps => by
    rw [List.length_append, List.length_cons] at hsteps
    obtain ⟨w, hw, hvalue⟩ := h.value?_eq steps (',' :: (_ ++ ']' :: rest)) (by omega)
    rw [List.append_assoc, List.cons_append]
    exact items?_more hw hvalue (hr.items?_eq steps rest (by omega))

theorem SpellsField.members?_eq {field : Text × Json} {s : Text} : SpellsField field s →
    ∀ (steps : Nat) (c : Char) (rest : Text), isSpace c = false → 2 * s.length ≤ steps →
      members? (steps + 1) (s ++ c :: rest) = membersFrom? steps field (c :: rest)
  | .intro hv key hw h, steps, c, rest, hc, hsteps => by
    simp only [List.length_append, List.length_cons] at hsteps
    obtain ⟨x, hx, hvalue⟩ := h.value?_eq steps (c :: rest) (by omega)
    simp only [List.append_assoc, List.cons_append]
    rw [members?_eq hv key hw hvalue, skipSpace_append_cons hx hc]

theorem SpellsFields.members?_eq {fields : List (Text × Json)} {s : Text} : SpellsFields fields s →
    ∀ (steps : Nat) (rest : Text), 2 * s.length + 1 ≤ steps →
      members? steps (s ++ '\x7d' :: rest) = some (fields, rest)
  | .one h, steps + 1, rest, hsteps =>
    h.members?_eq steps '\x7d' rest rfl (Nat.le_of_succ_le_succ hsteps)
  | .more h hr, steps + 1, rest, hsteps => by
    rw [List.length_append, List.length_cons] at hsteps
    rw [List.append_assoc, List.cons_append, h.members?_eq steps ',' _ rfl (by omega),
      membersFrom?, hr.members?_eq steps rest (by omega)]
    rfl

end

/-- **Whatever spells a value is read as that value.** -/
theorem Spaced.read?_eq {j : Json} {s : Text} (h : Spaced j s) : read? s = some j := by
  obtain ⟨w, hw, hvalue⟩ := h.value?_eq (2 * s.length + 2) [] (by omega)
  have hend : skipSpace (w ++ []) = [] := skipSpace_append hw []
  rw [List.append_nil] at hvalue
  rw [read?, hvalue]
  simp only [hend, if_pos]

/-! ## Both writers -/

theorem SpellsItems.ne_nil {items : List Json} {s : Text} (h : SpellsItems items s) :
    items ≠ [] := by
  cases h <;> exact List.cons_ne_nil _ _

theorem SpellsFields.ne_nil {fields : List (Text × Json)} {s : Text} (h : SpellsFields fields s) :
    fields ≠ [] := by
  cases h <;> exact List.cons_ne_nil _ _

theorem compactItems_cons (j : Json) {items : List Json} (h : items ≠ []) :
    compactItems (j :: items) = compact j ++ ',' :: compactItems items := by
  rw [compactItems]
  exact h

theorem compactFields_cons (field : Text × Json) {fields : List (Text × Json)} (h : fields ≠ []) :
    compactFields (field :: fields)
      = '"' :: (field.1 ++ '"' :: ':' :: compact field.2) ++ ',' :: compactFields fields := by
  obtain ⟨key, j⟩ := field
  rw [compactFields]
  · rw [List.cons_append, List.cons_append]
  · exact h

mutual

/-- **The text without blanks spells the value.** -/
theorem spells_compact {j : Json} {s : Text} : Spells j s → Spells j (compact j)
  | .null => .null
  | .bool true => .bool true
  | .bool false => .bool false
  | .string t => .string t
  | .emptyArray _ => .emptyArray spaces_nil
  | .array h => .array (spellsItems_compact h)
  | .emptyObject _ => .emptyObject spaces_nil
  | .object h => .object (spellsFields_compact h)

theorem spaced_compact {j : Json} {s : Text} : Spaced j s → Spaced j (compact j)
  | .intro _ h _ => (spells_compact h).spaced

theorem spellsItems_compact {items : List Json} {s : Text} :
    SpellsItems items s → SpellsItems items (compactItems items)
  | .one h => .one (spaced_compact h)
  | .more h hr => by
    rw [compactItems_cons _ hr.ne_nil]
    exact .more (spaced_compact h) (spellsItems_compact hr)

theorem spellsField_compact {field : Text × Json} {s : Text} : SpellsField field s →
    SpellsField field ('"' :: (field.1 ++ '"' :: ':' :: compact field.2))
  | .intro _ key _ h => .intro spaces_nil key spaces_nil (spaced_compact h)

theorem spellsFields_compact {fields : List (Text × Json)} {s : Text} :
    SpellsFields fields s → SpellsFields fields (compactFields fields)
  | .one h => .one (spellsField_compact h)
  | .more h hr => by
    rw [compactFields_cons _ hr.ne_nil]
    exact .more (spellsField_compact h) (spellsFields_compact hr)

end

theorem prettyAt_array (level : Nat) {items : List Json} (h : items ≠ []) :
    prettyAt level (array items)
      = '[' :: (prettyItems (level + 1) items ++ indentation level ++ [']']) := by
  rw [prettyAt]
  · rfl
  · exact fun he => h he

theorem prettyAt_object (level : Nat) {fields : List (Text × Json)} (h : fields ≠ []) :
    prettyAt level (object fields)
      = '\x7b' :: (prettyFields (level + 1) fields ++ indentation level ++ ['\x7d']) := by
  rw [prettyAt]
  · rfl
  · exact fun he => h he

theorem prettyItems_cons (level : Nat) (j : Json) {items : List Json} (h : items ≠ []) :
    prettyItems level (j :: items)
      = indentation level ++ prettyAt level j ++ ',' :: prettyItems level items := by
  rw [prettyItems]
  exact h

theorem prettyFields_cons (level : Nat) (field : Text × Json) {fields : List (Text × Json)}
    (h : fields ≠ []) :
    prettyFields level (field :: fields)
      = indentation level ++ '"' :: (field.1 ++ '"' :: ':' :: ' ' :: prettyAt level field.2)
          ++ ',' :: prettyFields level fields := by
  obtain ⟨key, j⟩ := field
  rw [prettyFields]
  · simp only [List.append_assoc, List.cons_append]
  · exact h

mutual

/-- **The text with line breaks spells the value.** -/
theorem spells_prettyAt {j : Json} {s : Text} :
    Spells j s → ∀ level : Nat, Spells j (prettyAt level j)
  | .null, _ => .null
  | .bool true, _ => .bool true
  | .bool false, _ => .bool false
  | .string t, _ => .string t
  | .emptyArray _, _ => .emptyArray spaces_nil
  | .array h, level => by
    rw [prettyAt_array level h.ne_nil]
    exact .array (spellsItems_pretty h (level + 1) (spaces_indentation level))
  | .emptyObject _, _ => .emptyObject spaces_nil
  | .object h, level => by
    rw [prettyAt_object level h.ne_nil]
    exact .object (spellsFields_pretty h (level + 1) (spaces_indentation level))

theorem spaced_prettyAt {j : Json} {s : Text} : Spaced j s → ∀ (level : Nat) {v w : Text},
    Spaces v → Spaces w → Spaced j (v ++ prettyAt level j ++ w)
  | .intro _ h _, level, _, _, hv, hw => by
    rw [List.append_assoc]
    exact .intro hv (spells_prettyAt h level) hw

/-- The last item has the end of its line behind it. -/
theorem spellsItems_pretty {items : List Json} {s : Text} : SpellsItems items s →
    ∀ (level : Nat) {w : Text}, Spaces w → SpellsItems items (prettyItems level items ++ w)
  | .one h, level, _, hw => .one (spaced_prettyAt h level (spaces_indentation level) hw)
  | .more h hr, level, _, hw => by
    have hj := spaced_prettyAt h level (spaces_indentation level) spaces_nil
    rw [List.append_nil] at hj
    rw [prettyItems_cons level _ hr.ne_nil, List.append_assoc, List.cons_append]
    exact .more hj (spellsItems_pretty hr level hw)

theorem spellsField_pretty {field : Text × Json} {s : Text} : SpellsField field s →
    ∀ (level : Nat) {w : Text}, Spaces w → SpellsField field
      (indentation level ++ '"' :: (field.1 ++ '"' :: ':' :: ' ' :: prettyAt level field.2) ++ w)
  | .intro _ key _ h, level, _, hw => by
    have hj := spaced_prettyAt h level (spaces_replicate 1) hw
    rw [List.replicate_one] at hj
    simp only [List.append_assoc, List.cons_append] at hj ⊢
    exact .intro (spaces_indentation level) key spaces_nil hj

theorem spellsFields_pretty {fields : List (Text × Json)} {s : Text} : SpellsFields fields s →
    ∀ (level : Nat) {w : Text}, Spaces w → SpellsFields fields (prettyFields level fields ++ w)
  | .one h, level, _, hw => by
    have hfield := spellsField_pretty h level hw
    simp only [prettyFields, List.append_assoc, List.cons_append] at hfield ⊢
    exact .one hfield
  | .more h hr, level, _, hw => by
    have hfield := spellsField_pretty h level spaces_nil
    rw [List.append_nil] at hfield
    rw [prettyFields_cons level _ hr.ne_nil, List.append_assoc, List.cons_append]
    exact .more hfield (spellsFields_pretty hr level hw)

end

theorem spells_pretty {j : Json} {s : Text} (h : Spells j s) : Spells j (pretty j) :=
  spells_prettyAt h 0

/-! ## Values that can be spelled -/

/-- Whether any text spells a value. -/
def Spellable (j : Json) : Prop := ∃ s, Spells j s

theorem spellable_ofText (t : Text) : Spellable (ofText t) := ⟨_, .string t⟩

theorem spellable_array {items : List Json} (h : ∀ j ∈ items, Spellable j) :
    Spellable (array items) := by
  by_cases hnil : items = []
  · subst hnil
    exact ⟨_, .emptyArray spaces_nil⟩
  · suffices hs : ∃ s, SpellsItems items s by
      obtain ⟨s, hs⟩ := hs
      exact ⟨_, .array hs⟩
    induction items with
    | nil => exact absurd rfl hnil
    | cons j rest ih =>
      obtain ⟨s, hs⟩ := h j List.mem_cons_self
      by_cases hrest : rest = []
      · subst hrest
        exact ⟨_, .one hs.spaced⟩
      · obtain ⟨r, hr⟩ := ih (fun j hj => h j (List.mem_cons_of_mem _ hj)) hrest
        exact ⟨_, .more hs.spaced hr⟩

theorem spellable_ofFields {fields : List (Text × Json)} (h : ∀ p ∈ fields, Spellable p.2) :
    Spellable (ofFields fields) := by
  by_cases hnil : fields = []
  · subst hnil
    exact ⟨_, .emptyObject spaces_nil⟩
  · suffices hs : ∃ s, SpellsFields (fields.map fun p => (escape p.1, p.2)) s by
      obtain ⟨s, hs⟩ := hs
      exact ⟨_, .object hs⟩
    induction fields with
    | nil => exact absurd rfl hnil
    | cons p rest ih =>
      obtain ⟨key, j⟩ := p
      obtain ⟨s, hs⟩ := h (key, j) List.mem_cons_self
      have hfield := SpellsField.intro spaces_nil key spaces_nil hs.spaced
      by_cases hrest : rest = []
      · subst hrest
        exact ⟨_, .one hfield⟩
      · obtain ⟨r, hr⟩ := ih (fun p hp => h p (List.mem_cons_of_mem _ hp)) hrest
        exact ⟨_, .more hfield hr⟩

/-- **What was written of a value is read as that value**, in either layout. -/
theorem Spellable.read?_compact {j : Json} (h : Spellable j) : read? (compact j) = some j := by
  obtain ⟨s, hs⟩ := h
  exact (spells_compact hs).spaced.read?_eq

theorem Spellable.read?_pretty {j : Json} (h : Spellable j) : read? (pretty j) = some j := by
  obtain ⟨s, hs⟩ := h
  exact (spells_pretty hs).spaced.read?_eq

end Json
end Marginalia
