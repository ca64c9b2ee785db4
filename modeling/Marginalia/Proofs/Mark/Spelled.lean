import Marginalia.Proofs.Mark.Attributes

/-!
# Attributes that are written are read back

Attributes are written one behind the other, with spaces between them and blanks around them.
Reading them never looks at where a value begins that it has not come to yet: it takes what stands
before the first equals sign for the key and what stands before the next quotation mark for the
value, and goes on behind it.  So a value may hold equals signs, spaces, and text that looks like
another attribute, and still nothing in it is taken for an attribute; a key may even hold quotation
marks.

* `Attributes.Spellable` — what a key and a value must be free of to be written as an attribute.
* `Attributes.readPairs_spelled` — **attributes that are written are read one by one.**
* `Attributes.ofText_spelled` — what becomes of keys that are written more than once, and that
  whatever is read could have been written: **every text has spellable attributes only.**
-/

set_option autoImplicit false
namespace Marginalia
namespace Attributes

variable {pair : Text × Text} {pairs : List (Text × Text)} {t : Text}

/-! ## Writing -/

/-- A key and a value that can be written as an attribute. -/
structure Spellable (pair : Text × Text) : Prop where
  named : pair.1 ≠ []
  trimmed : Text.trim pair.1 = pair.1
  unassigned : '=' ∉ pair.1
  unquoted : '"' ∉ pair.2

instance (pair : Text × Text) : Decidable (Spellable pair) :=
  decidable_of_iff
    (pair.1 ≠ [] ∧ Text.trim pair.1 = pair.1 ∧ '=' ∉ pair.1 ∧ '"' ∉ pair.2)
    ⟨fun ⟨hne, htrim, hsign, hmark⟩ => ⟨hne, htrim, hsign, hmark⟩,
      fun h => ⟨h.named, h.trimmed, h.unassigned, h.unquoted⟩⟩

/-- One attribute as it is written. -/
def spelling (pair : Text × Text) : Text := pair.1 ++ '=' :: '"' :: (pair.2 ++ ['"'])

/-- A text that writes some attributes, with at least one space between one and the next. -/
inductive Spelled : List (Text × Text) → Text → Prop where
  | none : Spelled [] []
  | last (pair : Text × Text) : Spelled [pair] (spelling pair)
  | more {next : Text × Text} {pairs : List (Text × Text)} {t : Text} (pair : Text × Text)
      (spaces : Nat) (h : Spelled (next :: pairs) t) :
      Spelled (pair :: next :: pairs) (spelling pair ++ (List.replicate (spaces + 1) ' ' ++ t))

/-! ## Reading what is written -/

/-- An attribute is read from its first character on, and what is behind it is left over. -/
theorem readPair?_spelling (h : Spellable pair) (tail : Text) :
    readPair? (Text.trimStart (spelling pair ++ tail))
      = some (pair.1, pair.2, Text.trimStart tail) := by
  have hstart : Text.trimStart pair.1 = pair.1 := by
    rw [← h.trimmed]
    exact Text.trimStart_trimEnd_of_eq (Text.trimStart_trimStart pair.1)
  have hne : Text.trimStart pair.1 ≠ [] := by
    rw [hstart]
    exact h.named
  rw [spelling, List.append_assoc, Text.trimStart_append hne, hstart]
  refine readPair?_eq_some_iff.2 ⟨pair.1, tail, by simp, h.unassigned, h.unquoted, ?_, rfl⟩
  exact h.trimmed.symm

theorem allBlank_spaces (n : Nat) : Text.AllBlank (List.replicate n ' ') :=
  fun c hc => by rw [List.eq_of_mem_replicate hc]; rfl

/-- **Attributes that are written are read one by one**, whatever blanks stand around them. -/
theorem readPairs_spelled {before after : Text} (hpairs : ∀ pair ∈ pairs, Spellable pair)
    (h : Spelled pairs t) (hbefore : Text.AllBlank before) (hafter : Text.AllBlank after) :
    readPairs (Text.trim (before ++ t ++ after)) = pairs := by
  rw [readPairs_trim, List.append_assoc, Text.trimStart_append_of_allBlank hbefore]
  induction h with
  | none =>
    rw [List.nil_append, Text.trimStart_eq_nil_iff.2 hafter]
    exact readPairs_of_none rfl
  | last pair =>
    have hread := readPair?_spelling (hpairs pair List.mem_cons_self) after
    rw [readPairs_of_some hread, Text.trimStart_eq_nil_iff.2 hafter, readPairs_of_none rfl]
  | @more next pairs t pair spaces _ ih =>
    obtain ⟨hpair, hrest⟩ := List.forall_mem_cons.1 hpairs
    rw [List.append_assoc, readPairs_of_some (readPair?_spelling hpair _), List.append_assoc,
      Text.trimStart_append_of_allBlank (allBlank_spaces _), ih hrest]

/-- Nothing but a missing name keeps an attribute that is read from being spellable. -/
theorem spellable_of_mem_readPairs (h : pair ∈ readPairs t) (hne : pair.1 ≠ []) :
    Spellable pair := by
  fun_induction readPairs t with
  | case1 => cases h
  | case2 t key value rest hpair ih =>
    obtain ⟨name, after, -, hname, hvalue, rfl, -⟩ := readPair?_eq_some_iff.1 hpair
    rcases List.mem_cons.1 h with rfl | h
    · exact ⟨hne, Text.trim_trim name, fun hmem => hname (Text.trim_subset name hmem), hvalue⟩
    · exact ih h

/-! ## The attributes of a text -/

/-- What is held of some pairs, of which several may have the same key. -/
structure Holds (a : Attributes) (pairs : List (Text × Text)) : Prop where
  /-- No key is held twice. -/
  once : (Keyed.keys a.pairs).Nodup
  /-- The keys are those of the pairs, in the order in which they come up first. -/
  keys : ∀ key, key ∈ Keyed.keys a.pairs ↔ key ∈ pairs.map Prod.fst
  ordered : (Keyed.keys a.pairs).Pairwise fun key key' =>
    (pairs.map Prod.fst).idxOf key < (pairs.map Prod.fst).idxOf key'
  /-- Each has the value that it is given last. -/
  values : ∀ key value, (key, value) ∈ a.pairs ↔ Keyed.IsLast pairs key value
  found : ∀ key value, a.get? key = some value ↔ Keyed.IsLast pairs key value

theorem holds_ofPairs (pairs : List (Text × Text)) : Holds ⟨Keyed.ofPairs pairs⟩ pairs where
  once := Keyed.nodup_keys_ofPairs pairs
  keys _ := Keyed.mem_keys_ofPairs
  ordered := by
    show (Keyed.keys (Keyed.ofPairs pairs)).Pairwise _
    rw [Keyed.keys_ofPairs]
    exact pairwise_eraseDups _
  values _ _ := (Keyed.mem_iff_get?_eq_some (Keyed.nodup_keys_ofPairs pairs)).trans
    Keyed.get?_ofPairs_eq_some_iff
  found _ _ := Keyed.get?_ofPairs_eq_some_iff

/-- **Attributes that are written are read back**, each key once, in the place where it comes up
first and with the value that it is given last; and whatever text attributes are read from, their
keys differ and all of them are spellable. -/
theorem ofText_spelled :
    (∀ (pairs : List (Text × Text)) (t before after : Text), (∀ pair ∈ pairs, Spellable pair) →
      Spelled pairs t → Text.AllBlank before → Text.AllBlank after →
        Holds (ofText (before ++ t ++ after)) pairs) ∧
    ∀ t, (Keyed.keys (ofText t).pairs).Nodup ∧ ∀ pair ∈ (ofText t).pairs, Spellable pair := by
  refine ⟨fun pairs t before after hpairs h hbefore hafter => ?_,
    fun t => ⟨?_, fun pair hpair => ?_⟩⟩
  · have hnamed : pairs.filter (fun pair => !pair.1.isEmpty) = pairs :=
      List.filter_eq_self.2 fun pair hmem => by simp [(hpairs pair hmem).named]
    rw [ofText, readPairs_spelled hpairs h hbefore hafter, hnamed]
    exact holds_ofPairs pairs
  · exact Keyed.nodup_keys_ofPairs _
  · obtain ⟨key, value⟩ := pair
    have hget := (Keyed.mem_iff_get?_eq_some (Keyed.nodup_keys_ofPairs _)).1 hpair
    obtain ⟨hread, hname⟩ := List.mem_filter.1 (Keyed.mem_of_get?_ofPairs hget)
    exact spellable_of_mem_readPairs hread (by simpa using hname)

/-- A key that is written twice, a key with a quotation mark in it, and values that look like
attributes. -/
theorem ofText_spelled_twice :
    let pairs := [("tip".toList, "a=b".toList), ("x\"".toList, " tip=".toList), ("tip".toList, [])]
    let t := "tip=\"a=b\"   x\"=\" tip=\" tip=\"\"".toList
    let before := "\x0b ".toList
    let after := "\t".toList
    (∀ pair ∈ pairs, Spellable pair) ∧ Spelled pairs t ∧ Text.AllBlank before ∧
      Text.AllBlank after ∧ Holds (ofText (before ++ t ++ after)) pairs ∧
      (Keyed.keys (ofText (before ++ t ++ after)).pairs).Nodup ∧
      ∀ pair ∈ (ofText (before ++ t ++ after)).pairs, Spellable pair := by
  intro pairs t before after
  have hpairs : ∀ pair ∈ pairs, Spellable pair := by decide +kernel
  have hspelled : Spelled pairs t := .more _ 2 (.more _ 0 (.last _))
  have hbefore : Text.AllBlank before := List.all_eq_true.1 (by decide)
  have hafter : Text.AllBlank after := List.all_eq_true.1 (by decide)
  obtain ⟨hread, hspellable⟩ := ofText_spelled
  exact ⟨hpairs, hspelled, hbefore, hafter,
    hread pairs t before after hpairs hspelled hbefore hafter, hspellable _⟩

end Attributes
end Marginalia
