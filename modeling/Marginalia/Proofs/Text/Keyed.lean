import Mathlib.Data.List.Basic
import Mathlib.Data.List.Induction
import Marginalia.Text.Keyed

/-!
# Looking up what was set

The two ways into a keyed list, `Keyed.get?` and `Keyed.keys`, after one `Keyed.set` and after any
number of them: what is found under a key was set under it, and every key that was set is there.
Setting the pairs of a keyed list one after another gives the list again
(`Keyed.ofPairs_eq_self_iff`).

A key may be set more than once.  The keys then stand in the order in which they come up first
(`Keyed.keys_ofPairs`, `pairwise_eraseDups`), and each has the value it was given last
(`Keyed.get?_ofPairs_eq_some_iff`).
-/

set_option autoImplicit false
namespace Marginalia

/-! ## The members of a list, each once -/

section

variable {α : Type} [BEq α] [LawfulBEq α]

theorem eraseDups_append_singleton (l : List α) (x : α) :
    (l ++ [x]).eraseDups = if x ∈ l then l.eraseDups else l.eraseDups ++ [x] := by
  rw [List.eraseDups_append]
  by_cases hx : x ∈ l
  · simp [List.removeAll, hx]
  · simp [List.removeAll, hx, List.eraseDups_cons]

/-- Without repetitions, the members of a list stand in the order in which they come up first. -/
theorem pairwise_eraseDups (l : List α) :
    l.eraseDups.Pairwise fun a b => l.idxOf a < l.idxOf b := by
  induction l using List.reverseRecOn with
  | nil => exact List.Pairwise.nil
  | append_singleton l x ih =>
    have hold : l.eraseDups.Pairwise fun a b => (l ++ [x]).idxOf a < (l ++ [x]).idxOf b :=
      ih.imp_of_mem fun ha hb h => by
        rwa [List.idxOf_append_of_mem (List.mem_eraseDups.1 ha),
          List.idxOf_append_of_mem (List.mem_eraseDups.1 hb)]
    rw [eraseDups_append_singleton]
    split
    · exact hold
    · rename_i hx
      refine List.pairwise_append.2 ⟨hold, List.pairwise_singleton _ _, fun a ha b hb => ?_⟩
      obtain rfl := List.mem_singleton.1 hb
      have hmem := List.mem_eraseDups.1 ha
      rw [List.idxOf_append_of_mem hmem, List.idxOf_append_of_notMem hx]
      exact Nat.lt_of_lt_of_le (List.idxOf_lt_length_iff.2 hmem) (Nat.le_add_right _ _)

end

namespace Keyed

variable {α : Type} {key : Text} {value : α} {pairs : Keyed α}

@[simp] theorem get?_nil (key : Text) : get? ([] : Keyed α) key = none := rfl

theorem get?_cons (k : Text) (v : α) (pairs : Keyed α) (key : Text) :
    get? ((k, v) :: pairs) key = if key = k then some v else get? pairs key := by
  rw [get?, List.lookup_cons]
  by_cases h : key = k
  · rw [if_pos h, beq_iff_eq.2 h]
  · rw [if_neg h, beq_eq_false_iff_ne.2 h]
    rfl

theorem mem_keys_iff_isSome_get? : key ∈ keys pairs ↔ (get? pairs key).isSome := by
  induction pairs with
  | nil => simp
  | cons p rest ih =>
    obtain ⟨k, v⟩ := p
    rw [keys_cons, List.mem_cons, get?_cons, ih]
    split <;> simp [*]

theorem get?_set (k : Text) (v : α) (pairs : Keyed α) (key : Text) :
    get? (set k v pairs) key = if key = k then some v else get? pairs key := by
  induction pairs with
  | nil => rw [set, get?_cons]
  | cons p rest ih =>
    obtain ⟨k', v'⟩ := p
    rw [set]
    split
    · rename_i hk
      subst hk
      rw [get?_cons, get?_cons]
      split <;> rfl
    · rename_i hk
      rw [get?_cons, get?_cons, ih]
      split
      · rename_i hkey
        subst hkey
        rw [if_neg hk]
      · rfl

theorem mem_keys_set {k : Text} {v : α} :
    key ∈ keys (set k v pairs) ↔ key = k ∨ key ∈ keys pairs := by
  rw [keys_set]
  split
  · rename_i hk
    exact ⟨Or.inr, fun h => h.elim (fun he => he ▸ hk) id⟩
  · rw [List.mem_append, List.mem_singleton, or_comm]

/-! ## Setting one pair after another -/

theorem get?_foldl_set {list : Keyed α} {added : List (Text × α)}
    (h : get? (added.foldl (fun list pair => set pair.1 pair.2 list) list) key = some value) :
    (key, value) ∈ added ∨ get? list key = some value := by
  induction added generalizing list with
  | nil => exact Or.inr h
  | cons p rest ih =>
    rcases ih h with hr | hl
    · exact Or.inl (List.mem_cons_of_mem _ hr)
    · rw [get?_set] at hl
      split at hl
      · rename_i hk
        cases hl
        exact Or.inl (hk ▸ List.mem_cons_self)
      · exact Or.inr hl

/-- What is found was set. -/
theorem mem_of_get?_ofPairs {added : List (Text × α)}
    (h : get? (ofPairs added) key = some value) : (key, value) ∈ added :=
  (get?_foldl_set h).resolve_right (by simp)

theorem mem_keys_foldl_set {list : Keyed α} {added : List (Text × α)} :
    key ∈ keys (added.foldl (fun list pair => set pair.1 pair.2 list) list) ↔
      key ∈ added.map Prod.fst ∨ key ∈ keys list := by
  induction added generalizing list with
  | nil => simp
  | cons p rest ih =>
    rw [List.foldl_cons, ih, mem_keys_set, List.map_cons, List.mem_cons, or_left_comm, or_assoc]

/-- The keys are those that were set. -/
theorem mem_keys_ofPairs {added : List (Text × α)} :
    key ∈ keys (ofPairs added) ↔ key ∈ added.map Prod.fst :=
  mem_keys_foldl_set.trans (or_iff_left (by simp))

/-! ## Setting what is there already -/

theorem set_of_notMem (h : key ∉ keys pairs) : set key value pairs = pairs ++ [(key, value)] := by
  induction pairs with
  | nil => rfl
  | cons p rest ih =>
    obtain ⟨k, v⟩ := p
    rw [keys_cons, List.mem_cons, not_or] at h
    rw [set, if_neg (Ne.symm h.1), ih h.2, List.cons_append]

theorem foldl_set_of_nodup {list added : Keyed α} (h : (keys (list ++ added)).Nodup) :
    added.foldl (fun list pair => set pair.1 pair.2 list) list = list ++ added := by
  induction added generalizing list with
  | nil => exact (List.append_nil list).symm
  | cons p rest ih =>
    have hsplit : list ++ p :: rest = list ++ [p] ++ rest := by simp
    have hnew : p.1 ∉ keys list := by
      rw [keys, List.map_append, List.map_cons, List.nodup_append] at h
      exact fun hmem => h.2.2 _ hmem _ List.mem_cons_self rfl
    rw [List.foldl_cons, set_of_notMem hnew, hsplit]
    exact ih (hsplit ▸ h)

/-- **Pairs with distinct keys are a keyed list as they stand**, and no others are. -/
theorem ofPairs_eq_self_iff : ofPairs pairs = pairs ↔ (keys pairs).Nodup :=
  ⟨fun h => h ▸ nodup_keys_ofPairs pairs, fun h => foldl_set_of_nodup h⟩

/-! ## Setting a key again -/

theorem mem_iff_get?_eq_some (h : (keys pairs).Nodup) :
    (key, value) ∈ pairs ↔ get? pairs key = some value := by
  induction pairs with
  | nil => simp
  | cons p rest ih =>
    obtain ⟨k, v⟩ := p
    obtain ⟨hnew, hrest⟩ := List.nodup_cons.1 h
    rw [List.mem_cons, get?_cons, ih hrest]
    split
    · rename_i hk
      subst hk
      have hnone : get? rest key ≠ some value := fun hsome =>
        hnew (mem_keys_iff_isSome_get?.2 (by rw [hsome]; rfl))
      simp [hnone, eq_comm]
    · rename_i hk
      simp [hk]

theorem ofPairs_append_singleton (added : List (Text × α)) (key : Text) (value : α) :
    ofPairs (added ++ [(key, value)]) = set key value (ofPairs added) := by
  rw [ofPairs, List.foldl_append]
  rfl

/-- **The keys stand in the order in which they come up first.** -/
theorem keys_ofPairs (added : List (Text × α)) :
    keys (ofPairs added) = (added.map Prod.fst).eraseDups := by
  induction added using List.reverseRecOn with
  | nil => rfl
  | append_singleton added pair ih =>
    obtain ⟨key, value⟩ := pair
    rw [ofPairs_append_singleton, keys_set, ih, List.map_append, List.map_singleton,
      eraseDups_append_singleton]
    simp only [List.mem_eraseDups]

/-- Some pair gives a key its value last: no pair behind it has that key. -/
def IsLast (added : List (Text × α)) (key : Text) (value : α) : Prop :=
  ∃ before after, added = before ++ (key, value) :: after ∧ key ∉ after.map Prod.fst

theorem isLast_append_singleton {added : List (Text × α)} {k : Text} {v : α} :
    IsLast (added ++ [(k, v)]) key value ↔
      if key = k then v = value else IsLast added key value := by
  constructor
  · rintro ⟨before, after, he, hafter⟩
    rcases List.eq_nil_or_concat after with rfl | ⟨after, last, rfl⟩
    · cases (List.append_inj' he rfl).2
      rw [if_pos rfl]
    · rw [List.concat_eq_append, ← List.cons_append, ← List.append_assoc] at he
      obtain ⟨rfl, hlast⟩ := List.append_inj' he rfl
      cases hlast
      rw [List.concat_eq_append, List.map_append, List.mem_append, not_or] at hafter
      rw [if_neg fun hk => hafter.2 (by simp [hk])]
      exact ⟨before, after, rfl, hafter.1⟩
  · split
    · rename_i hk
      rintro rfl
      exact ⟨added, [], by rw [hk], by simp⟩
    · rename_i hk
      rintro ⟨before, after, rfl, hafter⟩
      exact ⟨before, after ++ [(k, v)], by simp, by simp [hafter, hk]⟩

/-- **A key has the value it was given last.** -/
theorem get?_ofPairs_eq_some_iff {added : List (Text × α)} :
    get? (ofPairs added) key = some value ↔ IsLast added key value := by
  induction added using List.reverseRecOn with
  | nil => simp [ofPairs, IsLast]
  | append_singleton added pair ih =>
    obtain ⟨k, v⟩ := pair
    rw [ofPairs_append_singleton, get?_set, isLast_append_singleton]
    split
    · exact Option.some_inj
    · exact ih

end Keyed
end Marginalia
