import Marginalia.Text.Basic

/-!
# Keyed lists

A keyed list holds one value for each of its keys, in the order in which the keys first appeared.
`Keyed.set` gives a key a value: in the key's place if it is there, at the end if it is new.  So a
key that is set again keeps its first place and takes the last value, and a list that is only ever
built by `set` never holds a key twice (`nodup_keys_set`).
-/

set_option autoImplicit false
namespace Marginalia

/-- Values under keys, in order. -/
abbrev Keyed (α : Type) := List (Text × α)

namespace Keyed

variable {α : Type}

/-- The keys in order. -/
def keys (pairs : Keyed α) : List Text := pairs.map Prod.fst

/-- The value under a key. -/
def get? (pairs : Keyed α) (key : Text) : Option α := pairs.lookup key

/-- The list with a new value under a key. -/
def set (key : Text) (value : α) : Keyed α → Keyed α
  | [] => [(key, value)]
  | (k, v) :: rest => if k = key then (k, value) :: rest else (k, v) :: set key value rest

/-- The list in which these pairs are set, one after another. -/
def ofPairs (pairs : List (Text × α)) : Keyed α :=
  pairs.foldl (fun list pair => set pair.1 pair.2 list) []

@[simp] theorem keys_nil : keys ([] : Keyed α) = [] := rfl

@[simp] theorem keys_cons (k : Text) (v : α) (pairs : Keyed α) :
    keys ((k, v) :: pairs) = k :: keys pairs := rfl

theorem keys_set (key : Text) (value : α) (pairs : Keyed α) :
    keys (set key value pairs) = if key ∈ keys pairs then keys pairs else keys pairs ++ [key] := by
  induction pairs with
  | nil => simp [set]
  | cons p r ih =>
    obtain ⟨k, v⟩ := p
    by_cases h : k = key
    · simp [set, h]
    · have h' : ¬ key = k := fun e => h e.symm
      by_cases hm : key ∈ keys r <;> simp [set, h, h', ih, hm]

theorem nodup_keys_set {key : Text} {value : α} {pairs : Keyed α} (h : (keys pairs).Nodup) :
    (keys (set key value pairs)).Nodup := by
  rw [keys_set]
  split
  · exact h
  · rename_i hk
    rw [List.nodup_append]
    exact ⟨h, by simp, fun a ha b hb => by
      rw [List.mem_singleton] at hb; subst hb; exact fun e => hk (e ▸ ha)⟩

theorem nodup_keys_ofPairs (pairs : List (Text × α)) : (keys (ofPairs pairs)).Nodup := by
  suffices h : ∀ list : Keyed α, (keys list).Nodup →
      (keys (pairs.foldl (fun list pair => set pair.1 pair.2 list) list)).Nodup from
    h [] List.nodup_nil
  induction pairs with
  | nil => exact fun _ h => h
  | cons p r ih => exact fun list h => ih _ (nodup_keys_set h)

end Keyed
end Marginalia
