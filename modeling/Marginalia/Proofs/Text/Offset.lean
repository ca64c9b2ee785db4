import Marginalia.Proofs.Source.Splice
import Marginalia.Proofs.Text.Cut

/-!
# Offsets into a text

A text that is put together from parts has a part wherever the bytes before it end.  So a slice
between two such places does not miss, whatever characters the parts are made of, and what it gives
is what lies between (`slice?_parts`).  The searches that give offsets are told in the same way: by
the text before the place they find.
-/

set_option autoImplicit false
namespace Marginalia
namespace Text

variable {needle s t : Text} {c : Char}

/-- The byte offset of the last occurrence of `needle`. -/
def findLastBytes? (needle : Text) : Text → Option Nat
  | [] => if needle = [] then some 0 else none
  | c :: r =>
    match findLastBytes? needle r with
    | some n => some (c.utf8Size + n)
    | none => if needle.isPrefixOf (c :: r) then some 0 else none

theorem findLastBytes?_lt {n : Nat} (h : findLastBytes? needle t = some n) (hne : needle ≠ []) :
    n < byteLength t := by
  induction t generalizing n with
  | nil =>
    rw [findLastBytes?, if_neg hne] at h
    cases h
  | cons c r ih =>
    have hpos := c.utf8Size_pos
    rw [byteLength_cons]
    rw [findLastBytes?] at h
    split at h
    · rename_i m hm
      cases h
      have hlt := ih hm
      omega
    · split at h
      · cases h
        omega
      · cases h

theorem findLastBytes?_singleton (c : Char) : findLastBytes? "//".toList [c] = none := by
  simp [findLastBytes?]

/-- The last pair of slashes of a text, seen from its end. -/
theorem findLastBytes?_concat (s : Text) (d c : Char) :
    findLastBytes? "//".toList (s ++ [d, c]) =
      if c = '/' ∧ d = '/' then some (byteLength s) else findLastBytes? "//".toList (s ++ [d]) := by
  induction s with
  | nil =>
    by_cases hc : c = '/' ∧ d = '/'
    · obtain ⟨rfl, rfl⟩ := hc
      rfl
    · simp only [List.nil_append, findLastBytes?, if_neg hc]
      simp
      exact fun hd he => hc ⟨he.symm, hd.symm⟩
  | cons x s ih =>
    have hprefix : "//".toList.isPrefixOf (x :: (s ++ [d, c]))
        = "//".toList.isPrefixOf (x :: (s ++ [d])) := by
      cases s <;> rfl
    rw [List.cons_append, List.cons_append, findLastBytes?, findLastBytes?, ih, hprefix]
    by_cases hc : c = '/' ∧ d = '/'
    · rw [if_pos hc, if_pos hc, byteLength_cons]
    · rw [if_neg hc, if_neg hc]

theorem byteLength_of_takeBytes? {n : Nat} (h : takeBytes? n t = some s) : byteLength s = n := by
  induction t generalizing n s with
  | nil =>
    cases n with
    | zero =>
      cases h
      rfl
    | succ n => cases h
  | cons c r ih =>
    cases n with
    | zero =>
      cases h
      rfl
    | succ n =>
      rw [takeBytes?] at h
      split at h
      · obtain ⟨kept, hkept, rfl⟩ := Option.map_eq_some_iff.1 h
        have hlength := ih hkept
        rw [byteLength_cons]
        omega
      · cases h

theorem byteLength_of_slice?_zero {stop : Nat} (h : slice? 0 stop t = some s) :
    byteLength s = stop := by
  rw [slice?, if_pos (Nat.zero_le _), Option.bind_eq_some_iff] at h
  obtain ⟨rest, -, hrest⟩ := h
  exact byteLength_of_takeBytes? hrest

/-- Of two cuts of a text, the one with fewer bytes in front comes first. -/
theorem exists_append_of_byteLength_le {s' t' : Text} (h : s ++ t = s' ++ t')
    (hle : byteLength s ≤ byteLength s') : ∃ between, s' = s ++ between ∧ t = between ++ t' := by
  rcases List.append_eq_append_iff.1 h with ⟨between, hs', ht⟩ | ⟨between, rfl, ht'⟩
  · exact ⟨between, hs', ht⟩
  · rw [byteLength_append] at hle
    have hnil : between = [] := byteLength_eq_zero_iff.1 (by omega)
    subst hnil
    exact ⟨[], by simp, by simpa using ht'.symm⟩

theorem slice?_eq {start stop : Nat} {kept tail : Text} (ht : t = s ++ (kept ++ tail))
    (hstart : start = byteLength s) (hstop : stop = byteLength (s ++ kept)) :
    slice? start stop t = some kept := by
  rw [ht, hstart, hstop, byteLength_append, slice?_append]

theorem slice?_prefix {stop : Nat} {tail : Text} (ht : t = s ++ tail)
    (hstop : stop = byteLength s) : slice? 0 stop t = some s :=
  slice?_eq (s := []) ht rfl hstop

theorem slice?_parts {kept tail : Text} (ht : t = s ++ (kept ++ tail)) :
    slice? (byteLength s) (byteLength (s ++ kept)) t = some kept :=
  slice?_eq ht rfl rfl

theorem slice?_suffix {kept : Text} (ht : t = s ++ kept) :
    slice? (byteLength s) (byteLength t) t = some kept := by
  have ht' : t = s ++ (kept ++ []) := by rwa [List.append_nil]
  exact slice?_eq ht' rfl (by rw [ht])

theorem findBytesFrom?_singleton_eq_none (h : c ∉ t) (before : Nat) :
    findBytesFrom? [c] before t = none := by
  rw [← Option.not_isSome_iff_eq_none, isSome_findBytesFrom?_iff]
  exact fun hi => h (hi.subset (List.mem_singleton_self c))

/-- A text without the first character that is looked for is passed by. -/
theorem findBytesFrom?_append_of_not_mem (h : c ∉ s) (needle : Text) (before : Nat) (t : Text) :
    findBytesFrom? (c :: needle) before (s ++ t)
      = findBytesFrom? (c :: needle) (before + byteLength s) t := by
  induction s generalizing before with
  | nil => rfl
  | cons d r ih =>
    rw [List.mem_cons, not_or] at h
    obtain ⟨hd, hr⟩ := h
    rw [List.cons_append, findBytesFrom?, if_neg (by simp [hd]), ih hr, byteLength_cons,
      Nat.add_assoc]

theorem findBytesFrom?_append_cons (h : c ∉ s) (before : Nat) (t : Text) :
    findBytesFrom? [c] before (s ++ c :: t) = some (before + byteLength s) := by
  rw [findBytesFrom?_append_of_not_mem h, findBytesFrom?, if_pos (by simp)]

end Text
end Marginalia
