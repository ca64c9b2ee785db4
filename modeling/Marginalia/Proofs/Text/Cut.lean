import Mathlib.Data.List.Infix
import Mathlib.Data.List.TakeWhile
import Marginalia.Text.Basic

/-!
# Finding a place in a text

`cutAt?` cuts a text at the first occurrence of a character, and `holds` asks whether another text
occurs in it.  Both are told here without the search, and so is the cut in general, where the
characters of one sort end (`takeWhile_dropWhile_iff`).
-/

set_option autoImplicit false
namespace Marginalia
namespace Text

variable {s t : Text} {c : Char}

/-! ## Cutting where the characters of one sort end -/

/-- **A cut is determined by its parts**: all of the one are of the sort, and the other does not
begin with one that is. -/
theorem takeWhile_dropWhile_iff {f : Char → Bool} {before after : Text} :
    t.takeWhile f = before ∧ t.dropWhile f = after ↔
      t = before ++ after ∧ (∀ d ∈ before, f d = true) ∧ ∀ d ∈ after.head?, f d = false := by
  constructor
  · rintro ⟨rfl, rfl⟩
    refine ⟨List.takeWhile_append_dropWhile.symm, List.all_eq_true.1 List.all_takeWhile, ?_⟩
    intro d hd
    have hhead := List.head?_dropWhile_not f t
    rwa [Option.mem_def.1 hd] at hhead
  · rintro ⟨rfl, hbefore, hafter⟩
    rw [List.takeWhile_append_of_pos hbefore, List.dropWhile_append_of_pos hbefore]
    cases after with
    | nil => simp
    | cons d r => simp [hafter d rfl]

theorem takeWhile_dropWhile_append_cons {f : Char → Bool} {before : Text}
    (hbefore : ∀ d ∈ before, f d = true) (hc : f c = false) (after : Text) :
    (before ++ c :: after).takeWhile f = before ∧
      (before ++ c :: after).dropWhile f = c :: after :=
  takeWhile_dropWhile_iff.2 ⟨rfl, hbefore, fun _ hd => Option.some.inj hd ▸ hc⟩

/-! ## Cutting at a character -/

theorem cutAt?_eq_some_iff {before after : Text} :
    cutAt? c t = some (before, after) ↔ t = before ++ c :: after ∧ c ∉ before := by
  constructor
  · intro h
    refine ⟨cutAt?_eq_some h, ?_⟩
    unfold cutAt? at h
    split at h
    · cases h
    · cases h
      exact fun hc => by simpa using List.mem_takeWhile_imp hc
  · rintro ⟨rfl, hc⟩
    have hne : ∀ d ∈ before, decide (d ≠ c) = true := by
      intro d hd
      rw [decide_eq_true_eq]
      rintro rfl
      exact hc hd
    obtain ⟨htake, hdrop⟩ := takeWhile_dropWhile_append_cons (c := c) hne (by simp) after
    rw [cutAt?, htake, hdrop]

theorem cutAt?_eq_none_iff : cutAt? c t = none ↔ c ∉ t := by
  constructor
  · intro h hc
    unfold cutAt? at h
    split at h
    · rename_i hd
      simpa using List.dropWhile_eq_nil_iff.1 hd c hc
    · cases h
  · intro hc
    rw [Option.eq_none_iff_forall_ne_some]
    rintro ⟨before, after⟩ h
    exact hc (cutAt?_eq_some h ▸ by simp)

/-! ## Occurrences of a text -/

theorem isSome_findBytesFrom?_iff {needle : Text} (before : Nat) :
    (findBytesFrom? needle before t).isSome = true ↔ needle <:+: t := by
  induction t generalizing before with
  | nil =>
    rw [findBytesFrom?, List.infix_nil]
    by_cases h : needle = [] <;> simp [h]
  | cons d r ih =>
    rw [findBytesFrom?, List.infix_cons_iff]
    by_cases h : needle.isPrefixOf (d :: r) = true
    · rw [if_pos h]
      exact iff_of_true rfl (Or.inl (List.isPrefixOf_iff_prefix.1 h))
    · rw [if_neg h, ih, or_iff_right]
      exact fun hp => h (List.isPrefixOf_iff_prefix.2 hp)

/-- A text that occurs is found, and no later than it occurs. -/
theorem exists_findBytesFrom?_eq (needle s r : Text) (before : Nat) :
    ∃ s' r', s ++ (needle ++ r) = s' ++ (needle ++ r') ∧ byteLength s' ≤ byteLength s ∧
      findBytesFrom? needle before (s ++ (needle ++ r)) = some (before + byteLength s') := by
  induction s generalizing before with
  | nil =>
    refine ⟨[], r, rfl, Nat.le_refl _, ?_⟩
    rw [List.nil_append]
    cases hcontent : needle ++ r with
    | nil => rw [findBytesFrom?, if_pos (List.append_eq_nil_iff.1 hcontent).1]; rfl
    | cons c t =>
      have hprefix : needle.isPrefixOf (c :: t) = true :=
        List.isPrefixOf_iff_prefix.2 ⟨r, hcontent⟩
      rw [findBytesFrom?, if_pos hprefix]
      rfl
  | cons c s ih =>
    rw [List.cons_append, findBytesFrom?]
    split
    · rename_i hprefix
      obtain ⟨r', hr'⟩ := List.isPrefixOf_iff_prefix.1 hprefix
      exact ⟨[], r', hr'.symm, Nat.zero_le _, rfl⟩
    · obtain ⟨s', r', hsplit, hle, hfound⟩ := ih (before + c.utf8Size)
      refine ⟨c :: s', r', by rw [hsplit, List.cons_append], ?_, ?_⟩
      · rw [byteLength_cons, byteLength_cons]
        exact Nat.add_le_add_left hle _
      · rw [hfound, byteLength_cons, Nat.add_assoc]

theorem holds_iff {needle : Text} : holds needle t = true ↔ needle <:+: t :=
  isSome_findBytesFrom?_iff 0

end Text
end Marginalia
