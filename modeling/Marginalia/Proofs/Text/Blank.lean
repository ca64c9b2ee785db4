import Mathlib.Data.List.TakeWhile
import Marginalia.Text.Blank

/-!
# Trimming texts that are put together

`trimStart` and `trimEnd` look at a text from one side, so of two texts put together only one
matters as long as that one has anything but blanks.  These are the two laws for each side, and
what a character that is not blank stops.
-/

set_option autoImplicit false
namespace Marginalia
namespace Text

variable {s t : Text} {c : Char}

/-- Every character of a text is blank. -/
def AllBlank (t : Text) : Prop := ∀ c ∈ t, isBlank c = true

theorem allBlank_leadingBlanks (t : Text) : AllBlank (leadingBlanks t) :=
  fun _ => isBlank_of_mem_leadingBlanks

theorem allBlank_trailingBlanks (t : Text) : AllBlank (trailingBlanks t) :=
  fun _ => isBlank_of_mem_trailingBlanks

theorem allBlank_reverse : AllBlank t.reverse ↔ AllBlank t :=
  forall_congr' fun _ => imp_congr_left List.mem_reverse

/-! ## From the left -/

theorem trimStart_eq_nil_iff : trimStart t = [] ↔ AllBlank t := List.dropWhile_eq_nil_iff

theorem trimStart_append_of_allBlank (hs : AllBlank s) (t : Text) :
    trimStart (s ++ t) = trimStart t :=
  List.dropWhile_append_of_pos hs

theorem trimStart_append (hs : trimStart s ≠ []) (t : Text) :
    trimStart (s ++ t) = trimStart s ++ t := by
  rw [trimStart, List.dropWhile_append, if_neg]
  · rfl
  · rwa [List.isEmpty_iff]

@[simp] theorem trimStart_cons (hc : isBlank c = false) (t : Text) :
    trimStart (c :: t) = c :: t := by
  simp [trimStart, hc]

theorem leadingBlanks_append_of_allBlank (hs : AllBlank s) (t : Text) :
    leadingBlanks (s ++ t) = s ++ leadingBlanks t :=
  List.takeWhile_append_of_pos hs

theorem isBlank_of_trimStart_eq_cons {r : Text} (h : trimStart t = c :: r) :
    isBlank c = false := by
  have hhead := List.head?_dropWhile_not isBlank t
  rw [← trimStart, h] at hhead
  exact hhead

@[simp] theorem trimStart_trimStart (t : Text) : trimStart (trimStart t) = trimStart t := by
  cases h : trimStart t with
  | nil => rfl
  | cons c r => exact trimStart_cons (isBlank_of_trimStart_eq_cons h) r

/-- A character that stops the search keeps what is behind it out of sight. -/
theorem takeWhile_append_of_mem {f : Char → Bool} (hf : f c = false) (hc : c ∈ t) (tail : Text) :
    (t ++ tail).takeWhile f = t.takeWhile f ∧
      (t ++ tail).dropWhile f = t.dropWhile f ++ tail ∧ c ∈ t.dropWhile f := by
  induction t with
  | nil => cases hc
  | cons d r ih =>
    cases hd : f d with
    | false =>
      rw [List.cons_append, List.takeWhile_cons_of_neg (by simp [hd]),
        List.takeWhile_cons_of_neg (by simp [hd]), List.dropWhile_cons_of_neg (by simp [hd]),
        List.dropWhile_cons_of_neg (by simp [hd])]
      exact ⟨rfl, rfl, hc⟩
    | true =>
      have hr : c ∈ r := by
        rcases List.mem_cons.1 hc with rfl | hr
        · rw [hf] at hd
          cases hd
        · exact hr
      simpa [List.takeWhile_cons, List.dropWhile_cons, hd] using ih hr

theorem leadingBlanks_append_of_mem (hc : isBlank c = false) (h : c ∈ s) (t : Text) :
    leadingBlanks (s ++ t) = leadingBlanks s :=
  (takeWhile_append_of_mem hc h t).1

theorem trimStart_append_of_mem (hc : isBlank c = false) (h : c ∈ s) (t : Text) :
    trimStart (s ++ t) = trimStart s ++ t :=
  (takeWhile_append_of_mem hc h t).2.1

theorem mem_trimStart (hc : isBlank c = false) (h : c ∈ t) : c ∈ trimStart t :=
  (takeWhile_append_of_mem hc h []).2.2

/-! ## From the right -/

theorem trimEnd_eq_reverse (t : Text) : trimEnd t = (trimStart t.reverse).reverse := rfl

theorem trimEnd_eq_nil_iff : trimEnd t = [] ↔ AllBlank t := by
  rw [trimEnd_eq_reverse, List.reverse_eq_nil_iff, trimStart_eq_nil_iff, allBlank_reverse]

theorem trimEnd_append_of_allBlank (s : Text) (ht : AllBlank t) :
    trimEnd (s ++ t) = trimEnd s := by
  rw [trimEnd_eq_reverse, List.reverse_append,
    trimStart_append_of_allBlank (allBlank_reverse.2 ht), ← trimEnd_eq_reverse]

theorem trailingBlanks_append_of_allBlank (s : Text) (ht : AllBlank t) :
    trailingBlanks (s ++ t) = trailingBlanks s ++ t := by
  have hwhole := trimEnd_append_trailingBlanks (s ++ t)
  rw [trimEnd_append_of_allBlank s ht] at hwhole
  refine List.append_cancel_left (hwhole.trans ?_)
  rw [← List.append_assoc, trimEnd_append_trailingBlanks]

theorem trimEnd_append (s : Text) (ht : trimEnd t ≠ []) : trimEnd (s ++ t) = s ++ trimEnd t := by
  have hr : trimStart t.reverse ≠ [] := fun h => ht (by rw [trimEnd_eq_reverse, h]; rfl)
  rw [trimEnd_eq_reverse, List.reverse_append, trimStart_append hr, List.reverse_append,
    List.reverse_reverse, ← trimEnd_eq_reverse]

@[simp] theorem trimEnd_concat (t : Text) (hc : isBlank c = false) :
    trimEnd (t ++ [c]) = t ++ [c] := by
  rw [trimEnd_eq_reverse, List.reverse_concat, trimStart_cons hc, List.reverse_cons,
    List.reverse_reverse]

@[simp] theorem trailingBlanks_concat (t : Text) (hc : isBlank c = false) :
    trailingBlanks (t ++ [c]) = [] := by
  simp [trailingBlanks, hc]

theorem trimEnd_append_cons (s : Text) (hc : isBlank c = false) (t : Text) :
    trimEnd (s ++ c :: t) = s ++ c :: trimEnd t := by
  by_cases ht : AllBlank t
  · have hsplit : s ++ c :: t = s ++ [c] ++ t := by simp
    rw [hsplit, trimEnd_append_of_allBlank _ ht, trimEnd_concat s hc, trimEnd_eq_nil_iff.2 ht]
  · have hne : trimEnd t ≠ [] := fun h => ht (trimEnd_eq_nil_iff.1 h)
    rw [List.append_cons, trimEnd_append _ hne, ← List.append_cons]

theorem trailingBlanks_append_cons (s : Text) (hc : isBlank c = false) (t : Text) :
    trailingBlanks (s ++ c :: t) = trailingBlanks t := by
  have hwhole := trimEnd_append_trailingBlanks (s ++ c :: t)
  rw [trimEnd_append_cons s hc, List.append_assoc, List.append_cancel_left_eq, List.cons_append,
    List.cons.injEq] at hwhole
  exact List.append_cancel_left (hwhole.2.trans (trimEnd_append_trailingBlanks t).symm)

@[simp] theorem trimEnd_trimEnd (t : Text) : trimEnd (trimEnd t) = trimEnd t := by
  rw [trimEnd_eq_reverse (trimEnd t), trimEnd_eq_reverse t, List.reverse_reverse,
    trimStart_trimStart]

/-! ## From both sides -/

theorem trimStart_concat (t : Text) (hc : isBlank c = false) :
    trimStart (t ++ [c]) = trimStart t ++ [c] := by
  by_cases ht : AllBlank t
  · rw [trimStart_append_of_allBlank ht, trimStart_eq_nil_iff.2 ht, trimStart_cons hc,
      List.nil_append]
  · exact trimStart_append (fun h => ht (trimStart_eq_nil_iff.1 h)) _

theorem trim_concat (t : Text) (hc : isBlank c = false) :
    trim (t ++ [c]) = trimStart (t ++ [c]) := by
  rw [trim, trimStart_concat t hc, trimEnd_concat _ hc]

/-- What begins with a character that is not blank still does so without the blanks at the end. -/
theorem trimStart_trimEnd_of_eq (h : trimStart t = t) : trimStart (trimEnd t) = trimEnd t := by
  cases t with
  | nil => rfl
  | cons c r =>
    have hc : isBlank c = false := isBlank_of_trimStart_eq_cons h
    by_cases hr : trimEnd r = []
    · have hcr : trimEnd (c :: r) = [c] := by
        have := trimEnd_append_of_allBlank [c] (trimEnd_eq_nil_iff.1 hr)
        rw [List.singleton_append] at this
        rw [this]
        exact trimEnd_concat [] hc
      rw [hcr, trimStart_cons hc]
    · have hcr := trimEnd_append [c] hr
      rw [List.singleton_append, List.singleton_append] at hcr
      rw [hcr, trimStart_cons hc]

/-- What ends with a character that is not blank still does so without the blanks in front. -/
theorem trimEnd_trimStart_of_eq (h : trimEnd t = t) : trimEnd (trimStart t) = trimStart t := by
  by_cases hs : trimEnd (trimStart t) = []
  · have hnil : trimStart t = [] := by
      rw [← trimStart_trimStart]
      exact trimStart_eq_nil_iff.2 (trimEnd_eq_nil_iff.1 hs)
    rw [hnil]
    rfl
  · have hwhole := trimEnd_append (leadingBlanks t) hs
    rw [leadingBlanks_append_trimStart, h] at hwhole
    exact (List.append_cancel_left ((leadingBlanks_append_trimStart t).trans hwhole)).symm

@[simp] theorem trim_trim (t : Text) : trim (trim t) = trim t := by
  rw [trim, trim, trimStart_trimEnd_of_eq (trimStart_trimStart t), trimEnd_trimEnd]

theorem trim_subset (t : Text) : trim t ⊆ t := by
  intro c hc
  have hstart := (List.dropWhile_sublist _).subset (List.mem_reverse.1 hc)
  exact (List.dropWhile_sublist _).subset (List.mem_reverse.1 hstart)

end Text
end Marginalia
