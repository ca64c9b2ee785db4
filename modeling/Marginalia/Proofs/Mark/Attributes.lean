import Marginalia.Mark.Attributes
import Marginalia.Proofs.Text.Blank
import Marginalia.Proofs.Text.Cut
import Marginalia.Proofs.Text.Keyed

/-!
# Attributes of a text that goes on

Reading attributes stops where the text no longer has their form.  What stands there decides what
becomes of a text that is put behind: it is read as more attributes only if nothing was left over,
and otherwise it is read together with what was left over.

## What is here

* `Attributes.readPair?_eq_some_iff`, `Attributes.readPair?_eq_none_iff` — the form of an attribute,
  and the three ways to miss it.
* `Attributes.unread` — what is left over where reading stops.
* `Attributes.readPairs_append` — **the attributes of two texts put together**: those of the first
  one, and then those of what it leaves over together with the second one.
* `Attributes.exists_eq_of_mem_readPairs` — a value that is read stands in the text, with a
  quotation mark behind it.
-/

set_option autoImplicit false
namespace Marginalia
namespace Attributes

variable {s t key value rest : Text}

/-! ## One attribute -/

/-- The form of an attribute. -/
theorem readPair?_eq_some_iff : readPair? t = some (key, value, rest) ↔
    ∃ name after, t = name ++ '=' :: '"' :: (value ++ '"' :: after) ∧
      '=' ∉ name ∧ '"' ∉ value ∧ key = Text.trim name ∧ rest = Text.trimStart after := by
  constructor
  · intro h
    unfold readPair? at h
    split at h
    · rename_i name body hname
      obtain ⟨⟨value', after⟩, hvalue, he⟩ := Option.map_eq_some_iff.1 h
      cases he
      obtain ⟨rfl, hfree⟩ := Text.cutAt?_eq_some_iff.1 hname
      obtain ⟨rfl, hclosed⟩ := Text.cutAt?_eq_some_iff.1 hvalue
      exact ⟨name, after, rfl, hfree, hclosed, rfl, rfl⟩
    · cases h
  · rintro ⟨name, after, rfl, hname, hvalue, rfl, rfl⟩
    rw [readPair?, Text.cutAt?_eq_some_iff.2 ⟨rfl, hname⟩]
    simp only [Text.cutAt?_eq_some_iff.2 ⟨rfl, hvalue⟩, Option.map_some]

/-- The three ways to miss the form of an attribute: the text has no equals sign, or the first one
has no quotation mark behind it, or that mark is the last one. -/
theorem readPair?_eq_none_iff : readPair? t = none ↔
    '=' ∉ t ∨
    (∃ name after, t = name ++ '=' :: after ∧ '=' ∉ name ∧ after.head? ≠ some '"') ∨
    ∃ name body, t = name ++ '=' :: '"' :: body ∧ '=' ∉ name ∧ '"' ∉ body := by
  constructor
  · intro h
    rw [readPair?] at h
    cases hcut : Text.cutAt? '=' t with
    | none => exact Or.inl (Text.cutAt?_eq_none_iff.1 hcut)
    | some cut =>
      obtain ⟨name, after⟩ := cut
      obtain ⟨rfl, hname⟩ := Text.cutAt?_eq_some_iff.1 hcut
      by_cases hhead : after.head? = some '"'
      · obtain ⟨body, rfl⟩ := List.head?_eq_some_iff.1 hhead
        rw [hcut] at h
        exact Or.inr (Or.inr ⟨name, body, rfl, hname,
          Text.cutAt?_eq_none_iff.1 (Option.map_eq_none_iff.1 h)⟩)
      · exact Or.inr (Or.inl ⟨name, after, rfl, hname, hhead⟩)
  · rintro (h | ⟨name, after, rfl, hname, hhead⟩ | ⟨name, body, rfl, hname, hbody⟩)
    · rw [readPair?, Text.cutAt?_eq_none_iff.2 h]
    · rw [readPair?, Text.cutAt?_eq_some_iff.2 ⟨rfl, hname⟩]
      split
      · rename_i he
        cases he
        exact absurd rfl hhead
      · rfl
    · rw [readPair?, Text.cutAt?_eq_some_iff.2 ⟨rfl, hname⟩]
      simp only [Text.cutAt?_eq_none_iff.2 hbody, Option.map_none]

theorem readPair?_append_of_allBlank (h : readPair? t = none) (hs : Text.AllBlank s) :
    readPair? (t ++ s) = none := by
  have hblank : ∀ c, Text.isBlank c = false → c ∉ s := by
    intro c hc hmem
    rw [hs c hmem] at hc
    cases hc
  refine readPair?_eq_none_iff.2 ?_
  rcases readPair?_eq_none_iff.1 h with h | ⟨name, after, rfl, hname, hhead⟩ |
    ⟨name, body, rfl, hname, hbody⟩
  · left
    rw [List.mem_append, not_or]
    exact ⟨h, hblank '=' rfl⟩
  · refine Or.inr (Or.inl ⟨name, after ++ s, by simp, hname, ?_⟩)
    cases after with
    | nil => exact fun hc => hblank '"' rfl (List.mem_of_head? hc)
    | cons c r => exact hhead
  · refine Or.inr (Or.inr ⟨name, body ++ s, by simp, hname, ?_⟩)
    rw [List.mem_append, not_or]
    exact ⟨hbody, hblank '"' rfl⟩

/-! ## All attributes -/

theorem readPairs_of_none (h : readPair? t = none) : readPairs t = [] := by
  unfold readPairs
  split
  · rfl
  · rename_i heq
    cases h.symm.trans heq

theorem readPairs_of_some (h : readPair? t = some (key, value, rest)) :
    readPairs t = (key, value) :: readPairs rest := by
  rw [readPairs]
  split
  · rename_i heq
    cases h.symm.trans heq
  · rename_i heq
    cases h.symm.trans heq
    rfl

/-- What is left over of a text where reading its attributes stops. -/
def unread (t : Text) : Text :=
  match _h : readPair? t with
  | none => t
  | some (_, _, rest) => unread rest
termination_by t.length
decreasing_by exact readPair?_lt _h

theorem unread_of_none (h : readPair? t = none) : unread t = t := by
  unfold unread
  split
  · rfl
  · rename_i heq
    cases h.symm.trans heq

theorem unread_of_some (h : readPair? t = some (key, value, rest)) : unread t = unread rest := by
  rw [unread]
  split
  · rename_i heq
    cases h.symm.trans heq
  · rename_i heq
    cases h.symm.trans heq
    rfl

theorem readPair?_unread (t : Text) : readPair? (unread t) = none := by
  fun_induction unread t with
  | case1 t h => exact h
  | case2 t _ _ rest h ih => exact ih

/-- What is left over has no blanks in front. -/
theorem trimStart_unread (ht : Text.trimStart t = t) : Text.trimStart (unread t) = unread t := by
  fun_induction unread t with
  | case1 t h => exact ht
  | case2 t _ _ rest h ih =>
    obtain ⟨_, after, -, -, -, -, rfl⟩ := readPair?_eq_some_iff.1 h
    exact ih (Text.trimStart_trimStart after)

/-- **The attributes of two texts put together.** -/
theorem readPairs_append (t s : Text) :
    readPairs (Text.trimStart (t ++ s)) = readPairs (Text.trimStart t) ++
      readPairs (Text.trimStart (unread (Text.trimStart t) ++ s)) := by
  -- what follows an attribute is shorter, and may have blanks in front again
  induction hn : t.length using Nat.strong_induction_on generalizing t with
  | _ n ih =>
    subst hn
    by_cases hblank : Text.trimStart t = []
    · have hnil : readPair? [] = none := rfl
      rw [hblank, readPairs_of_none hnil, unread_of_none hnil,
        Text.trimStart_append_of_allBlank (Text.trimStart_eq_nil_iff.1 hblank)]
      rfl
    · rw [Text.trimStart_append hblank]
      cases h : readPair? (Text.trimStart t) with
      | none =>
        rw [readPairs_of_none h, unread_of_none h, List.nil_append,
          Text.trimStart_append (by rwa [Text.trimStart_trimStart]), Text.trimStart_trimStart]
      | some pair =>
        obtain ⟨key, value, rest⟩ := pair
        obtain ⟨name, after, he, hname, hvalue, rfl, rfl⟩ := readPair?_eq_some_iff.1 h
        have hs : readPair? (Text.trimStart t ++ s)
            = some (Text.trim name, value, Text.trimStart (after ++ s)) :=
          readPair?_eq_some_iff.2 ⟨name, after ++ s, by simp [he], hname, hvalue, rfl, rfl⟩
        have hlt : after.length < t.length := by
          have hle := (List.dropWhile_sublist Text.isBlank (l := t)).length_le
          rw [← Text.trimStart, he] at hle
          simp only [List.length_append, List.length_cons] at hle
          omega
        rw [readPairs_of_some hs, readPairs_of_some h, unread_of_some h, ih _ hlt after rfl,
          List.cons_append]

/-- Blanks at the end bring no attribute. -/
theorem readPairs_trim (t : Text) : readPairs (Text.trim t) = readPairs (Text.trimStart t) := by
  have hstart : Text.trimStart (Text.trim t) = Text.trim t :=
    Text.trimStart_trimEnd_of_eq (Text.trimStart_trimStart t)
  have hend : readPairs (Text.trimStart
      (unread (Text.trim t) ++ Text.trailingBlanks (Text.trimStart t))) = [] := by
    have hblank := Text.allBlank_trailingBlanks (Text.trimStart t)
    by_cases hnil : unread (Text.trim t) = []
    · rw [hnil, List.nil_append, Text.trimStart_eq_nil_iff.2 hblank]
      exact readPairs_of_none rfl
    · have hu := trimStart_unread hstart
      rw [Text.trimStart_append (by rwa [hu]), hu]
      exact readPairs_of_none (readPair?_append_of_allBlank (readPair?_unread _) hblank)
  have happend := readPairs_append (Text.trim t) (Text.trailingBlanks (Text.trimStart t))
  rw [hstart, hend, List.append_nil, Text.trim, Text.trimEnd_append_trailingBlanks,
    Text.trimStart_trimStart] at happend
  exact happend.symm

/-- A value that is read stands in the text, with a quotation mark behind it. -/
theorem exists_eq_of_mem_readPairs (h : (key, value) ∈ readPairs t) :
    ∃ before after, t = before ++ (value ++ '"' :: after) := by
  fun_induction readPairs t with
  | case1 => cases h
  | case2 t key' value' rest hpair ih =>
    obtain ⟨name, after, rfl, -, -, -, rfl⟩ := readPair?_eq_some_iff.1 hpair
    rcases List.mem_cons.1 h with he | h
    · cases he
      exact ⟨name ++ ['=', '"'], after, by simp⟩
    · obtain ⟨before, after', he⟩ := ih h
      have hafter : after = Text.leadingBlanks after ++ (before ++ (value ++ '"' :: after')) := by
        rw [← he, Text.leadingBlanks_append_trimStart]
      refine ⟨name ++ '=' :: '"' :: (value' ++ '"' :: (Text.leadingBlanks after ++ before)),
        after', ?_⟩
      conv => lhs; rw [hafter]
      simp

end Attributes
end Marginalia
