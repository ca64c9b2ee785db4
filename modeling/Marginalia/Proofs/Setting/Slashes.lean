import Mathlib.Algebra.Ring.Parity
import Marginalia.Proofs.Setting.Remark

/-!
# Which pairs of slashes the search from the right finds

A comment can open wherever two slashes have a literal of a known kind on their left (`Opening`).
The search steps over a pair that it turns down as a whole, so in a run of slashes it looks at every
other place only, counted from the end of the run (`mem_candidates_iff`): a comment that opens with
an even number of slashes is found, and one that opens with an odd number is passed over.

* `splitRemark_greatest` — **the comment is the last of those that open with an even number of
  slashes**, if the line is not a lone literal.
* `splitRemark_misses` — three slashes behind a literal are no comment.
-/

set_option autoImplicit false
namespace Marginalia
namespace Setting

/-! ## Runs of slashes -/

/-- How many slashes a text begins with. -/
def slashes (t : Text) : Nat := (t.takeWhile fun c => c = '/').length

@[simp] theorem slashes_nil : slashes [] = 0 := rfl

@[simp] theorem slashes_cons_slash (t : Text) : slashes ('/' :: t) = slashes t + 1 := rfl

theorem slashes_cons_of_ne {c : Char} (h : c ≠ '/') (t : Text) : slashes (c :: t) = 0 := by
  rw [slashes, List.takeWhile_cons_of_neg (by simpa using h), List.length_nil]

theorem slashes_pos_iff {t : Text} : 0 < slashes t ↔ t.head? = some '/' := by
  rcases t with _ | ⟨c, t⟩
  · simp
  · by_cases h : c = '/'
    · simp [h]
    · simp [h, slashes_cons_of_ne h]

theorem one_lt_slashes {t : Text} (h : "//".toList <+: t) : 1 < slashes t := by
  obtain ⟨rest, rfl⟩ := h
  exact Nat.lt_add_left (slashes rest) Nat.one_lt_two

/-! ## The pairs that the search comes to -/

variable {passed rest line : Text} {p : Text × Text}

theorem length_of_mem_candidatesFrom (h : p ∈ candidatesFrom passed rest) :
    p.1.length < rest.length := by
  fun_induction candidatesFrom passed rest with
  | case1 => cases h
  | case2 => cases h
  | case3 passed c d before hc ih =>
    rw [List.length_cons, List.length_cons]
    rcases List.mem_cons.1 h with rfl | h
    · rw [List.length_reverse]
      omega
    · have := ih h
      omega
  | case4 passed c d before hc ih => exact (ih h).trans (Nat.lt_succ_self _)

/-- The pairs come one after another from the right. -/
theorem pairwise_candidatesFrom (passed rest : Text) :
    (candidatesFrom passed rest).Pairwise fun p q => q.1.length < p.1.length := by
  fun_induction candidatesFrom passed rest with
  | case1 => exact .nil
  | case2 => exact .nil
  | case3 passed c d before hc ih =>
    refine ih.cons fun q hq => ?_
    rw [List.length_reverse]
    exact length_of_mem_candidatesFrom hq
  | case4 passed c d before hc ih => exact ih

/-- An even number of slashes has been passed in the run at hand, or the run ends here. -/
def Aligned (passed rest : Text) : Prop := Even (slashes passed) ∨ rest.head? ≠ some '/'

namespace Aligned

variable {c d : Char} {before : Text}

theorem even (h : Aligned passed ('/' :: rest)) : Even (slashes passed) :=
  h.resolve_right fun hne => hne rfl

theorem pair (h : Aligned passed ('/' :: rest)) : Aligned ('/' :: '/' :: passed) before :=
  Or.inl (h.even.add even_two)

theorem step (hc : ¬(c = '/' ∧ d = '/')) : Aligned (c :: passed) (d :: before) := by
  by_cases hslash : c = '/'
  · exact Or.inr fun hd => hc ⟨hslash, Option.some.inj hd⟩
  · exact Or.inl (by simp [slashes_cons_of_ne hslash])

/-- No run with an even number of slashes begins where the search is. -/
theorem length_lt (h : Aligned passed (c :: before))
    (hparts : p.1 ++ p.2 = (c :: before).reverse ++ passed)
    (hlength : p.1.length < (c :: before).length) (hpos : 0 < slashes p.2)
    (heven : Even (slashes p.2)) : p.1.length < before.length := by
  refine lt_of_le_of_ne (Nat.le_of_lt_succ hlength) fun he => ?_
  rw [List.reverse_cons, List.append_assoc] at hparts
  obtain ⟨-, hcomment⟩ := List.append_inj hparts (he.trans List.length_reverse.symm)
  rw [hcomment] at hpos heven
  obtain rfl : c = '/' := Option.some.inj (slashes_pos_iff.1 hpos)
  exact Nat.even_add_one.1 heven h.even

end Aligned

/-- **The pairs that the search comes to** are those that begin an even number of slashes. -/
theorem mem_candidatesFrom_iff (h : Aligned passed rest) : p ∈ candidatesFrom passed rest ↔
    p.1 ++ p.2 = rest.reverse ++ passed ∧ p.1.length < rest.length ∧
      0 < slashes p.2 ∧ Even (slashes p.2) := by
  constructor
  · intro hp
    refine ⟨(mem_candidatesFrom hp).1, length_of_mem_candidatesFrom hp,
      (one_lt_slashes (mem_candidatesFrom hp).2).le, ?_⟩
    fun_induction candidatesFrom passed rest with
    | case1 => cases hp
    | case2 => cases hp
    | case3 passed c d before hc ih =>
      obtain ⟨rfl, rfl⟩ := hc
      rcases List.mem_cons.1 hp with rfl | hp
      · exact h.even.add even_two
      · exact ih h.pair hp
    | case4 passed c d before hc ih => exact ih (.step hc) hp
  · rintro ⟨hparts, hlength, hpos, heven⟩
    fun_induction candidatesFrom passed rest with
    | case1 => cases hlength
    | case2 passed c => cases h.length_lt hparts hlength hpos heven
    | case3 passed c d before hc ih =>
      obtain ⟨rfl, rfl⟩ := hc
      have hlt := h.length_lt hparts hlength hpos heven
      have hrest : p.1 ++ p.2 = before.reverse ++ '/' :: '/' :: passed := by simpa using hparts
      rcases Nat.lt_succ_iff_lt_or_eq.1 hlt with hlt | he
      · exact List.mem_cons_of_mem _ (ih h.pair hrest hlt)
      · obtain ⟨hcode, hcomment⟩ :=
          List.append_inj hrest (he.trans List.length_reverse.symm)
        exact List.mem_cons.2 (Or.inl (Prod.ext hcode hcomment))
    | case4 passed c d before hc ih =>
      exact ih (.step hc) (by simpa using hparts) (h.length_lt hparts hlength hpos heven)

theorem mem_candidates_iff :
    p ∈ candidates line ↔ p.1 ++ p.2 = line ∧ 0 < slashes p.2 ∧ Even (slashes p.2) := by
  rw [candidates, mem_candidatesFrom_iff (Or.inl (by simp)), List.reverse_reverse,
    List.append_nil, List.length_reverse]
  refine and_congr_right fun hparts => and_iff_right_of_imp fun h => ?_
  have hcomment : p.2 ≠ [] := fun hnil => by simp [hnil] at h
  rw [← hparts, List.length_append]
  exact Nat.lt_add_of_pos_right (List.length_pos_iff.2 hcomment)

/-! ## Where a comment can open -/

/-- A cut of a line in front of two slashes, with a literal of a known kind on the left. -/
structure Opening (line : Text) (p : Text × Text) : Prop where
  parts : p.1 ++ p.2 = line
  opens : "//".toList <+: p.2
  accepted : Code.kindIn p.1 ≠ .unknown

namespace Opening

theorem mem_candidates (h : Opening line p) (heven : Even (slashes p.2)) :
    p ∈ candidates line :=
  mem_candidates_iff.2 ⟨h.parts, (one_lt_slashes h.opens).le, heven⟩

theorem of_mem_candidates (h : p ∈ candidates line) (haccepted : Code.kindIn p.1 ≠ .unknown) :
    Opening line p ∧ Even (slashes p.2) :=
  ⟨⟨(Setting.mem_candidates h).1, (Setting.mem_candidates h).2, haccepted⟩,
    (mem_candidates_iff.1 h).2.2⟩

end Opening

theorem lastRemark_eq_none_iff :
    lastRemark line = none ↔ ∀ p, Opening line p → ¬ Even (slashes p.2) := by
  rw [lastRemark_eq, List.find?_eq_none]
  constructor
  · intro h p hp heven
    exact h p (hp.mem_candidates heven) (decide_eq_true hp.accepted)
  · intro h p hmem haccepted
    obtain ⟨hp, heven⟩ := Opening.of_mem_candidates hmem (of_decide_eq_true haccepted)
    exact h p hp heven

theorem byteLength_le {p q : Text × Text} (h : p.1 ++ p.2 = q.1 ++ q.2)
    (hlength : p.1.length ≤ q.1.length) : Text.byteLength p.1 ≤ Text.byteLength q.1 := by
  obtain ⟨between, hbetween⟩ := List.prefix_of_prefix_length_le (List.prefix_append p.1 p.2)
    (h ▸ List.prefix_append q.1 q.2) hlength
  rw [← hbetween, Text.byteLength_append]
  exact Nat.le_add_right ..

/-- What is found first in a list comes before all else that could be found. -/
theorem eq_or_of_find?_eq_some {α : Type} {R : α → α → Prop} {l : List α} {test : α → Bool}
    {a b : α} (hl : l.Pairwise R) (ha : l.find? test = some a) (hb : b ∈ l) (ht : test b = true) :
    b = a ∨ R a b := by
  obtain ⟨-, skipped, later, rfl, hskipped⟩ := List.find?_eq_some_iff_append.1 ha
  rcases List.mem_append.1 hb with hskip | hrest
  · have hb := hskipped b hskip
    rw [ht] at hb
    cases hb
  · refine (List.mem_cons.1 hrest).imp_right fun hlater => ?_
    exact (List.pairwise_cons.1 (List.pairwise_append.1 hl).2.1).1 b hlater

theorem lastRemark_greatest (h : lastRemark line = some p) :
    Opening line p ∧ Even (slashes p.2) ∧ ∀ q, Opening line q → Even (slashes q.2) →
      Text.byteLength q.1 ≤ Text.byteLength p.1 := by
  rw [lastRemark_eq] at h
  have haccepted : Code.kindIn p.1 ≠ .unknown :=
    of_decide_eq_true (List.find?_eq_some_iff_append.1 h).1
  obtain ⟨hp, heven⟩ := Opening.of_mem_candidates (List.mem_of_find?_eq_some h) haccepted
  refine ⟨hp, heven, fun q hq heven' => byteLength_le (hq.parts.trans hp.parts.symm) ?_⟩
  rcases eq_or_of_find?_eq_some (pairwise_candidatesFrom [] line.reverse) h
    (hq.mem_candidates heven') (decide_eq_true hq.accepted) with rfl | hlt
  · exact le_rfl
  · exact hlt.le

/-- **The comment is the last of those that open with an even number of slashes**, if the line is not
a lone literal. -/
theorem splitRemark_greatest (h : Lone.cut? line = none) :
    (splitRemark line = (line, []) ∧ ∀ p, Opening line p → ¬ Even (slashes p.2)) ∨
    (Opening line (splitRemark line) ∧ Even (slashes (splitRemark line).2) ∧
      ∀ p, Opening line p → Even (slashes p.2) →
        Text.byteLength p.1 ≤ Text.byteLength (splitRemark line).1) := by
  rw [splitRemark_of_cut?_eq_none h]
  cases hlast : lastRemark line with
  | none => exact Or.inl ⟨rfl, lastRemark_eq_none_iff.1 hlast⟩
  | some p => exact Or.inr (lastRemark_greatest hlast)

/-- A comment that opens with four slashes, behind a text with slashes in it. -/
theorem splitRemark_greatest_four :
    let line := "x = 'a//b' //// c // d".toList
    Lone.cut? line = none ∧ splitRemark line = ("x = 'a//b' ".toList, "//// c // d".toList) ∧
      ∀ p, Opening line p → Even (slashes p.2) → Text.byteLength p.1 ≤ 11 := by
  intro line
  have hcut : Lone.cut? line = none := by decide +kernel
  have hsplit : splitRemark line = ("x = 'a//b' ".toList, "//// c // d".toList) := by
    decide +kernel
  refine ⟨hcut, hsplit, ?_⟩
  have hgreatest := splitRemark_greatest hcut
  rw [hsplit] at hgreatest
  rcases hgreatest with ⟨hnone, -⟩ | ⟨-, -, hgreatest⟩
  · exact absurd hnone (by decide)
  · exact hgreatest

/-- **Three slashes behind a literal are no comment**, although one could open there. -/
theorem splitRemark_misses :
    let line := "x=1///".toList
    Lone.cut? line = none ∧ Opening line ("x=1".toList, "///".toList) ∧
      splitRemark line = (line, []) :=
  ⟨by decide +kernel, ⟨rfl, List.prefix_append _ _, by decide +kernel⟩, by decide +kernel⟩

end Setting
end Marginalia
