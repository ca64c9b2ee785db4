import Mathlib.Data.List.Lex
import Marginalia.Disk.Path

/-!
# The order of paths

Paths are ordered by what they say and not by how they are spelled: component by component, and of
two paths that agree as far as the shorter one goes the shorter one is first.  This is not the order
of their texts.  A slash ends a name before any character does, so `a/z` comes before `a-b`, and a
path may be spelled in several ways.

`Path.Before` states the order from the components, without the words that stand for them when paths
are sorted.

* `Path.before_iff` — the words give the same order.
* `Path.same_iff` — paths have the same words exactly if they say the same, so nothing but the
  spelling is lost by comparing the words.
-/

set_option autoImplicit false
namespace Marginalia

/-- Words are ordered as their images are, if no two letters have the same image. -/
theorem lex_map_iff {α β : Type} {r : β → β → Prop} {f : α → β} (inj : ∀ a b, f a = f b → a = b)
    {s t : List α} : List.Lex r (s.map f) (t.map f) ↔ List.Lex (fun a b => r (f a) (f b)) s t := by
  induction s generalizing t with
  | nil => cases t <;> simp
  | cons a s ih =>
    cases t with
    | nil => simp
    | cons b t =>
      rw [List.map_cons, List.map_cons, List.cons_lex_cons_iff, List.cons_lex_cons_iff, ih]
      exact or_congr_right (and_congr_left' ⟨inj a b, congrArg f⟩)

/-! ## Components -/

namespace Component

/-- The order of components: the root, `.`, `..`, and then the names in the order of their
characters. -/
inductive Before : Component → Component → Prop
  | rootHere : Before root here
  | rootUp : Before root up
  | rootName (n : Text) : Before root (name n)
  | hereUp : Before here up
  | hereName (n : Text) : Before here (name n)
  | upName (n : Text) : Before up (name n)
  | names {m n : Text} (h : m < n) : Before (name m) (name n)

theorem toNat_lt_toNat_iff {m n : Text} : m.map Char.toNat < n.map Char.toNat ↔ m < n :=
  lex_map_iff fun _ _ => Char.toNat_inj.1

theorem before_iff {a b : Component} : a.Before b ↔ a.rank < b.rank := by
  constructor
  · intro h
    cases h with
    | names h => exact List.Lex.cons (toNat_lt_toNat_iff.2 h)
    | _ => exact List.Lex.rel (by decide)
  · intro h
    cases a with
    | name m =>
      cases b with
      | name n => exact .names (toNat_lt_toNat_iff.1 (by simpa [rank] using h))
      | _ => simp [rank, List.cons_lt_cons_iff] at h
    | _ => cases b <;> simp [rank, List.cons_lt_cons_iff] at h <;> constructor

end Component

namespace Path

variable {p q : Path}

/-- A path comes before another one if it does at the first component in which they differ, or if
it ends there. -/
def Before (p q : Path) : Prop := List.Lex Component.Before p.components q.components

/-- The words by which paths are sorted are in the order of the paths. -/
theorem before_iff : p.Before q ↔ p.rank < q.rank := by
  have hcomponents : Component.Before = fun a b => a.rank < b.rank :=
    funext fun a => funext fun b => propext Component.before_iff
  rw [Before, hcomponents]
  exact (lex_map_iff fun _ _ => Component.rank_injective).symm

theorem atMost_iff : p.atMost q = true ↔ p.rank ≤ q.rank := by
  rw [atMost, Bool.not_eq_true', ← Bool.not_eq_true, List.lex_eq_true_iff_lex, ← not_lt]
  simp only [List.lex_eq_true_iff_lex, decide_eq_true_eq]
  rfl

theorem same_iff : p.same q = true ↔ p.rank = q.rank := by
  rw [same, beq_iff_eq, rank_eq_iff]

theorem atMost_trans (p q r : Path) (hpq : p.atMost q = true) (hqr : q.atMost r = true) :
    p.atMost r = true :=
  atMost_iff.2 ((atMost_iff.1 hpq).trans (atMost_iff.1 hqr))

theorem atMost_total (p q : Path) : (p.atMost q || q.atMost p) = true := by
  rw [Bool.or_eq_true, atMost_iff, atMost_iff]
  exact le_total _ _

/-- As texts, these two are the other way round. -/
example : (⟨"a/z".toList⟩ : Path).atMost ⟨"a-b".toList⟩ = true := by decide

end Path
end Marginalia
