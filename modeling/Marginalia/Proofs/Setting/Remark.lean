import Marginalia.Proofs.Setting.Parts
import Marginalia.Proofs.Text.Blank
import Marginalia.Proofs.Text.Cut

/-!
# Where the comment of a line is found

There are two ways to find it, and this file says of each how much of the line it depends on.

Reading a lone literal from the left stops at the first character that no such literal is made of.
A sign that assigns is one, so whatever is written behind such a sign is only passed on
(`Lone.cut?_append_tail`).

Searching from the right tries one pair of slashes after another.  `candidates` lists the pairs
without asking what stands before them, and the search takes the first of them that it accepts
(`lastRemark_eq`).  The list of two texts put together is that of the one, followed by that of the
other (`candidates_append`), and a text without a pair of slashes has none (`candidates_eq_nil`).

* `lastRemark_append_eq` — **the search in two texts**: first in the second text, then in the first.
* `lastRemark_replace` — **the search with another text in the middle** finds the same comment.
-/

set_option autoImplicit false
namespace Marginalia
namespace Setting

/-! ## Reading a lone literal from the left -/

namespace Lone

open Literal (digits?)

/-- Whether a character has no place in a line that is one number, up to its comment. -/
structure Foreign (c : Char) : Prop where
  digit : Literal.isDigit c = false
  blank : Text.isBlank c = false
  other : c ∉ ['-', '.', ',', ';', '/']

/-- The characters a number is made of, and those of the punctuation and the comment, are passed by
on the way to a character that has no place there. -/
theorem Foreign.mem_of_mem_cons {c d : Char} {r : Text} (h : Foreign c) (hc : c ∈ d :: r)
    (hd : d ∈ ['-', '.', ',', ';', '/']) : c ∈ r := by
  rcases List.mem_cons.1 hc with rfl | hr
  · exact absurd hd h.other
  · exact hr

theorem foreign_of_sign {c : Char} (h : c = ':' ∨ c = '=') : Foreign c := by
  rcases h with rfl | rfl <;> exact ⟨by decide, by decide, by decide⟩

/-- What has been read, with more text behind the rest. -/
def more (tail : Text) (p : Text × Text) : Text × Text := (p.1, p.2 ++ tail)

section

variable {c : Char} {t : Text} (h : Foreign c) (hc : c ∈ t) (tail : Text)
include h hc

theorem digits?_append_tail : digits? (t ++ tail) = (digits? t).map (more tail) := by
  obtain ⟨htake, hdrop, -⟩ := Text.takeWhile_append_of_mem h.digit hc tail
  rw [digits?, digits?, htake, hdrop]
  cases t.takeWhile Literal.isDigit <;> rfl

theorem mem_of_digits? {run rest : Text} (hd : digits? t = some (run, rest)) : c ∈ rest := by
  obtain ⟨-, -, hmem⟩ := Text.takeWhile_append_of_mem h.digit hc []
  rw [digits?] at hd
  split at hd
  · cases hd
  · cases hd
    exact hmem

theorem unsigned?_append_tail : unsigned? (t ++ tail) = (unsigned? t).map (more tail) := by
  rw [unsigned?, unsigned?, digits?_append_tail h hc, Option.map_map, Option.map_map]
  refine Option.map_congr fun (whole, rest) hd => ?_
  have hrest := mem_of_digits? h hc hd
  rcases rest with _ | ⟨d, r⟩
  · cases hrest
  · by_cases hpoint : d = '.'
    · subst hpoint
      have hr : c ∈ r := h.mem_of_mem_cons hrest (by decide)
      simp only [Function.comp_apply, more, List.cons_append, digits?_append_tail h hr]
      cases digits? r <;> rfl
    · simp [more, hpoint]

theorem number?_append_tail : number? (t ++ tail) = (number? t).map (more tail) := by
  rcases t with _ | ⟨d, r⟩
  · cases hc
  · by_cases hminus : d = '-'
    · subst hminus
      have hr : c ∈ r := h.mem_of_mem_cons hc (by decide)
      simp only [List.cons_append, number?, unsigned?_append_tail h hr, Option.map_map]
      rfl
    · have hboth : ∀ r', number? (d :: r') = unsigned? (d :: r') := by
        intro r'
        simp [number?, hminus]
      rw [List.cons_append, hboth, hboth, ← List.cons_append, unsigned?_append_tail h hc]

theorem mem_of_unsigned? {number rest : Text} (hu : unsigned? t = some (number, rest)) :
    c ∈ rest := by
  obtain ⟨⟨whole, r⟩, hd, he⟩ := Option.map_eq_some_iff.1 hu
  have hr := mem_of_digits? h hc hd
  simp only at he
  split at he
  · rename_i r'
    split at he
    · rename_i hfraction
      have hr' : c ∈ r' := h.mem_of_mem_cons hr (by decide)
      cases he
      exact mem_of_digits? h hr' hfraction
    · cases he
      exact hr
  · cases he
    exact hr

theorem mem_of_number? {number rest : Text} (hn : number? t = some (number, rest)) : c ∈ rest := by
  unfold number? at hn
  split at hn
  · rename_i r
    obtain ⟨⟨digits, r'⟩, hu, he⟩ := Option.map_eq_some_iff.1 hn
    have hr : c ∈ r := h.mem_of_mem_cons hc (by decide)
    cases he
    exact mem_of_unsigned? h hr hu
  · exact mem_of_unsigned? h hc hn

theorem punctuation_append_tail :
    punctuation (t ++ tail) = more tail (punctuation t) ∧ c ∈ (punctuation t).2 := by
  rcases t with _ | ⟨d, r⟩
  · cases hc
  · by_cases hcomma : d = ','
    · subst hcomma
      exact ⟨rfl, h.mem_of_mem_cons hc (by decide)⟩
    · by_cases hsemicolon : d = ';'
      · subst hsemicolon
        exact ⟨rfl, h.mem_of_mem_cons hc (by decide)⟩
      · have hboth : ∀ r', punctuation (d :: r') = ([], d :: r') := by
          intro r'
          simp [punctuation, hcomma, hsemicolon]
        rw [List.cons_append, hboth, hboth]
        exact ⟨rfl, hc⟩

theorem endsLine_append_tail (htail : '\n' ∉ tail) : endsLine (t ++ tail) = endsLine t := by
  rcases t with _ | ⟨d, _ | ⟨e, r⟩⟩
  · cases hc
  · have hd : d ≠ '/' := by
      rintro rfl
      cases h.mem_of_mem_cons hc (by decide)
    simp [endsLine, hd]
  · by_cases hslashes : d = '/' ∧ e = '/'
    · obtain ⟨rfl, rfl⟩ := hslashes
      simp [endsLine, htail]
    · have hboth : ∀ r', endsLine (d :: e :: r') = false := by
        intro r'
        unfold endsLine
        split
        · rename_i he
          cases he
        · rename_i he
          cases he
          exact absurd ⟨rfl, rfl⟩ hslashes
        · rfl
      rw [List.cons_append, List.cons_append, hboth, hboth]

theorem literal?_append_tail (hq : ∀ q : Quote, q.mark ∉ t) :
    literal? (t ++ tail) = (literal? t).map (more tail) ∧
      ∀ literal rest, literal? t = some (literal, rest) → c ∈ rest := by
  have hquoted : ∀ r, quoted? (t ++ r) = none := by
    intro r
    obtain ⟨d, r', rfl⟩ := List.exists_cons_of_ne_nil (List.ne_nil_of_mem hc)
    have hd : Quote.ofChar? d = none := by
      rw [Option.eq_none_iff_forall_ne_some]
      intro q hd
      exact hq q (Quote.mark_of_ofChar? hd ▸ List.mem_cons_self)
    rw [List.cons_append, quoted?, hd]
  have hnumber : ∀ r, literal? (t ++ r) = number? (t ++ r) := by
    intro r
    rw [literal?, hquoted]
    cases number? (t ++ r) <;> rfl
  have hself := hnumber []
  rw [List.append_nil] at hself
  rw [hnumber, hself]
  exact ⟨number?_append_tail h hc tail, fun _ _ hn => mem_of_number? h hc hn⟩

/-- **Behind a foreign character nothing is read**, as long as the line does not end. -/
theorem cut?_append_tail (hq : ∀ q : Quote, q.mark ∉ t) (htail : '\n' ∉ tail) :
    cut? (t ++ tail) = (cut? t).map (more tail) := by
  have hmem := Text.mem_trimStart h.blank hc
  have hq' : ∀ q : Quote, q.mark ∉ Text.trimStart t := fun q hm =>
    hq q ((List.dropWhile_sublist _).subset hm)
  obtain ⟨hliteral, hrest⟩ := literal?_append_tail h hmem tail hq'
  rw [cut?, cut?, Text.leadingBlanks_append_of_mem h.blank hc,
    Text.trimStart_append_of_mem h.blank hc, hliteral]
  cases hl : literal? (Text.trimStart t) with
  | none => rfl
  | some parts =>
    obtain ⟨literal, rest⟩ := parts
    obtain ⟨hmark, hafter⟩ := punctuation_append_tail h (hrest literal rest hl) tail
    simp only [Option.map_some, more, hmark, Text.leadingBlanks_append_of_mem h.blank hafter,
      Text.trimStart_append_of_mem h.blank hafter]
    rw [endsLine_append_tail h (Text.mem_trimStart h.blank hafter) tail htail]
    split <;> rfl

end

theorem prefix_of_endsLine {comment : Text} (h : endsLine comment = true) :
    comment = [] ∨ "//".toList <+: comment := by
  unfold endsLine at h
  split at h
  · exact Or.inl rfl
  · exact Or.inr (List.prefix_append _ _)
  · cases h

theorem cut?_comment {line : Text} {parts : Text × Text} (h : cut? line = some parts) :
    parts.2 = [] ∨ "//".toList <+: parts.2 := by
  unfold cut? at h
  split at h
  · cases h
  · simp only at h
    split at h
    · rename_i hends
      cases h
      exact prefix_of_endsLine hends
    · cases h

end Lone

/-! ## Searching from the right -/

/-- The pairs of slashes that the search from the right comes to, each as the text before it and the
text it begins, the last pair first. -/
def candidatesFrom (passed : Text) : Text → List (Text × Text)
  | [] => []
  | [_] => []
  | c :: d :: before =>
    if c = '/' ∧ d = '/' then
      (before.reverse, '/' :: '/' :: passed) :: candidatesFrom ('/' :: '/' :: passed) before
    else candidatesFrom (c :: passed) (d :: before)

/-- The pairs of slashes of a line that the search from the right comes to. -/
def candidates (line : Text) : List (Text × Text) := candidatesFrom [] line.reverse

/-- Whether a text may stand before a comment: it gives a literal of some kind. -/
def accepts (code : Text) : Bool := Code.kindIn code ≠ .unknown

theorem lastRemarkFrom_eq (passed rest : Text) :
    lastRemarkFrom passed rest = (candidatesFrom passed rest).find? fun p => accepts p.1 := by
  fun_induction lastRemarkFrom passed rest with
  | case1 => rfl
  | case2 => rfl
  | case3 passed c d before hc hkind ih =>
    rw [candidatesFrom, if_pos hc, List.find?_cons_of_neg (by simp [accepts, hkind]), ih]
  | case4 passed c d before hc hkind =>
    rw [candidatesFrom, if_pos hc, List.find?_cons_of_pos (by simp [accepts, hkind])]
  | case5 passed c d before hc ih => rw [candidatesFrom, if_neg hc, ih]

theorem lastRemark_eq (line : Text) :
    lastRemark line = (candidates line).find? fun p => accepts p.1 :=
  lastRemarkFrom_eq [] line.reverse

theorem mem_candidatesFrom {passed rest : Text} {p : Text × Text}
    (h : p ∈ candidatesFrom passed rest) :
    p.1 ++ p.2 = rest.reverse ++ passed ∧ "//".toList <+: p.2 := by
  fun_induction candidatesFrom passed rest with
  | case1 => cases h
  | case2 => cases h
  | case3 passed c d before hc ih =>
    obtain ⟨rfl, rfl⟩ := hc
    rcases List.mem_cons.1 h with rfl | h
    · exact ⟨by simp, List.prefix_append _ _⟩
    · simpa using ih h
  | case4 passed c d before hc ih => simpa using ih h

theorem mem_candidates {line : Text} {p : Text × Text} (h : p ∈ candidates line) :
    p.1 ++ p.2 = line ∧ "//".toList <+: p.2 := by
  simpa using mem_candidatesFrom h

theorem candidates_eq_nil {line : Text} (h : Text.holds "//".toList line = false) :
    candidates line = [] := by
  rw [List.eq_nil_iff_forall_not_mem]
  intro p hp
  obtain ⟨hline, hslashes⟩ := mem_candidates hp
  have hholds : Text.holds "//".toList line = true :=
    Text.holds_iff.2 (hslashes.isInfix.trans ⟨p.1, [], by rw [List.append_nil, hline]⟩)
  rw [h] at hholds
  cases hholds

theorem candidatesFrom_append_passed (passed more rest : Text) :
    candidatesFrom (passed ++ more) rest
      = (candidatesFrom passed rest).map fun p => (p.1, p.2 ++ more) := by
  fun_induction candidatesFrom passed rest with
  | case1 => rfl
  | case2 => rfl
  | case3 passed c d before hc ih => rw [candidatesFrom, if_pos hc, List.map_cons, ← ih]; rfl
  | case4 passed c d before hc ih => rw [candidatesFrom, if_neg hc, ← ih]; rfl

/-- No pair of slashes lies across two texts if the first does not end in a slash. -/
theorem candidatesFrom_append {left : Text} (hleft : left.head? ≠ some '/') (passed rest : Text) :
    candidatesFrom passed (rest ++ left)
      = (candidatesFrom passed rest).map (fun p => (left.reverse ++ p.1, p.2))
          ++ candidatesFrom (rest.reverse ++ passed) left := by
  fun_induction candidatesFrom passed rest with
  | case1 => rfl
  | case2 passed c =>
    cases left with
    | nil => rfl
    | cons d left =>
      have hd : ¬(c = '/' ∧ d = '/') := fun h => hleft (by rw [h.2]; rfl)
      rw [List.singleton_append, candidatesFrom, if_neg hd]
      rfl
  | case3 passed c d before hc ih =>
    obtain ⟨rfl, rfl⟩ := hc
    rw [List.cons_append, List.cons_append, candidatesFrom, if_pos ⟨rfl, rfl⟩, ih]
    simp
  | case4 passed c d before hc ih =>
    rw [List.cons_append] at ih
    rw [List.cons_append, List.cons_append, candidatesFrom, if_neg hc, ih]
    simp

theorem candidates_append {left : Text} (hleft : left.getLast? ≠ some '/') (right : Text) :
    candidates (left ++ right) = (candidates right).map (fun p => (left ++ p.1, p.2))
      ++ (candidates left).map fun p => (p.1, p.2 ++ right) := by
  have hhead : left.reverse.head? ≠ some '/' := by rwa [List.head?_reverse]
  rw [candidates, List.reverse_append, candidatesFrom_append hhead, List.reverse_reverse,
    List.reverse_reverse, List.append_nil, candidates, candidates]
  rw [← candidatesFrom_append_passed, List.nil_append]

/-- **The search in two texts** tries the second one first. -/
theorem lastRemark_append_eq {left : Text} (hleft : left.getLast? ≠ some '/') (right : Text) :
    lastRemark (left ++ right)
      = (((candidates right).find? fun p => accepts (left ++ p.1)).map
            fun p => (left ++ p.1, p.2)).or
          ((lastRemark left).map fun p => (p.1, p.2 ++ right)) := by
  rw [lastRemark_eq, candidates_append hleft, List.find?_append, List.find?_map, List.find?_map,
    lastRemark_eq]
  rfl

theorem splitRemark_of_cut?_eq_none {line : Text} (h : Lone.cut? line = none) :
    splitRemark line = (lastRemark line).getD (line, []) := by
  rw [splitRemark, h]

/-- A comment is empty or begins with two slashes. -/
theorem splitRemark_comment (line : Text) :
    (splitRemark line).2 = [] ∨ "//".toList <+: (splitRemark line).2 := by
  rw [splitRemark]
  split
  · rename_i parts hcut
    exact Lone.cut?_comment hcut
  · cases hlast : lastRemark line with
    | none => exact Or.inl rfl
    | some parts =>
      rw [lastRemark_eq] at hlast
      exact Or.inr (mem_candidates (List.mem_of_find?_eq_some hlast)).2

theorem length_of_lastRemark {line : Text} {parts : Text × Text}
    (h : lastRemark line = some parts) : parts.1.length < line.length := by
  rw [lastRemark_eq] at h
  obtain ⟨hparts, after, hafter⟩ := mem_candidates (List.mem_of_find?_eq_some h)
  rw [← hparts, ← hafter]
  simp

/-- Two tests find the same in a list if what the first rejects is rejected by the second, and what
the first finds is accepted by it. -/
theorem find?_eq_of_rejected {α : Type} {p q : α → Bool} {l : List α}
    (hrejected : ∀ a ∈ l, p a = false → q a = false)
    (haccepted : ∀ a, l.find? p = some a → q a = true) : l.find? q = l.find? p := by
  induction l with
  | nil => rfl
  | cons a l ih =>
    cases hp : p a with
    | true =>
      have hq := haccepted a (List.find?_cons_of_pos hp)
      rw [List.find?_cons_of_pos hq, List.find?_cons_of_pos hp]
    | false =>
      have hq := hrejected a List.mem_cons_self hp
      have hskip : (a :: l).find? p = l.find? p := List.find?_cons_of_neg (by simp [hp])
      rw [hskip, List.find?_cons_of_neg (by simp [hq])]
      refine ih (fun b hb => hrejected b (List.mem_cons_of_mem _ hb)) fun b hb => ?_
      exact haccepted b (hskip.trans hb)

/-- **The search does not see which text stands in the middle**, if that text brings no slashes of
its own and is as good as the other one wherever a comment might start. -/
theorem lastRemark_replace {before old new behind comment : Text}
    (hbefore : before.getLast? ≠ some '/') (hold : (before ++ old).getLast? ≠ some '/')
    (hnew : (before ++ new).getLast? ≠ some '/') (hslashes : Text.holds "//".toList new = false)
    (haccepted : accepts (before ++ new ++ behind) = true)
    (hrejected : ∀ p ∈ candidates (behind ++ comment), accepts (before ++ old ++ p.1) = false →
      accepts (before ++ new ++ p.1) = false)
    (h : (lastRemark (before ++ old ++ (behind ++ comment))).getD
      (before ++ old ++ (behind ++ comment), []) = (before ++ old ++ behind, comment)) :
    (lastRemark (before ++ new ++ (behind ++ comment))).getD
      (before ++ new ++ (behind ++ comment), []) = (before ++ new ++ behind, comment) := by
  rw [lastRemark_append_eq hold] at h
  have hfind : (candidates (behind ++ comment)).find? (fun p => accepts (before ++ new ++ p.1))
      = (candidates (behind ++ comment)).find? fun p => accepts (before ++ old ++ p.1) := by
    refine find?_eq_of_rejected hrejected fun p hp => ?_
    rw [hp] at h
    have hcode : before ++ old ++ p.1 = before ++ old ++ behind := congrArg Prod.fst h
    rwa [List.append_cancel_left hcode]
  rw [lastRemark_append_eq hnew, hfind]
  cases hp : (candidates (behind ++ comment)).find? fun p => accepts (before ++ old ++ p.1) with
  | some p =>
    rw [hp] at h
    obtain ⟨hcode, hcomment⟩ := Prod.mk.inj h
    rw [← List.append_cancel_left hcode, ← hcomment]
    rfl
  | none =>
    rw [hp, Option.map_none, Option.none_or] at h
    cases hleft : lastRemark (before ++ old) with
    | some parts =>
      -- a comment that begins further left leaves too little code
      rw [hleft] at h
      have hcode : parts.1 = before ++ old ++ behind := congrArg Prod.fst h
      have hlength := length_of_lastRemark hleft
      rw [hcode, List.length_append] at hlength
      omega
    | none =>
      rw [hleft] at h
      obtain ⟨-, rfl⟩ := Prod.mk.inj h
      have hnone : lastRemark before = none := by
        rw [lastRemark_append_eq hbefore, Option.or_eq_none_iff, Option.map_eq_none_iff,
          Option.map_eq_none_iff] at hleft
        exact hleft.2
      rw [lastRemark_append_eq hbefore, candidates_eq_nil hslashes, hnone, List.append_nil]
      rfl

end Setting
end Marginalia
