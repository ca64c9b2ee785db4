import Marginalia.Proofs.Setting.Code
import Marginalia.Proofs.Setting.Remark

/-!
# Reading a rewritten line

A form is filled in by putting another literal in the place of the one a line gives.  The next form
is read from that line, so the question is whether it gives the new literal back, cut out of the
same surroundings.  That is not obvious, because the literal stands in the middle: what is taken for
the comment depends on the literal before it, and what is taken for the literal depends on where the
comment starts.

* `Code.Opens.kindIn_append` — what the search for a comment asks about a line that is cut short
  somewhere behind the literal.  It comes down to the kind of the literal with a text behind it, and
  that is the same for two literals of the same kind, up to strings that end in a backslash.
* `of?_withLiteral` — **a rewritten line gives the literal that was written**, and its other parts
  are the old ones.

The literal may be of any kind the grammar knows; what it must not do is to bring a pair of slashes
along, or a mark that a backslash before it hides.
-/

set_option autoImplicit false
namespace Marginalia

namespace Code

variable {indent name symbol literal line : Text} {k : Code}

/-! ## Another literal in a line without a comment -/

namespace Opens

theorem of?_append_literal (h : Opens indent name symbol) (hl : LiteralKind.of literal ≠ .unknown)
    (tail : Text) : of? (indent ++ name ++ symbol ++ literal ++ tail)
      = some ⟨indent, name, symbol, literal ++ stem tail, Text.trailingBlanks (core tail),
          closingPunctuation (Text.trimEnd tail), Text.trailingBlanks tail⟩ := by
  have hstart := LiteralKind.trimStart_eq_self hl
  obtain ⟨body, c, rfl, hc, -⟩ := exists_concat_of_kind hl
  exact h.of?_append hstart hc tail

/-- Cut short behind its literal, a line gives the literal with whatever is left behind it. -/
theorem kindIn_append (h : Opens indent name symbol) (hl : LiteralKind.of literal ≠ .unknown)
    (tail : Text) :
    kindIn (indent ++ name ++ symbol ++ literal ++ tail) = LiteralKind.of (literal ++ stem tail) := by
  rw [kindIn, h.of?_append_literal hl]

end Opens

/-- **What stands behind a literal** is cut into the same parts on its own, and nothing is left. -/
theorem of?_behind (h : of? line = some k) (ho : Opens k.indent k.name k.assignment)
    (hl : LiteralKind.of k.literal ≠ .unknown) : stem k.behind = [] ∧
      Text.trailingBlanks (core k.behind) = k.padding ∧
      closingPunctuation (Text.trimEnd k.behind) = k.punctuation ∧
      Text.trailingBlanks k.behind = k.blanks := by
  have hagain := ho.of?_append_literal hl k.behind
  rw [← before, ← toText_eq, of?_toText h, h] at hagain
  have hsame := Option.some.inj hagain
  refine ⟨List.append_right_eq_self.1 (congrArg Code.literal hsame).symm, ?_, ?_, ?_⟩
  · exact (congrArg Code.padding hsame).symm
  · exact (congrArg Code.punctuation hsame).symm
  · exact (congrArg Code.blanks hsame).symm

theorem of?_replace (h : of? line = some k) (ho : Opens k.indent k.name k.assignment)
    (hk : LiteralKind.of k.literal ≠ .unknown) (hl : LiteralKind.of literal ≠ .unknown) :
    of? (k.before ++ literal ++ k.behind) = some { k with literal := literal } := by
  obtain ⟨hstem, hpadding, hpunctuation, hblanks⟩ := of?_behind h ho hk
  rw [before, ho.of?_append_literal hl, hstem, hpadding, hpunctuation, hblanks, List.append_nil]

end Code

/-! ## Another literal in a line with a comment -/

namespace Setting

/-- Up to where a comment might start, a line has nothing behind its literal, or a slash. -/
theorem stem_of_mem_candidates {behind comment : Text} (hbehind : Code.stem behind = [])
    (hcomment : comment = [] ∨ "//".toList <+: comment) {p : Text × Text}
    (hp : p ∈ candidates (behind ++ comment)) : Code.stem p.1 = [] ∨ '/' ∈ Code.stem p.1 := by
  have hfirm : Code.isFirm '/' = true := by decide
  have hnone : '/' ∉ behind := fun hmem => by
    have := Code.mem_stem hfirm hmem
    rw [hbehind] at this
    cases this
  obtain ⟨hjoin, after, hafter⟩ := mem_candidates hp
  rcases List.append_eq_append_iff.1 hjoin with ⟨between, hb, hp2⟩ | ⟨between, hp1, hc⟩
  · cases between with
    | nil =>
      rw [List.append_nil] at hb
      exact Or.inl (hb ▸ hbehind)
    | cons d between =>
      have hd : '/' = d := (List.cons.inj (hafter.trans hp2)).1
      exact absurd (by rw [hb, hd]; simp) hnone
  · cases between with
    | nil =>
      rw [List.append_nil] at hp1
      exact Or.inl (hp1 ▸ hbehind)
    | cons d between =>
      obtain ⟨rest, hrest⟩ := hcomment.resolve_left (by rw [hc]; exact List.cons_ne_nil _ _)
      have hd : '/' = d := (List.cons.inj (hrest.trans hc)).1
      exact Or.inr (Code.mem_stem hfirm (by rw [hp1, hd]; simp))

/-- Reading a lone literal from the left does not get past the symbol that assigns.  If it came to
an end before that, there would be no literal behind the symbol. -/
theorem cut?_eq_none {k : Code} {tail : Text} (ho : Code.Opens k.indent k.name k.assignment)
    (hq : ∀ q : Quote, q.mark ∉ k.indent ++ k.name) (htail : onOneLine (k.before ++ tail) = true)
    (hlong : k.before.length < (splitRemark (k.before ++ tail)).1.length) {tail' : Text}
    (htail' : onOneLine (k.before ++ tail') = true) :
    Lone.cut? (k.before ++ tail) = none ∧ Lone.cut? (k.before ++ tail') = none := by
  obtain ⟨sign, blanks, hsign, -, hsymbol⟩ := ho.exists_sign
  have hbefore : ∀ t, k.before ++ t = k.indent ++ k.name ++ [sign] ++ (blanks ++ t) := by
    intro t
    rw [Code.before, hsymbol]
    simp
  have hmem : sign ∈ k.indent ++ k.name ++ [sign] := by simp
  have hquote : ∀ q : Quote, q.mark ∉ k.indent ++ k.name ++ [sign] := by
    intro q hmark
    rcases List.mem_append.1 hmark with hmark | hmark
    · exact hq q hmark
    · rw [List.mem_singleton] at hmark
      rcases hsign with rfl | rfl <;> cases q <;> cases hmark
  have hread : ∀ t, onOneLine (k.before ++ t) = true → Lone.cut? (k.before ++ t)
      = (Lone.cut? (k.indent ++ k.name ++ [sign])).map (Lone.more (blanks ++ t)) := by
    intro t ht
    rw [hbefore] at ht ⊢
    have hone := (onOneLine_append.1 ht).2
    exact Lone.cut?_append_tail (Lone.foreign_of_sign hsign) hmem _ hquote
      (not_mem_of_onOneLine hone)
  cases hcut : Lone.cut? (k.indent ++ k.name ++ [sign]) with
  | none => exact ⟨by rw [hread tail htail, hcut]; rfl, by rw [hread tail' htail', hcut]; rfl⟩
  | some parts =>
    have hline := hread tail htail
    have hlength := congrArg List.length (Lone.cut?_append hcut)
    rw [hcut] at hline
    rw [splitRemark, hline, Code.before, hsymbol] at hlong
    simp only [Option.map_some, Lone.more, List.length_append, List.length_cons,
      List.length_nil] at hlong hlength
    omega

variable {line literal : Text} {s : Setting}

/-- The comment starts where it did. -/
theorem lastRemark_withLiteral {k : Code} {comment : Text} (hk : Code.of? k.toText = some k)
    (ho : Code.Opens k.indent k.name k.assignment) (hold : LiteralKind.of k.literal ≠ .unknown)
    (hkind : LiteralKind.of literal = LiteralKind.of k.literal)
    (hslashes : Text.holds "//".toList literal = false)
    (hstring : LiteralKind.of literal = .string → (Quote.between literal).getLast? ≠ some '\\')
    (hcomment : comment = [] ∨ "//".toList <+: comment)
    (h : (lastRemark (k.before ++ k.literal ++ (k.behind ++ comment))).getD
      (k.before ++ k.literal ++ (k.behind ++ comment), [])
        = (k.before ++ k.literal ++ k.behind, comment)) :
    (lastRemark (k.before ++ literal ++ (k.behind ++ comment))).getD
      (k.before ++ literal ++ (k.behind ++ comment), [])
        = (k.before ++ literal ++ k.behind, comment) := by
  have hnew : LiteralKind.of literal ≠ .unknown := by rwa [hkind]
  obtain ⟨hstem, -⟩ := Code.of?_behind hk ho hold
  have hlast : ∀ {l : Text}, LiteralKind.of l ≠ .unknown → (k.before ++ l).getLast? ≠ some '/' := by
    intro l hl
    obtain ⟨body, c, rfl, -, hc⟩ := Code.exists_concat_of_kind hl
    simpa using hc
  have hbefore : k.before.getLast? ≠ some '/' := by
    obtain ⟨sign, blanks, hsign, hblanks, hsymbol⟩ := ho.exists_sign
    rw [Code.before, hsymbol, List.getLast?_append_of_ne_nil _ (List.cons_ne_nil _ _)]
    intro hslash
    rcases List.mem_cons.1 (List.mem_of_getLast? hslash) with rfl | hmem
    · rcases hsign with hsign | hsign <;> cases hsign
    · cases hblanks _ hmem
  refine lastRemark_replace hbefore (hlast hold) (hlast hnew) hslashes ?_ ?_ h
  · rw [accepts, Code.before, ho.kindIn_append hnew, hstem, List.append_nil]
    exact decide_eq_true hnew
  · intro p hp hrejected
    rw [accepts, Code.before, ho.kindIn_append hold, decide_eq_false_iff_not, not_not] at hrejected
    rw [accepts, Code.before, ho.kindIn_append hnew, decide_eq_false_iff_not, not_not]
    rcases stem_of_mem_candidates hstem hcomment hp with hnil | hslash
    · rw [hnil, List.append_nil] at hrejected
      exact absurd hrejected hold
    · exact LiteralKind.of_append_eq_unknown hkind.symm hnew hstring hslash hrejected

/-- The code and the comment of a line with another literal. -/
theorem splitRemark_withLiteral {k : Code} {comment : Text} (hk : Code.of? k.toText = some k)
    (ho : Code.Opens k.indent k.name k.assignment) (hq : ∀ q : Quote, q.mark ∉ k.indent ++ k.name)
    (hold : LiteralKind.of k.literal ≠ .unknown)
    (hkind : LiteralKind.of literal = LiteralKind.of k.literal)
    (hslashes : Text.holds "//".toList literal = false)
    (hstring : LiteralKind.of literal = .string → (Quote.between literal).getLast? ≠ some '\\')
    (hline : onOneLine (k.before ++ k.literal ++ (k.behind ++ comment)) = true)
    (hone : onOneLine literal = true)
    (h : splitRemark (k.before ++ k.literal ++ (k.behind ++ comment))
      = (k.before ++ k.literal ++ k.behind, comment)) :
    splitRemark (k.before ++ literal ++ (k.behind ++ comment))
      = (k.before ++ literal ++ k.behind, comment) := by
  have hlong : k.before.length < (k.before ++ k.literal ++ k.behind).length := by
    obtain ⟨body, c, hl, -⟩ := Code.exists_concat_of_kind hold
    rw [hl]
    simp only [List.length_append, List.length_singleton]
    omega
  have hnewline : onOneLine (k.before ++ literal ++ (k.behind ++ comment)) = true := by
    rw [onOneLine_append, onOneLine_append] at hline ⊢
    exact ⟨⟨hline.1.1, hone⟩, hline.2⟩
  have hcomment : comment = [] ∨ "//".toList <+: comment := by
    simpa only [h] using splitRemark_comment (k.before ++ k.literal ++ (k.behind ++ comment))
  rw [List.append_assoc] at hline hnewline
  obtain ⟨hcut, hcut'⟩ := cut?_eq_none ho hq hline
    (by rw [← List.append_assoc, h]; exact hlong) hnewline
  rw [← List.append_assoc] at hcut hcut'
  rw [splitRemark_of_cut?_eq_none hcut] at h
  rw [splitRemark_of_cut?_eq_none hcut']
  exact lastRemark_withLiteral hk ho hold hkind hslashes hstring hcomment h

/-- **A rewritten line gives the literal that was written**, and its other parts are the old
ones. -/
theorem of?_withLiteral (hs : of? line = some s) (hline : onOneLine line = true)
    (hname : s.assignment ≠ []) (hquote : ∀ q : Quote, q.mark ∉ s.lead)
    (hknown : s.kind ≠ .unknown) (hkind : LiteralKind.of literal = s.kind)
    (hone : onOneLine literal = true) (hslashes : Text.holds "//".toList literal = false)
    (hstring : s.kind = .string → (Quote.between literal).getLast? ≠ some '\\') :
    of? (s.withLiteral literal) = some { s with literal := literal } := by
  obtain ⟨k, hk, he⟩ := of?_eq_some_iff.1 hs
  have hnewline : s.withLiteral literal
      = k.before ++ literal ++ (k.behind ++ (splitRemark line).2) := by
    simp [he, withLiteral, Code.before, Code.behind]
  rw [hnewline]
  subst he
  have ho := Code.opens_of_of? hk hname fun q hq => hquote q (List.mem_append_right _ hq)
  have hnew : LiteralKind.of literal ≠ .unknown := by rw [hkind]; exact hknown
  have hcode : k.before ++ k.literal ++ k.behind = (splitRemark line).1 := by
    rw [← Code.toText_eq, Code.of?_toText hk]
  have hline' : line = k.before ++ k.literal ++ (k.behind ++ (splitRemark line).2) := by
    rw [← List.append_assoc, hcode, splitRemark_append]
  have hk' : Code.of? k.toText = some k := by rwa [Code.of?_toText hk]
  have hsplit : splitRemark (k.before ++ k.literal ++ (k.behind ++ (splitRemark line).2))
      = (k.before ++ k.literal ++ k.behind, (splitRemark line).2) := by
    rw [← hline', hcode]
  have hsplit' := splitRemark_withLiteral hk' ho hquote hknown hkind hslashes
    (fun h => hstring (hkind ▸ h)) (hline' ▸ hline) hone hsplit
  refine of?_eq_some_iff.2 ⟨{ k with literal := literal }, ?_, ?_⟩
  · rw [hsplit']
    exact Code.of?_replace hk ho hknown hnew
  · rw [hsplit']

/-- Both the old literal and the comment hold more slashes. -/
theorem of?_withLiteral_slashes :
    let line := "var u = \"a//b\"; // see 'c' // \"d\"".toList
    let s : Setting :=
      { lead := "var u ".toList
        assignment := "= ".toList
        literal := "\"a//b\"".toList
        padding := []
        punctuation := [';']
        remark := " // see 'c' // \"d\"".toList }
    let literal := "'n\\'o'".toList
    of? line = some s ∧ onOneLine line = true ∧ s.assignment ≠ [] ∧
      (∀ q : Quote, q.mark ∉ s.lead) ∧ s.kind ≠ .unknown ∧ LiteralKind.of literal = s.kind ∧
      onOneLine literal = true ∧ Text.holds "//".toList literal = false ∧
      (s.kind = .string → (Quote.between literal).getLast? ≠ some '\\') ∧
      of? (s.withLiteral literal) = some { s with literal := literal } := by
  intro line s literal
  have hs : of? line = some s := by decide +kernel
  have hquote : ∀ q : Quote, q.mark ∉ s.lead := by
    intro q
    cases q <;> decide
  have hkind : LiteralKind.of literal = s.kind := by decide +kernel
  exact ⟨hs, by decide, by decide, hquote, by decide, hkind, by decide, by decide, by decide,
    of?_withLiteral hs (by decide) (by decide) hquote (by decide) hkind (by decide) (by decide)
      (by decide)⟩

end Setting
end Marginalia
