import Marginalia.Proofs.Literal.Quote
import Marginalia.Proofs.Setting.Code
import Marginalia.Proofs.Setting.Slashes

/-!
# A string with a line to itself

A string may hold anything, marks of its own kind included as long as each has a backslash before
it.  On a line of its own it should be read as it stands, with the indentation before it and the
punctuation behind it, and a string without inner marks is: it is read from the left, up to its
closing mark (`Lone.cut?_quoted`).

Reading from the left does not know about backslashes, though.  It stops at the first inner mark,
and if the string goes on there as a line goes on behind its literal (`Lone.EndsEarly`), the rest of
the string is taken for a comment.  If it does not, the line is searched from the right, and then
every pair of slashes in the string is a candidate, whatever encloses it.

* `splitRemark_string` — when neither of the two finds a comment in the string.
* `of?_string_iff` — **exactly then the string is read as that string.**
* `of?_string_cut_short` — a string of which only the beginning is read.
-/

set_option autoImplicit false
namespace Marginalia

variable {indent literal separator : Text}

namespace Quote

theorem mark_ne_slash (q : Quote) : q.mark ≠ '/' := by cases q <;> decide

theorem isFirm_mark (q : Quote) : Code.isFirm q.mark = true := by cases q <;> decide

end Quote

/-! ## A literal with a line to itself -/

/-- Nothing, a comma or a semicolon. -/
inductive IsSeparator : Text → Prop
  | nothing : IsSeparator []
  | comma : IsSeparator [',']
  | semicolon : IsSeparator [';']

namespace IsSeparator

theorem parts (h : IsSeparator separator) : Code.core separator = [] ∧
    closingPunctuation (Text.trimEnd separator) = separator ∧
      Text.trailingBlanks separator = [] := by
  cases h <;> decide

theorem onOneLine (h : IsSeparator separator) : Marginalia.onOneLine separator = true := by
  cases h <;> rfl

theorem candidates_eq_nil (h : IsSeparator separator) : Setting.candidates separator = [] := by
  cases h <;> rfl

end IsSeparator

namespace Code

/-- A literal that may have a line to itself is found there. -/
theorem of?_lone (hindent : Text.AllBlank indent) (h : standsAlone literal = true)
    (hseparator : IsSeparator separator) : of? (indent ++ literal ++ separator)
      = some ⟨indent, [], [], literal, [], separator, []⟩ := by
  have hknown : LiteralKind.of literal ≠ .unknown := by
    intro hk
    rw [standsAlone, hk] at h
    cases h
  have hstart := LiteralKind.trimStart_eq_self hknown
  obtain ⟨body, c, rfl, hfirm, -⟩ := exists_concat_of_kind hknown
  have hblank := isBlank_of_isFirm hfirm
  obtain ⟨hcore, hclosing, hblanks⟩ := hseparator.parts
  have hline : indent ++ (body ++ [c]) ++ separator = indent ++ body ++ c :: separator := by simp
  have hlinecore : core (indent ++ body ++ c :: separator) = indent ++ (body ++ [c]) := by
    rw [core_append_cons _ hfirm, hcore]
    simp
  have hleading : Text.leadingBlanks (indent ++ (body ++ [c])) = indent := by
    have hwhole := Text.leadingBlanks_append_trimStart (indent ++ (body ++ [c]))
    rw [Text.trimStart_append_of_allBlank hindent, hstart] at hwhole
    exact List.append_cancel_right hwhole
  rw [hline, of?_eq, hlinecore, Text.trim, Text.trimStart_append_of_allBlank hindent, hstart,
    Text.trimEnd_concat _ hblank, if_pos h, Text.trimEnd_append_cons _ hblank,
    closingPunctuation_append_cons _ hfirm, hclosing, Text.trailingBlanks_concat _ hblank,
    Text.trailingBlanks_append_cons _ hblank, hblanks, hleading]
  rfl

theorem kindIn_indented {c : Char} (hindent : Text.AllBlank indent) (hc : isFirm c = true)
    (t : Text) : kindIn (indent ++ c :: t) = kindIn (c :: t) := by
  have hcore : core (c :: t) = c :: core t := core_append_cons [] hc t
  have htrim : Text.trim (core (indent ++ c :: t)) = Text.trim (core (c :: t)) := by
    rw [core_append_cons indent hc, hcore, Text.trim, Text.trim,
      Text.trimStart_append_of_allBlank hindent]
  rw [kindIn, kindIn, of?_eq, of?_eq, htrim]
  split_ifs
  · rfl
  · cases Assignment.of? (Text.trim (core (c :: t))) <;> rfl

end Code

namespace Setting

/-! ## Reading a quoted text from the left -/

namespace Lone

variable {q : Quote} {inner rest : Text}

theorem number?_mark (q : Quote) (t : Text) : number? (q.mark :: t) = none := by
  cases q <;> rfl

theorem quoted?_mark (hone : onOneLine inner = true) (hinner : q.mark ∉ inner) :
    quoted? (q.mark :: inner ++ q.mark :: rest) = some (q.mark :: inner ++ [q.mark], rest) := by
  let passes : Char → Bool := fun d => !(d = q.mark || d = '\r' || d = '\n')
  have hpass : ∀ d ∈ inner, passes d = true := by
    intro d hd
    have hmark : d ≠ q.mark := fun he => hinner (he ▸ hd)
    have hbreak := List.all_eq_true.1 hone d hd
    simpa [passes, hmark] using hbreak
  have hstop : passes q.mark = false := by simp [passes]
  obtain ⟨htake, hdrop⟩ := Text.takeWhile_dropWhile_append_cons hpass hstop rest
  rw [List.cons_append, quoted?, Quote.ofChar?_mark]
  simp only [passes] at hdrop htake
  simp only [hdrop, htake, if_true, List.cons_append]

theorem endsLine_iff {comment : Text} : endsLine comment = true ↔
    comment = [] ∨ "//".toList <+: comment ∧ '\n' ∉ comment := by
  rw [endsLine.eq_def]
  split
  · simp
  · simp
  · rename_i hnil hslashes
    refine iff_of_false Bool.false_ne_true ?_
    rintro (rfl | ⟨⟨r, rfl⟩, -⟩)
    · exact hnil rfl
    · exact hslashes r rfl

theorem cut?_quoted (hindent : Text.AllBlank indent) (hone : onOneLine inner = true)
    (hinner : q.mark ∉ inner) (rest : Text) :
    cut? (indent ++ (q.mark :: inner ++ q.mark :: rest)) =
      if endsLine (Text.trimStart (punctuation rest).2) then
        some (indent ++ (q.mark :: inner ++ [q.mark]) ++ (punctuation rest).1
          ++ Text.leadingBlanks (punctuation rest).2, Text.trimStart (punctuation rest).2)
      else none := by
  have hblank : Text.isBlank q.mark = false :=
    (LiteralKind.not_isBlank_of_ofChar? (by simp)).1
  obtain ⟨hleading, hstart⟩ :
      Text.leadingBlanks (indent ++ (q.mark :: inner ++ q.mark :: rest)) = indent ∧
        Text.trimStart (indent ++ (q.mark :: inner ++ q.mark :: rest))
          = q.mark :: inner ++ q.mark :: rest :=
    Text.takeWhile_dropWhile_append_cons hindent hblank _
  have hliteral : literal? (q.mark :: inner ++ q.mark :: rest)
      = some (q.mark :: inner ++ [q.mark], rest) := by
    rw [literal?, quoted?_mark hone hinner, List.cons_append, number?_mark]
    rfl
  rw [cut?, hstart, hleading, hliteral]

theorem isSeparator_punctuation (t : Text) : IsSeparator (punctuation t).1 := by
  rw [punctuation.eq_def]
  split
  · exact .comma
  · exact .semicolon
  · exact .nothing

theorem punctuation_append_of_head (h : IsSeparator separator) {t : Text}
    (ht : t.head? ≠ some ',' ∧ t.head? ≠ some ';') :
    punctuation (separator ++ t) = (separator, t) := by
  cases h with
  | nothing =>
    rw [List.nil_append, punctuation.eq_def]
    split
    · exact absurd rfl ht.1
    · exact absurd rfl ht.2
    · rfl
  | comma => rfl
  | semicolon => rfl

/-- Blanks and a comment are not taken for a separator. -/
theorem punctuation_append_comment (hseparator : IsSeparator separator) {blanks : Text}
    (hblanks : Text.AllBlank blanks) (t : Text) :
    punctuation (separator ++ (blanks ++ ("//".toList ++ t)))
      = (separator, blanks ++ ("//".toList ++ t)) := by
  refine punctuation_append_of_head hseparator ?_
  cases blanks with
  | nil => simp
  | cons c blanks =>
    have hc := hblanks c List.mem_cons_self
    constructor <;> rintro he <;> cases he <;> cases hc

/-- A text goes on as a line does behind its literal: with a separator, blanks and a comment. -/
def EndsEarly (t : Text) : Prop :=
  ∃ separator blanks comment, t = separator ++ blanks ++ "//".toList ++ comment ∧
    IsSeparator separator ∧ Text.AllBlank blanks

theorem mark_not_mem (hseparator : IsSeparator separator) {blanks : Text}
    (hblanks : Text.AllBlank blanks) : q.mark ∉ separator ++ blanks ++ "//".toList := by
  obtain ⟨hblank, hother⟩ := LiteralKind.not_isBlank_of_ofChar? (c := q.mark) (by simp)
  simp only [List.mem_cons, List.not_mem_nil, or_false, not_or] at hother
  have hnot : q.mark ∉ blanks := fun hmem => by
    rw [hblanks _ hmem] at hblank
    cases hblank
  cases hseparator <;> simp [hnot, hother]

theorem trimStart_punctuation_ne_nil {t : Text} (hmark : q.mark ∈ t) :
    Text.trimStart (punctuation t).2 ≠ [] := by
  intro hnil
  have hblanks := Text.leadingBlanks_append_trimStart (punctuation t).2
  rw [hnil, List.append_nil] at hblanks
  have hallBlank : Text.AllBlank (punctuation t).2 :=
    hblanks ▸ Text.allBlank_leadingBlanks (punctuation t).2
  have hnot := mark_not_mem (q := q) (isSeparator_punctuation t) hallBlank
  rw [punctuation_append] at hnot
  exact hnot (List.mem_append_left _ hmark)

/-- Punctuation behind a text that holds a mark does not change how the text goes on. -/
theorem endsLine_iff_endsEarly (hmark : q.mark ∈ rest) (hone : onOneLine rest = true)
    (hseparator : IsSeparator separator) :
    endsLine (Text.trimStart (punctuation (rest ++ separator)).2) = true ↔ EndsEarly rest := by
  rw [endsLine_iff, or_iff_right (trimStart_punctuation_ne_nil (List.mem_append_left _ hmark))]
  constructor
  · rintro ⟨⟨comment, hcomment⟩, -⟩
    have hparts := punctuation_append (rest ++ separator)
    have hsign := isSeparator_punctuation (rest ++ separator)
    generalize punctuation (rest ++ separator) = parts at hcomment hparts hsign
    have hblanks := Text.allBlank_leadingBlanks parts.2
    rw [← Text.leadingBlanks_append_trimStart parts.2, ← hcomment, ← List.append_assoc,
      ← List.append_assoc] at hparts
    rcases List.append_eq_append_iff.1 hparts with ⟨between, hrest, -⟩ | ⟨between, hshort, -⟩
    · exact ⟨_, _, between, hrest, hsign, hblanks⟩
    · -- the mark would stand before the end of the slashes
      have hnot := mark_not_mem (q := q) hsign hblanks
      rw [hshort] at hnot
      exact absurd (List.mem_append_left _ hmark) hnot
  · rintro ⟨sign, blanks, comment, rfl, hsign, hblanks⟩
    have hstart (t : Text) : Text.trimStart (blanks ++ ("//".toList ++ t)) = "//".toList ++ t := by
      rw [Text.trimStart_append_of_allBlank hblanks]
      rfl
    have hparts : punctuation (sign ++ blanks ++ "//".toList ++ comment ++ separator)
        = (sign, blanks ++ ("//".toList ++ (comment ++ separator))) := by
      rw [← punctuation_append_comment hsign hblanks]
      simp only [List.append_assoc]
    rw [hparts, hstart]
    refine ⟨List.prefix_append _ _, not_mem_of_onOneLine ?_⟩
    rw [List.append_assoc _ "//".toList, onOneLine_append] at hone
    rw [← List.append_assoc, onOneLine_append]
    exact ⟨hone.2, hseparator.onOneLine⟩

end Lone

/-! ## Searching from the right -/

variable {q : Quote} {inner rest : Text}

/-- What stands around a string brings no comment and hides none. -/
theorem lastRemark_around (hindent : Text.AllBlank indent) (hseparator : IsSeparator separator)
    (hfirst : literal.head? = some q.mark) (hlast : literal.getLast? = some q.mark) :
    lastRemark (indent ++ literal ++ separator) = none ↔ lastRemark literal = none := by
  have hnone : '/' ∉ indent := fun hmem => by cases hindent _ hmem
  have hleft : indent.getLast? ≠ some '/' := fun h => hnone (List.mem_of_getLast? h)
  have hmiddle : (indent ++ literal).getLast? ≠ some '/' := by
    rw [List.getLast?_append, hlast, Option.some_or]
    exact fun h => q.mark_ne_slash (Option.some.inj h)
  have hslashes : Text.holds "//".toList indent = false := by
    rw [Bool.eq_false_iff]
    intro hholds
    exact hnone ((Text.holds_iff.1 hholds).subset List.mem_cons_self)
  have haccepts : ∀ p ∈ candidates literal, accepts (indent ++ p.1) = accepts p.1 := by
    rintro ⟨code, comment⟩ hp
    obtain ⟨rfl, after, rfl⟩ := mem_candidates hp
    rcases code with _ | ⟨c, code⟩
    · exact absurd (Option.some.inj hfirst).symm q.mark_ne_slash
    · obtain rfl : c = q.mark := Option.some.inj hfirst
      rw [accepts, accepts, Code.kindIn_indented hindent q.isFirm_mark]
  rw [lastRemark_append_eq hmiddle, hseparator.candidates_eq_nil, lastRemark_append_eq hleft,
    lastRemark_eq indent, candidates_eq_nil hslashes, lastRemark_eq]
  simp only [List.find?_nil, Option.map_none, Option.none_or, Option.or_none,
    Option.map_eq_none_iff, List.find?_eq_none]
  exact forall₂_congr fun p hp => by rw [haccepts p hp]

/-! ## Both together -/

theorem splitRemark_eq_self_iff {line : Text} (h : Lone.cut? line = none) :
    splitRemark line = (line, []) ↔ lastRemark line = none := by
  rw [splitRemark_of_cut?_eq_none h]
  cases hlast : lastRemark line with
  | none => exact iff_of_true rfl rfl
  | some p =>
    refine iff_of_false (fun he => ?_) (Option.some_ne_none p)
    have hlength := length_of_lastRemark hlast
    rw [show p = (line, []) from he] at hlength
    exact Nat.lt_irrefl _ hlength

/-- **When no comment is found in a string**: there is no inner mark, or what follows the first one
does not end the line and the search from the right finds nothing. -/
theorem splitRemark_string (hindent : Text.AllBlank indent) (hseparator : IsSeparator separator)
    (hliteral : literal = q.mark :: inner ++ q.mark :: rest) (hinner : q.mark ∉ inner)
    (hlast : literal.getLast? = some q.mark) (hone : onOneLine literal = true) :
    splitRemark (indent ++ literal ++ separator) = (indent ++ literal ++ separator, []) ↔
      (rest ≠ [] → ¬ Lone.EndsEarly rest ∧ lastRemark literal = none) := by
  have hparts := hone
  rw [hliteral, List.cons_append, onOneLine_cons, onOneLine_append, onOneLine_cons] at hparts
  obtain ⟨-, honeinner, -, honerest⟩ := hparts
  have hline : indent ++ literal ++ separator
      = indent ++ (q.mark :: inner ++ q.mark :: (rest ++ separator)) := by
    rw [hliteral]
    simp
  have hcut := Lone.cut?_quoted hindent honeinner hinner (rest ++ separator)
  rw [← hline] at hcut
  rcases eq_or_ne rest [] with rfl | hrest
  · refine iff_of_true ?_ fun h => absurd rfl h
    have hpunctuation : Lone.punctuation (separator ++ []) = (separator, []) :=
      Lone.punctuation_append_of_head hseparator (by simp)
    rw [List.append_nil] at hpunctuation
    rw [List.nil_append, hpunctuation] at hcut
    rw [splitRemark, hcut]
    simp [Lone.endsLine, Text.trimStart, Text.leadingBlanks, hliteral]
  · have hmark : q.mark ∈ rest := by
      rw [hliteral, List.append_cons, List.getLast?_append_of_ne_nil _ hrest] at hlast
      exact List.mem_of_getLast? hlast
    by_cases hearly : Lone.EndsEarly rest
    · refine iff_of_false ?_ fun h => (h hrest).1 hearly
      rw [if_pos ((Lone.endsLine_iff_endsEarly hmark honerest hseparator).2 hearly)] at hcut
      rw [splitRemark, hcut]
      intro he
      exact Lone.trimStart_punctuation_ne_nil (List.mem_append_left _ hmark)
        (congrArg Prod.snd he)
    · rw [if_neg fun h => hearly
        ((Lone.endsLine_iff_endsEarly hmark honerest hseparator).1 h)] at hcut
      rw [splitRemark_eq_self_iff hcut, lastRemark_around hindent hseparator (q := q)
        (by rw [hliteral]; rfl) hlast]
      exact ⟨fun h _ => ⟨hearly, h⟩, fun h => (h hrest).2⟩

/-- A literal with a line to itself is read as that literal as long as the line has no comment. -/
theorem of?_lone_iff (halone : Code.standsAlone literal = true) (hindent : Text.AllBlank indent)
    (hseparator : IsSeparator separator) :
    of? (indent ++ literal ++ separator) = some ⟨indent, [], literal, [], separator, []⟩ ↔
      splitRemark (indent ++ literal ++ separator) = (indent ++ literal ++ separator, []) := by
  rw [of?_eq_some_iff]
  constructor
  · rintro ⟨k, -, hk⟩
    have hremark : k.blanks ++ (splitRemark (indent ++ literal ++ separator)).2 = [] :=
      (congrArg Setting.remark hk).symm
    have hnone := (List.append_eq_nil_iff.1 hremark).2
    have hline := splitRemark_append (indent ++ literal ++ separator)
    rw [hnone, List.append_nil] at hline
    exact Prod.ext hline hnone
  · intro hsplit
    rw [hsplit]
    exact ⟨_, Code.of?_lone hindent halone hseparator, by simp⟩

/-- **A string with a line to itself is read as that string**, unless a mark stands inside it and
what follows the first such mark, or what precedes a pair of slashes, is taken for a setting. -/
theorem of?_string_iff (hstring : LiteralKind.of literal = .string)
    (hindent : Text.AllBlank indent) (hseparator : IsSeparator separator) :
    of? (indent ++ literal ++ separator) = some ⟨indent, [], literal, [], separator, []⟩ ↔
      ∀ (q : Quote) (inner rest : Text), literal = q.mark :: inner ++ q.mark :: rest →
        q.mark ∉ inner → rest ≠ [] →
          ¬ Lone.EndsEarly rest ∧ ∀ p, Opening literal p → ¬ Even (slashes p.2) := by
  have halone : Code.standsAlone literal = true := by rw [Code.standsAlone, hstring]
  obtain ⟨q, body, hbody, hone, -⟩ :=
    Literal.isString_iff.1 (LiteralKind.isString_of_eq_string hstring)
  have hlast : literal.getLast? = some q.mark := by rw [hbody, List.getLast?_concat]
  have hline : onOneLine literal = true := by
    rw [hbody, ← List.singleton_append, onOneLine_append, onOneLine_append]
    exact ⟨⟨q.onOneLine_mark, hone⟩, q.onOneLine_mark⟩
  obtain ⟨inner, rest, hcut, hinner⟩ :=
    List.eq_append_cons_of_mem (List.mem_append_right body (List.mem_singleton_self q.mark))
  have hliteral : literal = q.mark :: inner ++ q.mark :: rest := by
    rw [hbody, List.cons_append, hcut, List.cons_append]
  rw [of?_lone_iff halone hindent hseparator,
    splitRemark_string hindent hseparator hliteral hinner hlast hline, lastRemark_eq_none_iff]
  refine ⟨fun h q' inner' rest' hliteral' hinner' => ?_, fun h => h q inner rest hliteral hinner⟩
  rw [hliteral, List.cons_append, List.cons_append] at hliteral'
  obtain ⟨hmark, hrest⟩ := List.cons.inj hliteral'
  rw [← hmark] at hrest hinner'
  have hsame := (Text.cutAt?_eq_some_iff.2 ⟨rfl, hinner⟩).symm.trans
    (Text.cutAt?_eq_some_iff.2 ⟨hrest, hinner'⟩)
  obtain ⟨-, rfl⟩ := Prod.mk.inj (Option.some.inj hsame)
  exact h

/-- An escaped mark and slashes that do no harm. -/
theorem of?_string_iff_harmless :
    let literal := "'it\\'s // a \"b\"'".toList
    of? ("  ".toList ++ literal ++ [','])
        = some ⟨"  ".toList, [], literal, [], [','], []⟩ ∧
      ∀ (q : Quote) (inner rest : Text), literal = q.mark :: inner ++ q.mark :: rest →
        q.mark ∉ inner → rest ≠ [] →
          ¬ Lone.EndsEarly rest ∧ ∀ p, Opening literal p → ¬ Even (slashes p.2) := by
  intro literal
  have hread : of? ("  ".toList ++ literal ++ [','])
      = some ⟨"  ".toList, [], literal, [], [','], []⟩ := by decide +kernel
  have hindent : Text.AllBlank "  ".toList := List.all_eq_true.1 (by decide)
  exact ⟨hread, (of?_string_iff (by decide +kernel) hindent .comma).1 hread⟩

/-- **An escaped mark in front of slashes is taken for the end of the string.** -/
theorem of?_string_cut_short :
    let literal := "\"a\\\"//b\"".toList
    LiteralKind.of literal = .string ∧
      of? literal = some ⟨[], [], "\"a\\\"".toList, [], [], "//b\"".toList⟩ ∧
      of? ([] ++ literal ++ []) ≠ some ⟨[], [], literal, [], [], []⟩ := by
  decide +kernel

end Setting
end Marginalia
