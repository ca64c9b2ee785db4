import Marginalia.Literal.Kind
import Marginalia.Proofs.Source.Lines
import Marginalia.Proofs.Text.Blank
import Marginalia.Proofs.Text.Cut

/-!
# How literals begin and end

The kind of a literal can be told from its first character alone, once it is known to be of some
kind (`LiteralKind.of_eq_openedBy`), and its last character is one of a few as well
(`LiteralKind.exists_concat`).  Both are what makes it possible to say what becomes of the kind when
a text is put behind a literal.

## What is here

* `LiteralKind.of_cases` — the kinds with the rule of the grammar that each stands for.
* `LiteralKind.openedBy`, `LiteralKind.closes` — first and last characters.
* `Quote.mem_replaceEscaped` — a mark that no backslash stands before is not escaped, whatever comes
  after it.
* `LiteralKind.of_append_eq_unknown` — **a literal with a slash somewhere behind it** is of no kind
  if it was not with another literal of that kind in its place.
-/

set_option autoImplicit false
namespace Marginalia

variable {t s tail : Text}

/-! ## Rules of the grammar -/

namespace Literal

theorem isDigits_iff : isDigits t = true ↔ t ≠ [] ∧ ∀ c ∈ t, isDigit c = true := by
  simp [isDigits]

theorem toNat_of_isDigit {c : Char} (h : isDigit c = true) : 48 ≤ c.toNat ∧ c.toNat ≤ 57 := by
  simpa [isDigit, Char.le_def, UInt32.le_iff_toNat_le] using h

/-- What a number is made of. -/
inductive IsNumber : Text → Prop where
  /-- Digits. -/
  | whole {digits : Text} (h : isDigits digits = true) : IsNumber digits
  /-- Digits on both sides of a point. -/
  | fraction {whole fraction : Text} (hw : isDigits whole = true)
      (hf : isDigits fraction = true) : IsNumber (whole ++ '.' :: fraction)
  /-- A minus sign in front. -/
  | negative {t : Text} (h : IsNumber t) : IsNumber ('-' :: t)

theorem withoutSign_cases (t : Text) : withoutSign t = t ∨ t = '-' :: withoutSign t := by
  unfold withoutSign
  split
  · exact Or.inr rfl
  · exact Or.inl rfl

/-- A number without a sign. -/
inductive IsUnsigned : Text → Prop where
  /-- Digits. -/
  | whole {digits : Text} (h : isDigits digits = true) : IsUnsigned digits
  /-- Digits on both sides of a point. -/
  | fraction {whole fraction : Text} (hw : isDigits whole = true)
      (hf : isDigits fraction = true) : IsUnsigned (whole ++ '.' :: fraction)

theorem not_mem_of_isDigits {c : Char} (h : isDigits t = true) (hc : isDigit c = false) :
    c ∉ t := by
  intro hmem
  rw [(isDigits_iff.1 h).2 c hmem] at hc
  cases hc

theorem withoutSign_of_not_mem (h : '-' ∉ t) : withoutSign t = t := by
  rcases withoutSign_cases t with ht | ht
  · exact ht
  · rw [ht] at h
    exact absurd List.mem_cons_self h

theorem IsUnsigned.withoutSign_eq (h : IsUnsigned t) : withoutSign t = t := by
  refine withoutSign_of_not_mem ?_
  have hminus : isDigit '-' = false := by decide
  cases h with
  | whole h => exact not_mem_of_isDigits h hminus
  | fraction hw hf =>
    rw [List.mem_append, List.mem_cons]
    rintro (hmem | heq | hmem)
    · exact not_mem_of_isDigits hw hminus hmem
    · cases heq
    · exact not_mem_of_isDigits hf hminus hmem

/-- **A number is told by what is behind its sign.** -/
theorem isNumber_of_withoutSign (hs : withoutSign s = t) (h : IsUnsigned t) :
    isNumber s = true := by
  have hpoint : isDigit '.' = false := by decide
  rw [isNumber, hs]
  cases h with
  | whole h =>
    rw [Text.cutAt?_eq_none_iff.2 (not_mem_of_isDigits h hpoint)]
    exact h
  | fraction hw hf =>
    rw [Text.cutAt?_eq_some_iff.2 ⟨rfl, not_mem_of_isDigits hw hpoint⟩]
    exact Bool.and_eq_true_iff.2 ⟨hw, hf⟩

theorem IsNumber.of_isNumber (h : isNumber t = true) : IsNumber t := by
  have hunsigned : IsNumber (withoutSign t) := by
    rw [isNumber] at h
    split at h
    · rename_i whole fraction hcut
      rw [Bool.and_eq_true] at h
      rw [Text.cutAt?_eq_some hcut]
      exact .fraction h.1 h.2
    · exact .whole h
  rcases withoutSign_cases t with ht | ht
  · rwa [ht] at hunsigned
  · rw [ht]
    exact .negative hunsigned

theorem IsNumber.mem {c : Char} (h : IsNumber t) (hc : c ∈ t) :
    isDigit c = true ∨ c = '.' ∨ c = '-' := by
  induction h with
  | whole h => exact Or.inl ((isDigits_iff.1 h).2 c hc)
  | fraction hw hf =>
    rcases List.mem_append.1 hc with hc | hc
    · exact Or.inl ((isDigits_iff.1 hw).2 c hc)
    · rcases List.mem_cons.1 hc with rfl | hc
      · exact Or.inr (Or.inl rfl)
      · exact Or.inl ((isDigits_iff.1 hf).2 c hc)
  | negative h ih =>
    rcases List.mem_cons.1 hc with rfl | hc
    · exact Or.inr (Or.inr rfl)
    · exact ih hc

theorem exists_cons_of_isDigits (h : isDigits t = true) : ∃ c r, t = c :: r ∧ isDigit c = true := by
  obtain ⟨hne, hall⟩ := isDigits_iff.1 h
  obtain ⟨c, r, rfl⟩ := List.exists_cons_of_ne_nil hne
  exact ⟨c, r, rfl, hall c List.mem_cons_self⟩

theorem IsUnsigned.exists_cons (h : IsUnsigned t) : ∃ c r, t = c :: r ∧ isDigit c = true := by
  cases h with
  | whole h => exact exists_cons_of_isDigits h
  | fraction hw hf =>
    obtain ⟨c, r, rfl, hc⟩ := exists_cons_of_isDigits hw
    exact ⟨c, _, rfl, hc⟩

theorem IsNumber.exists_cons (h : IsNumber t) :
    ∃ c r, t = c :: r ∧ (c = '-' ∨ isDigit c = true) := by
  cases h with
  | whole h =>
    obtain ⟨c, r, rfl, hc⟩ := exists_cons_of_isDigits h
    exact ⟨c, r, rfl, Or.inr hc⟩
  | fraction hw hf =>
    obtain ⟨c, r, rfl, hc⟩ := exists_cons_of_isDigits hw
    exact ⟨c, _, rfl, Or.inr hc⟩
  | negative h => exact ⟨'-', _, rfl, Or.inl rfl⟩

theorem IsNumber.exists_concat (h : IsNumber t) : ∃ r c, t = r ++ [c] ∧ isDigit c = true := by
  have hdigits : ∀ {d : Text}, isDigits d = true → ∃ r c, d = r ++ [c] ∧ isDigit c = true := by
    intro d hd
    obtain ⟨hne, hall⟩ := isDigits_iff.1 hd
    exact ⟨_, _, (List.dropLast_concat_getLast hne).symm, hall _ (List.getLast_mem hne)⟩
  induction h with
  | whole h => exact hdigits h
  | @fraction whole fraction hw hf =>
    obtain ⟨r, c, rfl, hc⟩ := hdigits hf
    exact ⟨whole ++ '.' :: r, c, by simp, hc⟩
  | negative h ih =>
    obtain ⟨r, c, rfl, hc⟩ := ih
    exact ⟨'-' :: r, c, rfl, hc⟩

theorem isEnclosed_iff {opening closing : Char} : isEnclosed opening closing t = true ↔
    ∃ r, t = opening :: r ∧ r.getLast? = some closing ∧ '\n' ∉ r := by
  cases t with
  | nil => simp [isEnclosed]
  | cons c r =>
    simp only [isEnclosed, Bool.and_eq_true, decide_eq_true_eq, Bool.not_eq_true',
      List.cons.injEq, List.contains_eq_mem, decide_eq_false_iff_not]
    constructor
    · rintro ⟨⟨rfl, hlast⟩, hbreak⟩
      exact ⟨r, ⟨rfl, rfl⟩, hlast, hbreak⟩
    · rintro ⟨r', ⟨rfl, rfl⟩, hlast, hbreak⟩
      exact ⟨⟨rfl, hlast⟩, hbreak⟩

theorem isString_iff : isString t = true ↔
    ∃ q body, t = Quote.mark q :: body ++ [q.mark] ∧ onOneLine body = true ∧
      q.balances body = true := by
  rw [isString]
  constructor
  · intro h
    split at h
    · rename_i q hq
      obtain ⟨body, rfl, hone⟩ := Quote.around?_eq_some_iff.1 hq
      refine ⟨q, body, rfl, hone, ?_⟩
      simpa [Quote.between] using h
    · cases h
  · rintro ⟨q, body, rfl, hone, hb⟩
    rw [Quote.around?_eq_some_iff.2 ⟨body, rfl, hone⟩]
    simpa [Quote.between] using hb

end Literal

namespace LiteralKind

/-- The kinds of literals, each with its rule. -/
theorem of_cases (t : Text) :
    (of t = boolean ∧ (t = "true".toList ∨ t = "false".toList)) ∨
    (of t = number ∧ Literal.isNumber t = true) ∨
    (of t = array ∧ Literal.isEnclosed '[' ']' t = true) ∨
    (of t = object ∧ Literal.isEnclosed '\x7b' '\x7d' t = true) ∨
    (of t = string ∧ Literal.isString t = true) ∨ of t = unknown := by
  unfold of
  repeat' split
  all_goals simp_all

/-! ## First and last characters -/

/-- The kind of a literal that begins with a character. -/
def openedBy (c : Char) : LiteralKind :=
  if c = 't' ∨ c = 'f' then boolean
  else if c = '-' ∨ Literal.isDigit c = true then number
  else if c = '[' then array
  else if c = '\x7b' then object
  else if (Quote.ofChar? c).isSome then string
  else unknown

theorem openedBy_of_isDigit {c : Char} (hc : Literal.isDigit c = true) : openedBy c = number := by
  have hne : ¬(c = 't' ∨ c = 'f') := by
    rintro (rfl | rfl) <;> cases hc
  rw [openedBy, if_neg hne, if_pos (Or.inr hc)]

/-- **The first character of a literal tells its kind.** -/
theorem of_eq_openedBy (h : of t ≠ unknown) : ∃ c r, t = c :: r ∧ of t = openedBy c := by
  rcases of_cases t with ⟨hk, hw⟩ | ⟨hk, hw⟩ | ⟨hk, hw⟩ | ⟨hk, hw⟩ | ⟨hk, hw⟩ | hk
  · rcases hw with rfl | rfl <;> exact ⟨_, _, rfl, hk⟩
  · obtain ⟨c, r, rfl, hc⟩ := (Literal.IsNumber.of_isNumber hw).exists_cons
    refine ⟨c, r, rfl, hk.trans ?_⟩
    rcases hc with rfl | hc
    · rfl
    · exact (openedBy_of_isDigit hc).symm
  · obtain ⟨r, rfl, -, -⟩ := Literal.isEnclosed_iff.1 hw
    exact ⟨_, r, rfl, hk⟩
  · obtain ⟨r, rfl, -, -⟩ := Literal.isEnclosed_iff.1 hw
    exact ⟨_, r, rfl, hk⟩
  · obtain ⟨q, body, rfl, -, -⟩ := Literal.isString_iff.1 hw
    exact ⟨q.mark, body ++ [q.mark], rfl, by rw [hk]; cases q <;> rfl⟩
  · exact absurd hk h

theorem of_eq_unknown_iff : of t = unknown ↔ (t ≠ "true".toList ∧ t ≠ "false".toList) ∧
    Literal.isNumber t = false ∧ Literal.isEnclosed '[' ']' t = false ∧
    Literal.isEnclosed '\x7b' '\x7d' t = false ∧ Literal.isString t = false := by
  rw [of]
  split_ifs with hword
  · exact iff_of_false (by decide) fun h => hword.elim h.1.1 h.1.2
  all_goals simp_all

/-- What a rule of the grammar covers is of the kind that its first character tells. -/
theorem of_cons {c : Char} {r : Text} (h : of (c :: r) ≠ unknown) : of (c :: r) = openedBy c := by
  obtain ⟨d, r', he, hk⟩ := of_eq_openedBy h
  rw [hk, (List.cons.inj he).1]

theorem of_eq_number (h : Literal.isNumber t = true) : of t = number := by
  obtain ⟨c, r, rfl, hc⟩ := (Literal.IsNumber.of_isNumber h).exists_cons
  have hopened : openedBy c = number := by
    rcases hc with rfl | hc
    · rfl
    · exact openedBy_of_isDigit hc
  rw [of_cons, hopened]
  intro hk
  rw [(of_eq_unknown_iff.1 hk).2.1] at h
  cases h

theorem of_eq_array (h : Literal.isEnclosed '[' ']' t = true) : of t = array := by
  obtain ⟨r, rfl, -⟩ := Literal.isEnclosed_iff.1 h
  rw [of_cons]
  · rfl
  · intro hk
    rw [(of_eq_unknown_iff.1 hk).2.2.1] at h
    cases h

theorem of_eq_string (h : Literal.isString t = true) : of t = string := by
  obtain ⟨q, body, rfl, -⟩ := Literal.isString_iff.1 h
  rw [List.cons_append, of_cons]
  · cases q <;> rfl
  · intro hk
    rw [List.cons_append, (of_eq_unknown_iff.1 hk).2.2.2.2] at h
    cases h

/-- **Of the literals of a known kind, only strings stand between quotation marks.** -/
theorem around?_eq_none (hknown : of t ≠ unknown) (h : of t ≠ string) :
    Quote.around? t = none := by
  rw [Option.eq_none_iff_forall_ne_some]
  intro q hq
  obtain ⟨body, rfl, -⟩ := Quote.around?_eq_some_iff.1 hq
  refine h ((of_cons hknown).trans ?_)
  cases q <;> rfl

/-- Whether a literal can end with a character. -/
def closes (c : Char) : Bool :=
  c = 'e' || Literal.isDigit c || c = ']' || c = '\x7d' || (Quote.ofChar? c).isSome

theorem exists_concat (h : of t ≠ unknown) : ∃ r c, t = r ++ [c] ∧ closes c = true := by
  have henclosed : ∀ {opening closing : Char}, closes closing = true →
      Literal.isEnclosed opening closing t = true → ∃ r c, t = r ++ [c] ∧ closes c = true := by
    intro opening closing hc hw
    obtain ⟨r, rfl, hlast, -⟩ := Literal.isEnclosed_iff.1 hw
    obtain ⟨r', rfl⟩ := List.getLast?_eq_some_iff.1 hlast
    exact ⟨opening :: r', closing, rfl, hc⟩
  rcases of_cases t with ⟨-, hw⟩ | ⟨-, hw⟩ | ⟨-, hw⟩ | ⟨-, hw⟩ | ⟨-, hw⟩ | hk
  · rcases hw with rfl | rfl
    · exact ⟨"tru".toList, 'e', rfl, rfl⟩
    · exact ⟨"fals".toList, 'e', rfl, rfl⟩
  · obtain ⟨r, c, rfl, hc⟩ := (Literal.IsNumber.of_isNumber hw).exists_concat
    exact ⟨r, c, rfl, by simp [closes, hc]⟩
  · exact henclosed rfl hw
  · exact henclosed rfl hw
  · obtain ⟨q, body, rfl, -, -⟩ := Literal.isString_iff.1 hw
    exact ⟨q.mark :: body, q.mark, rfl, by simp [closes]⟩
  · exact absurd hk h

theorem not_isBlank_of_isDigit {c : Char} (h : Literal.isDigit c = true) :
    Text.isBlank c = false := by
  obtain ⟨hlow, hhigh⟩ := Literal.toNat_of_isDigit h
  simp [Text.isBlank]
  omega

theorem not_isBlank_of_ofChar? {c : Char} (h : (Quote.ofChar? c).isSome = true) :
    Text.isBlank c = false ∧ c ∉ [',', ';', '/'] := by
  obtain ⟨q, hq⟩ := Option.isSome_iff_exists.1 h
  obtain rfl := Quote.mark_of_ofChar? hq
  cases q <;> decide

theorem not_isBlank_of_openedBy {c : Char} (h : openedBy c ≠ unknown) :
    Text.isBlank c = false := by
  by_contra hblank
  have hne : ∀ d, Text.isBlank d = false → c ≠ d := by
    rintro d hd rfl
    exact hblank hd
  have hdigit : ¬Literal.isDigit c = true := fun hc => hblank (not_isBlank_of_isDigit hc)
  have hquote : ¬(Quote.ofChar? c).isSome = true := fun hc => hblank (not_isBlank_of_ofChar? hc).1
  refine h ?_
  rw [openedBy, if_neg, if_neg, if_neg (hne '[' rfl), if_neg (hne '\x7b' rfl), if_neg hquote]
  · exact not_or_intro (hne '-' rfl) hdigit
  · exact not_or_intro (hne 't' rfl) (hne 'f' rfl)

/-- No blank begins a literal. -/
theorem trimStart_eq_self (h : of t ≠ unknown) : Text.trimStart t = t := by
  obtain ⟨c, r, rfl, hc⟩ := of_eq_openedBy h
  rw [hc] at h
  exact Text.trimStart_cons (not_isBlank_of_openedBy h) r

/-- What ends a literal is no blank, no punctuation and no slash. -/
theorem not_isBlank_of_closes {c : Char} (h : closes c = true) :
    Text.isBlank c = false ∧ c ∉ [',', ';', '/'] := by
  simp only [closes, Bool.or_eq_true, decide_eq_true_eq] at h
  rcases h with (((rfl | h) | rfl) | rfl) | h
  · decide
  · refine ⟨not_isBlank_of_isDigit h, fun hc => ?_⟩
    simp only [List.mem_cons, List.not_mem_nil, or_false] at hc
    rcases hc with rfl | rfl | rfl <;> cases h
  · decide
  · decide
  · exact not_isBlank_of_ofChar? h

end LiteralKind

/-! ## A text behind a literal -/

theorem Quote.balances_iff {q : Quote} {body : Text} :
    q.balances body = true ↔ q.mark ∉ q.replaceEscaped [] body := by
  simp [balances]

/-- A mark that no backslash stands before is not escaped, whatever comes after it. -/
theorem Quote.mem_replaceEscaped (q : Quote) (new : Text) {body : Text}
    (h : body.getLast? ≠ some '\\') (rest : Text) :
    q.mark ∈ q.replaceEscaped new (body ++ q.mark :: rest) := by
  have hmark : ∀ rest, q.mark ∈ q.replaceEscaped new (q.mark :: rest) := by
    intro rest
    cases rest with
    | nil => exact List.mem_cons_self
    | cons d r =>
      rw [replaceEscaped, if_neg fun hc => q.mark_ne_backslash hc.1]
      exact List.mem_cons_self
  induction body using replaceEscaped.induct q with
  | case1 => exact hmark rest
  | case2 c =>
    have hc : ¬(c = '\\' ∧ q.mark = q.mark) := fun hc => h (by rw [hc.1]; rfl)
    rw [List.singleton_append, replaceEscaped, if_neg hc]
    exact List.mem_cons_of_mem _ (hmark rest)
  | case3 c d r hesc ih =>
    have hr : r.getLast? ≠ some '\\' := by
      cases r with
      | nil => exact fun hr => nomatch hr
      | cons e r => simpa using h
    rw [List.cons_append, List.cons_append, replaceEscaped, if_pos hesc]
    exact List.mem_append_right _ (ih hr)
  | case4 c d r hesc ih =>
    rw [List.cons_append, List.cons_append, replaceEscaped, if_neg hesc]
    exact List.mem_cons_of_mem _ (ih (by simpa using h))

/-- Of a bracketed text with something behind it, only the end of that matters. -/
theorem Literal.isEnclosed_append {opening closing : Char} (hopening : opening ≠ '\n')
    (ht : isEnclosed opening closing t = true) (htail : tail ≠ [])
    (h : isEnclosed opening closing (s ++ tail) = true) :
    isEnclosed opening closing (t ++ tail) = true := by
  obtain ⟨r, rfl, -, hbreak⟩ := isEnclosed_iff.1 ht
  obtain ⟨r', he, hlast, hbreak'⟩ := isEnclosed_iff.1 h
  have hr' : r' ≠ [] := by
    rintro rfl
    cases hlast
  refine isEnclosed_iff.2 ⟨r ++ tail, rfl, ?_, ?_⟩
  · calc (r ++ tail).getLast? = (s ++ tail).getLast? := by
          rw [List.getLast?_append_of_ne_nil _ htail, List.getLast?_append_of_ne_nil _ htail]
      _ = ([opening] ++ r').getLast? := by rw [he, List.singleton_append]
      _ = some closing := by rw [List.getLast?_append_of_ne_nil _ hr', hlast]
  · intro hmem
    rcases List.mem_append.1 hmem with hmem | hmem
    · exact hbreak hmem
    · have hmem' : '\n' ∈ opening :: r' := he ▸ List.mem_append_right s hmem
      exact hbreak' ((List.mem_cons.1 hmem').resolve_left hopening.symm)

/-- No body of a string goes on behind a mark that is not escaped. -/
theorem Literal.isString_append_eq_false {q : Quote} {body : Text}
    (h : body.getLast? ≠ some '\\') (htail : tail ≠ []) :
    isString (q.mark :: body ++ [q.mark] ++ tail) = false := by
  rw [Bool.eq_false_iff]
  intro hstring
  obtain ⟨q', body', he, -, hbalances⟩ := isString_iff.1 hstring
  have hq : q' = q := by
    have hmarks : q.mark = q'.mark := (List.cons.inj he).1
    have hsome := congrArg Quote.ofChar? hmarks
    rw [Quote.ofChar?_mark, Quote.ofChar?_mark] at hsome
    exact (Option.some.inj hsome).symm
  subst hq
  rw [← List.dropLast_concat_getLast htail] at he
  have hbody : body' = body ++ q'.mark :: tail.dropLast := by
    have hsplit : q'.mark :: body ++ [q'.mark] ++ (tail.dropLast ++ [tail.getLast htail])
        = q'.mark :: (body ++ q'.mark :: tail.dropLast) ++ [tail.getLast htail] := by simp
    have hinner := congrArg Quote.between (hsplit.symm.trans he)
    rw [Quote.between, Quote.between, List.cons_append, List.cons_append, List.tail_cons,
      List.tail_cons, List.dropLast_concat, List.dropLast_concat] at hinner
    exact hinner.symm
  rw [hbody, Quote.balances_iff] at hbalances
  exact hbalances (Quote.mem_replaceEscaped q' [] h tail.dropLast)

namespace LiteralKind

theorem isNumber_of_eq_number (h : of t = number) : Literal.isNumber t = true := by
  have hcases := of_cases t
  simpa [h] using hcases

theorem isEnclosed_of_eq_array (h : of t = array) : Literal.isEnclosed '[' ']' t = true := by
  have hcases := of_cases t
  simpa [h] using hcases

theorem isEnclosed_of_eq_object (h : of t = object) :
    Literal.isEnclosed '\x7b' '\x7d' t = true := by
  have hcases := of_cases t
  simpa [h] using hcases

theorem isString_of_eq_string (h : of t = string) : Literal.isString t = true := by
  have hcases := of_cases t
  simpa [h] using hcases

theorem of_append (hs : of s ≠ unknown) (h : of (s ++ tail) ≠ unknown) :
    of (s ++ tail) = of s := by
  obtain ⟨c, r, rfl, hc⟩ := of_eq_openedBy hs
  obtain ⟨d, r', he, hd⟩ := of_eq_openedBy h
  obtain ⟨rfl, -⟩ := List.cons.inj he
  exact hd.trans hc.symm

/-- **A literal with a slash somewhere behind it** is of no kind if it was not with another literal
of that kind in its place.  Lists and objects are the ones that need the other literal: what is put
behind them may bring its own bracket. -/
theorem of_append_eq_unknown (hkind : of t = of s) (hs : of s ≠ unknown)
    (hstring : of s = string → (Quote.between s).getLast? ≠ some '\\') (htail : '/' ∈ tail)
    (h : of (t ++ tail) = unknown) : of (s ++ tail) = unknown := by
  by_contra hne
  have hsame := of_append hs hne
  have hslash : '/' ∈ s ++ tail := List.mem_append_right _ htail
  have htail' : tail ≠ [] := List.ne_nil_of_mem htail
  obtain ⟨-, -, hlist, hobject, -⟩ := of_eq_unknown_iff.1 h
  rcases of_cases (s ++ tail) with ⟨-, hw⟩ | ⟨-, hw⟩ | ⟨hk, hw⟩ | ⟨hk, hw⟩ | ⟨hk, hw⟩ | hk
  · rcases hw with hw | hw
    · rw [hw] at hslash
      exact absurd hslash (by decide)
    · rw [hw] at hslash
      exact absurd hslash (by decide)
  · have hchar := (Literal.IsNumber.of_isNumber hw).mem hslash
    exact absurd hchar (by decide)
  · have hends := isEnclosed_of_eq_array (hkind.trans (hsame.symm.trans hk))
    rw [Literal.isEnclosed_append (by decide) hends htail' hw] at hlist
    cases hlist
  · have hends := isEnclosed_of_eq_object (hkind.trans (hsame.symm.trans hk))
    rw [Literal.isEnclosed_append (by decide) hends htail' hw] at hobject
    cases hobject
  · have hkindstring : of s = string := hsame.symm.trans hk
    obtain ⟨q, body, rfl, -, -⟩ := Literal.isString_iff.1 (isString_of_eq_string hkindstring)
    have hbody : body.getLast? ≠ some '\\' := by
      simpa [Quote.between] using hstring hkindstring
    rw [Literal.isString_append_eq_false hbody htail'] at hw
    cases hw
  · exact hne hk

end LiteralKind
end Marginalia
