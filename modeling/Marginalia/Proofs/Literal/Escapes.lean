import Mathlib.Algebra.Ring.Parity
import Marginalia.Proofs.Literal.Quote

/-!
# The backslashes of a quoted text

Putting a text between quotation marks goes through it twice, and neither pass counts backslashes: a
mark is escaped when a backslash is right before it, whatever stands before that.  Together the two
passes are one (`Quote.escape_replaceEscaped`): every mark that has no backslash right before it is
given one, and nothing else changes.

So quoting gives a string back that it has been read from, since the marks of a string have their
backslashes already, and quoting again what it has written changes nothing.

A reader of the language that the literals belong to is stricter.  For it a backslash takes the
character behind it along, a second backslash too, and only what is not taken along ends the string
(`Quote.afterEnd?`).  Whether that reader agrees with the writer depends on how many backslashes
stand together.

* `Quote.wrap_unquoted_inverse` — **quoting and unquoting undo each other** on what they give.
* `Quote.isClosed_wrap_iff` — **when a quoted text ends at its last character**: no mark in it
  stands behind an even number of backslashes other than none, and an even number of them ends it.
* `Quote.wrap_leaves_open` — a text that is not closed by its last character, and one that is closed
  too early.
-/

set_option autoImplicit false
namespace Marginalia
namespace Quote

variable {q : Quote} {s t body : Text} {c : Char}

/-! ## Both passes in one -/

/-- A text in which every mark without a backslash right before it is given one; `behind` says
whether a backslash stands right before the text. -/
def guarded (q : Quote) : Bool → Text → Text
  | _, [] => []
  | behind, c :: r =>
    if c = q.mark ∧ behind = false then '\\' :: c :: guarded q false r
    else c :: guarded q (c = '\\') r

theorem guarded_mark (q : Quote) (t : Text) :
    q.guarded false (q.mark :: t) = '\\' :: q.mark :: q.guarded false t := by
  rw [guarded, if_pos ⟨rfl, rfl⟩]

theorem guarded_mark_behind (q : Quote) (t : Text) :
    q.guarded true (q.mark :: t) = q.mark :: q.guarded false t := by
  rw [guarded, if_neg (by simp), decide_eq_false q.mark_ne_backslash]

theorem guarded_backslash (q : Quote) (behind : Bool) (t : Text) :
    q.guarded behind ('\\' :: t) = '\\' :: q.guarded true t := by
  rw [guarded, if_neg fun h => q.mark_ne_backslash h.1.symm, decide_eq_true rfl]

theorem guarded_cons (hmark : c ≠ q.mark) (hslash : c ≠ '\\') (behind : Bool) (t : Text) :
    q.guarded behind (c :: t) = c :: q.guarded false t := by
  rw [guarded, if_neg fun h => hmark h.1, decide_eq_false hslash]

/-- Only a mark needs to know what stands before it. -/
theorem guarded_of_head?_ne (h : t.head? ≠ some q.mark) (behind : Bool) :
    q.guarded behind t = q.guarded false t := by
  rcases t with _ | ⟨c, t⟩
  · rfl
  · have hc : c ≠ q.mark := fun hc => h (congrArg some hc)
    rw [guarded, guarded, if_neg fun h => hc h.1, if_neg fun h => hc h.1]

/-- **Taking escaped marks for bare ones and escaping all marks is one pass** that only adds the
backslashes that are missing. -/
theorem escape_replaceEscaped (q : Quote) (t : Text) :
    q.escape (q.replaceEscaped [q.mark] t) = q.guarded false t := by
  fun_induction replaceEscaped q [q.mark] t with
  | case1 => rfl
  | case2 c =>
    by_cases hc : c = q.mark
    · subst hc
      rw [escape_cons, if_pos rfl, guarded_mark]
      rfl
    · rw [escape_cons, if_neg hc, guarded, if_neg fun h => hc h.1]
      rfl
  | case3 c d r hesc ih =>
    obtain ⟨rfl, rfl⟩ := hesc
    rw [List.singleton_append, escape_cons, if_pos rfl, ih, guarded_backslash, guarded_mark_behind]
    rfl
  | case4 c d r hesc ih =>
    rw [escape_cons, ih]
    by_cases hmark : c = q.mark
    · subst hmark
      rw [if_pos rfl, guarded_mark]
      rfl
    by_cases hslash : c = '\\'
    · subst hslash
      have hd : (d :: r).head? ≠ some q.mark := fun h => hesc ⟨rfl, Option.some.inj h⟩
      rw [if_neg hmark, guarded_backslash, guarded_of_head?_ne hd true, List.singleton_append]
    · rw [if_neg hmark, guarded_cons hmark hslash]
      rfl

theorem wrap_eq (q : Quote) (t : Text) :
    q.wrap t = q.mark :: (q.guarded false t ++ [q.mark]) := by
  rw [wrap, escape_replaceEscaped, List.cons_append]

/-! ## Quoting what has been read -/

/-- In the body of a string no mark is without a backslash. -/
theorem guarded_eq_self (h : q.balances body = true) : q.guarded false body = body := by
  rw [balances_iff] at h
  rw [← escape_replaceEscaped]
  fun_induction replaceEscaped q [q.mark] body with
  | case1 => rfl
  | case2 c =>
    have hc : c ≠ q.mark := fun hc => h (hc ▸ List.mem_cons_self)
    rw [escape_cons, if_neg hc]
    rfl
  | case3 c d r hesc ih =>
    rw [replaceEscaped, if_pos hesc, List.nil_append] at h
    obtain ⟨rfl, rfl⟩ := hesc
    rw [List.singleton_append, escape_cons, if_pos rfl, ih h]
    rfl
  | case4 c d r hesc ih =>
    rw [replaceEscaped, if_neg hesc, List.mem_cons, not_or] at h
    rw [escape_cons, if_neg (Ne.symm h.1), ih h.2]
    rfl

theorem wrap_unquoted (h : LiteralKind.of t = .string) :
    ∃ q, around? t = some q ∧ q.wrap (unquoted t) = t := by
  obtain ⟨q, body, rfl, hone, hbalances⟩ :=
    Literal.isString_iff.1 (LiteralKind.isString_of_eq_string h)
  refine ⟨q, around?_eq_some_iff.2 ⟨body, rfl, hone⟩, ?_⟩
  rw [unquoted_of_around? rfl hone, wrap_eq, guarded_eq_self hbalances, List.cons_append]

/-- **Quoting and unquoting undo each other**: a string is what its unquoted text is quoted to, and
a quoted text is a string in the marks it was given, so it is such a text itself. -/
theorem wrap_unquoted_inverse :
    (∀ t, LiteralKind.of t = .string → ∃ q, around? t = some q ∧ q.wrap (unquoted t) = t) ∧
      ∀ (q : Quote) (t : Text), onOneLine t = true →
        LiteralKind.of (q.wrap t) = .string ∧ around? (q.wrap t) = some q ∧
          q.wrap (unquoted (q.wrap t)) = q.wrap t := by
  refine ⟨fun t => wrap_unquoted, fun q t hone => ?_⟩
  have hkind : LiteralKind.of (q.wrap t) = .string :=
    LiteralKind.of_eq_string (q.isString_wrap hone)
  have hmarks : around? (q.wrap t) = some q := q.around?_wrap hone
  obtain ⟨p, hp, hwrap⟩ := wrap_unquoted hkind
  rw [hmarks, Option.some.injEq] at hp
  subst hp
  exact ⟨hkind, hmarks, hwrap⟩

/-- Bare and escaped marks of both sorts, behind one backslash, two and none. -/
theorem wrap_unquoted_inverse_mixed :
    let literal := "\"\\\\\\\" it's \\\\\"".toList
    let value := "a\\\"b\\\\\"c\"d'e\\".toList
    (LiteralKind.of literal = .string ∧
        ∃ q, around? literal = some q ∧ q.wrap (unquoted literal) = literal) ∧
      onOneLine value = true ∧ double.wrap value = "\"a\\\"b\\\\\"c\\\"d'e\\\"".toList ∧
        LiteralKind.of (double.wrap value) = .string ∧
          around? (double.wrap value) = some double ∧
            double.wrap (unquoted (double.wrap value)) = double.wrap value := by
  intro literal value
  have hstring : LiteralKind.of literal = .string := by decide +kernel
  have hone : onOneLine value = true := by decide
  exact ⟨⟨hstring, wrap_unquoted_inverse.1 literal hstring⟩, hone, by decide +kernel,
    wrap_unquoted_inverse.2 double value hone⟩

/-! ## Where a string ends -/

/-- What stands behind the end of a string, given the text behind its opening mark.  A backslash
takes the character behind it along, and the first mark that is not taken along is the end. -/
def afterEnd? (q : Quote) : Text → Option Text
  | [] => none
  | [c] => if c = q.mark then some [] else none
  | c :: d :: r =>
    if c = '\\' then afterEnd? q r
    else if c = q.mark then some (d :: r)
    else afterEnd? q (d :: r)

/-- Whether a text is one string, from its first character to its last. -/
def isClosed (q : Quote) : Text → Bool
  | [] => false
  | c :: r => c = q.mark && q.afterEnd? r = some []

theorem afterEnd?_backslash (q : Quote) (c : Char) (t : Text) :
    q.afterEnd? ('\\' :: c :: t) = q.afterEnd? t := by
  rw [afterEnd?, if_pos rfl]

theorem afterEnd?_mark (q : Quote) (t : Text) : q.afterEnd? (q.mark :: t) = some t := by
  rcases t with _ | ⟨d, t⟩
  · rw [afterEnd?, if_pos rfl]
  · rw [afterEnd?, if_neg q.mark_ne_backslash, if_pos rfl]

theorem afterEnd?_cons (hmark : c ≠ q.mark) (hslash : c ≠ '\\') (t : Text) :
    q.afterEnd? (c :: t) = q.afterEnd? t := by
  rcases t with _ | ⟨d, t⟩
  · rw [afterEnd?.eq_2, if_neg hmark]
    rfl
  · rw [afterEnd?, if_neg hslash, if_neg hmark]

/-- How many backslashes a text ends with. -/
def finalBackslashes (t : Text) : Nat := (t.reverse.takeWhile fun c => c = '\\').length

theorem finalBackslashes_concat_backslash (t : Text) :
    finalBackslashes (t ++ ['\\']) = finalBackslashes t + 1 := by
  simp [finalBackslashes]

theorem finalBackslashes_concat_of_ne (h : c ≠ '\\') (t : Text) :
    finalBackslashes (t ++ [c]) = 0 := by
  simp [finalBackslashes, h]

/-- What a text `t` behind a text `s` has to be like for a string of both to end where it should. -/
structure Closes (q : Quote) (s t : Text) : Prop where
  final : Even (finalBackslashes (s ++ t))
  inner : ∀ before after, t = before ++ q.mark :: after →
    Even (finalBackslashes (s ++ before)) → finalBackslashes (s ++ before) = 0

theorem closes_nil_iff : Closes q s [] ↔ Even (finalBackslashes s) := by
  constructor
  · intro h
    simpa using h.final
  · intro h
    exact ⟨by simpa using h, fun before after he => by simp at he⟩

theorem closes_cons_iff : Closes q s (c :: t) ↔
    (c = q.mark → Even (finalBackslashes s) → finalBackslashes s = 0) ∧
      Closes q (s ++ [c]) t := by
  constructor
  · intro h
    refine ⟨?_, by simpa using h.final, ?_⟩
    · rintro rfl
      simpa using h.inner [] t rfl
    · rintro before after rfl
      simpa using h.inner (c :: before) after rfl
  · rintro ⟨hfirst, hrest⟩
    refine ⟨by simpa using hrest.final, fun before after he => ?_⟩
    rcases before with _ | ⟨d, before⟩
    · simpa using hfirst (List.cons.inj he).1
    · obtain ⟨rfl, ht⟩ := List.cons.inj he
      simpa using hrest.inner before after ht

/-- What is left to be read of a string when a text `s` in it has been read and `t` is to follow: a
backslash that has nothing to take along yet comes first. -/
def unread (q : Quote) (s t : Text) : Text :=
  (if Even (finalBackslashes s) then [] else ['\\'])
    ++ (q.guarded (0 < finalBackslashes s) t ++ [q.mark])

theorem unread_of_even (h : Even (finalBackslashes s)) (t : Text) :
    q.unread s t = q.guarded (0 < finalBackslashes s) t ++ [q.mark] := by
  rw [unread, if_pos h, List.nil_append]

theorem unread_of_zero (h : finalBackslashes s = 0) (t : Text) :
    q.unread s t = q.guarded false t ++ [q.mark] := by
  rw [unread_of_even (h ▸ Even.zero), decide_eq_false (Nat.not_lt.2 h.le)]

theorem unread_of_odd (h : ¬Even (finalBackslashes s)) (t : Text) :
    q.unread s t = '\\' :: (q.guarded true t ++ [q.mark]) := by
  have hpos : 0 < finalBackslashes s := Nat.pos_of_ne_zero fun h0 => h (h0 ▸ Even.zero)
  rw [unread, if_neg h, decide_eq_true hpos, List.singleton_append]

theorem afterEnd?_unread_backslash (q : Quote) (s t : Text) :
    q.afterEnd? (q.unread s ('\\' :: t)) = q.afterEnd? (q.unread (s ++ ['\\']) t) := by
  have hcount := finalBackslashes_concat_backslash s
  by_cases heven : Even (finalBackslashes s)
  · have hodd : ¬Even (finalBackslashes (s ++ ['\\'])) := by
      rw [hcount, Nat.even_add_one]
      exact not_not.2 heven
    rw [unread_of_even heven, unread_of_odd hodd, guarded_backslash, List.cons_append]
  · have heven' : Even (finalBackslashes (s ++ ['\\'])) := by
      rwa [hcount, Nat.even_add_one]
    rw [unread_of_odd heven, unread_of_even heven', guarded_backslash, List.cons_append,
      afterEnd?_backslash, hcount, decide_eq_true (Nat.succ_pos _)]

/-- A mark behind an even number of backslashes other than none is the end, too early. -/
theorem afterEnd?_unread_mark (q : Quote) (s t : Text) :
    q.afterEnd? (q.unread s (q.mark :: t)) = some [] ↔
      (Even (finalBackslashes s) → finalBackslashes s = 0) ∧
        q.afterEnd? (q.unread (s ++ [q.mark]) t) = some [] := by
  have hnext := unread_of_zero (q := q) (finalBackslashes_concat_of_ne q.mark_ne_backslash s) t
  by_cases heven : Even (finalBackslashes s)
  · by_cases hzero : finalBackslashes s = 0
    · rw [unread_of_zero hzero, guarded_mark, hnext, List.cons_append, List.cons_append,
        afterEnd?_backslash]
      exact (and_iff_right fun _ => hzero).symm
    · rw [unread_of_even heven, decide_eq_true (Nat.pos_of_ne_zero hzero), guarded_mark_behind,
        List.cons_append, afterEnd?_mark]
      exact iff_of_false (by simp) fun h => hzero (h.1 heven)
  · rw [unread_of_odd heven, guarded_mark_behind, hnext, List.cons_append, afterEnd?_backslash]
    exact (and_iff_right fun h => absurd h heven).symm

theorem afterEnd?_unread_cons (hmark : c ≠ q.mark) (hslash : c ≠ '\\') (s t : Text) :
    q.afterEnd? (q.unread s (c :: t)) = q.afterEnd? (q.unread (s ++ [c]) t) := by
  rw [unread_of_zero (finalBackslashes_concat_of_ne hslash s)]
  by_cases heven : Even (finalBackslashes s)
  · rw [unread_of_even heven, guarded_cons hmark hslash, List.cons_append,
      afterEnd?_cons hmark hslash]
  · rw [unread_of_odd heven, guarded_cons hmark hslash, List.cons_append, afterEnd?_backslash]

/-- **The end of a string is found where it should be** if the text that is left to be read allows
it. -/
theorem afterEnd?_unread_iff (q : Quote) (s t : Text) :
    q.afterEnd? (q.unread s t) = some [] ↔ Closes q s t := by
  induction t generalizing s with
  | nil =>
    rw [closes_nil_iff]
    by_cases heven : Even (finalBackslashes s)
    · rw [unread_of_even heven]
      exact iff_of_true (afterEnd?_mark q []) heven
    · have hnone : q.afterEnd? ('\\' :: q.mark :: []) = none := afterEnd?_backslash q q.mark []
      rw [unread_of_odd heven]
      exact iff_of_false (fun h => nomatch hnone.symm.trans h) heven
  | cons c t ih =>
    rw [closes_cons_iff, ← ih]
    by_cases hmark : c = q.mark
    · subst hmark
      simp only [afterEnd?_unread_mark, forall_const]
    · rw [and_iff_right fun h => absurd h hmark]
      by_cases hslash : c = '\\'
      · subst hslash
        rw [afterEnd?_unread_backslash]
      · rw [afterEnd?_unread_cons hmark hslash]

/-- **A quoted text ends at its last character** if no mark in it stands behind an even number of
backslashes other than none, and an even number of them ends it; and only then. -/
theorem isClosed_wrap_iff (q : Quote) (t : Text) :
    q.isClosed (q.wrap t) = true ↔ Even (finalBackslashes t) ∧
      ∀ before after, t = before ++ q.mark :: after →
        Even (finalBackslashes before) → finalBackslashes before = 0 := by
  have hunread : q.unread [] t = q.guarded false t ++ [q.mark] := unread_of_zero rfl t
  have hread := afterEnd?_unread_iff q [] t
  rw [hunread] at hread
  rw [wrap_eq, isClosed, Bool.and_eq_true, decide_eq_true_eq, decide_eq_true_eq, hread]
  exact ⟨fun h => ⟨h.2.final, h.2.inner⟩, fun h => ⟨rfl, h.1, h.2⟩⟩

/-- **A backslash at the end takes the closing mark along**, and a mark behind two backslashes is an
end although the writer takes it for an escaped one. -/
theorem wrap_leaves_open :
    let folder := "C:\\".toList
    let twice := "\\\\\" or".toList
    (onOneLine folder = true ∧ double.wrap folder = "\"C:\\\"".toList ∧
        double.isClosed (double.wrap folder) = false) ∧
      onOneLine twice = true ∧ double.wrap twice = "\"\\\\\" or\"".toList ∧
        double.isClosed (double.wrap twice) = false := by
  decide +kernel

end Quote
end Marginalia
