import Marginalia.Text.Basic

/-!
# Quotation marks around a literal

A quoted literal is read by its outermost marks alone: `Quote.around?` looks at the first and the
last character, and `unquoted` takes them off, leaving every escape as it is written.  Writing goes
the other way through `Quote.wrap`: a mark inside the value is escaped, and one that is escaped
already is taken for the bare mark first, so that a value read from a literal and written again
does not grow a backslash each time.

`Quote.replaceEscaped` is the one replacement behind all of this: `wrap` replaces an escaped mark
by the bare one, and the test for a well-formed string (`Quote.balances`) replaces it by nothing
and looks for a mark that is left.
-/

set_option autoImplicit false
namespace Marginalia

/-- The mark a string literal is wrapped in. -/
inductive Quote where
  | single
  | double
  deriving DecidableEq, Repr

namespace Quote

/-- The character of a quotation mark. -/
def mark : Quote → Char
  | single => '\x27'
  | double => '"'

/-- The quotation mark a character is, if it is one. -/
def ofChar? (c : Char) : Option Quote :=
  if c = single.mark then some single
  else if c = double.mark then some double
  else none

@[simp] theorem ofChar?_mark (q : Quote) : ofChar? q.mark = some q := by cases q <;> rfl

theorem mark_of_ofChar? {c : Char} {q : Quote} (h : ofChar? c = some q) : q.mark = c := by
  unfold ofChar? at h
  split at h
  · rename_i hc; cases h; exact hc.symm
  · split at h
    · rename_i hc; cases h; exact hc.symm
    · cases h

theorem mark_ne_backslash (q : Quote) : q.mark ≠ '\\' := by cases q <;> decide

end Quote

/-- Whether a text keeps to one line: it holds neither a carriage return nor a line feed. -/
def onOneLine (t : Text) : Bool := t.all fun c => c ≠ '\r' && c ≠ '\n'

namespace Quote

/-- The marks a text is wrapped in: the same mark at both ends, and no line break between. -/
def around? : Text → Option Quote
  | [] => none
  | c :: r =>
    match ofChar? c with
    | some q => if r.getLast? = some q.mark && onOneLine r then some q else none
    | none => none

/-- What stands between the first and the last character. -/
def between (t : Text) : Text := t.tail.dropLast

theorem around?_eq_some_iff {t : Text} {q : Quote} :
    around? t = some q ↔ ∃ body, t = q.mark :: body ++ [q.mark] ∧ onOneLine body := by
  constructor
  · intro h
    unfold around? at h
    split at h
    · cases h
    · rename_i c r
      split at h
      · rename_i p hp
        split at h
        · rename_i hr
          cases h
          simp only [Bool.and_eq_true, decide_eq_true_eq] at hr
          obtain ⟨ys, hys⟩ := List.getLast?_eq_some_iff.1 hr.1
          refine ⟨ys, by rw [hys, ← mark_of_ofChar? hp, List.cons_append], ?_⟩
          have := hr.2
          rw [hys, onOneLine, List.all_append, Bool.and_eq_true] at this
          exact this.1
        · cases h
      · cases h
  · rintro ⟨body, rfl, hb⟩
    have hq : onOneLine [q.mark] = true := by cases q <;> rfl
    have hall : onOneLine (body ++ [q.mark]) = true := by
      rw [onOneLine, List.all_append, Bool.and_eq_true]; exact ⟨hb, hq⟩
    simp [around?, hall]

/-! ## Escaped marks -/

/-- A text with every escaped mark, read from the left, replaced by `new`. -/
def replaceEscaped (q : Quote) (new : Text) : Text → Text
  | [] => []
  | [c] => [c]
  | c :: d :: r =>
    if c = '\\' ∧ d = q.mark then new ++ replaceEscaped q new r
    else c :: replaceEscaped q new (d :: r)

/-- Whether every mark inside a body is escaped. -/
def balances (q : Quote) (body : Text) : Bool := !(replaceEscaped q [] body).contains q.mark

/-- A body with a backslash before every mark. -/
def escape (q : Quote) (body : Text) : Text :=
  body.flatMap fun c => if c = q.mark then ['\\', c] else [c]

/-- A value as a string literal: its marks escaped once, and marks around it. -/
def wrap (q : Quote) (value : Text) : Text :=
  q.mark :: escape q (replaceEscaped q [q.mark] value) ++ [q.mark]

end Quote

/-- A literal without the quotation marks around it, if it has them. -/
def unquoted (t : Text) : Text :=
  match Quote.around? t with
  | some _ => Quote.between t
  | none => t

theorem unquoted_of_around? {t body : Text} {q : Quote} (h : t = q.mark :: body ++ [q.mark])
    (hb : onOneLine body) : unquoted t = body := by
  have : Quote.around? t = some q := Quote.around?_eq_some_iff.2 ⟨body, h, hb⟩
  rw [unquoted, this, h]
  simp [Quote.between]

end Marginalia
