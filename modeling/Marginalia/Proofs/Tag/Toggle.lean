import Marginalia.Proofs.Literal.Escapes
import Marginalia.Proofs.Number.Clamped
import Marginalia.Proofs.Tag.Written

/-!
# A toggle reads back what was written

A toggle is written by one rule and read by another.  It is written from a whole number that is kept
within 64 bits, as a truth value, as that number, or as that number between quotation marks; it is
read as `true` or as a decimal number that is rounded and compared with one.  The two rules share no
code, and still they agree on every number there is (`Tag.isOn_toText`): the only whole number that
is read as one is one.

Which number a value hands in is said by `Tag.HandsInNumber`, from how a text is spelled and not from how
it is read: a text hands in the number it begins with, brought into the range once, and a list tells
whether anything is checked.

* `Tag.handsInNumber_iff` — the number that a toggle is written from is the one that is handed in.
* `Tag.written_toggle_readBack` — **a toggle can always be written, and shows what was handed in**.
-/

set_option autoImplicit false
namespace Marginalia

/-- A text without the mark that it is put between loses nothing and gains nothing there. -/
theorem Quote.unquoted_wrap_of_not_mem {q : Quote} {t : Text} (hone : onOneLine t = true)
    (hmark : q.mark ∉ t) : unquoted (q.wrap t) = t := by
  have hbalances : q.balances t = true := by
    refine balances_iff.2 fun hmem => ?_
    rcases mem_of_mem_replaceEscaped hmem with hnil | hmem
    · cases hnil
    · exact hmark hmem
  have hguarded := guarded_eq_self hbalances
  refine unquoted_of_around? (q := q) ?_ hone
  rw [wrap_eq, hguarded, List.cons_append]

namespace Tag

variable {literal out : Text} {value : Value} {kind : LiteralKind}

/-! ## What a value hands in -/

/-- The number that a value hands in: of a text the one that it begins with, as near as 64 bits come
to it, and of a list one if there is anything in it. -/
inductive HandsInNumber : Value → Int → Prop
  | text (w : Number.Whole.Spelled) :
      HandsInNumber (.text w.text) (max Int64.minValue.toInt (min Int64.maxValue.toInt w.value))
  | checked (box : Text) (boxes : List Text) : HandsInNumber (.items (box :: boxes)) 1
  | unchecked : HandsInNumber (.items []) 0

/-- The number that a toggle is written from is the one that is handed in. -/
theorem handsInNumber_iff {n : Int} : HandsInNumber value n ↔ switchReading value = n := by
  constructor
  · rintro (w | _ | _)
    · exact w.leading_text
    · rfl
    · rfl
  · rintro rfl
    match value with
    | .text t =>
      obtain ⟨w, rfl⟩ := Number.Whole.exists_spelled t
      rw [switchReading, w.leading_text]
      exact .text w
    | .items [] => exact .unchecked
    | .items (box :: boxes) => exact .checked box boxes

/-! ## Reading what a toggle writes -/

theorem isOn_truth (on : Bool) : isOn (truth on) = on := by
  cases on <;> decide +kernel

/-- **A toggle with a whole number is on exactly if the number is one.** -/
theorem isOn_toText (n : Int) : isOn (Number.Whole.toText n) = decide (n = 1) := by
  have hword : Number.Whole.toText n ≠ "true".toList := by
    intro he
    have hnumber := Number.Whole.isNumber_toText n
    rw [he] at hnumber
    cases hnumber
  rw [isOn, decide_eq_false hword, Bool.false_or, Number.isOne_toText]

theorem unquoted_wrap_toText (q : Quote) (n : Int) :
    unquoted (q.wrap (Number.Whole.toText n)) = Number.Whole.toText n := by
  have hnumber := Number.Whole.isNumber_toText n
  refine Quote.unquoted_wrap_of_not_mem (Literal.onOneLine_of_isNumber hnumber) fun hmem => ?_
  rcases (Literal.IsNumber.of_isNumber hnumber).mem hmem with hdigit | hpoint | hminus
  · cases q <;> cases hdigit
  · cases q <;> cases hpoint
  · cases q <;> cases hminus

theorem kind_truth (on : Bool) : LiteralKind.of (truth on) = .boolean := by
  cases on <;> rfl

/-- **Whichever way a toggle is written**, the literal has the kind it is written for and shows what
the value hands in. -/
theorem Writes.shown_toggle (h : Writes toggle literal value kind out) :
    LiteralKind.of out = kind ∧ toggle.present (plainValue kind out)
      = .text (if switchReading value = 1 then ['1'] else ['0']) := by
  have hnumber := Number.Whole.isNumber_toText (switchReading value)
  cases h with
  | truth =>
    refine ⟨kind_truth _, ?_⟩
    simp only [plainValue, present, isOn_truth, decide_eq_true_eq]
  | whole =>
    refine ⟨LiteralKind.of_eq_number hnumber, ?_⟩
    simp only [plainValue, present, isOn_toText, decide_eq_true_eq]
  | quotedWhole =>
    have hone := Literal.onOneLine_of_isNumber hnumber
    refine ⟨LiteralKind.of_eq_string ((quoteOf literal).isString_wrap hone), ?_⟩
    simp only [plainValue, present, unquoted_wrap_toText, isOn_toText, decide_eq_true_eq]
  | rounded htag => cases htag
  | passed htag => simp at htag
  | quoted htag => exact absurd rfl htag
  | list htag => simp at htag

/-- No value is refused. -/
theorem exists_written_toggle (h : toggle.accepts (LiteralKind.of literal) = true)
    (value : Value) : ∃ out, toggle.written literal value = .ok out := by
  rw [written, checkedKind_eq_ok_iff.2 ⟨rfl, h⟩]
  simp only
  split <;> exact ⟨_, rfl⟩

/-- **A toggle reads back what was written.**  Whatever literal it accepts and whatever value is
handed in, a literal of the same kind is written, and it shows `1` exactly if the number that was
handed in is one, and `0` otherwise. -/
theorem written_toggle_readBack (h : toggle.accepts (LiteralKind.of literal) = true)
    (value : Value) :
    (∃ n, HandsInNumber value n) ∧ ∀ n, HandsInNumber value n →
      ∃ out, toggle.written literal value = .ok out ∧
        toggle.shown out
          = .ok (.text (if n = 1 then ['1'] else ['0']), LiteralKind.of literal) := by
  refine ⟨⟨_, handsInNumber_iff.2 rfl⟩, fun n hn => ?_⟩
  obtain ⟨out, hout⟩ := exists_written_toggle h value
  obtain ⟨hkind, hvalue⟩ := (writes_of_written hout).shown_toggle
  rw [handsInNumber_iff.1 hn] at hvalue
  exact ⟨out, hout, shown_eq_ok_iff.2 ⟨checkedKind_eq_ok_iff.2 ⟨hkind, h⟩, hvalue.symm⟩⟩

/-- A one behind blanks, with a sign, zeros and a unit; zero; a negative number; a number that does
not fit; and lists with and without anything in them. -/
theorem written_toggle_readBack_unit :
    let writesAndShows (literal : Text) (value : Value) (out shown : Text) : Prop :=
      toggle.written literal value = .ok out ∧
        toggle.shown out = .ok (.text shown, LiteralKind.of literal)
    writesAndShows "'off'".toList (.text "\x0b +001px".toList) "'1'".toList ['1'] ∧
      writesAndShows "3".toList (.text "0".toList) "0".toList ['0'] ∧
      writesAndShows "1.0".toList (.text "-1".toList) "-1".toList ['0'] ∧
      writesAndShows "\"1\"".toList (.text "9223372036854775808".toList)
        "\"9223372036854775807\"".toList ['0'] ∧
      writesAndShows "true".toList (.items []) "false".toList ['0'] ∧
      writesAndShows "false".toList (.items ["on".toList]) "true".toList ['1'] := by
  intro writesAndShows
  have hshows {literal out shown : Text} {value : Value} {n : Int} (hn : HandsInNumber value n)
      (haccepts : toggle.accepts (LiteralKind.of literal) = true)
      (hout : toggle.written literal value = .ok out)
      (hshown : (if n = 1 then ['1'] else ['0']) = shown) :
      writesAndShows literal value out shown := by
    obtain ⟨out', hout', hshows⟩ := (written_toggle_readBack haccepts value).2 n hn
    cases hout.symm.trans hout'
    rw [hshown] at hshows
    exact ⟨hout, hshows⟩
  let unit : Number.Whole.Spelled :=
    ⟨"\x0b ".toList, .plus, "001".toList, "px".toList, List.all_eq_true.1 rfl,
      List.all_eq_true.1 rfl, fun c hc => by cases hc; rfl, nofun⟩
  let zero : Number.Whole.Spelled :=
    ⟨[], .absent, "0".toList, [], nofun, List.all_eq_true.1 rfl, nofun, nofun⟩
  let below : Number.Whole.Spelled :=
    ⟨[], .minus, "1".toList, [], nofun, List.all_eq_true.1 rfl, nofun, nofun⟩
  let above : Number.Whole.Spelled :=
    ⟨[], .absent, "9223372036854775808".toList, [], nofun, List.all_eq_true.1 rfl, nofun, nofun⟩
  refine ⟨hshows (.text unit) ?_ ?_ ?_, hshows (.text zero) ?_ ?_ ?_, hshows (.text below) ?_ ?_ ?_,
    hshows (.text above) ?_ ?_ ?_, hshows .unchecked ?_ ?_ ?_, hshows (.checked _ _) ?_ ?_ ?_⟩ <;>
    decide +kernel

end Tag
end Marginalia
