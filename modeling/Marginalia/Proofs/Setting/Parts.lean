import Marginalia.Setting.Basic

/-!
# The parts of a setting line

`Code.of?_toText` says that cutting a line without a comment loses nothing.  Here the comment is
added: both ways of finding it cut the line in two, so a setting puts its line together again.

## What is here

* `Setting.Lone.cut?_append`, `Setting.splitRemark_append` — code and comment make up the line,
  whichever way the comment was found.
* `Setting.of?_toText` — **a setting with its own literal is its line**.
* `Setting.of?_shape` — what stands before the literal is either blank, or ends with a colon or an
  equals sign and blanks behind it.
-/

set_option autoImplicit false
namespace Marginalia
namespace Setting

/-! ## Lines that are one literal -/

namespace Lone

open Literal (digits?)

theorem digits?_append {t run rest : Text} (h : digits? t = some (run, rest)) :
    run ++ rest = t := by
  unfold digits? at h
  split at h
  · cases h
  · cases h
    exact List.takeWhile_append_dropWhile

theorem unsigned?_append {t number rest : Text} (h : unsigned? t = some (number, rest)) :
    number ++ rest = t := by
  obtain ⟨⟨whole, r⟩, hw, he⟩ := Option.map_eq_some_iff.1 h
  have ht := digits?_append hw
  simp only at he
  split at he
  · split at he
    · rename_i fraction tail hf
      cases he
      rw [← ht, ← digits?_append hf]
      simp
    · cases he
      exact ht
  · cases he
    exact ht

theorem number?_append {t number rest : Text} (h : number? t = some (number, rest)) :
    number ++ rest = t := by
  unfold number? at h
  split at h
  · obtain ⟨⟨digits, r⟩, hd, he⟩ := Option.map_eq_some_iff.1 h
    cases he
    rw [List.cons_append, unsigned?_append hd]
  · exact unsigned?_append h

theorem quoted?_append {t quoted rest : Text} (h : quoted? t = some (quoted, rest)) :
    quoted ++ rest = t := by
  unfold quoted? at h
  split at h
  · cases h
  · rename_i c r
    split at h
    · cases h
    · simp only at h
      split at h
      · cases h
      · rename_i d tail hd
        split at h
        · rename_i hdc
          cases h
          subst hdc
          rw [List.cons_append, List.cons_append, List.append_assoc, List.singleton_append, ← hd,
            List.takeWhile_append_dropWhile]
        · cases h

theorem literal?_append {t literal rest : Text} (h : literal? t = some (literal, rest)) :
    literal ++ rest = t := by
  unfold literal? at h
  cases hn : number? t with
  | some parts =>
    rw [hn] at h
    cases h
    exact number?_append hn
  | none =>
    rw [hn] at h
    exact quoted?_append h

theorem punctuation_append (t : Text) : (punctuation t).1 ++ (punctuation t).2 = t := by
  unfold punctuation
  split <;> rfl

theorem cut?_append {line code comment : Text} (h : cut? line = some (code, comment)) :
    code ++ comment = line := by
  unfold cut? at h
  split at h
  · cases h
  · rename_i literal rest hl
    simp only at h
    split at h
    · cases h
      have hrest := punctuation_append rest
      have hline := literal?_append hl
      calc Text.leadingBlanks line ++ literal ++ (punctuation rest).1
            ++ Text.leadingBlanks (punctuation rest).2 ++ Text.trimStart (punctuation rest).2
          = Text.leadingBlanks line ++ (literal ++ ((punctuation rest).1
              ++ (Text.leadingBlanks (punctuation rest).2
                ++ Text.trimStart (punctuation rest).2))) := by simp only [List.append_assoc]
        _ = Text.leadingBlanks line ++ (literal ++ rest) := by
            rw [Text.leadingBlanks_append_trimStart, hrest]
        _ = line := by rw [hline, Text.leadingBlanks_append_trimStart]
    · cases h

end Lone

/-! ## Code and comment -/

theorem lastRemark_append {line code comment : Text} (h : lastRemark line = some (code, comment)) :
    code ++ comment = line := by
  simpa using lastRemarkFrom_toText h

theorem splitRemark_append (line : Text) : (splitRemark line).1 ++ (splitRemark line).2 = line := by
  unfold splitRemark
  split
  · rename_i parts hc
    exact Lone.cut?_append hc
  · cases hr : lastRemark line with
    | none => simp
    | some parts => exact lastRemark_append hr

/-! ## The whole line -/

theorem of?_eq_some_iff {line : Text} {s : Setting} :
    of? line = some s ↔ ∃ c, Code.of? (splitRemark line).1 = some c ∧
      s = { lead := c.indent ++ c.name
            assignment := c.assignment
            literal := c.literal
            padding := c.padding
            punctuation := c.punctuation
            remark := c.blanks ++ (splitRemark line).2 } := by
  rw [of?, Option.map_eq_some_iff]
  exact ⟨fun ⟨c, hc, hs⟩ => ⟨c, hc, hs.symm⟩, fun ⟨c, hc, hs⟩ => ⟨c, hc, hs.symm⟩⟩

/-- **A setting with its own literal is its line.** -/
theorem of?_toText {line : Text} {s : Setting} (h : of? line = some s) : s.toText = line := by
  obtain ⟨c, hc, rfl⟩ := of?_eq_some_iff.1 h
  calc _ = c.toText ++ (splitRemark line).2 := by
        simp [toText, withLiteral, Code.toText]
    _ = line := by rw [Code.of?_toText hc, splitRemark_append]

/-- What stands before the literal of a setting. -/
def before (s : Setting) : Text := s.lead ++ s.assignment

/-- What stands behind the literal of a setting. -/
def behind (s : Setting) : Text := s.padding ++ s.punctuation ++ s.remark

theorem withLiteral_eq (s : Setting) (literal : Text) :
    s.withLiteral literal = s.before ++ literal ++ s.behind := by
  simp [withLiteral, before, behind]

theorem byteLength_before (s : Setting) : Text.byteLength s.before = s.literalOffset := by
  simp [before, literalOffset]

theorem of?_eq_append {line : Text} {s : Setting} (h : of? line = some s) :
    line = s.before ++ s.literal ++ s.behind := by
  rw [← withLiteral_eq, ← toText, of?_toText h]

end Setting

theorem Assignment.of?_symbol {t : Text} {a : Assignment} (h : Assignment.of? t = some a) :
    ∃ sign after, (sign = ':' ∨ sign = '=') ∧ a.symbol = sign :: Text.leadingBlanks after := by
  unfold Assignment.of? at h
  split at h
  · cases h
  · rename_i sign after hd
    cases h
    have hs := List.head?_dropWhile_not (fun c => !Assignment.counts t c) t
    rw [hd, List.head?_cons] at hs
    simp only [Bool.not_eq_false', Assignment.counts, Bool.and_eq_true, Bool.or_eq_true,
      decide_eq_true_eq] at hs
    exact ⟨sign, after, hs.1, rfl⟩

namespace Setting

/-- What stands before the literal is blank, or it ends with the sign that assigns and blanks. -/
theorem of?_shape {line : Text} {s : Setting} (h : of? line = some s) :
    (∀ c ∈ s.before, Text.isBlank c = true) ∨
      ∃ sign blanks, (sign = ':' ∨ sign = '=') ∧ (∀ c ∈ blanks, Text.isBlank c = true) ∧
        s.before = s.lead ++ sign :: blanks := by
  obtain ⟨c, hc, rfl⟩ := of?_eq_some_iff.1 h
  unfold Code.of? at hc
  obtain ⟨a, ha, rfl⟩ := Option.map_eq_some_iff.1 hc
  split at ha
  · cases ha
    left
    intro d hd
    simp only [before, List.append_nil] at hd
    exact Text.isBlank_of_mem_leadingBlanks hd
  · obtain ⟨sign, after, hs, he⟩ := Assignment.of?_symbol ha
    refine Or.inr ⟨sign, Text.leadingBlanks after, hs,
      fun _ => Text.isBlank_of_mem_leadingBlanks, ?_⟩
    simp only [before, he]

end Setting
end Marginalia
