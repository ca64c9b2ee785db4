import Marginalia.Text.Basic

/-!
# White space

`isBlank` is the White_Space property of Unicode, all twenty-five characters of it.  A source line
may be indented or padded with any of them, so the ASCII notion of core would misplace a literal
behind a no-break space.  The two ways to trim are given together with what they take away: a text
is its leading blanks followed by its `trimStart`, and its `trimEnd` followed by its trailing
blanks.
-/

set_option autoImplicit false
namespace Marginalia
namespace Text

/-- The characters with the White_Space property. -/
def isBlank (c : Char) : Bool :=
  let n := c.toNat
  (9 ≤ n && n ≤ 13) || n == 0x20 || n == 0x85 || n == 0xA0 || n == 0x1680 ||
    (0x2000 ≤ n && n ≤ 0x200A) || n == 0x2028 || n == 0x2029 || n == 0x202F || n == 0x205F ||
    n == 0x3000

/-- Every blank of the ASCII range that core knows is one here. -/
theorem isBlank_of_isWhitespace {c : Char} (h : c.isWhitespace) : isBlank c := by
  simp only [Char.isWhitespace, Bool.or_eq_true, decide_eq_true_eq] at h
  rcases h with ((rfl | rfl) | rfl) | rfl <;> rfl

/-- Whether a text holds white space only. -/
def isBlankText (t : Text) : Bool := t.all isBlank

/-- The blanks a text begins with. -/
def leadingBlanks (t : Text) : Text := t.takeWhile isBlank

/-- A text without the blanks it begins with. -/
def trimStart (t : Text) : Text := t.dropWhile isBlank

/-- The blanks a text ends with. -/
def trailingBlanks (t : Text) : Text := (t.reverse.takeWhile isBlank).reverse

/-- A text without the blanks it ends with. -/
def trimEnd (t : Text) : Text := (t.reverse.dropWhile isBlank).reverse

/-- A text without the blanks around it. -/
def trim (t : Text) : Text := trimEnd (trimStart t)

@[simp] theorem leadingBlanks_append_trimStart (t : Text) : leadingBlanks t ++ trimStart t = t :=
  List.takeWhile_append_dropWhile

@[simp] theorem trimEnd_append_trailingBlanks (t : Text) : trimEnd t ++ trailingBlanks t = t := by
  rw [trimEnd, trailingBlanks, ← List.reverse_append, List.takeWhile_append_dropWhile,
    List.reverse_reverse]

theorem isBlank_of_mem_leadingBlanks {t : Text} {c : Char} (h : c ∈ leadingBlanks t) :
    isBlank c = true :=
  List.all_eq_true.1 List.all_takeWhile c h

theorem isBlank_of_mem_trailingBlanks {t : Text} {c : Char} (h : c ∈ trailingBlanks t) :
    isBlank c = true :=
  List.all_eq_true.1 List.all_takeWhile c (List.mem_reverse.1 h)

end Text
end Marginalia
