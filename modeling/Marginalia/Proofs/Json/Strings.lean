import Marginalia.Json.Reader

/-!
# Strings that were escaped

A string is read twice.  The reader looks for its closing mark and keeps what stands before it as it
is written (`Json.body?`); what that says is found out later, where the value is used
(`Json.unescape?`).  Neither goes wrong over a text that `Json.escape` wrote: the first one stops at
the mark behind it, whatever marks and backslashes the text has itself, and the second one gives the
text.

Both follow from the three ways of writing a character (`Json.escapeChar_cases`): behind a backslash
as one letter, by its number, or as it is.  A reader takes one step for each of them.

## What is here

* `Json.escapeChar_cases` — the three ways, with what a reader needs to know of each.
* `Json.body?_escape` — **the first reading stops where the text ends.**
* `Json.unescape?_escape` — **the second reading gives the text.**
-/

set_option autoImplicit false
namespace Marginalia
namespace Json

/-! ## How a character is written -/

theorem hexValue?_hexDigit {n : Nat} (h : n < 16) : hexValue? (hexDigit n) = some n := by
  have hall : ∀ k : Fin 16, hexValue? (hexDigit k) = some k.val := by decide
  exact hall ⟨n, h⟩

/-- A number that needs two digits, with zeros in front. -/
theorem hexFour?_hexDigit {n : Nat} (h : n < 256) :
    hexFour? '0' '0' (hexDigit (n / 16)) (hexDigit (n % 16)) = some n := by
  have hzero : hexValue? '0' = some 0 := rfl
  have hhigh : n / 16 < 16 := Nat.div_lt_of_lt_mul h
  have hlow : n % 16 < 16 := Nat.mod_lt n (by decide)
  rw [hexFour?, hzero, hexValue?_hexDigit hhigh, hexValue?_hexDigit hlow]
  exact congrArg some (by omega)

/-- **The three ways in which a character is written.** -/
theorem escapeChar_cases (c : Char) :
    (∃ e, escapeChar c = ['\\', e] ∧ shortEscape? e = some c) ∨
    (∃ a b, escapeChar c = ['\\', 'u', '0', '0', a, b] ∧ hexFour? '0' '0' a b = some c.toNat ∧
      c.toNat < 0x20) ∨
    (escapeChar c = [c] ∧ c ≠ '"' ∧ c ≠ '\\' ∧ isControl c = false) := by
  unfold escapeChar
  split
  · exact Or.inl ⟨'"', rfl, by subst c; rfl⟩
  split
  · exact Or.inl ⟨'\\', rfl, by subst c; rfl⟩
  split
  · exact Or.inl ⟨'b', rfl, by subst c; rfl⟩
  split
  · exact Or.inl ⟨'f', rfl, by subst c; rfl⟩
  split
  · exact Or.inl ⟨'n', rfl, by subst c; rfl⟩
  split
  · exact Or.inl ⟨'r', rfl, by subst c; rfl⟩
  split
  · exact Or.inl ⟨'t', rfl, by subst c; rfl⟩
  split
  · rename_i hcontrol
    have hlt : c.toNat < 0x20 := of_decide_eq_true hcontrol
    exact Or.inr (Or.inl ⟨_, _, rfl, hexFour?_hexDigit (by omega), hlt⟩)
  · rename_i hmark hslash _ _ _ _ _ hcontrol
    exact Or.inr (Or.inr ⟨rfl, hmark, hslash, by simpa using hcontrol⟩)

/-! ## Up to the closing mark -/

theorem bodyFrom?_short {e : Char} (h : (shortEscape? e).isSome) (seen rest : Text) :
    bodyFrom? seen ('\\' :: e :: rest) = bodyFrom? (e :: '\\' :: seen) rest := by
  have hu : e ≠ 'u' := by
    rintro rfl
    cases h
  rw [bodyFrom?, if_pos h]
  rintro a b c d r he
  exact absurd he hu

theorem bodyFrom?_number {a b c d : Char} (h : (hexFour? a b c d).isSome) (seen rest : Text) :
    bodyFrom? seen ('\\' :: 'u' :: a :: b :: c :: d :: rest)
      = bodyFrom? (d :: c :: b :: a :: 'u' :: '\\' :: seen) rest := by
  rw [bodyFrom?, if_pos h]

theorem bodyFrom?_plain {c : Char} (hmark : c ≠ '"') (hslash : c ≠ '\\')
    (hcontrol : isControl c = false) (seen rest : Text) :
    bodyFrom? seen (c :: rest) = bodyFrom? (c :: seen) rest := by
  rw [bodyFrom?, if_neg (by simp [hslash, hcontrol])]
  · exact hmark
  · intro a b c' d r he
    exact absurd he hslash
  · intro c' r he
    exact absurd he hslash

theorem bodyFrom?_escapeChar (c : Char) (seen rest : Text) :
    bodyFrom? seen (escapeChar c ++ rest) = bodyFrom? ((escapeChar c).reverse ++ seen) rest := by
  obtain ⟨e, he, hs⟩ | ⟨a, b, he, hn, -⟩ | ⟨he, hmark, hslash, hcontrol⟩ := escapeChar_cases c <;>
    rw [he]
  · exact bodyFrom?_short (Option.isSome_of_eq_some hs) seen rest
  · exact bodyFrom?_number (Option.isSome_of_eq_some hn) seen rest
  · exact bodyFrom?_plain hmark hslash hcontrol seen rest

/-- **The body of an escaped text ends at the mark behind it.** -/
theorem body?_escape (t rest : Text) : body? (escape t ++ '"' :: rest) = some (escape t, rest) := by
  suffices h : ∀ seen : Text,
      bodyFrom? seen (escape t ++ '"' :: rest) = some (seen.reverse ++ escape t, rest) from h []
  induction t with
  | nil =>
    intro seen
    rw [escape, List.flatMap_nil, List.nil_append, List.append_nil, bodyFrom?]
  | cons c r ih =>
    intro seen
    rw [escape, List.flatMap_cons, List.append_assoc, bodyFrom?_escapeChar, ← escape, ih,
      List.reverse_append, List.reverse_reverse, List.append_assoc]

/-! ## What it says -/

theorem unescape?_short {c e : Char} (h : shortEscape? e = some c) (rest : Text) :
    unescape? ('\\' :: e :: rest) = (unescape? rest).map (c :: ·) := by
  have hu : e ≠ 'u' := by
    rintro rfl
    cases h
  rw [unescape?, h]
  rintro a b c d r he
  exact absurd he hu

theorem unescape?_number {a b d e c : Char} (h : hexFour? a b d e = some c.toNat)
    (hc : c.toNat < 0xD800) (rest : Text) :
    unescape? ('\\' :: 'u' :: a :: b :: d :: e :: rest) = (unescape? rest).map (c :: ·) := by
  have hhigh : isHighSurrogate c.toNat = false := by simp [isHighSurrogate]; omega
  have hlow : isLowSurrogate c.toNat = false := by simp [isLowSurrogate]; omega
  rw [unescape?, h]
  simp only [hhigh, hlow, Char.ofNat_toNat]
  rfl

theorem unescape?_plain {c : Char} (h : c ≠ '\\') (rest : Text) :
    unescape? (c :: rest) = (unescape? rest).map (c :: ·) := by
  rw [unescape?, if_neg h]
  · intro a b c' d r he
    exact absurd he h
  · intro c' r he
    exact absurd he h

theorem unescape?_escapeChar (c : Char) (rest : Text) :
    unescape? (escapeChar c ++ rest) = (unescape? rest).map (c :: ·) := by
  obtain ⟨e, he, hs⟩ | ⟨a, b, he, hn, hlt⟩ | ⟨he, -, hslash, -⟩ := escapeChar_cases c <;> rw [he]
  · exact unescape?_short hs rest
  · exact unescape?_number hn (by omega) rest
  · exact unescape?_plain hslash rest

/-- **An escaped text says the text.** -/
@[simp] theorem unescape?_escape (t : Text) : unescape? (escape t) = some t := by
  induction t with
  | nil => rfl
  | cons c r ih =>
    rw [escape, List.flatMap_cons, unescape?_escapeChar, ← escape, ih]
    rfl

@[simp] theorem text?_ofText (t : Text) : text? (ofText t) = some t := unescape?_escape t

end Json
end Marginalia
