import Marginalia.Proofs.Literal.Kind
import Marginalia.Proofs.Setting.Parts
import Marginalia.Proofs.Text.Blank

/-!
# What the parts of a line depend on

A line without a comment is cut at its assignment symbol, which is looked for from the left, and at
its punctuation, which is looked for from the right.  The literal lies between the two.  So as long
as it begins and ends like a literal, neither search gets to see the rest of it, and another literal
in its place leaves the other parts alone.

## What is here

* `Assignment.of?_eq_some_iff`, `Assignment.of?_eq_none_iff` — the cut at the symbol without the
  search, and `Assignment.of?_append_literal` — it does not depend on the literal.
* `Code.core`, `Code.stem` — a line without its punctuation and its blanks, and what they are behind
  a *firm* character, which is neither.
* `Code.Opens.of?_append` — **both together**: behind a name and a symbol, and in front of a text of
  any kind, stands the literal that was put there.
-/

set_option autoImplicit false
namespace Marginalia

/-! ## Name, symbol and literal -/

namespace Assignment

variable {t : Text} {a : Assignment}

theorem counts_congr {s : Text} (h : s.head? = t.head?) (c : Char) : counts s c = counts t c := by
  rw [counts, counts, h]

theorem counts_eq_true_iff {c : Char} :
    counts t c = true ↔ (c = ':' ∨ c = '=') ∧ t.head? ≠ some c := by
  simp [counts]

theorem of?_eq_none_iff : of? t = none ↔ ∀ d ∈ t, counts t d = false := by
  have hnil : of? t = none ↔ t.dropWhile (fun c => !counts t c) = [] := by
    rw [of?]
    split
    · rename_i hd
      exact iff_of_true rfl hd
    · rename_i hd
      rw [hd]
      exact iff_of_false (Option.some_ne_none _) (List.cons_ne_nil _ _)
  rw [hnil, List.dropWhile_eq_nil_iff]
  simp

theorem of?_eq_some_iff : of? t = some a ↔ ∃ sign after, t = a.name ++ sign :: after ∧
    counts t sign = true ∧ (∀ d ∈ a.name, counts t d = false) ∧
    a.symbol = sign :: Text.leadingBlanks after ∧ a.literal = Text.trimStart after := by
  constructor
  · intro h
    rw [of?] at h
    split at h
    · cases h
    · rename_i sign after hd
      cases h
      obtain ⟨ht, hname, hsign⟩ := Text.takeWhile_dropWhile_iff.1 ⟨rfl, hd⟩
      refine ⟨sign, after, ht, by simpa using hsign sign rfl, fun d hdname => ?_, rfl, rfl⟩
      simpa using hname d hdname
  · rintro ⟨sign, after, ht, hsign, hname, hsymbol, hliteral⟩
    have hpass : ∀ d ∈ a.name, (!counts t d) = true := fun d hd => by rw [hname d hd]; rfl
    obtain ⟨htake, hdrop⟩ :=
      Text.takeWhile_dropWhile_append_cons (c := sign) hpass (by rw [hsign]; rfl) after
    rw [← ht] at hdrop htake
    rw [of?, hdrop, htake]
    simp only [← hsymbol, ← hliteral]

/-- A name is never empty: the first character of a text does not count as a sign. -/
theorem name_ne_nil (h : of? t = some a) : a.name ≠ [] := by
  obtain ⟨sign, after, ht, hsign, -⟩ := of?_eq_some_iff.1 h
  intro hnil
  rw [counts, ht, hnil, List.nil_append, List.head?_cons] at hsign
  simp at hsign

/-- **The cut at the symbol does not depend on the literal.** -/
theorem of?_append_literal (h : of? t = some a) {literal : Text}
    (hl : Text.trimStart literal = literal) :
    of? (a.name ++ a.symbol ++ literal) = some { a with literal := literal } := by
  obtain ⟨sign, after, ht, hsign, hname, hsymbol, -⟩ := of?_eq_some_iff.1 h
  have hhead : (a.name ++ a.symbol ++ literal).head? = t.head? := by
    obtain ⟨first, rest, hfirst⟩ := List.exists_cons_of_ne_nil (name_ne_nil h)
    rw [ht, hfirst]
    rfl
  have hblank : Text.leadingBlanks literal = [] := by
    have hparts := Text.leadingBlanks_append_trimStart literal
    rw [hl] at hparts
    exact List.append_left_eq_self.1 hparts
  have hb := Text.allBlank_leadingBlanks after
  refine of?_eq_some_iff.2 ⟨sign, Text.leadingBlanks after ++ literal, ?_, ?_, ?_, ?_, ?_⟩
  · rw [hsymbol, List.append_assoc, List.cons_append]
  · rwa [counts_congr hhead]
  · exact fun d hd => by rw [counts_congr hhead, hname d hd]
  · rw [Text.leadingBlanks_append_of_allBlank hb, hblank, List.append_nil, hsymbol]
  · rw [Text.trimStart_append_of_allBlank hb, hl]

end Assignment

/-! ## The end of a line -/

namespace Code

variable {c : Char} {line : Text}

/-- Whether a character is no blank and no punctuation, so that the search for the end of a literal
stops there. -/
def isFirm (c : Char) : Bool := !Text.isBlank c && c ≠ ',' && c ≠ ';'

theorem isBlank_of_isFirm (h : isFirm c = true) : Text.isBlank c = false := by
  simp only [isFirm, Bool.and_eq_true, Bool.not_eq_true'] at h
  exact h.1.1

theorem not_punctuation_of_isFirm (h : isFirm c = true) : ¬(c = ',' ∨ c = ';') := by
  simp only [isFirm, Bool.and_eq_true, decide_eq_true_eq] at h
  rintro (hc | hc)
  · exact h.1.2 hc
  · exact h.2 hc

/-- The last character of a literal stops the search for the end of the line. -/
theorem exists_concat_of_kind {literal : Text}
    (h : LiteralKind.of literal ≠ .unknown) :
    ∃ body c, literal = body ++ [c] ∧ isFirm c = true ∧ c ≠ '/' := by
  obtain ⟨body, c, rfl, hc⟩ := LiteralKind.exists_concat h
  obtain ⟨hblank, hother⟩ := LiteralKind.not_isBlank_of_closes hc
  simp only [List.mem_cons, List.not_mem_nil, or_false, not_or] at hother
  exact ⟨body, c, rfl, by simp [isFirm, hblank, hother], hother.2.2⟩

theorem closingPunctuation_cases (t : Text) :
    closingPunctuation t = [] ∨ closingPunctuation t = [','] ∨ closingPunctuation t = [';'] := by
  rw [closingPunctuation]
  split
  · rename_i c _
    by_cases hc : c = ',' ∨ c = ';'
    · rw [if_pos hc]
      rcases hc with rfl | rfl
      · exact Or.inr (Or.inl rfl)
      · exact Or.inr (Or.inr rfl)
    · rw [if_neg hc]
      exact Or.inl rfl
  · exact Or.inl rfl

/-- A line without the punctuation it ends with, nor the blanks behind that. -/
def core (line : Text) : Text := withoutPunctuation (Text.trimEnd line)

theorem of?_eq (line : Text) : of? line =
    (if standsAlone (Text.trim (core line)) then some ⟨[], [], Text.trim (core line)⟩
      else Assignment.of? (Text.trim (core line))).map fun a =>
        { indent := Text.leadingBlanks (core line)
          name := a.name
          assignment := a.symbol
          literal := a.literal
          padding := Text.trailingBlanks (Text.trimStart (core line))
          punctuation := closingPunctuation (Text.trimEnd line)
          blanks := Text.trailingBlanks line } := rfl

/-- A line without the punctuation it ends with, nor any blanks around that. -/
def stem (line : Text) : Text := Text.trimEnd (core line)

theorem closingPunctuation_append_cons (s : Text) (hc : isFirm c = true) (t : Text) :
    closingPunctuation (s ++ c :: t) = closingPunctuation t := by
  have hlast : (s ++ c :: t).getLast? = some (t.getLast?.getD c) := by
    rw [List.getLast?_append, List.getLast?_cons, Option.some_or]
  rw [closingPunctuation, hlast, closingPunctuation]
  cases t.getLast? with
  | none => exact if_neg (not_punctuation_of_isFirm hc)
  | some d => rfl

theorem withoutPunctuation_append_cons (s : Text) (hc : isFirm c = true) (t : Text) :
    withoutPunctuation (s ++ c :: t) = s ++ c :: withoutPunctuation t := by
  have hwhole := withoutPunctuation_append (s ++ c :: t)
  have htail : s ++ c :: t = s ++ c :: withoutPunctuation t ++ closingPunctuation t := by
    rw [List.append_assoc, List.cons_append, withoutPunctuation_append]
  rw [closingPunctuation_append_cons s hc] at hwhole
  exact List.append_cancel_right (hwhole.trans htail)

theorem core_append_cons (s : Text) (hc : isFirm c = true) (t : Text) :
    core (s ++ c :: t) = s ++ c :: core t := by
  rw [core, Text.trimEnd_append_cons s (isBlank_of_isFirm hc), withoutPunctuation_append_cons s hc,
    core]

theorem stem_append_cons (s : Text) (hc : isFirm c = true) (t : Text) :
    stem (s ++ c :: t) = s ++ c :: stem t := by
  rw [stem, core_append_cons s hc, Text.trimEnd_append_cons s (isBlank_of_isFirm hc), stem]

theorem mem_stem (hc : isFirm c = true) (h : c ∈ line) : c ∈ stem line := by
  obtain ⟨s, t, rfl⟩ := List.append_of_mem h
  rw [stem_append_cons s hc]
  exact List.mem_append_right _ List.mem_cons_self

/-! ## Both together -/

/-- What stands before the literal of a line. -/
def before (k : Code) : Text := k.indent ++ k.name ++ k.assignment

/-- What stands behind the literal of a line without a comment. -/
def behind (k : Code) : Text := k.padding ++ k.punctuation ++ k.blanks

theorem toText_eq (k : Code) : k.toText = k.before ++ k.literal ++ k.behind := by
  simp [toText, before, behind]

/-- A name and a symbol keep a text from standing alone. -/
theorem standsAlone_eq_false {t : Text} {a : Assignment} (h : Assignment.of? t = some a)
    (hq : ∀ q : Quote, q.mark ∉ a.name) : standsAlone t = false := by
  obtain ⟨sign, after, ht, hsign, -⟩ := Assignment.of?_eq_some_iff.1 h
  obtain ⟨first, rest, hname⟩ := List.exists_cons_of_ne_nil (Assignment.name_ne_nil h)
  have hmem : sign ∈ t := ht ▸ List.mem_append_right _ List.mem_cons_self
  have hnumber : LiteralKind.of t ≠ .number := by
    intro hk
    have hchar := (Literal.IsNumber.of_isNumber (LiteralKind.isNumber_of_eq_number hk)).mem hmem
    rcases (Assignment.counts_eq_true_iff.1 hsign).1 with rfl | rfl <;>
      exact absurd hchar (by decide)
  have hstring : LiteralKind.of t ≠ .string := by
    intro hk
    obtain ⟨q, body, hbody, -⟩ := Literal.isString_iff.1 (LiteralKind.isString_of_eq_string hk)
    rw [hbody, hname] at ht
    have hfirst : q.mark = first := (List.cons.inj ht).1
    exact hq q (hname ▸ hfirst ▸ List.mem_cons_self)
  rw [standsAlone]
  split
  · rename_i hk
    exact absurd hk hnumber
  · rename_i hk
    exact absurd hk hstring
  · rfl

/-- What a line can begin with when a literal is to follow: blanks, a name without quotation marks,
and a symbol. -/
structure Opens (indent name symbol : Text) : Prop where
  indent : Text.AllBlank indent
  clear : Text.trimStart name = name
  unquoted : ∀ q : Quote, q.mark ∉ name
  assigns : ∀ {literal : Text}, Text.trimStart literal = literal →
    Assignment.of? (name ++ symbol ++ literal) = some ⟨name, symbol, literal⟩

/-- A line that gives a literal with a name begins with that name. -/
theorem opens_of_of? {k : Code} (h : of? line = some k) (hne : k.assignment ≠ [])
    (hq : ∀ q : Quote, q.mark ∉ k.name) : Opens k.indent k.name k.assignment := by
  obtain ⟨a, ha, rfl⟩ := Option.map_eq_some_iff.1 h
  split at ha
  · cases ha
    exact absurd rfl hne
  · refine ⟨Text.allBlank_leadingBlanks _, ?_, hq, fun hl => Assignment.of?_append_literal ha hl⟩
    obtain ⟨sign, after, hstatement, -⟩ := Assignment.of?_eq_some_iff.1 ha
    obtain ⟨first, rest, hname⟩ := List.exists_cons_of_ne_nil (Assignment.name_ne_nil ha)
    have hstart : Text.trimStart (Text.trim (core line)) = Text.trim (core line) :=
      Text.trimStart_trimEnd_of_eq (Text.trimStart_trimStart _)
    rw [core, hstatement, hname] at hstart
    rw [hname, Text.trimStart_cons (Text.isBlank_of_trimStart_eq_cons hstart)]

namespace Opens

variable {indent name symbol : Text}

theorem exists_sign (h : Opens indent name symbol) :
    ∃ sign blanks, (sign = ':' ∨ sign = '=') ∧ Text.AllBlank blanks ∧ symbol = sign :: blanks := by
  obtain ⟨sign, after, hsign, hsymbol⟩ :=
    Assignment.of?_symbol (h.assigns (rfl : Text.trimStart [] = []))
  exact ⟨sign, _, hsign, Text.allBlank_leadingBlanks after, hsymbol⟩

theorem trimStart_append (h : Opens indent name symbol) (t : Text) :
    Text.trimStart (indent ++ (name ++ t)) = name ++ t := by
  have hne : Text.trimStart name ≠ [] := by
    rw [h.clear]
    exact Assignment.name_ne_nil (h.assigns (rfl : Text.trimStart [] = []))
  rw [Text.trimStart_append_of_allBlank h.indent, Text.trimStart_append hne, h.clear]

theorem leadingBlanks_append (h : Opens indent name symbol) (t : Text) :
    Text.leadingBlanks (indent ++ (name ++ t)) = indent := by
  have hwhole := Text.leadingBlanks_append_trimStart (indent ++ (name ++ t))
  rw [h.trimStart_append t] at hwhole
  exact List.append_cancel_right hwhole

/-- **The literal behind a name and a symbol** is found whatever comes after it, up to the last text
that is neither blank nor punctuation. -/
theorem of?_append (h : Opens indent name symbol) {body : Text} {c : Char}
    (hbody : Text.trimStart (body ++ [c]) = body ++ [c]) (hc : isFirm c = true) (tail : Text) :
    of? (indent ++ name ++ symbol ++ (body ++ [c]) ++ tail)
      = some ⟨indent, name, symbol, body ++ [c] ++ stem tail,
          Text.trailingBlanks (core tail), closingPunctuation (Text.trimEnd tail),
          Text.trailingBlanks tail⟩ := by
  have hblank := isBlank_of_isFirm hc
  have hline : indent ++ name ++ symbol ++ (body ++ [c]) ++ tail
      = indent ++ (name ++ symbol ++ body) ++ c :: tail := by simp
  have hcore : core (indent ++ (name ++ symbol ++ body) ++ c :: tail)
      = indent ++ (name ++ (symbol ++ body ++ c :: core tail)) := by
    rw [core_append_cons _ hc]
    simp
  have hstart := h.trimStart_append (symbol ++ body ++ c :: core tail)
  have hend : Text.trimEnd (name ++ (symbol ++ body ++ c :: core tail))
      = name ++ symbol ++ (body ++ [c] ++ stem tail) := by
    rw [← List.append_assoc, Text.trimEnd_append_cons _ hblank, stem]
    simp
  have hliteral : Text.trimStart (body ++ [c] ++ stem tail)
      = body ++ [c] ++ stem tail := by
    rw [Text.trimStart_append (by rw [hbody]; simp), hbody]
  have hassigns := h.assigns hliteral
  have hpadding : Text.trailingBlanks (name ++ (symbol ++ body ++ c :: core tail))
      = Text.trailingBlanks (core tail) := by
    rw [← List.append_assoc, Text.trailingBlanks_append_cons _ hblank]
  have hpunctuation : closingPunctuation
      (Text.trimEnd (indent ++ (name ++ symbol ++ body) ++ c :: tail))
        = closingPunctuation (Text.trimEnd tail) := by
    rw [Text.trimEnd_append_cons _ hblank, closingPunctuation_append_cons _ hc]
  rw [hline, of?_eq, hcore, Text.trim, hstart, hend, if_neg, hassigns, Option.map_some,
    h.leadingBlanks_append, hpadding, hpunctuation, Text.trailingBlanks_append_cons _ hblank]
  rw [standsAlone_eq_false hassigns h.unquoted]
  exact Bool.false_ne_true

end Opens

end Code
end Marginalia
