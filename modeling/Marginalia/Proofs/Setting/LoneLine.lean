import Marginalia.Proofs.Setting.LoneString
import Marginalia.Proofs.Setting.Offsets

/-!
# Lines of one literal, as a pattern

The lines that are read from the left are those of one pattern: blanks, a number or a quoted text
without its own mark inside, a comma or semicolon, blanks, and a comment to the end of the line, the
last three of which may be missing.  `Lone.Parts.Fits` is that pattern.  It says what the parts are
made of and nothing about how they are found, nor which of several ways to read a line would count.

There is no choice to be made, though.  A quoted text ends at the next mark and a number where no
digit follows, the parts behind them begin with different characters, and so a line fits in one way
only: reading it from the left finds it (`Lone.cut?_of_fits`), and whatever that reads fits
(`Lone.exists_fits_of_cut?`).

The reader of literals goes another way.  Given the line without its comment, it takes blanks and
punctuation off at the end and asks of what kind the rest is.

* `of?_of_fits` — **both agree**: the setting of a line that fits has the literal, the punctuation
  and the comment of the pattern, and no name.
-/

set_option autoImplicit false
namespace Marginalia

/-! ## The code of a line with more blanks behind it -/

/-- Blanks behind a line without a comment only add to the blanks at its end. -/
theorem Code.of?_append_blanks {blanks : Text} (h : Text.AllBlank blanks) (line : Text) :
    of? (line ++ blanks) = (of? line).map fun k => { k with blanks := k.blanks ++ blanks } := by
  have hcore : core (line ++ blanks) = core line := by
    rw [core, Text.trimEnd_append_of_allBlank line h, core]
  rw [of?_eq, of?_eq, hcore, Text.trimEnd_append_of_allBlank line h,
    Text.trailingBlanks_append_of_allBlank line h, Option.map_map]
  rfl

namespace Setting

open Literal (isDigit isDigits digits? IsUnsigned)

namespace Lone

variable {t run number literal rest line : Text}

/-! ## The pattern -/

/-- A literal that is read from the left: a number, or a quoted text without its own mark inside. -/
inductive IsLiteral : Text → Prop where
  /-- A number without a sign. -/
  | number {t : Text} (h : IsUnsigned t) : IsLiteral t
  /-- A number behind a minus sign. -/
  | negative {t : Text} (h : IsUnsigned t) : IsLiteral ('-' :: t)
  /-- A quoted text; a backslash in it is a character like any other. -/
  | quoted {inner : Text} (q : Quote) (hone : onOneLine inner = true) (hinner : q.mark ∉ inner) :
      IsLiteral (q.mark :: inner ++ [q.mark])

/-- A line of one literal, in parts. -/
structure Parts where
  indent : Text
  literal : Text
  punctuation : Text
  blanks : Text
  comment : Text

/-- What stands behind the literal. -/
def Parts.behind (p : Parts) : Text := p.punctuation ++ (p.blanks ++ p.comment)

/-- What stands before the comment. -/
def Parts.code (p : Parts) : Text := p.indent ++ p.literal ++ p.punctuation ++ p.blanks

/-- **The pattern of a line of one literal.** -/
structure Parts.Fits (p : Parts) (line : Text) : Prop where
  line_eq : p.indent ++ p.literal ++ p.behind = line
  indent : Text.AllBlank p.indent
  literal : IsLiteral p.literal
  punctuation : IsSeparator p.punctuation
  blanks : Text.AllBlank p.blanks
  comment : p.comment = [] ∨ "//".toList <+: p.comment ∧ '\n' ∉ p.comment

variable {p : Parts}

/-! ## Numbers -/

/-- The digits a text begins with are all there are: what follows does not begin with one. -/
theorem digits?_eq_some_iff : digits? t = some (run, rest) ↔
    t = run ++ rest ∧ isDigits run = true ∧ ∀ c ∈ rest.head?, isDigit c = false := by
  have hcut : digits? t = some (run, rest) ↔
      (t.takeWhile isDigit = run ∧ t.dropWhile isDigit = rest) ∧ run ≠ [] := by
    rw [digits?]
    split
    · rename_i hnone
      exact iff_of_false (Option.some_ne_none _).symm fun h => h.2 (h.1.1.symm.trans hnone)
    · rename_i hne
      rw [Option.some.injEq, Prod.mk.injEq]
      exact ⟨fun h => ⟨h, fun hnil => hne (h.1.trans hnil)⟩, fun h => h.1⟩
  rw [hcut, Text.takeWhile_dropWhile_iff, Literal.isDigits_iff]
  constructor
  · rintro ⟨⟨ht, hrun, hrest⟩, hne⟩
    exact ⟨ht, ⟨hne, hrun⟩, hrest⟩
  · rintro ⟨ht, ⟨hne, hrun⟩, hrest⟩
    exact ⟨⟨ht, hrun, hrest⟩, hne⟩

/-- A text that no number goes on into. -/
def StopsNumber (t : Text) : Prop := ∀ c ∈ t.head?, isDigit c = false ∧ c ≠ '.'

theorem isUnsigned_of_unsigned? (h : unsigned? t = some (number, rest)) : IsUnsigned number := by
  obtain ⟨⟨whole, r⟩, hwhole, he⟩ := Option.map_eq_some_iff.1 h
  obtain ⟨-, hw, -⟩ := digits?_eq_some_iff.1 hwhole
  simp only at he
  split at he
  · split at he
    · rename_i fraction r' hfraction
      cases he
      exact .fraction hw (digits?_eq_some_iff.1 hfraction).2.1
    · cases he
      exact .whole hw
  · cases he
    exact .whole hw

theorem unsigned?_append_of_stops (h : IsUnsigned number) (hrest : StopsNumber rest) :
    unsigned? (number ++ rest) = some (number, rest) := by
  cases h with
  | whole hw =>
    have hdigits : digits? (number ++ rest) = some (number, rest) :=
      digits?_eq_some_iff.2 ⟨rfl, hw, fun c hc => (hrest c hc).1⟩
    rw [unsigned?, hdigits, Option.map_some]
    simp only
    split
    · exact absurd rfl (hrest '.' rfl).2
    · rfl
  | @fraction whole fraction hw hf =>
    have hwhole : digits? (whole ++ '.' :: fraction ++ rest)
        = some (whole, '.' :: (fraction ++ rest)) := by
      refine digits?_eq_some_iff.2 ⟨by simp, hw, fun c hc => ?_⟩
      obtain rfl : '.' = c := Option.some.inj hc
      decide
    have hfraction : digits? (fraction ++ rest) = some (fraction, rest) :=
      digits?_eq_some_iff.2 ⟨rfl, hf, fun c hc => (hrest c hc).1⟩
    rw [unsigned?, hwhole, Option.map_some]
    simp only [hfraction]

theorem number?_of_head (h : t.head? ≠ some '-') : number? t = unsigned? t := by
  rw [number?.eq_def]
  split
  · exact absurd rfl h
  · rfl

/-! ## Literals -/

theorem isLiteral_of_number? (h : number? t = some (literal, rest)) : IsLiteral literal := by
  rw [number?.eq_def] at h
  split at h
  · obtain ⟨⟨number, r⟩, hnumber, he⟩ := Option.map_eq_some_iff.1 h
    cases he
    exact .negative (isUnsigned_of_unsigned? hnumber)
  · exact .number (isUnsigned_of_unsigned? h)

theorem isLiteral_of_quoted? (h : quoted? t = some (literal, rest)) : IsLiteral literal := by
  rw [quoted?.eq_def] at h
  split at h
  · cases h
  · rename_i c r
    split at h
    · cases h
    · rename_i q hq
      obtain rfl := Quote.mark_of_ofChar? hq
      simp only at h
      split at h
      · cases h
      · split at h
        · cases h
          have hpass : ∀ d ∈ r.takeWhile fun d => !(d = q.mark || d = '\r' || d = '\n'),
              d ≠ q.mark ∧ d ≠ '\r' ∧ d ≠ '\n' := by
            intro d hd
            have hends := List.all_eq_true.1 List.all_takeWhile d hd
            simpa [and_assoc] using hends
          refine .quoted q (List.all_eq_true.2 fun d hd => ?_) fun hmem => (hpass _ hmem).1 rfl
          simpa using (hpass d hd).2
        · cases h

theorem isLiteral_of_literal? (h : literal? t = some (literal, rest)) : IsLiteral literal := by
  rw [literal?] at h
  cases hn : number? t with
  | some parts =>
    rw [hn] at h
    cases h
    exact isLiteral_of_number? hn
  | none =>
    rw [hn] at h
    exact isLiteral_of_quoted? h

/-- **A literal of the pattern is read whole**, and no character of what follows with it. -/
theorem literal?_append_of_stops (h : IsLiteral literal) (hrest : StopsNumber rest) :
    literal? (literal ++ rest) = some (literal, rest) := by
  cases h with
  | number h =>
    obtain ⟨c, r, rfl, hc⟩ := h.exists_cons
    have hhead : (c :: r ++ rest).head? ≠ some '-' := by
      intro he
      rw [Option.some.inj he] at hc
      cases hc
    rw [literal?, number?_of_head hhead, unsigned?_append_of_stops h hrest]
    rfl
  | @negative t h =>
    rw [literal?, List.cons_append, number?, unsigned?_append_of_stops h hrest]
    rfl
  | @quoted inner q hone hinner =>
    rw [literal?, List.append_assoc, List.singleton_append, quoted?_mark hone hinner,
      List.cons_append, number?_mark]
    rfl

/-- A literal of the pattern is one that may have a line to itself. -/
theorem IsLiteral.standsAlone (h : IsLiteral literal) : Code.standsAlone literal = true := by
  rw [Code.standsAlone_eq_true_iff]
  cases h with
  | number h =>
    exact Or.inl (LiteralKind.of_eq_number (Literal.isNumber_of_withoutSign h.withoutSign_eq h))
  | negative h => exact Or.inl (LiteralKind.of_eq_number (Literal.isNumber_of_withoutSign rfl h))
  | @quoted inner q hone hinner =>
    have hbalances : q.balances inner = true := by
      refine Quote.balances_iff.2 fun hmem => ?_
      rcases Quote.mem_of_mem_replaceEscaped hmem with h | h
      · cases h
      · exact hinner h
    have hstring := Literal.isString_iff.2 ⟨q, inner, rfl, hone, hbalances⟩
    exact Or.inr (LiteralKind.of_eq_string hstring)

/-! ## The whole line -/

namespace Parts.Fits

/-- What may stand first behind the punctuation. -/
theorem isBlank_or_slash (h : p.Fits line) {c : Char}
    (hc : (p.blanks ++ p.comment).head? = some c) : Text.isBlank c = true ∨ c = '/' := by
  have hblanks := h.blanks
  cases hb : p.blanks with
  | cons d blanks =>
    rw [hb] at hc hblanks
    obtain rfl : d = c := Option.some.inj hc
    exact Or.inl (hblanks d List.mem_cons_self)
  | nil =>
    rw [hb, List.nil_append] at hc
    rcases h.comment with hnil | ⟨⟨r, hr⟩, -⟩
    · rw [hnil] at hc
      cases hc
    · rw [← hr] at hc
      exact Or.inr (Option.some.inj hc).symm

theorem punctuation_behind (h : p.Fits line) :
    Lone.punctuation p.behind = (p.punctuation, p.blanks ++ p.comment) := by
  refine punctuation_append_of_head h.punctuation ⟨fun hc => ?_, fun hc => ?_⟩
  all_goals rcases h.isBlank_or_slash hc with h | h <;> cases h

theorem stopsNumber_behind (h : p.Fits line) : StopsNumber p.behind := by
  have hpunctuation := h.punctuation
  rw [Parts.behind]
  generalize p.punctuation = separator at hpunctuation
  intro c hc
  cases hpunctuation with
  | nothing =>
    rcases h.isBlank_or_slash hc with hblank | rfl
    · constructor
      · rw [Bool.eq_false_iff]
        intro hdigit
        rw [LiteralKind.not_isBlank_of_isDigit hdigit] at hblank
        cases hblank
      · rintro rfl
        cases hblank
    · decide
  | comma =>
    obtain rfl : ',' = c := Option.some.inj hc
    decide
  | semicolon =>
    obtain rfl : ';' = c := Option.some.inj hc
    decide

theorem trimStart_comment (h : p.Fits line) : Text.trimStart p.comment = p.comment ∧
    Text.leadingBlanks p.comment = [] := by
  rcases h.comment with hnil | ⟨⟨r, hr⟩, -⟩
  · rw [hnil]
    exact ⟨rfl, rfl⟩
  · rw [← hr]
    exact ⟨rfl, rfl⟩

end Parts.Fits

theorem cut?_of_fits (h : p.Fits line) : cut? line = some (p.code, p.comment) := by
  have hknown : LiteralKind.of p.literal ≠ .unknown := by
    rcases Code.standsAlone_eq_true_iff.1 h.literal.standsAlone with hk | hk <;> simp [hk]
  obtain ⟨c, r, hliteral, hc⟩ := LiteralKind.of_eq_openedBy hknown
  have hblank : Text.isBlank c = false := by
    rw [hc] at hknown
    exact LiteralKind.not_isBlank_of_openedBy hknown
  obtain ⟨hleading, hstart⟩ :
      Text.leadingBlanks line = p.indent ∧ Text.trimStart line = p.literal ++ p.behind := by
    rw [← h.line_eq, List.append_assoc, hliteral]
    exact Text.takeWhile_dropWhile_append_cons h.indent hblank _
  obtain ⟨hcomment, hnone⟩ := h.trimStart_comment
  rw [cut?, hstart, hleading, literal?_append_of_stops h.literal h.stopsNumber_behind]
  simp only [h.punctuation_behind, Text.trimStart_append_of_allBlank h.blanks, hcomment,
    Text.leadingBlanks_append_of_allBlank h.blanks, hnone, List.append_nil]
  rw [if_pos (endsLine_iff.2 h.comment), Parts.code]

theorem exists_fits_of_cut? (h : cut? line ≠ none) : ∃ p : Parts, p.Fits line := by
  rw [cut?] at h
  cases hliteral : literal? (Text.trimStart line) with
  | none => simp [hliteral] at h
  | some parts =>
    obtain ⟨literal, rest⟩ := parts
    simp only [hliteral] at h
    split at h
    · rename_i hends
      let p : Parts := ⟨Text.leadingBlanks line, literal, (punctuation rest).1,
        Text.leadingBlanks (punctuation rest).2, Text.trimStart (punctuation rest).2⟩
      refine ⟨p, ?_, Text.allBlank_leadingBlanks line, isLiteral_of_literal? hliteral,
        isSeparator_punctuation rest, Text.allBlank_leadingBlanks _, endsLine_iff.1 hends⟩
      have hbehind : p.behind = rest := by
        rw [Parts.behind, Text.leadingBlanks_append_trimStart, punctuation_append]
      rw [hbehind, List.append_assoc, literal?_append hliteral,
        Text.leadingBlanks_append_trimStart]
    · exact absurd rfl h

/-- The comment starts at the first pair of slashes behind the literal. -/
theorem Parts.Fits.findBytes?_behind (h : p.Fits line) :
    Text.findBytes? "//".toList p.behind =
      if p.comment = [] then none else some (Text.byteLength (p.punctuation ++ p.blanks)) := by
  have hslash : '/' ∉ p.punctuation ++ p.blanks := by
    rw [List.mem_append, not_or]
    constructor
    · have hpunctuation := h.punctuation
      generalize p.punctuation = separator at hpunctuation
      cases hpunctuation <;> decide
    · exact fun hmem => by cases h.blanks _ hmem
  rw [Parts.behind, ← List.append_assoc, Text.findBytes?]
  have hskip := Text.findBytesFrom?_append_of_not_mem hslash ['/'] 0 p.comment
  rw [show "//".toList = '/' :: ['/'] from rfl, hskip, Nat.zero_add]
  rcases h.comment with hnil | ⟨⟨r, hr⟩, -⟩
  · rw [hnil]
    rfl
  · rw [← hr]
    rfl

end Lone

/-- **A line that fits the pattern is read as the pattern says**: its literal is a number or a
string, no name stands before it, and the comment is the one behind it, from the first pair of
slashes there to the end.  The lines that fit are those that are read from the left. -/
theorem of?_of_fits (line : Text) :
    (Lone.cut? line ≠ none ↔ ∃ p : Lone.Parts, p.Fits line) ∧
      ∀ p : Lone.Parts, p.Fits line →
        of? line = some ⟨p.indent, [], p.literal, [], p.punctuation, p.blanks ++ p.comment⟩ ∧
          (LiteralKind.of p.literal = .number ∨ LiteralKind.of p.literal = .string) ∧
          splitRemark line = (p.code, p.comment) ∧
          commentAt? line = some ((Text.findBytes? "//".toList p.behind).map
            fun found => Text.byteLength (p.indent ++ p.literal) + found) := by
  refine ⟨⟨Lone.exists_fits_of_cut?, ?_⟩, fun p h => ?_⟩
  · rintro ⟨p, h⟩
    rw [Lone.cut?_of_fits h]
    exact Option.some_ne_none _
  · have hcut := Lone.cut?_of_fits h
    have halone := h.literal.standsAlone
    have hsplit : splitRemark line = (p.code, p.comment) := by rw [splitRemark, hcut]
    have hcode : Code.of? p.code
        = some ⟨p.indent, [], [], p.literal, [], p.punctuation, p.blanks⟩ := by
      rw [Lone.Parts.code, Code.of?_append_blanks h.blanks,
        Code.of?_lone h.indent halone h.punctuation]
      rfl
    refine ⟨?_, Code.standsAlone_eq_true_iff.1 halone, hsplit, ?_⟩
    · rw [of?_eq, hsplit, hcode]
      simp
    · rw [commentAt?, hcut, h.findBytes?_behind]
      by_cases hnil : p.comment = []
      · simp [hnil]
      · simp [hnil, Lone.Parts.code, Nat.add_assoc]

/-- Other blanks than spaces, a quotation that looks like a setting with a comment and ends with a
backslash, and slashes in the comment. -/
theorem of?_of_fits_slashes :
    let line := "\u00a0 '//a = \"b\": c,\\';\u2003// d // e".toList
    let p : Lone.Parts := ⟨"\u00a0 ".toList, "'//a = \"b\": c,\\'".toList, [';'],
      "\u2003".toList, "// d // e".toList⟩
    p.Fits line ∧ Lone.cut? line ≠ none ∧
      of? line = some ⟨p.indent, [], p.literal, [], p.punctuation, p.blanks ++ p.comment⟩ ∧
      LiteralKind.of p.literal = .string ∧ splitRemark line = (p.code, p.comment) ∧
      commentAt? line = some (some 23) := by
  intro line p
  have hliteral : Lone.IsLiteral p.literal :=
    @Lone.IsLiteral.quoted "//a = \"b\": c,\\".toList .single (by decide) (by decide)
  have hfits : p.Fits line :=
    ⟨by decide +kernel, List.all_eq_true.1 (by decide), hliteral, .semicolon,
      List.all_eq_true.1 (by decide), Or.inr (by decide +kernel)⟩
  obtain ⟨hcut, hread⟩ := of?_of_fits line
  obtain ⟨hof, hkind, hsplit, hcomment⟩ := hread p hfits
  have hstring : LiteralKind.of p.literal = .string :=
    hkind.resolve_left (by decide +kernel)
  exact ⟨hfits, hcut.2 ⟨p, hfits⟩, hof, hstring, hsplit, hcomment.trans (by decide +kernel)⟩

end Setting
end Marginalia
