import Marginalia.Proofs.Setting.Code
import Marginalia.Proofs.Text.Offset

/-!
# Where the parts of a line are

`Code.of?` cuts a line by cutting a list in two, again and again.  A reader that works on the line in
place computes offsets instead, in bytes, from what it has looked at so far: the end of the content,
the end without the punctuation, the start and the end of the statement, the place of the sign that
assigns, and the start of the literal behind it.  `Code.spots?` is that reader for a line without a
comment, with a `Text.slice?` wherever it takes a piece of the line out.

* `LiteralKind.sliced?_eq` — the kind of a literal is found with the body of a string sliced out.
* `Assignment.signAt?_eq` — the sign that assigns is found from the first colon and the first equals
  sign, where an offset of zero counts as not found.
* `Code.spots?_eq` — **no slice misses**, and the offsets are those of the parts.
-/

set_option autoImplicit false
namespace Marginalia

/-! ## The kind of a literal -/

namespace Literal

/-- Whether a text is a string, its body being sliced out of it; none when the slice misses. -/
def isString? (t : Text) : Option Bool :=
  match Quote.around? t with
  | none => some false
  | some q => (Text.slice? 1 (Text.byteLength t - 1) t).map q.balances

theorem isString?_eq (t : Text) : isString? t = some (isString t) := by
  rw [isString?, isString]
  cases hq : Quote.around? t with
  | none => rfl
  | some q =>
    obtain ⟨body, rfl, -⟩ := Quote.around?_eq_some_iff.1 hq
    have hmark : q.mark.utf8Size = 1 := by cases q <;> rfl
    have hbody : Text.slice? 1 (Text.byteLength (q.mark :: body ++ [q.mark]) - 1)
        (q.mark :: body ++ [q.mark]) = some body := by
      refine Text.slice?_eq (s := [q.mark]) rfl ?_ ?_
      · rw [Text.byteLength_cons, hmark, Text.byteLength_nil]
      · simp only [Text.byteLength_append, Text.byteLength_cons, Text.byteLength_nil, hmark]
        omega
    change Option.map q.balances (Text.slice? _ _ _) = _
    rw [hbody, Option.map_some]
    simp only [Quote.between, List.cons_append, List.tail_cons, List.dropLast_concat]

end Literal

namespace LiteralKind

/-- The kind of a literal, found with a slice; none when that misses. -/
def sliced? (t : Text) : Option LiteralKind :=
  if t = "true".toList ∨ t = "false".toList then some boolean
  else if Literal.isNumber t then some number
  else if Literal.isEnclosed '[' ']' t then some array
  else if Literal.isEnclosed '\x7b' '\x7d' t then some object
  else (Literal.isString? t).map fun isString => if isString then string else unknown

theorem sliced?_eq (t : Text) : sliced? t = some (of t) := by
  rw [sliced?, of, Literal.isString?_eq, Option.map_some]
  simp only [apply_ite some]

end LiteralKind

theorem Code.standsAlone_eq_true_iff {t : Text} :
    standsAlone t = true ↔ LiteralKind.of t = .number ∨ LiteralKind.of t = .string := by
  rw [standsAlone]
  cases LiteralKind.of t <;> simp

/-! ## The sign that assigns -/

namespace Assignment

variable {t : Text}

/-- Where a sign stands, zero when it stands nowhere. -/
def offset (sign : Char) (t : Text) : Nat := (Text.findBytes? [sign] t).getD 0

/-- Where the sign that assigns stands: the first of a colon and an equals sign, neither of which
counts at the very beginning. -/
def signAt? (t : Text) : Option Nat :=
  let equals := offset '=' t
  let colon := offset ':' t
  if 0 < colon ∧ (equals = 0 ∨ colon < equals) then some colon
  else if 0 < equals ∧ (colon = 0 ∨ equals < colon) then some equals
  else none

theorem offset_eq_zero {sign : Char} (h : t.head? = some sign ∨ sign ∉ t) : offset sign t = 0 := by
  rcases h with h | h
  · obtain ⟨r, rfl⟩ := List.head?_eq_some_iff.1 h
    have hfind := Text.findBytesFrom?_append_cons (s := []) (List.not_mem_nil (a := sign)) 0 r
    rw [offset, Text.findBytes?, ← List.nil_append (sign :: r), hfind]
    rfl
  · rw [offset, Text.findBytes?, Text.findBytesFrom?_singleton_eq_none h]
    rfl

theorem offset_append_cons {sign : Char} {name : Text} (h : sign ∉ name) (after : Text) :
    offset sign (name ++ sign :: after) = Text.byteLength name := by
  rw [offset, Text.findBytes?, Text.findBytesFrom?_append_cons h, Nat.zero_add]
  rfl

theorem utf8Size_of_counts {sign : Char} (h : counts t sign = true) : sign.utf8Size = 1 := by
  rcases (counts_eq_true_iff.1 h).1 with rfl | rfl <;> rfl

/-- The sign that does not assign stands nowhere, or further right. -/
theorem offset_other {sign other : Char} {name after : Text} (ht : t = name ++ sign :: after)
    (hname : ∀ d ∈ name, counts t d = false) (hother : other = ':' ∨ other = '=')
    (hne : other ≠ sign) : offset other t = 0 ∨ Text.byteLength name < offset other t := by
  by_cases hhead : t.head? = some other
  · exact Or.inl (offset_eq_zero (Or.inl hhead))
  · by_cases hmem : other ∈ t
    · have hbefore : other ∉ name := by
        intro hn
        have hcounts := counts_eq_true_iff.2 ⟨hother, hhead⟩
        rw [hname other hn] at hcounts
        cases hcounts
      have hafter : other ∈ after := by
        rw [ht] at hmem
        have hrest := (List.mem_append.1 hmem).resolve_left hbefore
        exact (List.mem_cons.1 hrest).resolve_left hne
      obtain ⟨between, rest, hsplit, hbetween⟩ := List.eq_append_cons_of_mem hafter
      have ht' : t = (name ++ sign :: between) ++ other :: rest := by
        rw [ht, hsplit]
        simp
      have hnone : other ∉ name ++ sign :: between := by
        simp [hbefore, hne, hbetween]
      have hpos := sign.utf8Size_pos
      rw [ht', offset_append_cons hnone, Text.byteLength_append, Text.byteLength_cons]
      exact Or.inr (by omega)
    · exact Or.inl (offset_eq_zero (Or.inr hmem))

/-- **The offsets find the sign** at which a text is cut. -/
theorem signAt?_eq (t : Text) : signAt? t = (of? t).map fun a => Text.byteLength a.name := by
  cases ha : of? t with
  | none =>
    have hnone := of?_eq_none_iff.1 ha
    have hzero : ∀ sign, (sign = ':' ∨ sign = '=') → offset sign t = 0 := by
      intro sign hsign
      refine offset_eq_zero ?_
      by_contra hneither
      rw [not_or, not_not] at hneither
      have hcounts := counts_eq_true_iff.2 ⟨hsign, hneither.1⟩
      rw [hnone sign hneither.2] at hcounts
      cases hcounts
    rw [signAt?, hzero ':' (Or.inl rfl), hzero '=' (Or.inr rfl)]
    rfl
  | some a =>
    obtain ⟨sign, after, ht, hcounts, hname, -⟩ := of?_eq_some_iff.1 ha
    have hfirst : sign ∉ a.name := by
      intro hmem
      rw [hname sign hmem] at hcounts
      cases hcounts
    have hoffset : offset sign t = Text.byteLength a.name := by
      rw [ht, offset_append_cons hfirst]
    have hpos : 0 < Text.byteLength a.name := by
      refine Nat.pos_of_ne_zero fun hzero => ?_
      exact name_ne_nil ha (Text.byteLength_eq_zero_iff.1 hzero)
    rw [Option.map_some, signAt?]
    rcases (counts_eq_true_iff.1 hcounts).1 with rfl | rfl
    · have hother := offset_other ht hname (Or.inr rfl) (by decide)
      rw [hoffset, if_pos ⟨hpos, hother⟩]
    · have hother := offset_other ht hname (Or.inl rfl) (by decide)
      rw [hoffset, if_neg (by omega), if_pos ⟨hpos, hother⟩]

end Assignment

/-! ## The parts of a line without a comment -/

/-- Where the parts of a line without a comment stand: the sign that assigns, if the literal has a
name, the literal and the punctuation, each from its start to its end. -/
structure Spots where
  sign : Option Nat
  literal : Nat × Nat
  punctuation : Nat × Nat
  deriving DecidableEq, Repr

namespace Code

/-- Where the parts of a line without a comment stand, found by slicing it; the outer option is none
when a slice misses, and the inner one when there is no literal. -/
def spots? (code : Text) : Option (Option Spots) := do
  let contentEnd := Text.byteLength (Text.trimEnd code)
  let content ← Text.slice? 0 contentEnd code
  let coreEnd := if closingPunctuation content = [] then contentEnd else contentEnd - 1
  let core ← Text.slice? 0 coreEnd code
  let start := Text.byteLength core - Text.byteLength (Text.trimStart core)
  let statement := Text.trim core
  let stop := start + Text.byteLength statement
  let kind ← LiteralKind.sliced? statement
  if kind = .number ∨ kind = .string then
    return some ⟨none, (start, stop), (coreEnd, contentEnd)⟩
  match Assignment.signAt? statement with
  | none => return none
  | some sign =>
    let symbol := start + sign
    let after ← Text.slice? (symbol + 1) stop code
    let blanks := Text.byteLength after - Text.byteLength (Text.trimStart after)
    return some ⟨some symbol, (symbol + 1 + blanks, stop), (coreEnd, contentEnd)⟩

/-- Where the parts of a line stand, given the parts. -/
def spots (k : Code) : Spots where
  sign := if k.assignment = [] then none else some (Text.byteLength (k.indent ++ k.name))
  literal := (Text.byteLength k.before, Text.byteLength (k.before ++ k.literal))
  punctuation := (Text.byteLength (k.before ++ k.literal ++ k.padding),
    Text.byteLength (k.before ++ k.literal ++ k.padding ++ k.punctuation))

theorem byteLength_closingPunctuation {t : Text} (h : closingPunctuation t ≠ []) :
    Text.byteLength (closingPunctuation t) = 1 := by
  rcases closingPunctuation_cases t with hc | hc | hc
  · exact absurd hc h
  · rw [hc]
    rfl
  · rw [hc]
    rfl

theorem byteLength_withoutPunctuation (t : Text) :
    (if closingPunctuation t = [] then Text.byteLength t else Text.byteLength t - 1)
      = Text.byteLength (withoutPunctuation t) := by
  have hwhole := congrArg Text.byteLength (withoutPunctuation_append t)
  rw [Text.byteLength_append] at hwhole
  by_cases h : closingPunctuation t = []
  · rw [h, Text.byteLength_nil] at hwhole
    rw [if_pos h]
    omega
  · rw [byteLength_closingPunctuation h] at hwhole
    rw [if_neg h]
    omega

theorem byteLength_blanks (t : Text) :
    Text.byteLength t - Text.byteLength (Text.trimStart t)
      = Text.byteLength (Text.leadingBlanks t) := by
  have hwhole := congrArg Text.byteLength (Text.leadingBlanks_append_trimStart t)
  rw [Text.byteLength_append] at hwhole
  omega

theorem core_append (code : Text) : core code
    ++ (closingPunctuation (Text.trimEnd code) ++ Text.trailingBlanks code) = code := by
  rw [← List.append_assoc, core, withoutPunctuation_append, Text.trimEnd_append_trailingBlanks]

theorem indent_append_statement (code : Text) : Text.leadingBlanks (core code)
    ++ (Text.trim (core code) ++ Text.trailingBlanks (Text.trimStart (core code))) = core code := by
  rw [Text.trim, Text.trimEnd_append_trailingBlanks, Text.leadingBlanks_append_trimStart]

theorem byteLength_core (code : Text) : Text.byteLength (core code)
    = Text.byteLength (Text.leadingBlanks (core code)) + Text.byteLength (Text.trim (core code))
      + Text.byteLength (Text.trailingBlanks (Text.trimStart (core code))) := by
  have hparts := congrArg Text.byteLength (indent_append_statement code)
  rw [Text.byteLength_append, Text.byteLength_append] at hparts
  omega

theorem byteLength_trimEnd (code : Text) : Text.byteLength (Text.trimEnd code)
    = Text.byteLength (core code)
      + Text.byteLength (closingPunctuation (Text.trimEnd code)) := by
  have hparts := congrArg Text.byteLength (withoutPunctuation_append (Text.trimEnd code))
  rwa [Text.byteLength_append, ← core, eq_comm] at hparts

/-- The slice behind the sign that assigns. -/
theorem slice?_after {code name after : Text} {sign : Char} (hsign : sign.utf8Size = 1)
    (h : Text.trim (core code) = name ++ sign :: after) :
    Text.slice? (Text.byteLength (Text.leadingBlanks (core code)) + Text.byteLength name + 1)
      (Text.byteLength (Text.leadingBlanks (core code))
        + Text.byteLength (Text.trim (core code))) code = some after := by
  have hcore := indent_append_statement code
  have hsplit : code = Text.leadingBlanks (core code) ++ name ++ [sign] ++ (after
      ++ (Text.trailingBlanks (Text.trimStart (core code))
        ++ (closingPunctuation (Text.trimEnd code) ++ Text.trailingBlanks code))) := by
    have hcode := core_append code
    rw [← hcore, h] at hcode
    simpa only [List.append_assoc, List.cons_append, List.nil_append, hcore] using hcode.symm
  refine Text.slice?_eq hsplit ?_ ?_
  · simp only [Text.byteLength_append, Text.byteLength_cons, Text.byteLength_nil, hsign]
  · rw [h]
    simp only [Text.byteLength_append, Text.byteLength_cons, Text.byteLength_nil, hsign]
    omega

/-- **Slicing a line without a comment never misses**, and finds its parts. -/
theorem spots?_eq (code : Text) : spots? code = some ((of? code).map spots) := by
  have hcontent := (Text.trimEnd_append_trailingBlanks code).symm
  have hcore := (core_append code).symm
  have hcoreLength := byteLength_core code
  have hcontentLength := byteLength_trimEnd code
  simp only [spots?, Text.slice?_prefix hcontent rfl, Option.bind_eq_bind, Option.bind_some,
    byteLength_withoutPunctuation, Option.pure_def]
  rw [← core, Text.slice?_prefix hcore rfl, Option.bind_some, byteLength_blanks, of?_eq,
    LiteralKind.sliced?_eq, Option.bind_some]
  simp only [← standsAlone_eq_true_iff]
  by_cases hlone : standsAlone (Text.trim (core code)) = true
  · rw [if_pos hlone, if_pos hlone]
    simp only [Option.map_some, spots, before, List.append_nil, Text.byteLength_append, if_true,
      Option.some.injEq, Spots.mk.injEq, Prod.mk.injEq, true_and]
    omega
  · rw [if_neg hlone, if_neg hlone, Assignment.signAt?_eq]
    cases ha : Assignment.of? (Text.trim (core code)) with
    | none => rfl
    | some a =>
      obtain ⟨sign, after, hstatement, hcounts, -, hsymbol, hliteral⟩ :=
        Assignment.of?_eq_some_iff.1 ha
      have hsign : sign.utf8Size = 1 := Assignment.utf8Size_of_counts hcounts
      have hafter := congrArg Text.byteLength (Text.leadingBlanks_append_trimStart after)
      have hlength := congrArg Text.byteLength hstatement
      rw [Text.byteLength_append] at hafter
      rw [Text.byteLength_append, Text.byteLength_cons] at hlength
      simp only [Option.map_some, slice?_after hsign hstatement, Option.bind_some,
        byteLength_blanks, spots, before, hsymbol, hliteral, Text.byteLength_append,
        Text.byteLength_cons, reduceCtorEq, if_false, Option.some.injEq, Spots.mk.injEq,
        Prod.mk.injEq, true_and]
      omega

end Code

end Marginalia
