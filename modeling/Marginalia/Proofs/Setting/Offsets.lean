import Marginalia.Proofs.Setting.Remark
import Marginalia.Proofs.Setting.Spots

/-!
# Cutting a setting line by offsets

`Setting.of?` cuts a line by cutting a list in two, and so it has no way to miss the middle of a
character.  A reader that edits a line in place slices it between offsets, and such a slice can go
wrong: its ends may be out of order, past the end of the line, or inside a character that takes more
than one byte.

`Setting.sliced?` is that reader.  Every slice it takes is a `Text.slice?`, and it gives up as soon
as one of them misses.  What is shown is that none ever does.

## What is here

* `Setting.commentAt?` — where the comment is, searched for from the right with a slice for every
  pair of slashes.
* `Setting.sliced?` and `Setting.sliced?_eq` — the line in parts, and that they are the parts of
  `Setting.of?`.
* `Setting.WellShaped` — what the parts look like.
* `Setting.of?_decomposes` — **a setting line is cut without loss, and slicing it never misses**.
-/

set_option autoImplicit false
namespace Marginalia

/-! ## The comment -/

namespace Setting

theorem reverse_cons_cons (c d : Char) (before : Text) :
    (c :: d :: before).reverse = before.reverse ++ [d, c] := by
  simp

/-- The kind of the literal in the first bytes of a line, the literal being sliced out of them. -/
def kindBefore? (line : Text) (stop : Nat) : Option LiteralKind := do
  let code ← Text.slice? 0 stop line
  match ← Code.spots? code with
  | none => return .unknown
  | some spots =>
    let literal ← Text.slice? spots.literal.1 spots.literal.2 code
    LiteralKind.sliced? literal

/-- Where the last pair of slashes before an offset is that has a literal of a known kind on its
left; the outer option is none when a slice misses. -/
def commentBefore? (line : Text) (stop : Nat) : Option (Option Nat) :=
  match _ : Text.slice? 0 stop line with
  | none => none
  | some head =>
    match _ : Text.findLastBytes? "//".toList head with
    | none => some none
    | some found =>
      match kindBefore? line found with
      | none => none
      | some kind => if kind = .unknown then commentBefore? line found else some (some found)
termination_by stop
decreasing_by
  rename_i hhead hat
  rw [← Text.byteLength_of_slice?_zero hhead]
  exact Text.findLastBytes?_lt hat (by decide)

/-- The literal of the first part of a line is where it is said to be. -/
theorem kindBefore?_eq {line code tail : Text} (h : line = code ++ tail) :
    kindBefore? line (Text.byteLength code) = some (Code.kindIn code) := by
  simp only [kindBefore?, Text.slice?_prefix h rfl, Option.bind_eq_bind, Option.bind_some,
    Code.spots?_eq, Option.pure_def, Code.kindIn]
  cases hk : Code.of? code with
  | none => rfl
  | some k =>
    have hcode : code = k.before ++ (k.literal ++ k.behind) := by
      rw [← List.append_assoc, ← Code.toText_eq, Code.of?_toText hk]
    have hslice : Text.slice? (Text.byteLength k.before) (Text.byteLength (k.before ++ k.literal))
        code = some k.literal := Text.slice?_parts hcode
    simp only [Option.map_some, Code.spots, hslice, Option.bind_some, LiteralKind.sliced?_eq]

/-- The search looks at the last pair of slashes, whether or not more text is behind it. -/
theorem commentBefore?_eq_of_findLast {line head : Text} {stop : Nat}
    (hhead : Text.slice? 0 stop line = some head) :
    commentBefore? line stop =
      match Text.findLastBytes? "//".toList head with
      | none => some none
      | some found => (kindBefore? line found).bind fun kind =>
          if kind = .unknown then commentBefore? line found else some (some found) := by
  rw [commentBefore?]
  split
  · rename_i hnone
    rw [hhead] at hnone
    cases hnone
  · rename_i head' hsome
    rw [hhead] at hsome
    cases hsome
    split
    · rename_i hat
      rw [hat]
    · rename_i found hat
      rw [hat]
      change _ = (kindBefore? line found).bind _
      cases kindBefore? line found <;> rfl

theorem commentBefore?_eq {line : Text} (passed rest : Text) (h : line = rest.reverse ++ passed) :
    commentBefore? line (Text.byteLength rest.reverse)
      = some ((lastRemarkFrom passed rest).map fun parts => Text.byteLength parts.1) := by
  have hhead : ∀ {passed rest : Text}, line = rest.reverse ++ passed →
      Text.slice? 0 (Text.byteLength rest.reverse) line = some rest.reverse :=
    fun h => Text.slice?_prefix h rfl
  fun_induction lastRemarkFrom passed rest with
  | case1 =>
    rw [commentBefore?_eq_of_findLast (hhead h)]
    rfl
  | case2 passed c =>
    rw [commentBefore?_eq_of_findLast (hhead h), List.reverse_singleton,
      Text.findLastBytes?_singleton]
    rfl
  | case3 passed c d before hc hkind ih =>
    obtain ⟨rfl, rfl⟩ := hc
    have hline : line = before.reverse ++ '/' :: '/' :: passed := by simpa using h
    rw [commentBefore?_eq_of_findLast (hhead h), reverse_cons_cons, Text.findLastBytes?_concat,
      if_pos ⟨rfl, rfl⟩]
    simp only [kindBefore?_eq hline, Option.bind_some, if_pos hkind]
    exact ih hline
  | case4 passed c d before hc hkind =>
    obtain ⟨rfl, rfl⟩ := hc
    have hline : line = before.reverse ++ '/' :: '/' :: passed := by simpa using h
    rw [commentBefore?_eq_of_findLast (hhead h), reverse_cons_cons, Text.findLastBytes?_concat,
      if_pos ⟨rfl, rfl⟩]
    simp only [kindBefore?_eq hline, Option.bind_some, if_neg hkind]
    rfl
  | case5 passed c d before hc ih =>
    have hline : line = (d :: before).reverse ++ c :: passed := by simpa using h
    rw [commentBefore?_eq_of_findLast (hhead h), reverse_cons_cons, Text.findLastBytes?_concat,
      if_neg hc, ← List.reverse_cons, ← commentBefore?_eq_of_findLast (hhead hline)]
    exact ih hline

/-- Where the comment of a line starts, found by slicing the line. -/
def commentAt? (line : Text) : Option (Option Nat) :=
  match Lone.cut? line with
  | some parts => some (if parts.2 = [] then none else some (Text.byteLength parts.1))
  | none => commentBefore? line (Text.byteLength line)

theorem commentAt?_eq (line : Text) : ∃ found, commentAt? line = some found ∧
    found.getD (Text.byteLength line) = Text.byteLength (splitRemark line).1 := by
  rw [commentAt?]
  cases hcut : Lone.cut? line with
  | some parts =>
    refine ⟨_, rfl, ?_⟩
    rw [splitRemark, hcut]
    by_cases hnil : parts.2 = []
    · have hline := Lone.cut?_append hcut
      rw [hnil, List.append_nil] at hline
      rw [if_pos hnil, Option.getD_none, hline]
    · rw [if_neg hnil]
      rfl
  | none =>
    have hline : line = line.reverse.reverse ++ [] := by simp
    have hfound := commentBefore?_eq [] line.reverse hline
    rw [List.reverse_reverse] at hfound
    refine ⟨_, hfound, ?_⟩
    rw [splitRemark_of_cut?_eq_none hcut, lastRemark]
    cases lastRemarkFrom [] line.reverse <;> rfl

/-! ## The whole line -/

/-- A line cut into the parts of a setting by slicing it; the outer option is none when a slice
misses, and the inner one when the line gives no literal. -/
def sliced? (line : Text) : Option (Option Setting) := do
  let stop := Text.byteLength line
  let comment ← commentAt? line
  let codeEnd := comment.getD stop
  let code ← Text.slice? 0 codeEnd line
  let _ ← Text.slice? codeEnd stop line
  match ← Code.spots? code with
  | none => return none
  | some spots =>
    let leadEnd := spots.sign.getD spots.literal.1
    let lead ← Text.slice? 0 leadEnd line
    let assignment ← Text.slice? leadEnd spots.literal.1 line
    let literal ← Text.slice? spots.literal.1 spots.literal.2 line
    let padding ← Text.slice? spots.literal.2 spots.punctuation.1 line
    let punctuation ← Text.slice? spots.punctuation.1 spots.punctuation.2 line
    let remark ← Text.slice? spots.punctuation.2 stop line
    return some ⟨lead, assignment, literal, padding, punctuation, remark⟩

/-- The end of the name is where the symbol starts, or the literal when there is none. -/
theorem leadEnd_eq (k : Code) :
    k.spots.sign.getD k.spots.literal.1 = Text.byteLength (k.indent ++ k.name) := by
  rw [Code.spots]
  by_cases h : k.assignment = []
  · rw [if_pos h, Option.getD_none, Code.before, h, List.append_nil]
  · rw [if_neg h, Option.getD_some]

theorem of?_eq (line : Text) : of? line = (Code.of? (splitRemark line).1).map fun k =>
    { lead := k.indent ++ k.name
      assignment := k.assignment
      literal := k.literal
      padding := k.padding
      punctuation := k.punctuation
      remark := k.blanks ++ (splitRemark line).2 } := rfl

theorem sliced?_eq (line : Text) : sliced? line = some (of? line) := by
  obtain ⟨found, hfound, hend⟩ := commentAt?_eq line
  have hsplit := (splitRemark_append line).symm
  have hcode : Text.slice? 0 (found.getD (Text.byteLength line)) line
      = some (splitRemark line).1 := Text.slice?_prefix hsplit hend
  have hcomment : Text.slice? (found.getD (Text.byteLength line)) (Text.byteLength line) line
      = some (splitRemark line).2 := by
    rw [hend]
    exact Text.slice?_suffix hsplit
  simp only [sliced?, hfound, hcode, hcomment, Option.bind_eq_bind, Option.bind_some,
    Code.spots?_eq, Option.pure_def]
  rw [of?_eq]
  cases hk : Code.of? (splitRemark line).1 with
  | none => rfl
  | some k =>
    have hparts : line = k.toText ++ (splitRemark line).2 := by
      rw [Code.of?_toText hk, ← hsplit]
    generalize (splitRemark line).2 = comment at hparts
    have hafterName : line = k.indent ++ k.name ++ (k.assignment ++ (k.literal ++ (k.padding
        ++ (k.punctuation ++ (k.blanks ++ comment))))) := by
      rw [hparts, Code.toText]
      simp only [List.append_assoc]
    have hafterSymbol : line = k.before ++ (k.literal ++ (k.padding
        ++ (k.punctuation ++ (k.blanks ++ comment)))) :=
      hafterName.trans (List.append_assoc _ _ _).symm
    have hafterLiteral := hafterSymbol.trans (List.append_assoc _ _ _).symm
    have hafterPadding := hafterLiteral.trans (List.append_assoc _ _ _).symm
    have hafterPunctuation := hafterPadding.trans (List.append_assoc _ _ _).symm
    have hassignment : Text.slice? (Text.byteLength (k.indent ++ k.name))
      (Text.byteLength k.before) line = some k.assignment := Text.slice?_parts hafterName
    simp only [Option.map_some, leadEnd_eq, Text.slice?_prefix hafterName rfl, Option.bind_some]
    simp only [Code.spots, hassignment, Text.slice?_parts hafterSymbol,
      Text.slice?_parts hafterLiteral, Text.slice?_parts hafterPadding,
      Text.slice?_suffix hafterPunctuation, Option.bind_some]

/-! ## The shape of the parts -/

/-- What the parts of a setting look like. -/
structure WellShaped (s : Setting) : Prop where
  /-- The assignment is nothing, or a colon or an equals sign with blanks behind it. -/
  assignment : s.assignment = [] ∨ ∃ sign blanks, (sign = ':' ∨ sign = '=') ∧
    Text.AllBlank blanks ∧ s.assignment = sign :: blanks
  /-- There are no blanks around the literal. -/
  literal : Text.trim s.literal = s.literal
  /-- The padding is blank. -/
  padding : Text.AllBlank s.padding
  /-- The punctuation is nothing, a comma or a semicolon. -/
  punctuation : s.punctuation = [] ∨ s.punctuation = [','] ∨ s.punctuation = [';']
  /-- The remark is blank up to a comment. -/
  remark : ∃ blanks comment, Text.AllBlank blanks ∧
    (comment = [] ∨ "//".toList <+: comment) ∧ s.remark = blanks ++ comment

/-- The bytes of the parts of a setting and of what ends its line. -/
def byteCount (s : Setting) (terminator : Text) : Nat :=
  Text.byteLength s.lead + Text.byteLength s.assignment + Text.byteLength s.literal
    + Text.byteLength s.padding + Text.byteLength s.punctuation + Text.byteLength s.remark
    + Text.byteLength terminator

theorem trim_literal_of_cut {t : Text} {a : Assignment} (ht : Text.trimEnd t = t)
    (h : Assignment.of? t = some a) : Text.trim a.literal = a.literal := by
  obtain ⟨sign, after, hsplit, hcounts, -, -, hliteral⟩ := Assignment.of?_eq_some_iff.1 h
  have hblank : Text.isBlank sign = false := by
    rcases (Assignment.counts_eq_true_iff.1 hcounts).1 with rfl | rfl <;> rfl
  have hafter : Text.trimEnd after = after := by
    rw [hsplit, Text.trimEnd_append_cons _ hblank] at ht
    exact (List.cons.inj (List.append_cancel_left ht)).2
  rw [hliteral, Text.trim, Text.trimStart_trimStart, Text.trimEnd_trimStart_of_eq hafter]

theorem wellShaped_of_of? {line : Text} {s : Setting} (h : of? line = some s) : s.WellShaped := by
  obtain ⟨k, hk, rfl⟩ := of?_eq_some_iff.1 h
  obtain ⟨a, ha, rfl⟩ := Option.map_eq_some_iff.1 hk
  refine ⟨?_, ?_, Text.allBlank_trailingBlanks _, Code.closingPunctuation_cases _,
    _, _, Text.allBlank_trailingBlanks _, splitRemark_comment line, rfl⟩
  · split at ha
    · cases ha
      exact Or.inl rfl
    · obtain ⟨sign, after, hsign, hsymbol⟩ := Assignment.of?_symbol ha
      exact Or.inr ⟨sign, _, hsign, Text.allBlank_leadingBlanks after, hsymbol⟩
  · split at ha
    · cases ha
      exact Text.trim_trim _
    · exact trim_literal_of_cut (Text.trimEnd_trimEnd _) ha

/-- **A setting line is cut without loss, and slicing it by offsets never misses.** -/
theorem of?_decomposes (line terminator : Text) :
    sliced? line = some (of? line) ∧
      ∀ s, of? line = some s → s.WellShaped ∧
        s.lead ++ s.assignment ++ s.literal ++ s.padding ++ s.punctuation ++ s.remark ++ terminator
          = line ++ terminator ∧
        s.byteCount terminator = Text.byteLength (line ++ terminator) := by
  refine ⟨sliced?_eq line, fun s hs => ⟨wellShaped_of_of? hs, ?_, ?_⟩⟩
  · rw [← withLiteral, ← toText, of?_toText hs]
  · rw [← of?_toText hs]
    simp only [byteCount, toText, withLiteral, Text.byteLength_append]

/-- Characters of two and three bytes stand before, in and behind the literal. -/
theorem of?_decomposes_wide :
    let line := "  größe: \"é // ü\" , // ✓".toList
    let terminator := "\r\n".toList
    let s : Setting :=
      { lead := "  größe".toList
        assignment := ": ".toList
        literal := "\"é // ü\"".toList
        padding := [' ']
        punctuation := [',']
        remark := " // ✓".toList }
    of? line = some s ∧ sliced? line = some (some s) ∧ s.WellShaped ∧
      s.lead ++ s.assignment ++ s.literal ++ s.padding ++ s.punctuation ++ s.remark ++ terminator
        = line ++ terminator ∧
      s.byteCount terminator = Text.byteLength (line ++ terminator) := by
  intro line terminator s
  have hs : of? line = some s := by decide +kernel
  obtain ⟨hsliced, hparts⟩ := of?_decomposes line terminator
  exact ⟨hs, by rw [hsliced, hs], hparts s hs⟩

end Setting
end Marginalia
