import Marginalia.Search.Wildcard
import Marginalia.Text.Blank

/-!
# Ignore files

An ignore file lists patterns of paths that a search should pass over, and with a `!` in front those
that it should not.  Of all the lines that cover a path the last one decides (`verdict?`).

A pattern without a slash covers a name in any folder; one with a slash is relative to the folder of
the ignore file; a slash at the end asks for a folder.  Braces hold alternatives, and a pattern with
alternatives is taken apart into the patterns it stands for, so that `Wildcard.covers` needs to know
nothing of them.  Patterns are matched byte by byte.  A line that makes no sense is dropped.
-/

set_option autoImplicit false
namespace Marginalia

/-- What an ignore file says about a path. -/
inductive Verdict where
  | ignored
  | kept
  deriving DecidableEq, Repr

namespace Ignore

/-- The bytes of a text as numbers. -/
def units (t : Text) : List Nat := t.flatMap fun c => (String.utf8EncodeChar c).map UInt8.toNat

/-! ## Lexemes -/

/-- The parts of a pattern before stars, alternatives and folders are understood. -/
inductive Lexeme where
  | char (c : Char)
  | question
  | star
  | oneOf (negated : Bool) (ranges : List (Char × Char))
  | openBrace
  | comma
  | closeBrace
  deriving DecidableEq, Repr

/-- Where in a pattern the next character stands. -/
inductive Place where
  | outside
  | afterBackslash
  /-- Just behind an opening bracket. -/
  | afterBracket
  /-- Inside brackets: the ranges so far, last one first, whether any character has been seen, and
  whether the last one was a dash that may continue a range. -/
  | inside (negated : Bool) (ranges : List (Char × Char)) (seen dash : Bool)
  deriving DecidableEq, Repr

/-- One more character inside brackets. -/
def readInside (negated : Bool) (ranges : List (Char × Char)) (seen dash : Bool) (c : Char) :
    Option (Lexeme ⊕ Place) :=
  if c = ']' ∧ seen then
    let all := if dash then ('-', '-') :: ranges else ranges
    some (.inl (.oneOf negated all.reverse))
  else if c = '-' ∧ seen ∧ ¬ dash then some (.inr (.inside negated ranges true true))
  else if dash then
    match ranges with
    | (low, _) :: rest =>
      if c < low then none else some (.inr (.inside negated ((low, c) :: rest) true false))
    | [] => none
  else some (.inr (.inside negated ((c, c) :: ranges) true false))

/-- One more character of a pattern: the lexeme it completes, if any, and the next place. -/
def readChar (c : Char) : Place → Option (Option Lexeme × Place)
  | .outside =>
    if c = '\\' then some (none, .afterBackslash)
    else if c = '[' then some (none, .afterBracket)
    else if c = '?' then some (some .question, .outside)
    else if c = '*' then some (some .star, .outside)
    else if c = '\x7b' then some (some .openBrace, .outside)
    else if c = ',' then some (some .comma, .outside)
    else if c = '\x7d' then some (some .closeBrace, .outside)
    else some (some (.char c), .outside)
  | .afterBackslash => some (some (.char c), .outside)
  | .afterBracket =>
    if c = '!' ∨ c = '^' then some (none, .inside true [] false false)
    else some (none, .inside false [(c, c)] true false)
  | .inside negated ranges seen dash =>
    (readInside negated ranges seen dash c).map fun
      | .inl lexeme => (some lexeme, .outside)
      | .inr place => (none, place)

/-- The lexemes of a pattern; none when a bracket stays open or a backslash has nothing behind it. -/
def lexemes? (place : Place) : Text → Option (List Lexeme)
  | [] => if place = .outside then some [] else none
  | c :: r =>
    match readChar c place with
    | none => none
    | some (lexeme?, next) => (lexemes? next r).map (lexeme?.toList ++ ·)

/-! ## Patterns -/

/-- The ranges of bytes that a range of characters stands for. -/
def byteRanges : Char × Char → List (Nat × Nat)
  | (low, high) =>
    let lows := units [low]
    let highs := units [high]
    let single (b : Nat) : Nat × Nat := (b, b)
    if low = high then lows.map single
    else
      lows.dropLast.map single ++ [(lows.getLast?.getD 0, highs.head?.getD 0)] ++
        highs.tail.map single

/-- The pieces of a lexeme that is neither a star nor part of a brace. -/
def plainPieces : Lexeme → List Piece
  | .char c => (units [c]).map .unit
  | .question => [.one]
  | .oneOf negated ranges => [.oneOf negated (ranges.flatMap byteRanges)]
  | .comma => [.unit ','.toNat]
  | .star | .openBrace | .closeBrace => []

/-- Alternatives, the pieces of each last one first. -/
abbrev Alternatives := List (List Piece)

/-- Alternatives with more pieces behind each of them. -/
def Alternatives.then (alternatives : Alternatives) (pieces : List Piece) : Alternatives :=
  alternatives.map (pieces.reverse ++ ·)

/-- An open brace: the alternatives before it, and those of its finished branches. -/
structure Branching where
  before : Alternatives
  finished : Alternatives

/-- A branching after its closing brace; empty branches do not count. -/
def Branching.closed (b : Branching) (last : Alternatives) : Alternatives :=
  match (b.finished ++ last).filter fun pieces => !pieces.isEmpty with
  | [] => b.before
  | branches => b.before.flatMap fun front => branches.map (· ++ front)

/-- Folders in place of the last piece; folders that are there already take in the new ones. -/
def withFolders (folders : Piece) : List Piece → List Piece
  | .leadingFolders :: r => .leadingFolders :: r
  | .contents :: r => .contents :: r
  | _ :: r => folders :: r
  | [] => [folders]

/-- What stands directly before a lexeme, as far as two stars care. -/
inductive Before where
  /-- Nothing: a pattern or a branch begins. -/
  | nothing
  | slash
  | other
  deriving DecidableEq, Repr

/-- What a lexeme is to the one behind it. -/
def Lexeme.asBefore : Lexeme → Before
  | .char c => if c = '/' then .slash else .other
  | _ => .other

/-- The alternatives of a pattern, each in pieces last one first. -/
def alternatives? (opened : List Branching) (current : Alternatives) (before : Before) :
    List Lexeme → Option Alternatives
  | [] => if opened.isEmpty then some current else none
  | .openBrace :: r => alternatives? (⟨current, []⟩ :: opened) [[]] .nothing r
  | .closeBrace :: r =>
    match opened with
    | [] => none
    | b :: outer => alternatives? outer (b.closed current) .other r
  | .comma :: r =>
    match opened with
    | [] => alternatives? [] (current.then (plainPieces .comma)) .other r
    | b :: outer => alternatives? (⟨b.before, b.finished ++ current⟩ :: outer) [[]] .nothing r
  | .star :: .star :: .char c :: r =>
    if c = '/' ∧ before = .nothing then
      alternatives? opened (current.then [.leadingFolders]) .slash r
    else if c = '/' ∧ before = .slash then
      alternatives? opened (current.map (withFolders .innerFolders)) .slash r
    else alternatives? opened (current.then [.run, .run]) .other (.char c :: r)
  | [.star, .star] =>
    if !opened.isEmpty then none
    else if before = .nothing then some (current.then [.leadingFolders])
    else if before = .slash then some (current.map (withFolders .contents))
    else some (current.then [.run, .run])
  | .star :: .star :: s :: r =>
    if !opened.isEmpty ∧ (s = .comma ∨ s = .closeBrace) ∧ before = .slash then
      alternatives? opened (current.map (withFolders .contents)) .other (s :: r)
    else alternatives? opened (current.then [.run, .run]) .other (s :: r)
  | .star :: r => alternatives? opened (current.then [.run]) .other r
  | l :: r => alternatives? opened (current.then (plainPieces l)) l.asBefore r

/-- The patterns without braces that a pattern stands for. -/
def patterns? (t : Text) : Option (List (List Piece)) :=
  (lexemes? .outside t).bind fun lexemes =>
    (alternatives? [] [[]] .nothing lexemes).map fun all =>
      if all = [[.leadingFolders]] then [[.everything]] else all.map List.reverse

/-! ## Lines -/

/-- A line of an ignore file. -/
structure Rule where
  verdict : Verdict
  foldersOnly : Bool
  /-- The patterns of which one has to cover a path. -/
  patterns : List (List Piece)
  deriving DecidableEq, Repr

/-- A pattern as it is relative to the folder of its file. -/
def relativePattern (anchored : Bool) (t : Text) : Text :=
  let anyFolders := "**/".toList
  let t :=
    if anchored || t.contains '/' || t = "**".toList then t else anyFolders ++ t
  if "/**".toList.isSuffixOf t then t ++ "/*".toList else t

/-- The rule that a line without its first marks writes. -/
def ruleOf? (verdict : Verdict) (anchored : Bool) (t : Text) : Option Rule :=
  let foldersOnly := t.getLast? = some '/'
  let t := if foldersOnly then t.dropLast else t
  let t := if foldersOnly ∧ t.getLast? = some '\\' then t.dropLast else t
  (patterns? (relativePattern anchored t)).map fun patterns => { verdict, foldersOnly, patterns }

/-- The rule behind a slash that ties a pattern to the folder of its file. -/
def anchoredRule? (verdict : Verdict) : Text → Option Rule
  | '/' :: r => ruleOf? verdict true r
  | t => ruleOf? verdict false t

/-- The rule that a line writes, if it is neither empty nor a remark. -/
def Rule.ofLine? (line : Text) : Option Rule :=
  let t := if ['\\', ' '].isSuffixOf line then line else Text.trimEnd line
  match t with
  | [] => none
  | '#' :: _ => none
  | '\\' :: '!' :: r => ruleOf? .ignored false ('!' :: r)
  | '\\' :: '#' :: r => ruleOf? .ignored false ('#' :: r)
  | '!' :: r => anchoredRule? .kept r
  | t => anchoredRule? .ignored t

/-- The bytes of a file between its line feeds. -/
def byteLines (bytes : ByteArray) : List ByteArray :=
  (bytes.toList.splitOn 10).map fun line => ⟨line.toArray⟩

/-- A line without the carriage return at its end. -/
def withoutReturn (t : Text) : Text := if t.getLast? = some '\r' then t.dropLast else t

/-- The lines of a file up to the first that is no text, without the mark of its encoding. -/
def linesOf (bytes : ByteArray) : List Text :=
  let texts := ((byteLines bytes).map String.fromUTF8?).takeWhile Option.isSome
  match (texts.filterMap id).map fun s => withoutReturn s.toList with
  | first :: rest => first.dropWhile (· = '\ufeff') :: rest
  | [] => []

/-- The rules of an ignore file. -/
def rulesOf (bytes : ByteArray) : List Rule := (linesOf bytes).filterMap Rule.ofLine?

/-- What the rules of a file say about a path relative to its folder. -/
def verdict? (rules : List Rule) (path : Text) (isFolder : Bool) : Option Verdict :=
  let t := units path
  (rules.reverse.find? fun rule =>
    (isFolder || !rule.foldersOnly) && rule.patterns.any fun pieces => Wildcard.covers pieces t).map
      Rule.verdict

end Ignore
end Marginalia
