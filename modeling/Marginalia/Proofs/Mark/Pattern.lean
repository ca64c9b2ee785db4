import Marginalia.Proofs.Mark.Lengthened
import Marginalia.Proofs.Mark.Located

/-!
# The pattern of a mark

The form of a mark is one pattern, `//[ ]+@(toggle|radio|…)[ ]+([^\r\n]+)`, and looking for marks is
looking for that pattern from left to right: at each place the ways to read the pattern are tried in
a fixed order, the first one that gets to the end counts, and the search goes on behind what it has
read.  This view knows nothing of lines and nothing of spaces that are left over for the attribute
text; both come out of the order in which the ways are tried.

## What is here

* `Pattern.ways` and `Pattern.first?` — the ways to read a pattern, in the order in which they are
  tried, and the one that counts.  A repetition tries to read much before it tries to read little,
  and what is chosen last is given up first.
* `Pattern.scan` — all places at which a pattern is read in a text.
* `Mark.first?_pattern` and `Mark.first?_pattern_eq_none` — **the pattern is read exactly where a
  mark begins**, it is read to the end of the line, and its tag and its attribute text are those of
  the mark.
* `Mark.exists_scanFrom_eq` and `Mark.scanFrom_of_find?_none` — so what is found on the way through
  a line is the mark of the line.
-/

set_option autoImplicit false
namespace Marginalia
namespace Pattern

/-- One part of a pattern. -/
inductive Part where
  /-- One of these words, an earlier one preferred. -/
  | oneOf (words : List Text)
  /-- At least one of these characters, more of them preferred. -/
  | many (accepts : Char → Bool)

/-- The ways to read at least one of some characters, each with the text behind, the longest
first. -/
def runs (accepts : Char → Bool) : Text → List (Text × Text)
  | [] => []
  | c :: r =>
    if accepts c then (runs accepts r).map (fun (run, rest) => (c :: run, rest)) ++ [([c], r)]
    else []

/-- The ways to read one part, each with the text behind, in the order in which they are tried. -/
def Part.ways : Part → Text → List (Text × Text)
  | oneOf words, t => words.filterMap fun word => (word.isPrefixOf? t).map fun rest => (word, rest)
  | many accepts, t => runs accepts t

/-- The ways to read some parts, each with the text behind, in the order in which they are tried: a
way to read the first part is given up when all ways to read the others have failed. -/
def ways : List Part → Text → List (List Text × Text)
  | [], t => [([], t)]
  | part :: parts, t =>
    (part.ways t).flatMap fun (read, rest) =>
      (ways parts rest).map fun (reads, rest') => (read :: reads, rest')

/-- What the parts read at the beginning of a text, and the text behind. -/
def first? (parts : List Part) (t : Text) : Option (List Text × Text) := (ways parts t).head?

/-- A place at which a pattern is read. -/
structure Found where
  start : Nat
  /-- What each part reads. -/
  reads : List Text
  deriving DecidableEq, Repr

/-- The places at which a pattern is read in a text that starts at an offset, from left to right and
each behind the one before. -/
def scanFrom (parts : List Part) (offset : Nat) (t : Text) : List Found :=
  match t with
  | [] => []
  | c :: r =>
    match first? parts (c :: r) with
    | some (reads, rest) =>
      -- a pattern that reads nothing is not found
      if rest.length < (c :: r).length then
        ⟨offset, reads⟩ :: scanFrom parts (offset + Text.byteLength reads.flatten) rest
      else scanFrom parts (offset + c.utf8Size) r
    | none => scanFrom parts (offset + c.utf8Size) r
termination_by t.length
decreasing_by
  · assumption
  · exact Nat.lt_succ_self _
  · exact Nat.lt_succ_self _

/-- The places at which a pattern is read in a text. -/
def scan (parts : List Part) (t : Text) : List Found := scanFrom parts 0 t

section

variable {accepts : Char → Bool} {parts : List Part} {part : Part} {words : List Text}
  {reads : List Text} {word read run t rest rest' : Text} {c : Char}

/-! ## What can be read -/

theorem mem_runs (h : (run, rest) ∈ runs accepts t) :
    t = run ++ rest ∧ run ≠ [] ∧ ∀ c ∈ run, accepts c = true := by
  induction t generalizing run with
  | nil => cases h
  | cons d r ih =>
    rw [runs] at h
    split at h
    · rename_i hd
      rcases List.mem_append.1 h with h | h
      · obtain ⟨⟨run', rest'⟩, hmem, he⟩ := List.mem_map.1 h
        cases he
        obtain ⟨rfl, -, hall⟩ := ih hmem
        exact ⟨rfl, List.cons_ne_nil _ _, List.forall_mem_cons.2 ⟨hd, hall⟩⟩
      · cases List.mem_singleton.1 h
        exact ⟨rfl, List.cons_ne_nil _ _, by simpa using hd⟩
    · cases h

theorem mem_ways_oneOf : (word, rest) ∈ (Part.oneOf words).ways t ↔
    word ∈ words ∧ t = word ++ rest := by
  rw [Part.ways, List.mem_filterMap]
  constructor
  · rintro ⟨w, hw, h⟩
    obtain ⟨r, hr, he⟩ := Option.map_eq_some_iff.1 h
    cases he
    exact ⟨hw, (List.isPrefixOf?_eq_some_iff_append_eq.1 hr).symm⟩
  · rintro ⟨hw, rfl⟩
    exact ⟨word, hw, by rw [List.isPrefixOf?_eq_some_iff_append_eq.2 rfl]; rfl⟩

theorem mem_ways_cons (h : (reads, rest') ∈ ways (part :: parts) t) :
    ∃ read rest reads', (read, rest) ∈ part.ways t ∧ (reads', rest') ∈ ways parts rest ∧
      reads = read :: reads' := by
  rw [ways, List.mem_flatMap] at h
  obtain ⟨⟨read, rest⟩, hread, h⟩ := h
  obtain ⟨⟨reads', rest''⟩, hreads, he⟩ := List.mem_map.1 h
  cases he
  exact ⟨read, rest, reads', hread, hreads, rfl⟩

theorem mem_ways_of_first? (h : first? parts t = some (reads, rest)) :
    (reads, rest) ∈ ways parts t :=
  List.mem_of_head? h

/-! ## What is read first -/

/-- **The first way that gets to the end counts**: those that are tried before have failed. -/
theorem first?_cons {failed later : List (Text × Text)}
    (h : part.ways t = failed ++ (read, rest) :: later)
    (hfailed : ∀ way ∈ failed, first? parts way.2 = none)
    (hread : first? parts rest = some (reads, rest')) :
    first? (part :: parts) t = some (read :: reads, rest') := by
  have hnone : (failed.flatMap fun way =>
      (ways parts way.2).map fun others => (way.1 :: others.1, others.2)) = [] := by
    refine List.flatMap_eq_nil_iff.2 fun way hway => ?_
    rw [List.map_eq_nil_iff]
    exact List.head?_eq_none_iff.1 (hfailed way hway)
  rw [first?] at hread
  rw [first?, ways, h, List.flatMap_append, List.flatMap_cons, hnone, List.nil_append,
    List.head?_append, List.head?_map, hread]
  rfl

/-- A word that is the only choice. -/
theorem first?_word (hread : first? parts rest = some (reads, rest')) :
    first? (.oneOf [word] :: parts) (word ++ rest) = some (word :: reads, rest') := by
  have h : (Part.oneOf [word]).ways (word ++ rest) = [] ++ (word, rest) :: [] := by
    have hfits : word.isPrefixOf? (word ++ rest) = some rest :=
      List.isPrefixOf?_eq_some_iff_append_eq.2 rfl
    simp [Part.ways, hfits]
  exact first?_cons h (by simp) hread

/-- One of several words, if what has to follow tells it from the others. -/
theorem first?_oneOf (hmem : word ∈ words) (hread : first? parts rest = some (reads, rest'))
    (honly : ∀ w ∈ words, ∀ r, w ++ r = word ++ rest → first? parts r ≠ none → w = word) :
    first? (.oneOf words :: parts) (word ++ rest) = some (word :: reads, rest') := by
  obtain ⟨above, below, hwords, hnot⟩ := List.eq_append_cons_of_mem hmem
  have hfits : word.isPrefixOf? (word ++ rest) = some rest :=
    List.isPrefixOf?_eq_some_iff_append_eq.2 rfl
  have h : (Part.oneOf words).ways (word ++ rest)
      = (Part.oneOf above).ways (word ++ rest) ++
        (word, rest) :: (Part.oneOf below).ways (word ++ rest) := by
    rw [hwords, Part.ways, List.filterMap_append, List.filterMap_cons, hfits]
    rfl
  refine first?_cons h (fun way hway => ?_) hread
  obtain ⟨w, r⟩ := way
  obtain ⟨hw, he⟩ := mem_ways_oneOf.1 hway
  by_contra hne
  have hmem' : w ∈ words := by
    rw [hwords]
    exact List.mem_append_left _ hw
  exact hnot (honly w hmem' r he.symm hne ▸ hw)

theorem runs_eq_nil (hrest : ∀ c ∈ rest.head?, accepts c = false) : runs accepts rest = [] := by
  cases rest with
  | nil => rfl
  | cons c r => rw [runs, hrest c rfl, if_neg (by decide)]

/-- The longest run comes first, and the one that leaves a single character over comes next. -/
theorem exists_runs_eq (hrun : ∀ d ∈ run, accepts d = true) (hc : accepts c = true)
    (hrest : ∀ c ∈ rest.head?, accepts c = false) :
    ∃ later, runs accepts (run ++ c :: rest) = (run ++ [c], rest) :: later ∧
      (run ≠ [] → later.head? = some (run, c :: rest)) := by
  induction run with
  | nil =>
    refine ⟨[], ?_, fun h => absurd rfl h⟩
    rw [List.nil_append, runs, if_pos hc, runs_eq_nil hrest]
    rfl
  | cons d run ih =>
    obtain ⟨hd, hrun⟩ := List.forall_mem_cons.1 hrun
    obtain ⟨later, hruns, hnext⟩ := ih hrun
    refine ⟨later.map (fun way => (d :: way.1, way.2)) ++ [([d], run ++ c :: rest)], ?_,
      fun _ => ?_⟩
    · rw [List.cons_append, runs, if_pos hd, hruns]
      rfl
    · cases run with
      | nil =>
        rw [List.nil_append, runs, if_pos hc, runs_eq_nil hrest] at hruns
        obtain rfl : later = [] := (List.cons.inj hruns).2.symm
        rfl
      | cons e run =>
        rw [List.head?_append, List.head?_map, hnext (List.cons_ne_nil _ _)]
        rfl

/-- A run is read as far as it goes. -/
theorem first?_many (hrun : ∀ d ∈ run, accepts d = true) (hne : run ≠ [])
    (hrest : ∀ c ∈ rest.head?, accepts c = false)
    (hread : first? parts rest = some (reads, rest')) :
    first? (.many accepts :: parts) (run ++ rest) = some (run :: reads, rest') := by
  obtain rfl | ⟨s, c, rfl⟩ := List.eq_nil_or_concat' run
  · exact absurd rfl hne
  · obtain ⟨hs, hc⟩ := List.forall_mem_append.1 hrun
    obtain ⟨later, hruns, -⟩ := exists_runs_eq hs (hc c List.mem_cons_self) hrest
    have h : (Part.many accepts).ways (s ++ c :: rest) = [] ++ (s ++ [c], rest) :: later := hruns
    rw [List.append_assoc]
    exact first?_cons h (by simp) hread

/-- A run gives up its last character if nothing can follow it. -/
theorem first?_many_concat (hrun : ∀ d ∈ run, accepts d = true) (hne : run ≠ [])
    (hc : accepts c = true) (hrest : ∀ c ∈ rest.head?, accepts c = false)
    (hfail : first? parts rest = none) (hread : first? parts (c :: rest) = some (reads, rest')) :
    first? (.many accepts :: parts) (run ++ c :: rest) = some (run :: reads, rest') := by
  obtain ⟨later, hruns, hnext⟩ := exists_runs_eq hrun hc hrest
  obtain ⟨later', rfl⟩ := List.head?_eq_some_iff.1 (hnext hne)
  have h : (Part.many accepts).ways (run ++ c :: rest)
      = [(run ++ [c], rest)] ++ (run, c :: rest) :: later' := hruns
  exact first?_cons h (by simpa using hfail) hread

theorem first?_nil : first? [] t = some ([], t) := rfl

/-- A last run cannot be read where its first character does not stand. -/
theorem first?_many_eq_none (hrest : ∀ c ∈ rest.head?, accepts c = false) :
    first? (.many accepts :: parts) rest = none := by
  rw [first?, ways, Part.ways, runs_eq_nil hrest]
  rfl

/-- A run begins with a character of its kind. -/
theorem exists_cons_of_first?_many (h : first? (.many accepts :: parts) t ≠ none) :
    ∃ c r, t = c :: r ∧ accepts c = true := by
  by_contra hnot
  refine h (first?_many_eq_none fun c hc => Bool.eq_false_iff.2 fun haccepts => ?_)
  obtain ⟨r, rfl⟩ := List.head?_eq_some_iff.1 hc
  exact hnot ⟨c, r, rfl, haccepts⟩

/-! ## Going on -/

theorem scanFrom_cons_of_none (h : first? parts (c :: t) = none) (offset : Nat) :
    scanFrom parts offset (c :: t) = scanFrom parts (offset + c.utf8Size) t := by
  rw [scanFrom, h]

theorem scanFrom_cons_of_some (h : first? parts (c :: t) = some (reads, rest))
    (hlt : rest.length < (c :: t).length) (offset : Nat) :
    scanFrom parts offset (c :: t)
      = ⟨offset, reads⟩ :: scanFrom parts (offset + Text.byteLength reads.flatten) rest := by
  rw [scanFrom, h]
  exact if_pos hlt

end

end Pattern

/-! ## The pattern of a mark -/

namespace Mark

open Pattern

variable {line behind t : Text} {m : Mark} {details : Text}

/-- A text that begins as a mark does, with something behind the space that ends the tag. -/
def HasForm (t : Text) : Prop := ∃ spaces tag c r, t = opening spaces tag ++ ' ' :: c :: r

theorem startingAt?_ne_none_iff : startingAt? t ≠ none ↔ HasForm t := by
  rw [Option.ne_none_iff_exists']
  constructor
  · rintro ⟨m, hm⟩
    obtain ⟨spaces, r, rfl, hd, -⟩ := startingAt?_eq_some_iff.1 hm
    obtain ⟨u, rfl, hu, -⟩ := details?_eq_some_iff.1 hd
    obtain ⟨c, u, rfl⟩ := List.exists_cons_of_ne_nil hu
    exact ⟨spaces, m.tag, c, u, rfl⟩
  · rintro ⟨spaces, tag, c, r, rfl⟩
    have hd := details?_eq_some_iff.2 ⟨c :: r, rfl, List.cons_ne_nil _ _, rfl⟩
    exact ⟨⟨tag, _, _⟩, startingAt?_eq_some_iff.2 ⟨spaces, _, rfl, hd, rfl⟩⟩

/-- The form of a mark: slashes, spaces, an at sign, a tag, spaces, and the rest of the line. -/
def pattern : List Part :=
  [.oneOf ["//".toList], .many (· = ' '), .oneOf [['@']], .oneOf (Tag.all.map Tag.name),
    .many (· = ' '), .many fun c => !isBreak c]

/-- What the parts of the pattern read is a mark. -/
structure Reads (reads : List Text) (m : Mark) : Prop where
  text : reads.flatten = m.text
  tag : reads[3]? = some m.tag.name
  details : reads[5]? = some m.details

theorem onOneLine_iff : onOneLine t = true ↔ ∀ c ∈ t, (!isBreak c) = true := by
  rw [onOneLine, List.all_eq_true]
  simp [isBreak]

theorem isSpace_eq_false {c : Char} (hc : isBreak c = true) : decide (c = ' ') = false := by
  rw [decide_eq_false_iff_not]
  rintro rfl
  exact absurd hc (by decide)

/-- The spaces behind a tag are no part of the attribute text, unless nothing else is left. -/
theorem exists_spaces_of_details? (h : details? t = some details) :
    ∃ more, t = List.replicate (more + 1) ' ' ++ details ∧ details ≠ [] ∧
      (details = [' '] ∨ details.head? ≠ some ' ') := by
  obtain ⟨r, rfl, hr, rfl⟩ := details?_eq_some_iff.1 h
  by_cases hd : r.dropWhile (· = ' ') = []
  · -- spaces only, so the last of them is left over
    rw [if_pos hd]
    obtain rfl | ⟨s, c, rfl⟩ := List.eq_nil_or_concat' r
    · exact absurd rfl hr
    have hall : ∀ d ∈ s ++ [c], d = ' ' := by simpa using List.dropWhile_eq_nil_iff.1 hd
    obtain rfl : c = ' ' := hall c (by simp)
    have hs : s = List.replicate s.length ' ' :=
      List.eq_replicate_of_mem fun d hd => hall d (List.mem_append_left _ hd)
    refine ⟨s.length, ?_, List.cons_ne_nil _ _, Or.inl rfl⟩
    rw [List.replicate_succ, List.cons_append, ← hs]
  · rw [if_neg hd]
    refine ⟨(r.takeWhile (· = ' ')).length, ?_, hd, Or.inr fun hhead => ?_⟩
    · rw [List.replicate_succ, List.cons_append, ← takeWhile_space,
        List.takeWhile_append_dropWhile]
    · have hnot := List.head?_dropWhile_not (fun x : Char => decide (x = ' ')) r
      rw [hhead] at hnot
      cases hnot

/-- **The spaces behind a tag are read before the attribute text**, as many of them as leave
something over. -/
theorem first?_details (h : details? t = some details) (hone : onOneLine t = true)
    (hbehind : ∀ c ∈ behind.head?, isBreak c = true) :
    ∃ spaces, spaces ++ details = t ∧
      first? [.many (· = ' '), .many fun c => !isBreak c] (t ++ behind)
        = some ([spaces, details], behind) := by
  have hstop : ∀ c ∈ behind.head?, (!isBreak c) = false := fun c hc => by rw [hbehind c hc]; rfl
  obtain ⟨more, rfl, hne, hspaces⟩ := exists_spaces_of_details? h
  have hrun : ∀ c ∈ List.replicate (more + 1) ' ', decide (c = ' ') = true := by simp
  have hlast : first? [.many fun c => !isBreak c] (details ++ behind) = some ([details], behind) :=
    first?_many (onOneLine_iff.1 (onOneLine_append.1 hone).2) hne hstop first?_nil
  refine ⟨List.replicate (more + 1) ' ', rfl, ?_⟩
  rw [List.append_assoc]
  rcases hspaces with rfl | hhead
  · -- the spaces are read to the end first, and that leaves nothing for the attribute text
    exact first?_many_concat hrun (by simp) (by simp)
      (fun c hc => isSpace_eq_false (hbehind c hc)) (first?_many_eq_none hstop) hlast
  · refine first?_many hrun (by simp) (fun c hc => ?_) hlast
    rw [List.head?_append_of_ne_nil _ hne, Option.mem_def] at hc
    rw [decide_eq_false_iff_not]
    rintro rfl
    exact hhead hc

/-- The tag is read as it is written: any other tag that the text begins with would have to be
followed by a space as well. -/
theorem first?_tag {reads : List Text} {rest : Text} (tag : Tag) (h : details? t = some details)
    (hread : first? (pattern.drop 4) (t ++ behind) = some (reads, rest)) :
    first? (pattern.drop 3) (tag.name ++ (t ++ behind)) = some (tag.name :: reads, rest) := by
  obtain ⟨u, rfl, -, -⟩ := details?_eq_some_iff.1 h
  refine first?_oneOf (List.mem_map_of_mem tag.mem_all) hread fun w hw x hx hne => ?_
  obtain ⟨tag', -, rfl⟩ := List.mem_map.1 hw
  obtain ⟨c, y, rfl, hc⟩ := exists_cons_of_first?_many hne
  obtain rfl : c = ' ' := by simpa using hc
  rw [(Tag.eq_of_name_append hx).1]

/-- **Where a mark begins, the pattern reads it**, to the end of the line. -/
theorem first?_pattern (h : startingAt? line = some m) (hone : onOneLine line = true)
    (hbehind : ∀ c ∈ behind.head?, isBreak c = true) :
    ∃ reads, first? pattern (line ++ behind) = some (reads, behind) ∧ Reads reads m := by
  obtain ⟨spaces, r, rfl, hd, htext⟩ := startingAt?_eq_some_iff.1 h
  obtain ⟨more, hmore, hdetails⟩ := first?_details hd (onOneLine_append.1 hone).2 hbehind
  have htag : first? (pattern.drop 3) (m.tag.name ++ (r ++ behind))
      = some ([m.tag.name, more, m.details], behind) := first?_tag m.tag hd hdetails
  have hsign : first? (pattern.drop 2) (['@'] ++ (m.tag.name ++ (r ++ behind)))
      = some ([['@'], m.tag.name, more, m.details], behind) := first?_word htag
  have hspaces : first? (pattern.drop 1)
      (List.replicate (spaces + 1) ' ' ++ (['@'] ++ (m.tag.name ++ (r ++ behind))))
        = some ([List.replicate (spaces + 1) ' ', ['@'], m.tag.name, more, m.details], behind) :=
    first?_many (by simp) (by simp) (by simp) hsign
  refine ⟨["//".toList, List.replicate (spaces + 1) ' ', ['@'], m.tag.name, more, m.details], ?_,
    ⟨?_, rfl, rfl⟩⟩
  · have hline : opening spaces m.tag ++ r ++ behind = "//".toList ++
        (List.replicate (spaces + 1) ' ' ++ (['@'] ++ (m.tag.name ++ (r ++ behind)))) := by
      simp [opening, List.replicate_succ]
    rw [hline]
    exact first?_word hspaces
  · rw [htext, ← hmore]
    simp [opening, List.replicate_succ]

theorem onOneLine_spaces (n : Nat) : onOneLine (List.replicate n ' ') = true :=
  onOneLine_iff.2 fun c hc => by rw [(List.mem_replicate.1 hc).2]; rfl

theorem onOneLine_opening (spaces : Nat) (tag : Tag) : onOneLine (opening spaces tag) = true := by
  have hname : onOneLine tag.name = true := by cases tag <;> decide
  have hslashes : onOneLine ['/', '/', ' '] = true := by decide
  have hopening : opening spaces tag
      = ['/', '/', ' '] ++ (List.replicate spaces ' ' ++ (['@'] ++ tag.name)) := rfl
  rw [hopening]
  exact onOneLine_append.2 ⟨hslashes, onOneLine_append.2 ⟨onOneLine_spaces spaces,
    onOneLine_append.2 ⟨by decide, hname⟩⟩⟩

theorem exists_eq_spaces {s : Text} (hs : ∀ c ∈ s, decide (c = ' ') = true) (hne : s ≠ []) :
    ∃ n, s = List.replicate (n + 1) ' ' := by
  have hall : s = List.replicate s.length ' ' :=
    List.eq_replicate_of_mem fun c hc => by simpa using hs c hc
  exact ⟨s.length - 1, by rwa [Nat.sub_add_cancel (List.length_pos_iff.2 hne)]⟩

/-- A text on one line does not reach behind the line it begins. -/
theorem exists_append_of_onOneLine {s rest : Text} (h : line ++ behind = s ++ rest)
    (hs : onOneLine s = true) (hbehind : ∀ c ∈ behind.head?, isBreak c = true) :
    ∃ e, line = s ++ e := by
  rcases List.append_eq_append_iff.1 h with ⟨e, rfl, he⟩ | ⟨e, rfl, -⟩
  · cases e with
    | nil => exact ⟨[], by simp⟩
    | cons c e =>
      have hbreak : isBreak c = true := hbehind c (by rw [he]; rfl)
      rw [isBreak_of_mem hs (by simp)] at hbreak
      cases hbreak
  · exact ⟨e, rfl⟩

/-- What the pattern can read, in whatever way. -/
theorem exists_of_mem_ways_pattern {reads : List Text} {rest : Text}
    (h : (reads, rest) ∈ ways pattern t) :
    ∃ spaces tag more details,
      t = opening spaces tag ++ (List.replicate (more + 1) ' ' ++ details) ++ rest ∧
        details ≠ [] ∧ onOneLine details = true := by
  obtain ⟨_, _, _, hslashes, h, -⟩ := mem_ways_cons h
  obtain ⟨run, _, _, hspaces, h, -⟩ := mem_ways_cons h
  obtain ⟨_, _, _, hsign, h, -⟩ := mem_ways_cons h
  obtain ⟨_, _, _, htag, h, -⟩ := mem_ways_cons h
  obtain ⟨run', _, _, hspaces', h, -⟩ := mem_ways_cons h
  obtain ⟨details, rest', _, hdetails, h, -⟩ := mem_ways_cons h
  cases List.mem_singleton.1 h
  -- what each part reads, and what is left for the next one
  obtain ⟨hw, rfl⟩ := mem_ways_oneOf.1 hslashes
  obtain rfl := List.mem_singleton.1 hw
  obtain ⟨rfl, hne, hrun⟩ := mem_runs hspaces
  obtain ⟨hw, rfl⟩ := mem_ways_oneOf.1 hsign
  obtain rfl := List.mem_singleton.1 hw
  obtain ⟨hw, rfl⟩ := mem_ways_oneOf.1 htag
  obtain ⟨tag, -, rfl⟩ := List.mem_map.1 hw
  obtain ⟨rfl, hne', hrun'⟩ := mem_runs hspaces'
  obtain ⟨rfl, hne'', hall⟩ := mem_runs hdetails
  obtain ⟨spaces, rfl⟩ := exists_eq_spaces hrun hne
  obtain ⟨more, rfl⟩ := exists_eq_spaces hrun' hne'
  refine ⟨spaces, tag, more, details, ?_, hne'', onOneLine_iff.2 hall⟩
  simp [opening, List.replicate_succ]

/-- **Where the pattern is read, a mark begins.** -/
theorem hasForm_of_first?_pattern {reads : List Text} {rest : Text}
    (h : first? pattern (line ++ behind) = some (reads, rest))
    (hbehind : ∀ c ∈ behind.head?, isBreak c = true) : HasForm line := by
  obtain ⟨spaces, tag, more, details, hread, hne, hdetails⟩ :=
    exists_of_mem_ways_pattern (mem_ways_of_first? h)
  have hone : onOneLine (opening spaces tag ++ (List.replicate (more + 1) ' ' ++ details)) = true :=
    onOneLine_append.2 ⟨onOneLine_opening spaces tag,
      onOneLine_append.2 ⟨onOneLine_spaces (more + 1), hdetails⟩⟩
  obtain ⟨e, rfl⟩ := exists_append_of_onOneLine hread hone hbehind
  obtain ⟨d, r, hr⟩ : ∃ d r, List.replicate more ' ' ++ details ++ e = d :: r :=
    List.exists_cons_of_ne_nil (by simp [hne])
  exact ⟨spaces, tag, d, r, by rw [← hr]; simp [List.replicate_succ]⟩

theorem first?_pattern_eq_none (h : startingAt? line = none)
    (hbehind : ∀ c ∈ behind.head?, isBreak c = true) : first? pattern (line ++ behind) = none :=
  Option.eq_none_iff_forall_ne_some.2 fun _ hread =>
    startingAt?_ne_none_iff.2 (hasForm_of_first?_pattern hread hbehind) h

/-! ## Looking through a line -/

/-- Nothing is found at the end of a line. -/
theorem scanFrom_breaks {s : Text} (hs : ∀ c ∈ s, isBreak c = true) (t : Text) (offset : Nat) :
    scanFrom pattern offset (s ++ t) = scanFrom pattern (offset + Text.byteLength s) t := by
  induction s generalizing offset with
  | nil => rfl
  | cons c s ih =>
    obtain ⟨hc, hs⟩ := List.forall_mem_cons.1 hs
    have hnone : first? pattern ([] ++ c :: (s ++ t)) = none :=
      first?_pattern_eq_none rfl (by simpa using hc)
    rw [List.cons_append, scanFrom_cons_of_none hnone, ih hs, Text.byteLength_cons, Nat.add_assoc]

theorem scanFrom_of_find?_none (h : find? line = none)
    (hbehind : ∀ c ∈ behind.head?, isBreak c = true) (offset : Nat) :
    scanFrom pattern offset (line ++ behind)
      = scanFrom pattern (offset + Text.byteLength line) behind := by
  induction line generalizing offset with
  | nil => rfl
  | cons c r ih =>
    rw [find?] at h
    split at h
    · cases h
    · rename_i hnone
      have hread : first? pattern (c :: (r ++ behind)) = none :=
        first?_pattern_eq_none hnone hbehind
      rw [List.cons_append, scanFrom_cons_of_none hread, ih h, Text.byteLength_cons, Nat.add_assoc]

/-- **The mark of a line is what is found in it**, and nothing else is. -/
theorem exists_scanFrom_eq (h : find? line = some m) (hone : onOneLine line = true)
    (hbehind : ∀ c ∈ behind.head?, isBreak c = true) (offset : Nat) :
    ∃ reads, Reads reads m ∧ scanFrom pattern offset (line ++ behind)
      = ⟨offset + (Text.byteLength line - Text.byteLength m.text), reads⟩ ::
        scanFrom pattern (offset + Text.byteLength line) behind := by
  induction line generalizing offset with
  | nil => cases h
  | cons c r ih =>
    rw [find?] at h
    split at h
    · rename_i m' hm
      cases h
      obtain ⟨reads, hread, hreads⟩ := first?_pattern hm hone hbehind
      have hlt : behind.length < (c :: (r ++ behind)).length := by
        rw [List.length_cons, List.length_append]
        omega
      refine ⟨reads, hreads, ?_⟩
      rw [List.cons_append] at hread ⊢
      rw [scanFrom_cons_of_some hread hlt, hreads.text, startingAt?_text hm, Nat.sub_self,
        Nat.add_zero]
    · rename_i hnone
      obtain ⟨w, hw⟩ := find?_suffix h
      obtain ⟨reads, hreads, hscan⟩ := ih h (onOneLine_cons.1 hone).2 (offset + c.utf8Size)
      refine ⟨reads, hreads, ?_⟩
      have hstart : offset + (Text.byteLength (c :: r) - Text.byteLength m.text)
          = offset + c.utf8Size + (Text.byteLength r - Text.byteLength m.text) := by
        rw [← hw, Text.byteLength_cons, Text.byteLength_append]
        omega
      have hread : first? pattern (c :: (r ++ behind)) = none :=
        first?_pattern_eq_none hnone hbehind
      rw [List.cons_append, scanFrom_cons_of_none hread, hscan, hstart, Text.byteLength_cons,
        ← Nat.add_assoc]

end Mark
end Marginalia
