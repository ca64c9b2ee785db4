import Marginalia.Proofs.Source.Addressed
import Marginalia.Proofs.Source.LineByLine
import Marginalia.Proofs.Source.Splice
import Marginalia.Proofs.Text.Cut

/-!
# The positions that identifiers are made from

Before an identifier is made for a mark, the text of the mark is looked for in the source, from just
behind the position found last.  The search knows nothing of the marks in between that need no
address, and it stops at the first occurrence, which may lie in a longer mark before the one that is
meant.  So a position need not be where the mark stands.

It cannot be behind it, though, and that is enough.  The next search starts one byte behind a
position, which is at most one byte behind the start of a mark, and every later mark starts further
on; so the text of the next mark is still ahead.  The byte that is passed over is the first slash of
a mark, so no search starts inside a character.

* `Placed.sought_occurrence` — one search, from an offset that is not behind the mark.
* `Traced` and `traced_occurrences` — the searches one after another.
* `patched_stampLines` — what addressing writes, as edits behind the marks.
* `stampPositions_traced` — **the positions ascend, the text of the mark stands at each, and none is
  behind the mark**; and the identifiers made from them are what is written behind the marks.
-/

set_option autoImplicit false
namespace Marginalia

variable {source : Text}

namespace Placed

variable {p : Placed} {offset : Nat} {l : Line}

/-! ## One search -/

/-- The search for a mark from an offset on, and the position that it gives. -/
structure Sought (source : Text) (p : Placed) (offset position : Nat) : Prop where
  /-- The search starts within the source, between two characters, and it finds the text. -/
  found : ∃ rest distance, Text.dropBytes? offset source = some rest ∧
    Text.findBytes? p.mark.text rest = some distance ∧ position = offset + distance
  /-- The text of the mark stands at the position. -/
  stands : Text.slice? position (position + Text.byteLength p.mark.text) source = some p.mark.text
  /-- The position is not behind the mark. -/
  reached : position ≤ p.start

/-- The text of a mark stands where the mark does, and it begins with a slash. -/
theorem exists_slash_of_mem (h : p ∈ ofText source) :
    ∃ before text after, p.mark.text = '/' :: text ∧ p.start = Text.byteLength before ∧
      source = before ++ (p.mark.text ++ after) := by
  obtain ⟨above, l, below, hlines, hl⟩ := exists_inLine_of_mem_ofText h
  obtain ⟨code, hcode⟩ := hl.exists_standsIn
  have hrun := Line.isRun_of_ofText hlines
  obtain ⟨spaces, tag, c, r, htext⟩ := hcode.first.form
  refine ⟨Line.joined above ++ code, _, l.ending.toText ++ Line.joined below, htext,
    hcode.start, ?_⟩
  rw [hrun.split, hcode.first.split]
  simp only [List.append_assoc]

/-- **A search that starts before a mark or at it finds the text of the mark**, and the next one can
start one byte behind. -/
theorem sought_occurrence {done rest : Text} (hp : p ∈ ofText source)
    (hsource : source = done ++ rest) (hle : Text.byteLength done ≤ p.start) :
    p.Sought source (Text.byteLength done) (occurrence source p.mark.text (Text.byteLength done)) ∧
      ∃ done' rest', source = done' ++ rest' ∧
        Text.byteLength done' = occurrence source p.mark.text (Text.byteLength done) + 1 := by
  obtain ⟨before, text, after, htext, hstart, hstands⟩ := exists_slash_of_mem hp
  rw [hstart] at hle
  obtain ⟨between, rfl, rfl⟩ :=
    Text.exists_append_of_byteLength_le (hsource.symm.trans hstands) hle
  obtain ⟨code, r, hcode, hcodele, hfound⟩ :=
    Text.exists_findBytesFrom?_eq p.mark.text between after 0
  rw [Nat.zero_add] at hfound
  have hdrop : Text.dropBytes? (Text.byteLength done) source
      = some (between ++ (p.mark.text ++ after)) := by
    rw [hsource]
    exact Text.dropBytes?_byteLength_append _ _
  have hposition : occurrence source p.mark.text (Text.byteLength done)
      = Text.byteLength (done ++ code) := by
    rw [occurrence, hdrop, Option.bind_some, Text.findBytes?, hfound, Text.byteLength_append]
  have hsplit : source = (done ++ code) ++ (p.mark.text ++ r) := by
    rw [hsource, hcode, List.append_assoc]
  rw [hposition]
  refine ⟨⟨⟨_, _, hdrop, hfound, Text.byteLength_append _ _⟩, ?_, ?_⟩, ?_⟩
  · exact Text.slice?_eq hsplit rfl (Text.byteLength_append _ _).symm
  · rw [hstart, Text.byteLength_append, Text.byteLength_append]
    exact Nat.add_le_add_left hcodele _
  · refine ⟨done ++ code ++ ['/'], text ++ r, by rw [hsplit, htext]; simp, ?_⟩
    rw [Text.byteLength_append]
    rfl

end Placed

/-! ## All searches -/

/-- The searches for some marks, one after another: each starts one byte behind the position that
the one before has given. -/
inductive Traced (source : Text) : Nat → List Placed → List Nat → Prop where
  /-- The offset that is left over lies within the source too, and between two characters. -/
  | done {offset : Nat} {rest : Text} (inside : Text.dropBytes? offset source = some rest) :
      Traced source offset [] []
  | next {offset position : Nat} {p : Placed} {marks : List Placed} {positions : List Nat}
      (sought : p.Sought source offset position)
      (h : Traced source (position + 1) marks positions) :
      Traced source offset (p :: marks) (position :: positions)

theorem Traced.offset_le {offset : Nat} {marks : List Placed} {positions : List Nat}
    (h : Traced source offset marks positions) : ∀ position ∈ positions, offset ≤ position := by
  induction h with
  | done => simp
  | next sought _ ih =>
    obtain ⟨rest, distance, -, -, hposition⟩ := sought.found
    intro later hlater
    rcases List.mem_cons.1 hlater with rfl | hlater
    · omega
    · have hle := ih later hlater
      omega

/-- The positions ascend. -/
theorem Traced.pairwise {offset : Nat} {marks : List Placed} {positions : List Nat}
    (h : Traced source offset marks positions) : positions.Pairwise (· < ·) := by
  induction h with
  | done => exact List.Pairwise.nil
  | next _ h ih => exact List.pairwise_cons.2 ⟨h.offset_le, ih⟩

/-- **Searches for marks in the order in which they stand** never miss. -/
theorem traced_occurrences {marks : List Placed} (hmem : ∀ p ∈ marks, p ∈ Placed.ofText source)
    (hordered : marks.Pairwise fun p q => p.start < q.start) (done rest : Text)
    (hsource : source = done ++ rest) (hahead : ∀ p ∈ marks, Text.byteLength done ≤ p.start) :
    Traced source (Text.byteLength done) marks
      (occurrences source (Text.byteLength done) (marks.map Placed.mark)) := by
  induction marks generalizing done rest with
  | nil =>
    have hdrop : Text.dropBytes? (Text.byteLength done) source = some rest := by
      rw [hsource]
      exact Text.dropBytes?_byteLength_append _ _
    exact .done hdrop
  | cons p marks ih =>
    obtain ⟨hp, hmarks⟩ := List.forall_mem_cons.1 hmem
    obtain ⟨hfirst, hordered⟩ := List.pairwise_cons.1 hordered
    obtain ⟨hsought, done', rest', hsource', hdone'⟩ :=
      Placed.sought_occurrence hp hsource (hahead p List.mem_cons_self)
    have hreached := hsought.reached
    have hahead' : ∀ q ∈ marks, Text.byteLength done' ≤ q.start := by
      intro q hq
      have hlt := hfirst q hq
      omega
    have hnext := ih hmarks hordered done' rest' hsource' hahead'
    rw [hdone'] at hnext
    exact .next hsought hnext

/-! ## The marks that get an address -/

namespace Placed

/-- The marks of some lines that need an address. -/
def unaddressed (offset : Nat) (lines : List Line) : List Placed :=
  (ofLines offset lines).filter needsAddress

/-- What addressing looks for in a line is the mark in it, if it needs an address. -/
theorem InLine.unaddressed?_eq {p : Placed} {offset : Nat} {l : Line} {below : List Line}
    (h : p.InLine offset l below) :
    l.unaddressed? = if p.needsAddress then some p.mark else none := by
  have hterminated := h.terminated
  rw [Line.unaddressed?, needsAddress, h.mark, Option.filter_some]
  by_cases habsent : l.ending = .absent
  · have hfalse : p.terminated = false := by simpa [habsent] using hterminated
    rw [if_pos habsent, hfalse, Bool.false_and, if_neg Bool.false_ne_true]
  · rw [if_neg habsent, hterminated.2 habsent, Bool.true_and]

/-- The first of some lines has a mark that needs an address, or it has none. -/
theorem unaddressed_cons (offset : Nat) (l : Line) (rest : List Line) :
    (l.unaddressed? = none ∧
      unaddressed offset (l :: rest) = unaddressed (offset + l.byteLength) rest) ∨
    ∃ p : Placed, p.InLine offset l rest ∧ l.unaddressed? = some p.mark ∧
      unaddressed offset (l :: rest) = p :: unaddressed (offset + l.byteLength) rest := by
  rw [unaddressed, unaddressed]
  obtain ⟨hnone, hof⟩ | ⟨p, hp, hof⟩ := ofLines_cons offset l rest
  · refine Or.inl ⟨?_, by rw [hof]⟩
    rw [Line.unaddressed?, hnone, Option.filter_none, ite_self]
  · have hun := hp.unaddressed?_eq
    rw [hof]
    split at hun
    · rename_i hneeds
      exact Or.inr ⟨p, hp, hun, List.filter_cons_of_pos hneeds⟩
    · rename_i hneeds
      exact Or.inl ⟨hun, List.filter_cons_of_neg hneeds⟩

theorem filterMap_unaddressed? (lines : List Line) (offset : Nat) :
    lines.filterMap Line.unaddressed? = (unaddressed offset lines).map mark := by
  induction lines generalizing offset with
  | nil => rfl
  | cons l rest ih =>
    obtain ⟨hun, hof⟩ | ⟨p, -, hun, hof⟩ := unaddressed_cons offset l rest
    · rw [hof, List.filterMap_cons_none hun, ih]
    · rw [hof, List.filterMap_cons_some hun, List.map_cons, ih]

end Placed

/-- Addresses put behind some marks. -/
def stampEdits (marks : List Placed) (identifiers : List Text) : List Edit :=
  List.zipWith (fun p identifier => ⟨p.stop, p.stop, addressText identifier⟩) marks identifiers

/-- **Addressing puts each identifier behind its mark and changes nothing else**, if there are
identifiers enough. -/
theorem patched_stampLines {lines : List Line} {offset : Nat} {identifiers : List Text}
    (h : (Placed.unaddressed offset lines).length ≤ identifiers.length) :
    Patched offset (stampEdits (Placed.unaddressed offset lines) identifiers) (Line.joined lines)
      (Line.joined (stampLines identifiers lines)) := by
  induction lines generalizing offset identifiers with
  | nil => exact Patched.nil
  | cons l rest ih =>
    obtain ⟨hun, hof⟩ | ⟨p, hp, hun, hof⟩ := Placed.unaddressed_cons offset l rest
    · rw [hof] at h ⊢
      rw [stampLines_of_none hun]
      exact Patched.keep l.toText (ih h)
    · rw [hof] at h ⊢
      cases identifiers with
      | nil => exact absurd h (Nat.not_succ_le_zero _)
      | cons identifier later =>
        have hbehind : p.stop + Text.byteLength l.ending.toText = offset + l.byteLength := by
          rw [hp.stop_eq, Nat.add_assoc, ← Text.byteLength_append, Line.byteLength, Line.toText]
        rw [stampLines_of_some hun, Line.joined_cons, Line.joined_cons, List.append_assoc]
        refine Patched.keep l.content ?_
        rw [← hp.stop_eq]
        refine Patched.replace [] _ (Patched.keep l.ending.toText ?_)
        rw [Text.byteLength_nil, Nat.add_zero, hbehind]
        exact ih (Nat.le_of_succ_le_succ h)

/-- **Identifiers are made from real and distinct positions.**  Of the marks that get an address,
each one's text is looked for from one byte behind the position of the one before, which is within
the source and not inside a character; it is found, and not behind the mark.  So the positions
ascend.  What is made of them is written behind the marks, and nothing else is changed. -/
theorem stampPositions_traced (source : Text) :
    Traced source 0 (Placed.unaddressed 0 (Line.ofText source)) (stampPositions source) ∧
      (stampPositions source).Pairwise (· < ·) ∧
      ∀ mint : Mint, Patched 0
        (stampEdits (Placed.unaddressed 0 (Line.ofText source))
          ((stampPositions source).mapIdx mint))
        source (addressed mint source) := by
  have hmarks := Placed.filterMap_unaddressed? (Line.ofText source) 0
  have htraced : Traced source 0 (Placed.unaddressed 0 (Line.ofText source))
      (stampPositions source) := by
    rw [stampPositions, hmarks]
    have hordered := Placed.pairwise_ofLines (Line.orderly_ofText source) 0
    refine traced_occurrences (fun p hp => (List.mem_filter.1 hp).1) ?_ [] source rfl
      fun _ _ => Nat.zero_le _
    exact (hordered.imp fun h => Nat.lt_of_le_of_lt (Nat.le_add_right _ _) h).filter _
  refine ⟨htraced, htraced.pairwise, fun mint => ?_⟩
  have hlength : (Placed.unaddressed 0 (Line.ofText source)).length
      ≤ ((stampPositions source).mapIdx mint).length := by
    rw [List.length_mapIdx, stampPositions, length_occurrences, hmarks, List.length_map]
  have h := patched_stampLines hlength
  rwa [Line.joined_ofText] at h

/-- The text of the second mark is found within the first one, long before the place where it
stands. -/
example :
    let source := "// @toggle on // @radio a\n// @radio a\n".toList
    (Placed.ofText source).map Placed.start = [0, 26] ∧ stampPositions source = [0, 14] := by
  decide +kernel

end Marginalia
