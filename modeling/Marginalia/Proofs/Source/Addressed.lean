import Marginalia.Proofs.Mark.Address
import Marginalia.Proofs.Source.Governed
import Marginalia.Proofs.Source.Lines

/-!
# Which marks have an address

Addressing looks for `hash="` in the text of a mark, and everything else reads its attributes.  The
two can disagree.  A hash that is written `hash ="a"` is not found, so the mark gets a second one,
and the last one counts.  A `data-hash="a"` is taken for a hash, so the mark gets none.  And an
address behind a text that cannot be read as attributes is not read either.

So it is not true that a mark keeps the hash it has, nor that every mark has one in the end.  What
is true is said for each mark by the attribute text it had before:

* `addressed_keeps_hash_iff` — **a mark keeps its hash, whatever identifiers are made,** exactly if
  it gets no address or its text does not take one.
* `addressed_has_hash_iff` — **a mark has a hash in the end** exactly if it had one, or it gets an
  address and its text takes it.

Both follow from `forall₂_addressed`: addressing keeps the marks in their order and puts an address
behind those that need one.
-/

set_option autoImplicit false
namespace Marginalia

/-- A mint whose identifiers can stand in an attribute. -/
structure Mint.Plain (mint : Mint) : Prop where
  oneLine : ∀ drawn position, onOneLine (mint drawn position) = true
  unquoted : ∀ drawn position, '"' ∉ mint drawn position

section

variable {P : Text → Prop} {l l' : Line} {m : Mark} {identifier : Text}

/-! ## Lines with an address -/

theorem onOneLine_addressText (h : onOneLine identifier = true) :
    onOneLine (addressText identifier) = true := by
  have hkey : onOneLine " hash=\"v".toList = true := by decide
  have hopen : onOneLine (" hash=\"v".toList ++ identifier) = true :=
    onOneLine_append.2 ⟨hkey, h⟩
  exact onOneLine_append.2 ⟨hopen, by decide⟩

namespace Line

theorem unaddressed?_eq_some_iff : l.unaddressed? = some m ↔
    l.ending ≠ .absent ∧ Mark.find? l.content = some m ∧ writesHash m.text = false := by
  rw [unaddressed?]
  split
  · rename_i he
    simp [he]
  · rename_i he
    rw [Option.filter_eq_some_iff]
    simp [he]

/-- What addressing makes of a line, given what is known of the identifiers: an address stands
behind a mark that needs one, and any other line is left alone. -/
inductive Addressed (P : Text → Prop) (l : Line) : Line → Prop where
  /-- Nothing is needed. -/
  | kept (h : l.unaddressed? = none) : Addressed P l l
  /-- A mark gets an address. -/
  | stamped {m : Mark} {identifier : Text} (h : l.unaddressed? = some m) (hid : P identifier) :
      Addressed P l ⟨l.content ++ addressText identifier, l.ending⟩

end Line

theorem stampLines_of_none (h : l.unaddressed? = none) (identifiers : List Text)
    (rest : List Line) : stampLines identifiers (l :: rest) = l :: stampLines identifiers rest := by
  simp only [stampLines, h]

theorem stampLines_of_some (h : l.unaddressed? = some m) (later : List Text) (rest : List Line) :
    stampLines (identifier :: later) (l :: rest)
      = ⟨l.content ++ addressText identifier, l.ending⟩ :: stampLines later rest := by
  simp only [stampLines, h]

theorem forall₂_stampLines {identifiers : List Text} {lines : List Line}
    (hlength : (lines.filterMap Line.unaddressed?).length ≤ identifiers.length)
    (hid : ∀ identifier ∈ identifiers, P identifier) :
    List.Forall₂ (Line.Addressed P) lines (stampLines identifiers lines) := by
  induction lines generalizing identifiers with
  | nil => exact List.Forall₂.nil
  | cons l rest ih =>
    cases hl : l.unaddressed? with
    | none =>
      rw [List.filterMap_cons_none hl] at hlength
      rw [stampLines_of_none hl]
      exact List.Forall₂.cons (.kept hl) (ih hlength hid)
    | some m =>
      rw [List.filterMap_cons_some hl, List.length_cons] at hlength
      cases identifiers with
      | nil => exact absurd hlength (Nat.not_succ_le_zero _)
      | cons identifier later =>
        obtain ⟨hfirst, hlater⟩ := List.forall_mem_cons.1 hid
        rw [stampLines_of_some hl]
        exact List.Forall₂.cons (.stamped hl hfirst) (ih (Nat.le_of_succ_le_succ hlength) hlater)

theorem length_occurrences (source : Text) (offset : Nat) (marks : List Mark) :
    (occurrences source offset marks).length = marks.length := by
  induction marks generalizing offset with
  | nil => rfl
  | cons m rest ih => rw [occurrences, List.length_cons, List.length_cons, ih]

/-- There is an identifier for every mark that needs one. -/
theorem forall₂_stamped (mint : Mint) (source : Text)
    (hP : ∀ drawn position, P (mint drawn position)) :
    List.Forall₂ (Line.Addressed P) (Line.ofText source)
      (stampLines ((stampPositions source).mapIdx mint) (Line.ofText source)) := by
  refine forall₂_stampLines (by simp [stampPositions, length_occurrences]) ?_
  intro identifier hmem
  obtain ⟨drawn, hdrawn, rfl⟩ := List.mem_mapIdx.1 hmem
  exact hP drawn _

theorem Line.Addressed.rewritten (hP : ∀ identifier, P identifier → onOneLine identifier = true)
    (h : l.Addressed P l') (hone : onOneLine l.content = true) : l.Rewritten l' := by
  cases h with
  | kept => exact ⟨rfl, hone, id⟩
  | stamped h hid =>
    refine ⟨rfl, onOneLine_append.2 ⟨hone, onOneLine_addressText (hP _ hid)⟩, fun hnil => ?_⟩
    exact (List.append_eq_nil_iff.1 hnil).1

/-- The lines of an addressed source are those that were written. -/
theorem ofText_addressed (mint : Mint) (source : Text)
    (hone : ∀ drawn position, onOneLine (mint drawn position) = true) :
    Line.ofText (addressed mint source)
      = stampLines ((stampPositions source).mapIdx mint) (Line.ofText source) := by
  have horderly := Line.orderly_ofText source
  have hstamped := forall₂_stamped (P := fun identifier => onOneLine identifier = true) mint source
    hone
  refine Line.ofText_joined (horderly.rewritten ?_)
  have hboth := (List.forall₂_and_left _ _).2 ⟨horderly.oneLine, hstamped⟩
  exact hboth.imp fun _ _ h => h.2.rewritten (fun _ => id) h.1

/-! ## Marks with an address -/

namespace Placed

variable {p q : Placed}

/-- Whether addressing puts an address behind a mark. -/
def needsAddress (p : Placed) : Bool := p.terminated && !writesHash p.mark.text

/-- Whether addressing has a say in the hash of a mark: the mark gets an address, and its text
takes it. -/
def rehashed (p : Placed) : Bool := p.needsAddress && Attributes.takesAddress p.mark.details

/-- What addressing makes of a mark, given what is known of the identifiers. -/
structure Addressed (P : Text → Prop) (p q : Placed) : Prop where
  terminated : q.terminated = p.terminated
  kept : p.needsAddress = false → q.mark = p.mark
  stamped : p.needsAddress = true → ∃ identifier, P identifier ∧
    q.mark.tag = p.mark.tag ∧ q.mark.text = p.mark.text ++ addressText identifier ∧
    q.mark.attributes = Attributes.ofText (p.mark.details ++ addressText identifier)

end Placed

theorem Mark.find?_append_addressText (h : Mark.find? l.content = some m) (identifier : Text) :
    ∃ details, Mark.find? (l.content ++ addressText identifier)
        = some ⟨m.tag, m.text ++ addressText identifier, details⟩ ∧
      Attributes.ofText details = Attributes.ofText (m.details ++ addressText identifier) := by
  rw [Attributes.addressText_eq]
  obtain ⟨details, hfind, htrim⟩ := Mark.find?_append_space h
    (x := "hash".toList ++ '=' :: '"' :: ('v' :: identifier ++ ['"'])) (List.cons_ne_nil _ _)
  exact ⟨details, hfind, by rw [Attributes.ofText, Attributes.ofText, htrim]⟩

/-- The marks of lines are addressed as the lines are, wherever the lines start. -/
theorem forall₂_ofLines {lines lines' : List Line}
    (h : List.Forall₂ (Line.Addressed P) lines lines') (offset offset' : Nat) :
    List.Forall₂ (Placed.Addressed P) (Placed.ofLines offset lines)
      (Placed.ofLines offset' lines') := by
  induction h generalizing offset offset' with
  | nil => exact List.Forall₂.nil
  | @cons l l' rest rest' hl hrest ih =>
    simp only [Placed.ofLines]
    cases hl with
    | kept hnone =>
      cases hm : Mark.find? l.content with
      | none => exact ih _ _
      | some m =>
        refine List.Forall₂.cons ⟨rfl, fun _ => rfl, fun hneeds => ?_⟩ (ih _ _)
        rw [Placed.needsAddress, Bool.and_eq_true, decide_eq_true_eq, Bool.not_eq_true'] at hneeds
        have hsome := Line.unaddressed?_eq_some_iff.2 ⟨hneeds.1, hm, hneeds.2⟩
        cases hnone.symm.trans hsome
    | @stamped m identifier hsome hid =>
      obtain ⟨hend, hm, hwrites⟩ := Line.unaddressed?_eq_some_iff.1 hsome
      obtain ⟨details, hm', hattributes⟩ := Mark.find?_append_addressText hm identifier
      rw [hm, hm']
      refine List.Forall₂.cons ⟨rfl, fun hneeds => ?_, fun _ => ?_⟩ (ih _ _)
      · rw [Placed.needsAddress, hwrites, Bool.not_false, Bool.and_true,
          decide_eq_false_iff_not] at hneeds
        exact absurd hend hneeds
      · exact ⟨identifier, hid, rfl, rfl, hattributes⟩

/-- **Addressing keeps the marks in their order**, and puts an address behind those that need
one. -/
theorem forall₂_addressed (mint : Mint) (source : Text)
    (hone : ∀ drawn position, onOneLine (mint drawn position) = true)
    (hP : ∀ drawn position, P (mint drawn position)) :
    List.Forall₂ (Placed.Addressed P) (Placed.ofText source)
      (Placed.ofText (addressed mint source)) := by
  rw [Placed.ofText, Placed.ofText, ofText_addressed mint source hone]
  exact forall₂_ofLines (forall₂_stamped mint source hP) 0 0

end

/-! ## Hashes -/

theorem exists_getElem?_of_forall₂ {α β : Type} {R : α → β → Prop} {as : List α} {bs : List β}
    (h : List.Forall₂ R as bs) {i : Nat} {a : α} (ha : as[i]? = some a) :
    ∃ b, bs[i]? = some b ∧ R a b := by
  induction h generalizing i with
  | nil => cases ha
  | @cons a' b as bs hr _ ih =>
    cases i with
    | zero =>
      cases ha
      exact ⟨b, rfl, hr⟩
    | succ i => exact ih ha

/-- A hash that is read is not empty, and it stands among the attributes. -/
theorem Attributes.hash?_eq_some {d hash : Text} (h : (Attributes.ofText d).hash? = some hash) :
    hash ≠ [] ∧ ("hash".toList, hash) ∈ Attributes.readPairs (Text.trim d) := by
  obtain ⟨hget, hne⟩ := Option.filter_eq_some_iff.1 h
  refine ⟨by simpa using hne, ?_⟩
  exact (List.mem_filter.1 (Keyed.mem_of_get?_ofPairs hget)).1

/-- A value that ends as an open one goes on is found by its text. -/
theorem Attributes.writesHash_of_mem_readPairs {m : Mark} {key body : Text}
    (h : (key, body ++ " hash=".toList) ∈ readPairs (Text.trim m.details))
    (hd : m.details <:+ m.text) : writesHash m.text = true := by
  obtain ⟨before, after, he⟩ := exists_eq_of_mem_readPairs h
  have hneedle : "hash=\"".toList <:+: Text.trim m.details := by
    refine ⟨before ++ (body ++ [' ']), after, ?_⟩
    rw [he]
    simp
  have htrim : Text.trim m.details <:+: m.details :=
    ⟨Text.leadingBlanks m.details, Text.trailingBlanks (Text.trimStart m.details), by
      rw [Text.trim, List.append_assoc, Text.trimEnd_append_trailingBlanks,
        Text.leadingBlanks_append_trimStart]⟩
  exact Text.holds_iff.2 (hneedle.trans (htrim.trans hd.isInfix))

theorem Placed.details_suffix {source : Text} {p : Placed} (hp : p ∈ Placed.ofText source) :
    p.mark.details <:+ p.mark.text := by
  have hmem : p.mark ∈ (Placed.ofText source).map Placed.mark := List.mem_map_of_mem hp
  rw [Placed.ofText, map_mark_ofLines] at hmem
  obtain ⟨l, -, hl⟩ := List.mem_filterMap.1 hmem
  exact Mark.details_suffix hl

namespace Placed.Addressed

variable {P : Text → Prop} {p q : Placed}

theorem hash?_of_not_rehashed (hP : ∀ identifier, P identifier → '"' ∉ identifier)
    (h : p.Addressed P q) (hp : p.rehashed = false) : q.mark.hash? = p.mark.hash? := by
  cases hneeds : p.needsAddress with
  | false => rw [h.kept hneeds]
  | true =>
    obtain ⟨identifier, hid, -, -, hattributes⟩ := h.stamped hneeds
    rw [rehashed, hneeds, Bool.true_and] at hp
    rw [Mark.hash?, hattributes]
    exact Attributes.hash?_append_addressText_of_not_takes (hP _ hid) hp

/-- The hash is the address, or an open value that goes on to it. -/
theorem hash?_of_rehashed (hP : ∀ identifier, P identifier → '"' ∉ identifier)
    (h : p.Addressed P q) (hp : p.rehashed = true) :
    (∃ identifier, P identifier ∧ q.mark.hash? = some ('v' :: identifier)) ∨
      ∃ body, q.mark.hash? = some (body ++ " hash=".toList) := by
  obtain ⟨hneeds, htakes⟩ := Bool.and_eq_true_iff.1 hp
  obtain ⟨identifier, hid, -, -, hattributes⟩ := h.stamped hneeds
  rw [Mark.hash?, hattributes]
  rw [Attributes.takesAddress, Bool.or_eq_true, List.isEmpty_iff] at htakes
  rcases htakes with hnil | hopen
  · exact Or.inl ⟨identifier, hid, Attributes.hash?_append_addressText_of_nil (hP _ hid) hnil⟩
  · obtain ⟨body, hbody⟩ := Option.isSome_iff_exists.1 hopen
    exact Or.inr ⟨body, Attributes.hash?_append_addressText_of_open (hP _ hid) hbody⟩

/-- An open value that goes on to the address is not the hash that was there before: the text would
have been found to write a hash. -/
theorem hash?_ne_open {source : Text} {body : Text} (hsource : p ∈ Placed.ofText source)
    (hp : p.rehashed = true) : p.mark.hash? ≠ some (body ++ " hash=".toList) := by
  intro hhash
  have hwrites := Attributes.writesHash_of_mem_readPairs (Attributes.hash?_eq_some hhash).2
    (Placed.details_suffix hsource)
  rw [rehashed, needsAddress, hwrites, Bool.not_true, Bool.and_false, Bool.false_and] at hp
  cases hp

end Placed.Addressed

/-- The hash of one of the marks of a source, counted from the first. -/
def hashAt? (source : Text) (i : Nat) : Option Text :=
  (Placed.ofText source)[i]?.bind fun p => p.mark.hash?

/-- **A mark keeps its hash, whatever identifiers are made**, exactly if addressing has no say in
it. -/
theorem addressed_keeps_hash_iff {source : Text} {i : Nat} {p : Placed} {hash : Text}
    (hp : (Placed.ofText source)[i]? = some p) (hh : p.mark.hash? = some hash) :
    (∀ mint : Mint, mint.Plain → hashAt? (addressed mint source) i = some hash) ↔
      p.rehashed = false := by
  constructor
  · intro hall
    by_contra hnot
    have hrehashed : p.rehashed = true := by rwa [Bool.not_eq_false] at hnot
    -- one of the identifiers that do not make up the old hash
    obtain ⟨identifier, hone, hid, hne⟩ : ∃ identifier : Text, onOneLine identifier = true ∧
        '"' ∉ identifier ∧ 'v' :: identifier ≠ hash := by
      by_cases hv : hash = ['v']
      · exact ⟨['0'], rfl, by decide, by simp [hv]⟩
      · exact ⟨[], rfl, List.not_mem_nil, fun he => hv he.symm⟩
    have hsame := hall (fun _ _ => identifier) ⟨fun _ _ => hone, fun _ _ => hid⟩
    obtain ⟨q, hq, haddressed⟩ := exists_getElem?_of_forall₂
      (forall₂_addressed (P := fun made => made = identifier) (fun _ _ => identifier) source
        (fun _ _ => hone) (fun _ _ => rfl)) hp
    rw [hashAt?, hq, Option.bind_some] at hsame
    have hmade : ∀ made, made = identifier → '"' ∉ made := fun made he => by rwa [he]
    rcases haddressed.hash?_of_rehashed hmade hrehashed with ⟨made, rfl, hhash⟩ | ⟨body, hhash⟩
    · exact hne (Option.some.inj (hhash.symm.trans hsame))
    · exact Placed.Addressed.hash?_ne_open (List.mem_of_getElem? hp) hrehashed
        (hh.trans (hsame.symm.trans hhash))
  · intro hkeeps mint hmint
    obtain ⟨q, hq, haddressed⟩ := exists_getElem?_of_forall₂
      (forall₂_addressed (P := fun identifier => '"' ∉ identifier) mint source hmint.oneLine
        hmint.unquoted) hp
    rw [hashAt?, hq, Option.bind_some, haddressed.hash?_of_not_rehashed (fun _ => id) hkeeps, hh]

/-- The hash is written with a blank, so the mark gets an address; but the word behind it keeps the
address from being read. -/
theorem addressed_keeps_hash_word :
    let source := "// @toggle hash =\"a\" on\nx = true\n".toList
    let p : Placed :=
      { mark := ⟨.toggle, "// @toggle hash =\"a\" on".toList, "hash =\"a\" on".toList⟩
        start := 0
        terminated := true
        governed := some (24, ⟨"x = true".toList, .lf⟩) }
    (Placed.ofText source)[0]? = some p ∧ p.mark.hash? = some "a".toList ∧
      p.needsAddress = true ∧
      ∀ mint : Mint, mint.Plain → hashAt? (addressed mint source) 0 = some "a".toList := by
  intro source p
  have hp : (Placed.ofText source)[0]? = some p := rfl
  have hh : p.mark.hash? = some "a".toList := by decide +kernel
  exact ⟨hp, hh, by decide +kernel,
    (addressed_keeps_hash_iff hp hh).2 (by decide +kernel)⟩

/-- **A hash can be lost**: without that word, the address is the hash. -/
theorem addressed_loses_hash :
    let source := "// @toggle hash =\"a\"\nx = true\n".toList
    let mint : Mint := fun _ _ => "1".toList
    mint.Plain ∧ hashAt? source 0 = some "a".toList ∧
      hashAt? (addressed mint source) 0 = some "v1".toList :=
  ⟨⟨fun _ _ => by decide, fun _ _ => by decide⟩, by decide +kernel, by decide +kernel⟩

/-- **A mark of an addressed source whose line has an ending has a hash** exactly if it had one
before, or addressing has a say in it. -/
theorem addressed_has_hash_iff {mint : Mint} (hmint : mint.Plain) {source : Text} {i : Nat}
    {q : Placed} (hq : (Placed.ofText (addressed mint source))[i]? = some q)
    (hend : q.terminated = true) :
    ∃ p, (Placed.ofText source)[i]? = some p ∧ p.terminated = true ∧
      ((∃ hash, q.mark.hash? = some hash ∧ hash ≠ []) ↔
        (∃ hash, p.mark.hash? = some hash) ∨ p.rehashed = true) := by
  have hall := forall₂_addressed (P := fun identifier => '"' ∉ identifier) mint source
    hmint.oneLine hmint.unquoted
  obtain ⟨p, hp, h⟩ := exists_getElem?_of_forall₂ hall.flip hq
  have haddressed : p.Addressed (fun identifier => '"' ∉ identifier) q := h
  refine ⟨p, hp, haddressed.terminated.symm.trans hend, ?_⟩
  have hsome : (∃ hash, q.mark.hash? = some hash ∧ hash ≠ []) ↔ ∃ hash, q.mark.hash? = some hash :=
    exists_congr fun hash => and_iff_left_of_imp fun hhash => (Attributes.hash?_eq_some hhash).1
  rw [hsome]
  cases hrehashed : p.rehashed with
  | false => simp [haddressed.hash?_of_not_rehashed (fun _ => id) hrehashed]
  | true =>
    refine iff_of_true ?_ (Or.inr rfl)
    rcases haddressed.hash?_of_rehashed (fun _ => id) hrehashed with
      ⟨identifier, -, hhash⟩ | ⟨body, hhash⟩
    · exact ⟨_, hhash⟩
    · exact ⟨_, hhash⟩

/-- A value of the hash is left open, and the address closes it. -/
theorem addressed_has_hash_open :
    let source := "// @toggle hash =\"a\nx = true\n".toList
    let mint : Mint := fun _ _ => "1".toList
    let q : Placed :=
      { mark := ⟨.toggle, "// @toggle hash =\"a hash=\"v1\"".toList,
          "hash =\"a hash=\"v1\"".toList⟩
        start := 0
        terminated := true
        governed := some (30, ⟨"x = true".toList, .lf⟩) }
    mint.Plain ∧ (Placed.ofText (addressed mint source))[0]? = some q ∧ q.terminated = true ∧
      ∃ p, (Placed.ofText source)[0]? = some p ∧ p.terminated = true ∧
        ((∃ hash, q.mark.hash? = some hash ∧ hash ≠ []) ↔
          (∃ hash, p.mark.hash? = some hash) ∨ p.rehashed = true) := by
  intro source mint q
  have hmint : mint.Plain := ⟨fun _ _ => by decide, fun _ _ => by decide⟩
  have hq : (Placed.ofText (addressed mint source))[0]? = some q := rfl
  exact ⟨hmint, hq, rfl, addressed_has_hash_iff hmint hq rfl⟩

/-- **Not every mark has a hash in the end**: another key that ends in the word is taken for one,
and an address behind a stray word is not read. -/
theorem addressed_leaves_no_hash :
    (let source := "// @toggle data-hash=\"a\"\nx = true\n".toList
      let mint : Mint := fun _ _ => "1".toList
      mint.Plain ∧ ((Placed.ofText (addressed mint source)).map fun p => (p.terminated, p.mark.hash?))
        = [(true, none)]) ∧
    (let source := "// @toggle label\nx = true\n".toList
      let mint : Mint := fun _ _ => "1".toList
      mint.Plain ∧ ((Placed.ofText (addressed mint source)).map fun p => (p.terminated, p.mark.hash?))
        = [(true, none)]) :=
  ⟨⟨⟨fun _ _ => by decide, fun _ _ => by decide⟩, by decide +kernel⟩,
    ⟨⟨fun _ _ => by decide, fun _ _ => by decide⟩, by decide +kernel⟩⟩

end Marginalia
