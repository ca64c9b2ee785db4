import Marginalia.Proofs.Source.Addressed
import Marginalia.Proofs.Text.Cut

/-!
# Addressing settles after one pass

An address is told by its text: a mark whose text holds `hash="` is passed over, and what is put
behind a mark that has none holds just that (`writesHash_append_addressText`).  So an addressed
source has no mark left that needs an address, and `addressed_addressed` follows: **a second pass
asks for no identifier and changes nothing.**

Nothing here depends on what an identifier says, as long as it stays on its line.  An identifier
with a line break would open a new line, and that line may bring a mark along.
-/

set_option autoImplicit false
namespace Marginalia

theorem writesHash_append_addressText (t identifier : Text) :
    writesHash (t ++ addressText identifier) = true := by
  refine Text.holds_iff.2 ⟨t ++ [' '], 'v' :: (identifier ++ ['"']), ?_⟩
  rw [Attributes.addressText_eq]
  simp

/-! ## Nothing is left to do -/

/-- **A line that has been addressed needs no address.** -/
theorem Line.Addressed.unaddressed?_eq_none {P : Text → Prop} {l l' : Line}
    (h : l.Addressed P l') : l'.unaddressed? = none := by
  cases h with
  | kept hnone => exact hnone
  | @stamped m identifier hsome hid =>
    obtain ⟨-, hm, -⟩ := Line.unaddressed?_eq_some_iff.1 hsome
    obtain ⟨details, hm', -⟩ := Mark.find?_append_addressText hm identifier
    refine Option.eq_none_iff_forall_ne_some.2 fun m' hm'' => ?_
    obtain ⟨-, hfind, hwrites⟩ := Line.unaddressed?_eq_some_iff.1 hm''
    obtain rfl := Option.some.inj (hm'.symm.trans hfind)
    exact absurd (writesHash_append_addressText m.text identifier) (by simp [hwrites])

theorem unaddressed?_of_mem_addressed {mint : Mint}
    (hone : ∀ drawn position, onOneLine (mint drawn position) = true) (source : Text) :
    ∀ l ∈ Line.ofText (addressed mint source), l.unaddressed? = none := by
  intro l' hl'
  rw [ofText_addressed mint source hone] at hl'
  have hall := (forall₂_stamped (P := fun _ => True) mint source fun _ _ => trivial).flip
  obtain ⟨i, hi⟩ := List.getElem?_of_mem hl'
  obtain ⟨l, -, hl⟩ := exists_getElem?_of_forall₂ hall hi
  exact Line.Addressed.unaddressed?_eq_none hl

/-! ## A source with nothing left to do -/

/-- Identifiers are asked for as long as a mark needs an address. -/
theorem stampPositions_eq_nil_iff {source : Text} :
    stampPositions source = [] ↔ ∀ l ∈ Line.ofText source, l.unaddressed? = none := by
  rw [← List.length_eq_zero_iff, stampPositions, length_occurrences, List.length_eq_zero_iff,
    List.filterMap_eq_nil_iff]

theorem stampLines_eq_self {lines : List Line} (h : ∀ l ∈ lines, l.unaddressed? = none)
    (identifiers : List Text) : stampLines identifiers lines = lines := by
  induction lines with
  | nil => rfl
  | cons l rest ih =>
    obtain ⟨hl, hrest⟩ := List.forall_mem_cons.1 h
    rw [stampLines_of_none hl, ih hrest]

theorem addressed_eq_self {source : Text} (h : stampPositions source = []) (mint : Mint) :
    addressed mint source = source := by
  rw [addressed, stampLines_eq_self (stampPositions_eq_nil_iff.1 h), Line.joined_ofText]

/-- **Addressing a second time changes nothing**, and no identifier is asked for. -/
theorem addressed_addressed {first : Mint}
    (hone : ∀ drawn position, onOneLine (first drawn position) = true) (second : Mint)
    (source : Text) :
    stampPositions (addressed first source) = [] ∧
      addressed second (addressed first source) = addressed first source := by
  have hnone := stampPositions_eq_nil_iff.2 (unaddressed?_of_mem_addressed hone source)
  exact ⟨hnone, addressed_eq_self hnone second⟩

/-- The identifiers hold a quotation mark and another mark. -/
theorem addressed_addressed_marks :
    let source := ("init(); // @toggle //\r\nx = true\r// @date data-hash=\"a\"\n// @input  \n" ++
      "// @radio label").toList
    let first : Mint := fun _ _ => "\" // @step hash".toList
    let second : Mint := fun _ _ => "2".toList
    (∀ drawn position, onOneLine (first drawn position) = true) ∧
      addressed first source = ("init(); // @toggle // hash=\"v\" // @step hash\"\r\nx = true\r" ++
        "// @date data-hash=\"a\"\n// @input   hash=\"v\" // @step hash\"\n// @radio label").toList ∧
      stampPositions (addressed first source) = [] ∧
      addressed second (addressed first source) = addressed first source := by
  intro source first second
  have hone : ∀ drawn position, onOneLine (first drawn position) = true := fun _ _ => by decide
  exact ⟨hone, by decide +kernel, addressed_addressed hone second source⟩

end Marginalia
