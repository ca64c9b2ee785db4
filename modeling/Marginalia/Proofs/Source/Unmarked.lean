import Marginalia.Proofs.Source.Addressed
import Marginalia.Source.Unmarked

/-!
# Addresses go with their marks

Addressing writes into lines that carry a mark and into no others, and such a line carries a mark
afterwards as well.  Taking the marks out removes whole lines, so whatever addressing has written is
gone: what is left is the same as if the source had never been addressed
(`unmarked_addressedBy`), whatever the mints and however often.
-/

set_option autoImplicit false
namespace Marginalia

/-- A source addressed by one mint after another. -/
def addressedBy (mints : List Mint) (source : Text) : Text :=
  mints.foldl (fun text mint => addressed mint text) source

namespace Line.Addressed

variable {P : Text → Prop} {l l' : Line}

/-- Addressing neither makes nor takes away a mark. -/
theorem isMarked_eq (h : l.Addressed P l') : l'.isMarked = l.isMarked := by
  cases h with
  | kept => rfl
  | @stamped m identifier hsome hid =>
    obtain ⟨-, hm, -⟩ := Line.unaddressed?_eq_some_iff.1 hsome
    obtain ⟨details, hm', -⟩ := Mark.find?_append_addressText hm identifier
    rw [isMarked, isMarked, hm, hm']
    rfl

/-- A line without a mark is left alone. -/
theorem eq_of_not_isMarked (h : l.Addressed P l') (hl : l.isMarked = false) : l' = l := by
  cases h with
  | kept => rfl
  | @stamped m identifier hsome hid =>
    obtain ⟨-, hm, -⟩ := Line.unaddressed?_eq_some_iff.1 hsome
    rw [isMarked, hm] at hl
    cases hl

/-- **The lines without a mark are those that were there before.** -/
theorem filter_not_isMarked {lines lines' : List Line}
    (h : List.Forall₂ (Line.Addressed P) lines lines') :
    (lines'.filter fun l => !l.isMarked) = lines.filter fun l => !l.isMarked := by
  induction h with
  | nil => rfl
  | @cons l l' rest rest' hl hrest ih =>
    rw [List.filter_cons, List.filter_cons, ih, hl.isMarked_eq]
    cases hm : l.isMarked with
    | true => rfl
    | false => rw [hl.eq_of_not_isMarked hm]

end Line.Addressed

theorem unmarked_addressed {mint : Mint}
    (hone : ∀ drawn position, onOneLine (mint drawn position) = true) (source : Text) :
    unmarked (addressed mint source) = unmarked source := by
  have hlines := forall₂_stamped (P := fun _ => True) mint source fun _ _ => trivial
  rw [unmarked, ofText_addressed mint source hone, Line.Addressed.filter_not_isMarked hlines,
    unmarked]

/-- **Without its marks a source does not tell how often it was addressed**, once, many times or
never. -/
theorem unmarked_addressedBy {mints : List Mint}
    (hone : ∀ mint ∈ mints, ∀ drawn position, onOneLine (mint drawn position) = true)
    (source : Text) : unmarked (addressedBy mints source) = unmarked source := by
  induction mints generalizing source with
  | nil => rfl
  | cons mint rest ih =>
    obtain ⟨hmint, hrest⟩ := List.forall_mem_cons.1 hone
    calc unmarked (addressedBy (mint :: rest) source)
        = unmarked (addressedBy rest (addressed mint source)) := rfl
      _ = unmarked (addressed mint source) := ih hrest _
      _ = unmarked source := unmarked_addressed hmint source

/-- Code in front of a mark, a mark as the line of another, blank lines, a mark that has a hash and
one in a last line that breaks off.  The second mint has nothing to add. -/
theorem unmarked_addressedBy_twice :
    let source := ("a();\r\nb(); // @toggle x=\"1\"\r// @date //\r\n\r\nc = true\n" ++
      "// @input hash=\"h\"\n\rd = 1\r// @radio y").toList
    let mints : List Mint := [fun drawn _ => List.replicate drawn 'a', fun _ _ => ['b']]
    (∀ mint ∈ mints, ∀ drawn position, onOneLine (mint drawn position) = true) ∧
      addressedBy mints source
        = ("a();\r\nb(); // @toggle x=\"1\" hash=\"v\"\r// @date // hash=\"va\"\r\n\r\n" ++
          "c = true\n// @input hash=\"h\"\n\rd = 1\r// @radio y").toList ∧
      unmarked source = "a();\r\n\r\nc = true\n\rd = 1\r".toList ∧
      unmarked (addressedBy mints source) = unmarked source := by
  intro source mints
  have hone : ∀ mint ∈ mints, ∀ drawn position, onOneLine (mint drawn position) = true := by
    intro mint hmint drawn position
    rcases List.mem_pair.1 hmint with rfl | rfl
    · simp [onOneLine]
    · rfl
  exact ⟨hone, by decide +kernel, by decide +kernel, unmarked_addressedBy hone source⟩

end Marginalia
