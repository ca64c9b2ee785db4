import Mathlib.Data.List.Basic
import Marginalia.Mark.Basic
import Marginalia.Proofs.Text.Blank
import Marginalia.Proofs.Text.Cut

/-!
# Marks in a line that goes on

A mark reaches to the end of its line, so whatever is put behind the line belongs to the mark.  What
has to be shown is that nothing else happens: the line must not be found to carry a mark at an
earlier place now, and the mark must not be taken for one with another tag.

Both follow from the form of a mark, told without looking for it (`Mark.startingAt?_eq_some_iff`):
two slashes, spaces, an at sign and a tag, and behind that at least one space and something else.
A text of that form has its only slashes at the very beginning, so no mark can begin within it, and
it has no space in its tag, so no two tags can be read from it.

The main statement is `Mark.find?_append_space`.
-/

set_option autoImplicit false
namespace Marginalia

theorem Tag.name_injective : Function.Injective Tag.name :=
  Function.LeftInverse.injective (g := fun t => (Tag.ofName? t).getD .toggle) fun tag => by
    simp

theorem Tag.space_not_mem_name (tag : Tag) : ' ' ∉ tag.name := by cases tag <;> decide

theorem Tag.slash_not_mem_name (tag : Tag) : '/' ∉ tag.name := by cases tag <;> decide

/-- A tag is told by the text in front of the first space. -/
theorem Tag.eq_of_name_append {tag tag' : Tag} {a b : Text}
    (h : tag.name ++ ' ' :: a = tag'.name ++ ' ' :: b) : tag = tag' ∧ a = b := by
  have hcut : Text.cutAt? ' ' (tag.name ++ ' ' :: a) = some (tag.name, a) :=
    Text.cutAt?_eq_some_iff.2 ⟨rfl, tag.space_not_mem_name⟩
  have hcut' : Text.cutAt? ' ' (tag.name ++ ' ' :: a) = some (tag'.name, b) :=
    Text.cutAt?_eq_some_iff.2 ⟨h, tag'.space_not_mem_name⟩
  obtain ⟨hname, hrest⟩ := Prod.mk.inj (Option.some.inj (hcut.symm.trans hcut'))
  exact ⟨Tag.name_injective hname, hrest⟩

namespace Mark

variable {t x details : Text} {m : Mark} {tag : Tag}

/-! ## The form of a mark -/

theorem details?_eq_some_iff : details? t = some details ↔ ∃ r, t = ' ' :: r ∧ r ≠ [] ∧
    details = if r.dropWhile (· = ' ') = [] then [' '] else r.dropWhile (· = ' ') := by
  constructor
  · intro h
    unfold details? at h
    split at h
    · rename_i r
      split at h
      · rename_i hd
        split at h
        · cases h
        · rename_i hr
          cases h
          exact ⟨r, rfl, hr, by rw [if_pos hd]⟩
      · rename_i hd
        cases h
        refine ⟨r, rfl, ?_, by rw [if_neg hd]⟩
        rintro rfl
        exact hd rfl
    · cases h
  · rintro ⟨r, rfl, hr, rfl⟩
    rw [details?]
    split
    · rename_i hd
      rw [if_neg hr, if_pos hd]
    · rename_i hd
      rw [if_neg hd]

theorem tagged?_eq_some_iff : tagged? t = some (tag, details) ↔
    ∃ r, t = tag.name ++ r ∧ details? r = some details := by
  have hof : ∀ tag' details', tagged? t = some (tag', details') →
      ∃ r, t = tag'.name ++ r ∧ details? r = some details' := by
    intro tag' details' h
    obtain ⟨a, -, ha⟩ := List.exists_of_findSome?_eq_some h
    obtain ⟨r, hr, hd⟩ := Option.bind_eq_some_iff.1 ha
    obtain ⟨d, hd, he⟩ := Option.map_eq_some_iff.1 hd
    cases he
    exact ⟨r, (List.isPrefixOf?_eq_some_iff_append_eq.1 hr).symm, hd⟩
  refine ⟨hof tag details, ?_⟩
  rintro ⟨r, rfl, hd⟩
  have hsome : (tagged? (tag.name ++ r)).isSome = true := by
    rw [tagged?, List.findSome?_isSome_iff]
    refine ⟨tag, tag.mem_all, ?_⟩
    rw [List.isPrefixOf?_eq_some_iff_append_eq.2 rfl]
    simp [hd]
  obtain ⟨⟨tag', details'⟩, h⟩ := Option.isSome_iff_exists.1 hsome
  obtain ⟨r', he, hd'⟩ := hof tag' details' h
  obtain ⟨a, rfl, -, -⟩ := details?_eq_some_iff.1 hd
  obtain ⟨b, rfl, -, -⟩ := details?_eq_some_iff.1 hd'
  obtain ⟨rfl, rfl⟩ := Tag.eq_of_name_append he
  obtain rfl : details = details' := Option.some.inj (hd.symm.trans hd')
  exact h

/-- What a mark begins with: two slashes, at least one space, an at sign and a tag. -/
def opening (spaces : Nat) (tag : Tag) : Text :=
  '/' :: '/' :: ' ' :: (List.replicate spaces ' ' ++ '@' :: tag.name)

theorem takeWhile_space (t : Text) :
    t.takeWhile (· = ' ') = List.replicate (t.takeWhile (· = ' ')).length ' ' :=
  List.eq_replicate_of_mem fun c hc => by simpa using List.mem_takeWhile_imp hc

theorem afterSpaces?_eq_some_iff {r : Text} : afterSpaces? t = some ('@' :: r) ↔
    ∃ spaces, t = ' ' :: (List.replicate spaces ' ' ++ '@' :: r) := by
  constructor
  · intro h
    unfold afterSpaces? at h
    split at h
    · rename_i u
      refine ⟨(u.takeWhile (· = ' ')).length, ?_⟩
      rw [← takeWhile_space, ← Option.some.inj h, List.takeWhile_append_dropWhile]
    · cases h
  · rintro ⟨spaces, rfl⟩
    rw [afterSpaces?, List.dropWhile_append_of_pos]
    · rfl
    · intro c hc
      simpa using (List.mem_replicate.1 hc).2

/-- The form of a mark. -/
theorem startingAt?_eq_some_iff : startingAt? t = some m ↔
    ∃ spaces r, t = opening spaces m.tag ++ r ∧ details? r = some m.details ∧ m.text = t := by
  constructor
  · intro h
    have htext := startingAt?_text h
    unfold startingAt? at h
    split at h
    · rename_i r
      split at h
      · rename_i r' hspaces
        obtain ⟨⟨tag, details⟩, htag, rfl⟩ := Option.map_eq_some_iff.1 h
        obtain ⟨spaces, rfl⟩ := afterSpaces?_eq_some_iff.1 hspaces
        obtain ⟨r, rfl, hd⟩ := tagged?_eq_some_iff.1 htag
        exact ⟨spaces, r, by simp [opening], hd, htext⟩
      · cases h
    · cases h
  · rintro ⟨spaces, r, rfl, hd, htext⟩
    have hspaces : afterSpaces? (' ' :: (List.replicate spaces ' ' ++ '@' :: (m.tag.name ++ r)))
        = some ('@' :: (m.tag.name ++ r)) := afterSpaces?_eq_some_iff.2 ⟨spaces, rfl⟩
    have htag : tagged? (m.tag.name ++ r) = some (m.tag, m.details) :=
      tagged?_eq_some_iff.2 ⟨r, rfl, hd⟩
    have hopening : opening spaces m.tag ++ r
        = '/' :: '/' :: ' ' :: (List.replicate spaces ' ' ++ '@' :: (m.tag.name ++ r)) := by
      simp [opening]
    rw [hopening] at htext ⊢
    rw [startingAt?, hspaces]
    simp only [htag, Option.map_some, ← htext]

/-! ## A mark that goes on -/

theorem details?_append_space (h : details? t = some details)
    (hx : x.dropWhile (· = ' ') ≠ []) :
    ∃ details', details? (t ++ ' ' :: x) = some details' ∧
      Text.trim details' = Text.trim (details ++ ' ' :: x) := by
  obtain ⟨r, rfl, hr, rfl⟩ := details?_eq_some_iff.1 h
  by_cases hd : r.dropWhile (· = ' ') = []
  · -- nothing but spaces so far, so the attribute text begins behind further spaces
    have happend : (r ++ ' ' :: x).dropWhile (· = ' ') = x.dropWhile (· = ' ') := by
      rw [List.dropWhile_append_of_pos (List.dropWhile_eq_nil_iff.1 hd)]
      rfl
    have hblank : Text.AllBlank (' ' :: ' ' :: x.takeWhile (· = ' ')) := by
      refine List.forall_mem_cons.2 ⟨rfl, List.forall_mem_cons.2 ⟨rfl, fun c hc => ?_⟩⟩
      have hspace : c = ' ' := by simpa using List.mem_takeWhile_imp hc
      rw [hspace]
      rfl
    have hx' : [' '] ++ ' ' :: x
        = (' ' :: ' ' :: x.takeWhile (· = ' ')) ++ x.dropWhile (· = ' ') := by
      simp
    refine ⟨x.dropWhile (· = ' '), details?_eq_some_iff.2
      ⟨r ++ ' ' :: x, rfl, by simp, by rw [happend, if_neg hx]⟩, ?_⟩
    rw [if_pos hd, hx', Text.trim, Text.trim, Text.trimStart_append_of_allBlank hblank]
  · have happend : (r ++ ' ' :: x).dropWhile (· = ' ') = r.dropWhile (· = ' ') ++ ' ' :: x := by
      rw [List.dropWhile_append, if_neg (by rwa [List.isEmpty_iff])]
    refine ⟨r.dropWhile (· = ' ') ++ ' ' :: x, details?_eq_some_iff.2
      ⟨r ++ ' ' :: x, rfl, by simp, by rw [happend, if_neg (by simp)]⟩, ?_⟩
    rw [if_neg hd]

theorem startingAt?_append_space (h : startingAt? t = some m)
    (hx : x.dropWhile (· = ' ') ≠ []) :
    ∃ details, startingAt? (t ++ ' ' :: x) = some ⟨m.tag, t ++ ' ' :: x, details⟩ ∧
      Text.trim details = Text.trim (m.details ++ ' ' :: x) := by
  obtain ⟨spaces, r, rfl, hd, -⟩ := startingAt?_eq_some_iff.1 h
  obtain ⟨details, hd', htrim⟩ := details?_append_space hd hx
  exact ⟨details, startingAt?_eq_some_iff.2
    ⟨spaces, r ++ ' ' :: x, List.append_assoc _ _ _, hd', rfl⟩, htrim⟩

/-- The slashes of a mark up to its tag are its first two characters. -/
theorem slash_not_mem_opening {spaces : Nat} {w e : Text}
    (h : opening spaces tag = w ++ e) (hw : w ≠ []) (he : e.head? = some '/') :
    ∃ r, e = '/' :: ' ' :: r := by
  obtain ⟨r, rfl⟩ := List.head?_eq_some_iff.1 he
  match w, hw with
  | [c], _ =>
    rw [opening, List.singleton_append] at h
    have h' := (List.cons.inj (List.cons.inj h).2).2
    exact ⟨_, by rw [← h']⟩
  | c :: d :: w, _ =>
    -- the slash would be among the spaces or in the name of the tag
    have h' := (List.cons.inj (List.cons.inj h).2).2
    have hmem : '/' ∈ ' ' :: (List.replicate spaces ' ' ++ '@' :: tag.name) := by
      rw [h']
      simp
    simp [List.mem_replicate, tag.slash_not_mem_name] at hmem

/-- No mark begins in front of another one because of what is put behind that one. -/
theorem startingAt?_append_of_none {w : Text} (hw : w ≠ [])
    (h : startingAt? m.text = some m) (hnone : startingAt? (w ++ m.text) = none) (s : Text) :
    startingAt? (w ++ m.text ++ s) = none := by
  obtain ⟨spaces, r, htext, hd, -⟩ := startingAt?_eq_some_iff.1 h
  refine Option.eq_none_iff_forall_ne_some.2 fun m' hm' => ?_
  obtain ⟨spaces', r', he, hd', -⟩ := startingAt?_eq_some_iff.1 hm'
  obtain ⟨u, rfl, hu, -⟩ := details?_eq_some_iff.1 hd'
  rw [List.append_assoc, List.append_eq_append_iff] at he
  rcases he with ⟨e, hopening, hbehind⟩ | ⟨e, rfl, hbehind⟩
  · -- the mark would begin within the opening of the other one
    rw [htext, opening] at hbehind
    cases e with
    | nil => cases hbehind
    | cons c e =>
      have hhead : (c :: e).head? = some '/' := by
        rw [List.head?_cons, (List.cons.inj hbehind).1]
      obtain ⟨q, hq⟩ := slash_not_mem_opening hopening hw hhead
      rw [hq] at hbehind
      cases hbehind
  · -- the other one was there before
    cases e with
    | nil =>
      rw [htext, opening] at hbehind
      cases hbehind
    | cons c e =>
      obtain ⟨rfl, -⟩ := List.cons.inj hbehind
      have hd'' := details?_eq_some_iff.2 ⟨e ++ m.text, rfl, by simp [htext, opening], rfl⟩
      have hsome : startingAt? (opening spaces' m'.tag ++ ' ' :: e ++ m.text) = some
          ⟨m'.tag, opening spaces' m'.tag ++ ' ' :: e ++ m.text, _⟩ :=
        startingAt?_eq_some_iff.2 ⟨spaces', _, List.append_assoc _ _ _, hd'', rfl⟩
      cases hnone.symm.trans hsome

theorem startingAt?_of_find? (h : find? t = some m) : startingAt? m.text = some m := by
  induction t with
  | nil => cases h
  | cons c r ih =>
    unfold find? at h
    split at h
    · rename_i m' hm
      cases h
      rwa [startingAt?_text hm]
    · exact ih h

/-- **A mark goes on to the end of its line**: what is put behind the line, after a space, is put
behind the mark, and its attributes are read from both. -/
theorem find?_append_space (h : find? t = some m) (hx : x.dropWhile (· = ' ') ≠ []) :
    ∃ details, find? (t ++ ' ' :: x) = some ⟨m.tag, m.text ++ ' ' :: x, details⟩ ∧
      Text.trim details = Text.trim (m.details ++ ' ' :: x) := by
  induction t with
  | nil => cases h
  | cons c r ih =>
    cases hc : startingAt? (c :: r) with
    | some m' =>
      obtain rfl : m' = m := by
        rw [find?, hc] at h
        exact Option.some.inj h
      obtain ⟨details, hd, htrim⟩ := startingAt?_append_space hc hx
      rw [startingAt?_text hc]
      refine ⟨details, ?_, htrim⟩
      rw [List.cons_append] at hd ⊢
      rw [find?, hd]
    | none =>
      have hr : find? r = some m := by
        rw [find?, hc] at h
        exact h
      obtain ⟨w, hw⟩ := find?_suffix hr
      have hnone : startingAt? (c :: r ++ ' ' :: x) = none := by
        rw [← hw, ← List.cons_append] at hc ⊢
        exact startingAt?_append_of_none (List.cons_ne_nil _ _) (startingAt?_of_find? hr) hc _
      obtain ⟨details, hd, htrim⟩ := ih hr
      refine ⟨details, ?_, htrim⟩
      rw [List.cons_append] at hnone ⊢
      rw [find?, hnone, hd]

/-- The attribute text is the end of the comment. -/
theorem details_suffix (h : find? t = some m) : m.details <:+ m.text := by
  obtain ⟨spaces, r, htext, hd, -⟩ := startingAt?_eq_some_iff.1 (startingAt?_of_find? h)
  obtain ⟨u, rfl, hu, he⟩ := details?_eq_some_iff.1 hd
  rw [htext, he]
  refine List.IsSuffix.trans ?_ (List.suffix_append _ _)
  split
  · rename_i hspaces
    -- spaces only, and the attribute text is the last of them
    have hlast : u.getLast hu = ' ' := by
      simpa using List.dropWhile_eq_nil_iff.1 hspaces _ (List.getLast_mem hu)
    refine List.IsSuffix.trans ⟨u.dropLast, ?_⟩ (List.suffix_cons ' ' u)
    rw [← hlast, List.dropLast_append_getLast]
  · exact (List.dropWhile_suffix _).trans (List.suffix_cons _ _)

end Mark
end Marginalia
