import Mathlib.Data.List.Basic
import Mathlib.Data.List.Pairwise
import Marginalia.Proofs.Form.Controls
import Marginalia.Proofs.Form.Edits
import Marginalia.Proofs.Text.Keyed

/-!
# Handing in an unchanged form changes nothing

A form is read in one walk over the source and filled in by another, and the two meet at the literal
of each mark: what the first one shows is what the second one compares with.  As long as no two
marks share a hash, every value comes back to the literal it was read from, which shows it already,
so the literal stays as it is written (`fill_entries_form`).

With a shared hash this fails: the form then hands in one value for several literals.
-/

set_option autoImplicit false
namespace Marginalia

/-- Members of a list that are sent to the same value are the same if no value comes up twice. -/
theorem eq_of_nodup_filterMap {α β : Type} {f : α → Option β} {l : List α}
    (h : (l.filterMap f).Nodup) {a b : α} {v : β} (ha : a ∈ l) (hb : b ∈ l)
    (hfa : f a = some v) (hfb : f b = some v) : a = b := by
  have hp := List.pairwise_filterMap.1 h
  have hsymm : Std.Symm fun x y => ∀ u, f x = some u → ∀ w, f y = some w → u ≠ w :=
    ⟨fun _ _ hxy u hu w hw he => hxy w hw u hu he.symm⟩
  by_contra hne
  exact hp.forall ha hb hne v hfa v hfb rfl

/-- The hashes of the marks of a source. -/
def markHashes (source : Text) : List Text :=
  (Placed.ofText source).filterMap fun p => p.mark.hash?

namespace Form

theorem mem_of_get?_entries {f : Form} {hash : Text} {value : Value}
    (h : f.entries.get? hash = some value) :
    ∃ c ∈ f.controls, c.hash = some hash ∧ c.value = value := by
  obtain ⟨c, hc, he⟩ := List.mem_filterMap.1 (Keyed.mem_of_get?_ofPairs h)
  obtain ⟨hash', hh, hp⟩ := Option.map_eq_some_iff.1 he
  cases hp
  exact ⟨c, hc, hh, rfl⟩

theorem mem_keys_entries {f : Form} {hash : Text} (h : hash ∈ f.entries.keys) :
    ∃ c ∈ f.controls, c.hash = some hash := by
  obtain ⟨⟨hash', value⟩, hm, rfl⟩ := List.mem_map.1 (Keyed.mem_keys_ofPairs.1 h)
  obtain ⟨c, hc, he⟩ := List.mem_filterMap.1 hm
  obtain ⟨hash'', hh, hp⟩ := Option.map_eq_some_iff.1 he
  cases hp
  exact ⟨c, hc, hh⟩

end Form

section

variable {source : Text} {user : Option Text}

/-- **A value of the form is asked for at the literal that shows it.** -/
theorem Placed.shown_of_request? (distinct : (markHashes source).Nodup) {p : Placed}
    (hp : p ∈ Placed.ofText source) {hash : Text} {value : Value}
    (hr : p.mark.request? (form source user).entries = some (hash, value)) :
    ∃ s kind, p.mark.setting user p.content? = .ok s ∧
      p.mark.tag.shown s.literal = .ok (value, kind) := by
  obtain ⟨hash?, hv⟩ := Mark.request?_eq_some_iff.1 hr
  obtain ⟨c, hc, hch, rfl⟩ := Form.mem_of_get?_entries hv
  obtain ⟨q, hq, hcontrol⟩ := Form.mem_controls_form.1 hc
  obtain ⟨s, value, kind, hs, hshown, rfl⟩ := Mark.control_eq_ok_iff.1 hcontrol
  -- the control comes from a mark with the same hash, which can only be this one
  obtain rfl : p = q := eq_of_nodup_filterMap distinct hp hq hash? hch
  exact ⟨s, kind, hs, hshown⟩

theorem refilled_of_request? (distinct : (markHashes source).Nodup) {p : Placed}
    (hp : p ∈ Placed.ofText source) {hash : Text} {value : Value}
    (hr : p.mark.request? (form source user).entries = some (hash, value)) :
    ∃ s, p.mark.setting user p.content? = .ok s ∧
      p.mark.tag.refilled s.literal value = .ok s.literal := by
  obtain ⟨s, kind, hs, hshown⟩ := Placed.shown_of_request? distinct hp hr
  exact ⟨s, hs, Tag.refilled_eq_ok_iff.2 ⟨value, kind, hshown, Or.inl ⟨rfl, rfl⟩⟩⟩

theorem filledText_entries_form (distinct : (markHashes source).Nodup) {g : Option Mark × Line}
    (hg : g ∈ governors none (Line.ofText source)) :
    filledText (form source user).entries user g = g.2.content := by
  rcases filledText_cases (form source user).entries user g with h | ⟨m, s, literal, hm, hw, h⟩
  · exact h
  · obtain ⟨above, l⟩ := g
    cases hm
    obtain ⟨p, hp, rfl, hc⟩ := exists_placed_of_mem_governors hg
    obtain ⟨hash, value, hr, hs, hl⟩ := Mark.rewriting?_eq_some_iff.1 hw
    obtain ⟨s', hs', hl'⟩ := refilled_of_request? distinct hp hr
    rw [hc] at hs'
    obtain rfl : s = s' := Except.ok.inj (hs.symm.trans hs')
    obtain rfl : literal = s.literal := Except.ok.inj (hl.symm.trans hl')
    rw [h]
    exact Setting.of?_toText (Mark.of?_of_rewriting? hw)

/-- A source whose lines are all left as they were is what it was. -/
theorem filledContent_eq_self {entries : Entries}
    (h : ∀ g ∈ governors none (Line.ofText source), filledText entries user g = g.2.content) :
    filledContent source entries user = source := by
  have hlines : ∀ g ∈ governors none (Line.ofText source),
      filledLine entries user g = g.2.toText := fun g hg => by
    rw [filledLine_eq, h g hg, Line.toText]
  calc filledContent source entries user
      = (governors none (Line.ofText source)).flatMap fun g => g.2.toText :=
        List.flatMap_congr hlines
    _ = Line.joined ((governors none (Line.ofText source)).map Prod.snd) := by
        rw [Line.joined, List.flatMap_map]
    _ = source := by rw [map_snd_governors, Line.joined_ofText]

theorem filledContent_entries_form (distinct : (markHashes source).Nodup) :
    filledContent source (form source user).entries user = source :=
  filledContent_eq_self fun _ => filledText_entries_form distinct

theorem refusal?_entries_form (distinct : (markHashes source).Nodup) {p : Placed}
    (hp : p ∈ Placed.ofText source) : p.refusal? (form source user).entries user = none := by
  cases hr : p.mark.request? (form source user).entries with
  | none =>
    rw [Placed.refusal?, hr]
    rfl
  | some request =>
    obtain ⟨hash, value⟩ := request
    obtain ⟨s, hs, hl⟩ := refilled_of_request? distinct hp hr
    exact Placed.refusal?_of_ok hr (Mark.refilled_eq_ok_iff.2 ⟨s, s.literal, hs, hl, rfl⟩)

/-- Every hash of a form is the hash of a mark. -/
theorem unknownHashes_entries_form :
    unknownHashes source (form source user).entries = [] := by
  refine List.eq_nil_iff_forall_not_mem.2 fun hash hh => ?_
  obtain ⟨hk, hnone⟩ := mem_unknownHashes.1 hh
  obtain ⟨c, hc, hch⟩ := Form.mem_keys_entries hk
  obtain ⟨p, hp, hcontrol⟩ := Form.mem_controls_form.1 hc
  obtain ⟨_, _, _, _, _, rfl⟩ := Mark.control_eq_ok_iff.1 hcontrol
  exact hnone p hp hch

end

/-- **Handing in an unchanged form changes nothing**, and nothing is refused. -/
theorem fill_entries_form (source : Text) (user : Option Text)
    (distinct : (markHashes source).Nodup) :
    fill source (form source user).entries user = { content := source, refusals := [] } := by
  have hmarks : (Placed.ofText source).filterMap
      (Placed.refusal? (form source user).entries user) = [] :=
    List.filterMap_eq_nil_iff.2 fun _ => refusal?_entries_form distinct
  rw [fill, filledContent_entries_form distinct, hmarks, unknownHashes_entries_form]
  rfl

/-- The literals are written as no rewriting would write them. -/
theorem fill_entries_form_blanks :
    let source := ("// @checkbox hash=\"a\"\n\ndays : [ 'mon',\"tue\"] ;// work\r" ++
      "// @input hash=\"b\"\r\nx = 16.50,").toList
    (form source none).entries
        = [("a".toList, .items ["mon".toList, "tue".toList]), ("b".toList, .text "16.50".toList)] ∧
      fill source (form source none).entries none = { content := source, refusals := [] } :=
  ⟨by decide +kernel, fill_entries_form _ none (by decide +kernel)⟩

end Marginalia
