import Mathlib.Data.List.Basic
import Marginalia.Proofs.Form.Unchanged

/-!
# What is shown can be edited

Reading a form and filling it in go different ways: one makes a control out of a literal, the other
compares the literal with a value and writes a new one, and each of them checks the tag on its own.
Still they agree on which marks take part.  A mark that is a control takes every value that has a
form as its literal, and a mark that is none refuses every value, for the one fault that keeps it
from being a control.  No value makes that fault appear or go away.

## What is here

* `Mark.refilled_of_control_error` and `Mark.refilled_of_control_ok` — the two halves for one mark
  and its line, by the faults that reading can have (`Fault.isStructural`).
* `refusals_fill_single` — a value under a hash that one mark carries meets that mark alone.
* `editable_iff_shown` — both together, for a source.
-/

set_option autoImplicit false
namespace Marginalia

/-- Whether a fault lies with a mark and the line below it, whatever value is handed in. -/
def Fault.isStructural : Fault → Bool
  | .accessDenied | .missingConfigLine | .malformedLine | .illegalLiteral .. => true
  | .hashNotFound | .unsupportedValue _ => false

/-! ## One mark -/

namespace Tag

variable {tag : Tag} {literal : Text} {fault : Fault}

/-- A literal that shows no value takes none. -/
theorem refilled_of_shown_error (h : tag.shown literal = .error fault) (value : Value) :
    tag.refilled literal value = .error fault := by
  rw [refilled, h]
  rfl

/-- A literal that shows a value takes any other that has a form as this literal. -/
theorem refilled_eq_error_of_shown {shown : Value × LiteralKind} {value : Value}
    (hs : tag.shown literal = .ok shown) (h : tag.refilled literal value = .error fault) :
    fault = .unsupportedValue tag := by
  rw [refilled, Except.bind_eq_error_iff] at h
  rcases h with h | ⟨⟨current, kind⟩, hs', h⟩
  · cases hs.symm.trans h
  · simp only at h
    split at h
    · cases h
    · exact written_eq_error_of_kind (shown_eq_ok_iff.1 hs').1 h

end Tag

namespace Mark

variable {m : Mark} {user : Option Text} {content? : Option Text} {fault : Fault}

theorem control_eq_error_iff :
    m.control user content? = .error fault ↔
      m.setting user content? = .error fault ∨
        ∃ s, m.setting user content? = .ok s ∧ m.tag.shown s.literal = .error fault := by
  rw [control, Except.bind_eq_error_iff]
  simp only [Except.map_eq_error_iff]

/-- **A mark that is no control lacks something that no value brings along.** -/
theorem isStructural_of_control (h : m.control user content? = .error fault) :
    fault.isStructural = true := by
  rcases control_eq_error_iff.1 h with h | ⟨s, -, h⟩
  · rcases setting_eq_error h with rfl | rfl | rfl <;> rfl
  · rw [Tag.shown_eq_error h]
    rfl

/-- **A mark that is no control takes no value**, and the fault is the same for all of them. -/
theorem refilled_of_control_error (h : m.control user content? = .error fault) (value : Value) :
    m.refilled user content? value = .error fault := by
  rw [refilled, Except.bind_eq_error_iff]
  rcases control_eq_error_iff.1 h with h | ⟨s, hs, h⟩
  · exact Or.inl h
  · exact Or.inr ⟨s, hs, Except.map_eq_error_iff.2 (Tag.refilled_of_shown_error h value)⟩

/-- **A mark that is a control takes every value** that has a form as its literal. -/
theorem refilled_of_control_ok {c : Control} (h : m.control user content? = .ok c) (value : Value) :
    (∃ text, m.refilled user content? value = .ok text) ∨
      m.refilled user content? value = .error (.unsupportedValue m.tag) := by
  obtain ⟨s, shown, kind, hs, hshown, -⟩ := control_eq_ok_iff.1 h
  cases hr : m.refilled user content? value with
  | ok text => exact Or.inl ⟨text, rfl⟩
  | error fault =>
    rw [refilled, Except.bind_eq_error_iff] at hr
    rcases hr with hr | ⟨s', hs', hr⟩
    · cases hs.symm.trans hr
    · obtain rfl := Except.ok.inj (hs.symm.trans hs')
      rw [Tag.refilled_eq_error_of_shown hshown (Except.map_eq_error_iff.1 hr)]
      exact Or.inr rfl

end Mark

/-! ## One value -/

/-- If one member of a list is sent to a value, no other is. -/
theorem exists_append_of_count_filterMap {α β : Type} [BEq β] [LawfulBEq β] {f : α → Option β}
    {l : List α} {v : β} (h : (l.filterMap f).count v = 1) {a : α} (ha : a ∈ l)
    (hf : f a = some v) :
    ∃ above below, l = above ++ a :: below ∧ ∀ b, b ∈ above ∨ b ∈ below → f b ≠ some v := by
  obtain ⟨above, below, rfl⟩ := List.append_of_mem ha
  rw [List.filterMap_append, List.filterMap_cons_some hf, List.count_append,
    List.count_cons_self] at h
  have habove : v ∉ above.filterMap f := List.count_eq_zero.1 (by omega)
  have hbelow : v ∉ below.filterMap f := List.count_eq_zero.1 (by omega)
  refine ⟨above, below, rfl, fun b hb hv => ?_⟩
  rcases hb with hb | hb
  · exact habove (List.mem_filterMap.2 ⟨b, hb, hv⟩)
  · exact hbelow (List.mem_filterMap.2 ⟨b, hb, hv⟩)

section

variable {source hash : Text} {user : Option Text} {value : Value} {p : Placed}

theorem Mark.request?_single_iff {m : Mark} {hash' : Text} {value' : Value} :
    m.request? [(hash, value)] = some (hash', value') ↔
      m.hash? = some hash ∧ hash' = hash ∧ value' = value := by
  rw [Mark.request?_eq_some_iff, Keyed.get?_cons, Keyed.get?_nil]
  constructor
  · rintro ⟨hm, hv⟩
    split at hv
    · rename_i he
      subst he
      exact ⟨hm, rfl, (Option.some.inj hv).symm⟩
    · cases hv
  · rintro ⟨hm, rfl, rfl⟩
    exact ⟨hm, if_pos rfl⟩

theorem Placed.refusal?_single_of_ne (h : p.mark.hash? ≠ some hash) :
    p.refusal? [(hash, value)] user = none := by
  have hnone : p.mark.request? [(hash, value)] = none :=
    Option.eq_none_iff_forall_ne_some.2 fun _ hr => h (Mark.request?_single_iff.1 hr).1
  rw [Placed.refusal?, hnone]
  rfl

theorem unknownHashes_single (hp : p ∈ Placed.ofText source) (hh : p.mark.hash? = some hash) :
    unknownHashes source [(hash, value)] = [] := by
  refine List.eq_nil_iff_forall_not_mem.2 fun hash' hmem => ?_
  obtain ⟨hkey, hnone⟩ := mem_unknownHashes.1 hmem
  obtain rfl : hash' = hash := by simpa using hkey
  exact hnone p hp hh

/-- **A value under a hash that one mark carries** meets that mark alone. -/
theorem refusals_fill_single (hp : p ∈ Placed.ofText source) (hh : p.mark.hash? = some hash)
    (once : (markHashes source).count hash = 1) :
    (fill source [(hash, value)] user).refusals
      = (p.refusal? [(hash, value)] user).toList := by
  obtain ⟨above, below, hl, hother⟩ := exists_append_of_count_filterMap once hp hh
  have hnone : ∀ q, q ∈ above ∨ q ∈ below → q.refusal? [(hash, value)] user = none :=
    fun q hq => Placed.refusal?_single_of_ne (hother q hq)
  have habove : above.filterMap (Placed.refusal? [(hash, value)] user) = [] :=
    List.filterMap_eq_nil_iff.2 fun q hq => hnone q (Or.inl hq)
  have hbelow : below.filterMap (Placed.refusal? [(hash, value)] user) = [] :=
    List.filterMap_eq_nil_iff.2 fun q hq => hnone q (Or.inr hq)
  rw [fill, unknownHashes_single hp hh]
  simp only [List.map_nil, List.append_nil]
  rw [hl, List.filterMap_append, habove, List.filterMap_cons, hbelow]
  cases p.refusal? [(hash, value)] user <;> rfl

/-- No other mark carries the hash. -/
theorem eq_of_hash?_of_once (once : (markHashes source).count hash = 1)
    (hp : p ∈ Placed.ofText source) (hh : p.mark.hash? = some hash) {q : Placed}
    (hq : q ∈ Placed.ofText source) (hh' : q.mark.hash? = some hash) : q = p := by
  obtain ⟨above, below, hl, hother⟩ := exists_append_of_count_filterMap once hp hh
  rw [hl, List.mem_append, List.mem_cons] at hq
  rcases hq with hq | rfl | hq
  · exact absurd hh' (hother q (Or.inl hq))
  · rfl
  · exact absurd hh' (hother q (Or.inr hq))

/-- **A value that is refused leaves the source as it was.** -/
theorem filledContent_single_of_error (once : (markHashes source).count hash = 1)
    (hp : p ∈ Placed.ofText source) (hh : p.mark.hash? = some hash) {fault : Fault}
    (hf : p.mark.refilled user p.content? value = .error fault) :
    filledContent source [(hash, value)] user = source := by
  refine filledContent_eq_self fun g hg => ?_
  rcases filledText_cases [(hash, value)] user g with h | ⟨m, s, literal, hm, hw, -⟩
  · exact h
  · obtain ⟨above, l⟩ := g
    cases hm
    obtain ⟨q, hq, rfl, hc⟩ := exists_placed_of_mem_governors hg
    obtain ⟨hash', value', hr, -, -⟩ := Mark.rewriting?_eq_some_iff.1 hw
    obtain ⟨hqh, rfl, rfl⟩ := Mark.request?_single_iff.1 hr
    -- the mark of the rewritten line would be the one that refuses
    obtain rfl := eq_of_hash?_of_once once hp hh hq hqh
    rw [hc] at hf
    cases hf.symm.trans (Mark.refilled_eq_ok_of_rewriting? hr hw)

/-- A hash is shown if the mark that carries it is a control. -/
theorem exists_control_iff (once : (markHashes source).count hash = 1)
    (hp : p ∈ Placed.ofText source) (hh : p.mark.hash? = some hash) :
    (∃ c ∈ (form source user).controls, c.hash = some hash) ↔ ∃ c, p.control user = .ok c := by
  constructor
  · rintro ⟨c, hc, hch⟩
    obtain ⟨q, hq, hcontrol⟩ := Form.mem_controls_form.1 hc
    obtain ⟨_, _, _, _, _, rfl⟩ := Mark.control_eq_ok_iff.1 hcontrol
    obtain rfl := eq_of_hash?_of_once once hp hh hq hch
    exact ⟨_, hcontrol⟩
  · rintro ⟨c, hcontrol⟩
    refine ⟨c, Form.mem_controls_form.2 ⟨p, hp, hcontrol⟩, ?_⟩
    obtain ⟨_, _, _, _, _, rfl⟩ := Mark.control_eq_ok_iff.1 hcontrol
    exact hh

end

/-! ## Reading and filling in -/

attribute [ext] Filled

/-- Reading and filling in agree on a mark that carries a hash. -/
structure Placed.Agreed (p : Placed) (source : Text) (user : Option Text) (hash : Text) : Prop where
  /-- The hash is shown if a value under it is written, or is refused for the value alone. -/
  shown : ∀ value, (∃ c ∈ (form source user).controls, c.hash = some hash) ↔
    (fill source [(hash, value)] user).refusals = [] ∨
      (fill source [(hash, value)] user).refusals = [⟨hash, .unsupportedValue p.mark.tag⟩]
  /-- If it is not shown, every value is refused for the one fault that keeps the mark from being a
  control, and the source stays. -/
  notShown : (¬∃ c ∈ (form source user).controls, c.hash = some hash) →
    ∃ fault, fault.isStructural = true ∧ (p, fault) ∈ passedOver source user ∧
      ∀ value, fill source [(hash, value)] user
        = { content := source, refusals := [⟨hash, fault⟩] }

theorem mem_passedOver {source : Text} {user : Option Text} {p : Placed} {fault : Fault}
    (hp : p ∈ Placed.ofText source) (h : p.control user = .error fault) :
    (p, fault) ∈ passedOver source user :=
  List.mem_filterMap.2 ⟨p, hp, by simp only [h]⟩

/-- **What is shown can be edited, and nothing else can**: for a hash that one mark carries, reading
a form and filling it in take the same decision, whatever value is handed in. -/
theorem editable_iff_shown {source hash : Text} {p : Placed} (hp : p ∈ Placed.ofText source)
    (hh : p.mark.hash? = some hash) (once : (markHashes source).count hash = 1)
    (user : Option Text) : p.Agreed source user hash := by
  have hrequest : ∀ value, p.mark.request? [(hash, value)] = some (hash, value) :=
    fun value => Mark.request?_single_iff.2 ⟨hh, rfl, rfl⟩
  cases hcontrol : p.control user with
  | ok c =>
    have hshown : ∃ c ∈ (form source user).controls, c.hash = some hash :=
      (exists_control_iff once hp hh).2 ⟨c, hcontrol⟩
    refine ⟨fun value => iff_of_true hshown ?_, fun hnot => absurd hshown hnot⟩
    rw [refusals_fill_single hp hh once]
    rcases Mark.refilled_of_control_ok hcontrol value with ⟨text, hf⟩ | hf
    · rw [Placed.refusal?_of_ok (hrequest value) hf]
      exact Or.inl rfl
    · rw [Placed.refusal?_of_error (hrequest value) hf]
      exact Or.inr rfl
  | error fault =>
    have hnot : ¬∃ c ∈ (form source user).controls, c.hash = some hash := by
      rw [exists_control_iff once hp hh]
      rintro ⟨c, hc⟩
      cases hcontrol.symm.trans hc
    have hstructural := Mark.isStructural_of_control hcontrol
    have hfill : ∀ value, fill source [(hash, value)] user
        = { content := source, refusals := [⟨hash, fault⟩] } := by
      intro value
      have hf := Mark.refilled_of_control_error hcontrol value
      have hcontent : (fill source [(hash, value)] user).content = source :=
        filledContent_single_of_error once hp hh hf
      have hrefusals : (fill source [(hash, value)] user).refusals = [⟨hash, fault⟩] := by
        rw [refusals_fill_single hp hh once, Placed.refusal?_of_error (hrequest value) hf]
        rfl
      exact Filled.ext hcontent hrefusals
    refine ⟨fun value => iff_of_false hnot ?_,
      fun _ => ⟨fault, hstructural, mem_passedOver hp hcontrol, hfill⟩⟩
    rw [hfill value]
    rintro (h | h)
    · cases h
    · cases h
      cases hstructural

/-- A mark that the user may not see and that governs another one, and a list of which not every
text is a form. -/
theorem editable_iff_shown_bob :
    let source := "// @date hash=\"a\" access=\"al\"\r\n// @range hash=\"c\"\ry = [1, 5]".toList
    let user := some "bob".toList
    let a : Placed :=
      { mark := ⟨.date, "// @date hash=\"a\" access=\"al\"".toList,
          "hash=\"a\" access=\"al\"".toList⟩
        start := 0
        terminated := true
        governed := some (31, ⟨"// @range hash=\"c\"".toList, .cr⟩) }
    let c : Placed :=
      { mark := ⟨.range, "// @range hash=\"c\"".toList, "hash=\"c\"".toList⟩
        start := 31
        terminated := true
        governed := some (50, ⟨"y = [1, 5]".toList, .absent⟩) }
    (a ∈ Placed.ofText source ∧ a.mark.hash? = some "a".toList ∧
      (markHashes source).count "a".toList = 1 ∧ a.Agreed source user "a".toList) ∧
    (c ∈ Placed.ofText source ∧ c.mark.hash? = some "c".toList ∧
      (markHashes source).count "c".toList = 1 ∧ c.Agreed source user "c".toList) := by
  intro source user a c
  have hboth : Placed.ofText source = [a, c] := rfl
  have ha : a ∈ Placed.ofText source := by rw [hboth]; exact List.mem_cons_self
  have hc : c ∈ Placed.ofText source := by
    rw [hboth]; exact List.mem_cons_of_mem _ List.mem_cons_self
  have hah : a.mark.hash? = some "a".toList := by decide +kernel
  have hch : c.mark.hash? = some "c".toList := by decide +kernel
  have honce : (markHashes source).count "a".toList = 1 := by decide +kernel
  have honce' : (markHashes source).count "c".toList = 1 := by decide +kernel
  exact ⟨⟨ha, hah, honce, editable_iff_shown ha hah honce user⟩,
    ⟨hc, hch, honce', editable_iff_shown hc hch honce' user⟩⟩

end Marginalia
