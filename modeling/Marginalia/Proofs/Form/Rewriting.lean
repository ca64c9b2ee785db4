import Marginalia.Form.Filled
import Marginalia.Proofs.Except
import Marginalia.Proofs.Setting.Parts

/-!
# What filling in does to one line

`fill` is put together from one step: a mark is asked for a value, the setting below it is read, and
its literal is replaced.  This file says what comes of that step, so that nothing later has to open
`Mark.setting`, `Tag.refilled` or `Mark.refilled` again.

## What is here

* `Mark.setting_eq_ok_iff` and the lemmas on faults — when a setting can be reached, and which fault
  is reported otherwise; `hashNotFound` is never one of them.
* `Tag.refilled_eq_ok_iff` — the literal that is written: the old one if it shows the value already,
  and the one that stands for the value otherwise.
* `Mark.rewriting?` — the setting and the new literal, if the mark has a value handed in and can
  take it.
* `filledText`, `filledText_cases` and `filledLine_eq` — a line after filling in is the rewritten
  setting, or what it was if there is no rewriting, and it keeps its ending.
-/

set_option autoImplicit false

namespace Marginalia

/-! ## Reaching the setting -/

namespace Mark

variable {m : Mark} {user : Option Text} {content? : Option Text}

theorem setting_eq_ok_iff {s : Setting} :
    m.setting user content? = .ok s ↔
      m.attributes.visibleTo user = true ∧ ∃ content, content? = some content ∧
        Setting.of? content = some s := by
  unfold setting
  by_cases hv : m.attributes.visibleTo user = true
  · rw [if_pos hv]
    cases content? with
    | none => simp
    | some content => cases hs : Setting.of? content <;> simp [hv, hs]
  · rw [if_neg hv]
    simp [hv]

/-- A mark that the user may not see does not look at the line below it. -/
theorem setting_of_hidden (h : m.attributes.visibleTo user = false) (content? : Option Text) :
    m.setting user content? = .error .accessDenied := by
  unfold setting
  rw [h, if_neg (by decide)]

theorem setting_eq_error {fault : Fault} (h : m.setting user content? = .error fault) :
    fault = .accessDenied ∨ fault = .missingConfigLine ∨ fault = .malformedLine := by
  unfold setting at h
  split at h
  · split at h
    · cases h
      exact Or.inr (Or.inl rfl)
    · split at h
      · cases h
        exact Or.inr (Or.inr rfl)
      · cases h
  · cases h
    exact Or.inl rfl

end Mark

/-! ## Replacing the literal -/

namespace Tag

variable {tag : Tag} {literal new : Text} {value : Value}

theorem checkedKind_eq_error {fault : Fault} (h : tag.checkedKind literal = .error fault) :
    fault = .illegalLiteral tag (LiteralKind.of literal) := by
  simp only [checkedKind] at h
  split at h
  · cases h
  · cases h
    rfl

theorem shown_eq_ok_iff {kind : LiteralKind} :
    tag.shown literal = .ok (value, kind) ↔
      tag.checkedKind literal = .ok kind ∧ value = tag.present (plainValue kind literal) := by
  rw [shown]
  cases tag.checkedKind literal with
  | error fault => simp
  | ok found =>
    simp only [Except.ok.injEq, Prod.mk.injEq]
    constructor
    · rintro ⟨rfl, rfl⟩
      exact ⟨rfl, rfl⟩
    · rintro ⟨rfl, rfl⟩
      exact ⟨rfl, rfl⟩

theorem shown_eq_error {fault : Fault} (h : tag.shown literal = .error fault) :
    fault = .illegalLiteral tag (LiteralKind.of literal) := by
  unfold shown at h
  split at h
  · cases h
  · rename_i f hf
    cases h
    exact checkedKind_eq_error hf

theorem writtenItems_eq_error {items : List Text} {fault : Fault}
    (h : tag.writtenItems literal items = .error fault) : fault = .unsupportedValue tag := by
  unfold writtenItems at h
  split at h
  · cases h
  · cases h
    rfl

theorem writtenText_eq_error {kind : LiteralKind} {t : Text} {fault : Fault}
    (h : tag.writtenText kind literal t = .error fault) : fault = .unsupportedValue tag := by
  unfold writtenText at h
  split at h
  · split at h
    · cases h
    · cases h
      rfl
  all_goals cases h

/-- **Only a value can be refused for a literal that the tag accepts.** -/
theorem written_eq_error_of_kind {kind : LiteralKind} {fault : Fault}
    (hk : tag.checkedKind literal = .ok kind) (h : tag.written literal value = .error fault) :
    fault = .unsupportedValue tag := by
  unfold written at h
  simp only [hk] at h
  split at h
  -- a toggle takes every value; lists and texts each have one way to fail
  · split at h <;> cases h
  · split at h
    · exact writtenItems_eq_error h
    · cases h
      rfl
  · split at h
    · exact writtenItems_eq_error h
    · cases h
      rfl
  · split at h
    · exact writtenText_eq_error h
    · cases h
      rfl

/-- A value is refused because the tag does not accept the literal or because the value has no form
as this literal. -/
theorem written_eq_error {fault : Fault} (h : tag.written literal value = .error fault) :
    fault = .illegalLiteral tag (LiteralKind.of literal) ∨ fault = .unsupportedValue tag := by
  cases hk : tag.checkedKind literal with
  | ok kind => exact Or.inr (written_eq_error_of_kind hk h)
  | error f =>
    unfold written at h
    rw [hk] at h
    cases h
    exact Or.inl (checkedKind_eq_error hk)

/-- **The literal that is written**: the old one if it shows the value already, and the one that
stands for the value otherwise. -/
theorem refilled_eq_ok_iff :
    tag.refilled literal value = .ok new ↔
      ∃ current kind, tag.shown literal = .ok (current, kind) ∧
        (current = value ∧ new = literal ∨
          current ≠ value ∧ tag.written literal value = .ok new) := by
  rw [refilled, Except.bind_eq_ok_iff]
  constructor
  · rintro ⟨⟨current, kind⟩, hs, hw⟩
    simp only at hw
    split at hw
    · rename_i hc
      cases hw
      exact ⟨current, kind, hs, Or.inl ⟨hc, rfl⟩⟩
    · rename_i hc
      exact ⟨current, kind, hs, Or.inr ⟨hc, hw⟩⟩
  · rintro ⟨current, kind, hs, ⟨hc, rfl⟩ | ⟨hc, hw⟩⟩
    · exact ⟨(current, kind), hs, if_pos hc⟩
    · exact ⟨(current, kind), hs, (if_neg hc).trans hw⟩

theorem refilled_eq_error {fault : Fault} (h : tag.refilled literal value = .error fault) :
    fault = .illegalLiteral tag (LiteralKind.of literal) ∨ fault = .unsupportedValue tag := by
  rw [refilled, Except.bind_eq_error_iff] at h
  rcases h with h | ⟨⟨current, kind⟩, -, h⟩
  · exact Or.inl (shown_eq_error h)
  · simp only at h
    split at h
    · cases h
    · exact written_eq_error h

end Tag

/-! ## A mark and its line -/

namespace Mark

variable {m : Mark} {user : Option Text} {entries : Entries}

theorem request?_eq_some_iff {hash : Text} {value : Value} :
    m.request? entries = some (hash, value) ↔
      m.hash? = some hash ∧ entries.get? hash = some value := by
  simp only [request?, Option.bind_eq_some_iff, Option.map_eq_some_iff, Prod.mk.injEq]
  constructor
  · rintro ⟨h, hm, v, hv, rfl, rfl⟩
    exact ⟨hm, hv⟩
  · rintro ⟨hm, hv⟩
    exact ⟨hash, hm, value, hv, rfl, rfl⟩

theorem refilled_eq_ok_iff {content? : Option Text} {value : Value} {text : Text} :
    m.refilled user content? value = .ok text ↔
      ∃ s literal, m.setting user content? = .ok s ∧ m.tag.refilled s.literal value = .ok literal ∧
        s.withLiteral literal = text := by
  rw [refilled, Except.bind_eq_ok_iff]
  simp only [Except.map_eq_ok_iff]
  constructor
  · rintro ⟨s, hs, literal, hl, rfl⟩
    exact ⟨s, literal, hs, hl, rfl⟩
  · rintro ⟨s, literal, hs, hl, rfl⟩
    exact ⟨s, hs, literal, hl, rfl⟩

/-- No mark answers that its own hash is unknown. -/
theorem refilled_ne_hashNotFound {content? : Option Text} {value : Value} :
    m.refilled user content? value ≠ .error .hashNotFound := by
  intro h
  rw [refilled, Except.bind_eq_error_iff] at h
  rcases h with h | ⟨s, -, h⟩
  · rcases setting_eq_error h with h | h | h <;> cases h
  · rcases Tag.refilled_eq_error (Except.map_eq_error_iff.1 h) with h | h <;> cases h

/-- The setting on a line that the mark governs and the literal that is written into it; none when
no value is handed in for the mark, or when the value is refused. -/
def rewriting? (m : Mark) (entries : Entries) (user : Option Text) (content : Text) :
    Option (Setting × Text) :=
  (m.request? entries).bind fun request =>
    ((m.setting user (some content)).bind fun s =>
      (m.tag.refilled s.literal request.2).map fun literal => (s, literal)).toOption

theorem rewriting?_eq_some_iff {content literal : Text} {s : Setting} :
    m.rewriting? entries user content = some (s, literal) ↔
      ∃ hash value, m.request? entries = some (hash, value) ∧
        m.setting user (some content) = .ok s ∧ m.tag.refilled s.literal value = .ok literal := by
  simp only [rewriting?, Option.bind_eq_some_iff, Except.toOption_eq_some_iff,
    Except.bind_eq_ok_iff, Except.map_eq_ok_iff, Prod.mk.injEq]
  constructor
  · rintro ⟨⟨hash, value⟩, hr, s', hs, new, hl, rfl, rfl⟩
    exact ⟨hash, value, hr, hs, hl⟩
  · rintro ⟨hash, value, hr, hs, hl⟩
    exact ⟨(hash, value), hr, s, hs, literal, hl, rfl, rfl⟩

/-- A rewriting is found on the line itself. -/
theorem of?_of_rewriting? {content literal : Text} {s : Setting}
    (h : m.rewriting? entries user content = some (s, literal)) :
    Setting.of? content = some s := by
  obtain ⟨-, -, -, hs, -⟩ := rewriting?_eq_some_iff.1 h
  obtain ⟨-, _, he, hc⟩ := setting_eq_ok_iff.1 hs
  cases he
  exact hc

theorem rewriting?_of_hidden (h : m.attributes.visibleTo user = false) (content : Text) :
    m.rewriting? entries user content = none := by
  rw [rewriting?, setting_of_hidden h]
  cases m.request? entries <;> rfl

theorem refilled_eq_ok_of_rewriting? {content literal hash : Text} {value : Value} {s : Setting}
    (hr : m.request? entries = some (hash, value))
    (h : m.rewriting? entries user content = some (s, literal)) :
    m.refilled user (some content) value = .ok (s.withLiteral literal) := by
  obtain ⟨hash', value', hr', hs, hl⟩ := rewriting?_eq_some_iff.1 h
  obtain ⟨rfl, rfl⟩ := Prod.mk.inj (Option.some.inj (hr.symm.trans hr'))
  exact refilled_eq_ok_iff.2 ⟨s, literal, hs, hl, rfl⟩

/-- A value that finds no rewriting is refused. -/
theorem exists_refilled_eq_error {content hash : Text} {value : Value}
    (hr : m.request? entries = some (hash, value))
    (h : m.rewriting? entries user content = none) :
    ∃ fault, m.refilled user (some content) value = .error fault := by
  cases hf : m.refilled user (some content) value with
  | error fault => exact ⟨fault, rfl⟩
  | ok text =>
    obtain ⟨s, literal, hs, hl, -⟩ := refilled_eq_ok_iff.1 hf
    rw [rewriting?_eq_some_iff.2 ⟨hash, value, hr, hs, hl⟩] at h
    cases h

end Mark

/-! ## Filling in a line -/

/-- The text of a line after filling in, without its ending. -/
def filledText (entries : Entries) (user : Option Text) (g : Option Mark × Line) : Text :=
  match g.1.bind fun m => m.rewriting? entries user g.2.content with
  | some (s, literal) => s.withLiteral literal
  | none => g.2.content

theorem filledText_of_rewriting? {entries : Entries} {user : Option Text} {m : Mark} {l : Line}
    {s : Setting} {literal : Text} (h : m.rewriting? entries user l.content = some (s, literal)) :
    filledText entries user (some m, l) = s.withLiteral literal := by
  rw [filledText, Option.bind_some, h]

theorem filledText_of_rewriting?_none {entries : Entries} {user : Option Text} {m : Mark} {l : Line}
    (h : m.rewriting? entries user l.content = none) :
    filledText entries user (some m, l) = l.content := by
  rw [filledText, Option.bind_some, h]

/-- A line is what it was, or a mark that governs it has it rewritten. -/
theorem filledText_cases (entries : Entries) (user : Option Text) (g : Option Mark × Line) :
    filledText entries user g = g.2.content ∨
      ∃ m s literal, g.1 = some m ∧
        m.rewriting? entries user g.2.content = some (s, literal) ∧
        filledText entries user g = s.withLiteral literal := by
  obtain ⟨above, l⟩ := g
  cases above with
  | none => exact Or.inl rfl
  | some m =>
    cases hr : m.rewriting? entries user l.content with
    | none => exact Or.inl (filledText_of_rewriting?_none hr)
    | some parts =>
      obtain ⟨s, literal⟩ := parts
      exact Or.inr ⟨m, s, literal, rfl, hr, filledText_of_rewriting? hr⟩

/-- **A line that is filled in keeps its ending.** -/
theorem filledLine_eq (entries : Entries) (user : Option Text) (g : Option Mark × Line) :
    filledLine entries user g = filledText entries user g ++ g.2.ending.toText := by
  obtain ⟨above, l⟩ := g
  cases above with
  | none => rfl
  | some m =>
    rw [filledLine]
    cases hr : m.request? entries with
    | none =>
      rw [filledText_of_rewriting?_none (by rw [Mark.rewriting?, hr]; rfl)]
      rfl
    | some request =>
      obtain ⟨hash, value⟩ := request
      cases hw : m.rewriting? entries user l.content with
      | none =>
        obtain ⟨fault, hf⟩ := Mark.exists_refilled_eq_error hr hw
        rw [filledText_of_rewriting?_none hw]
        simp only [hf, Line.toText]
      | some parts =>
        rw [filledText_of_rewriting? hw]
        simp only [Mark.refilled_eq_ok_of_rewriting? hr hw]

end Marginalia
