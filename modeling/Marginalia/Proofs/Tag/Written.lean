import Marginalia.Proofs.Except
import Marginalia.Proofs.Form.Rewriting
import Marginalia.Proofs.Literal.Quote
import Marginalia.Proofs.Number.Spelled

/-!
# A written literal is of the kind it replaces

A value that is handed in is any text at all, and what is written for it is read again as a literal
the next time a form is made.  If it were of another kind then, or in other quotation marks, the tag
might not accept it any more and the control would be gone from the form.

`Tag.Writes` says once what `Tag.written` can come to, one constructor for each way to write a
literal; `Tag.writes_of_written` is the only place where the definition is opened.  Each way gives a
literal of a known kind because of one fact about the writer that it calls: a whole number and a
rounded one are number literals, a text between quotation marks is a string, and elements that keep
to one line stand between brackets.

* `Tag.written_keepsKind` — **what is written is of the kind that was there**, in the same quotation
  marks, and shows a value again.

The one way out is on purpose: for a number below a radio button, a selection or a step the text is
written as it was handed in.
-/

set_option autoImplicit false
namespace Marginalia

variable {t s out : Text}

/-! ## Texts that keep to one line -/

theorem onOneLine_of_subset (h : s ⊆ t) (ht : onOneLine t = true) : onOneLine s = true :=
  List.all_eq_true.2 fun c hc => List.all_eq_true.1 ht c (h hc)

theorem Literal.onOneLine_of_isNumber (h : Literal.isNumber t = true) : onOneLine t = true := by
  refine List.all_eq_true.2 fun c hc => ?_
  rcases (IsNumber.of_isNumber h).mem hc with hdigit | rfl | rfl
  · have hne : ∀ d, isDigit d = false → c ≠ d := by
      rintro d hd rfl
      rw [hdigit] at hd
      cases hd
    simp [hne '\r' rfl, hne '\n' rfl]
  · rfl
  · rfl

theorem onOneLine_intercalate {separator : Text} {elements : List Text}
    (hs : onOneLine separator = true) (h : ∀ e ∈ elements, onOneLine e = true) :
    onOneLine (separator.intercalate elements) = true := by
  induction elements with
  | nil => rfl
  | cons e rest ih =>
    obtain ⟨he, hrest⟩ := List.forall_mem_cons.1 h
    rcases rest with _ | ⟨e', rest⟩
    · rwa [List.intercalate_singleton]
    · rw [List.intercalate_cons_cons]
      exact onOneLine_append.2 ⟨onOneLine_append.2 ⟨he, hs⟩, ih hrest⟩

/-- Elements that keep to one line are a list between brackets. -/
theorem LiteralKind.of_intercalate {elements : List Text}
    (h : ∀ e ∈ elements, onOneLine e = true) :
    LiteralKind.of ('[' :: [','].intercalate elements ++ [']']) = .array := by
  have hcomma : onOneLine [','] = true := rfl
  have hcontents := onOneLine_intercalate hcomma h
  refine LiteralKind.of_eq_array (Literal.isEnclosed_iff.2 ⟨_, rfl, List.getLast?_concat, ?_⟩)
  exact not_mem_of_onOneLine (onOneLine_append.2 ⟨hcontents, rfl⟩)

/-- The texts of a value. -/
def Value.texts : Value → List Text
  | text content => [content]
  | items contents => contents

namespace Tag

variable {tag : Tag} {literal : Text} {value : Value}

/-! ## The ways to write a literal -/

/-- What is written in the place of a literal, with the kind of that literal. -/
inductive Writes (tag : Tag) (literal : Text) (value : Value) : LiteralKind → Text → Prop where
  /-- A toggle as a truth value. -/
  | truth (htag : tag = toggle) :
      Writes tag literal value .boolean (truth (switchReading value = 1))
  /-- A toggle as a number. -/
  | whole (htag : tag = toggle) :
      Writes tag literal value .number (Number.Whole.toText (switchReading value))
  /-- A toggle as a number between quotation marks. -/
  | quotedWhole (htag : tag = toggle) :
      Writes tag literal value .string
        ((quoteOf literal).wrap (Number.Whole.toText (switchReading value)))
  /-- A number that is read and written again. -/
  | rounded {t number : Text} (htag : tag = input) (hvalue : value = .text t)
      (hnumber : Number.normalized? t = some number) : Writes tag literal value .number number
  /-- A number that is written as it was handed in. -/
  | passed {t : Text} (htag : tag = radio ∨ tag = select ∨ tag = step) (hvalue : value = .text t) :
      Writes tag literal value .number t
  /-- A text between quotation marks, without its line breaks if it may have some. -/
  | quoted {t : Text} (htag : tag ≠ toggle) (hvalue : value = .text t) :
      Writes tag literal value .string
        ((quoteOf literal).wrap (if tag = textarea then flattened t else t))
  /-- A list, element by element. -/
  | list {items elements : List Text} (htag : tag = checkbox ∨ tag = range)
      (hitems : tag.itemsFor? value = some items)
      (helements : coercedItems? (Literal.elements literal) items = some elements) :
      Writes tag literal value .array ('[' :: [','].intercalate elements ++ [']'])

theorem writes_of_writtenItems {kind : LiteralKind} {items : List Text}
    (haccepts : tag.accepts kind = true) (htag : tag = checkbox ∨ tag = range)
    (hitems : tag.itemsFor? value = some items) (h : tag.writtenItems literal items = .ok out) :
    Writes tag literal value kind out := by
  obtain rfl : kind = .array := by
    rcases htag with rfl | rfl <;> exact List.mem_singleton.1 (List.contains_iff_mem.1 haccepts)
  rw [writtenItems] at h
  split at h
  · rename_i elements helements
    cases h
    exact .list htag hitems helements
  · cases h

/-- The kinds of literals that some tags accept besides strings. -/
theorem kind_of_accepts {kind : LiteralKind} (h : tag.accepts kind = true) :
    (kind = .boolean ∧ tag = toggle) ∨
      (kind = .number ∧ tag ∈ [toggle, radio, select, input, step]) ∨
      (kind = .string ∧ tag ≠ checkbox ∧ tag ≠ range) ∨
      (kind = .array ∧ (tag = checkbox ∨ tag = range)) := by
  revert h
  cases tag <;> cases kind <;> decide

theorem writes_of_writtenText {kind : LiteralKind} (htoggle : tag ≠ toggle)
    (hlist : ¬(tag = checkbox ∨ tag = range)) (haccepts : tag.accepts kind = true)
    (hvalue : value = .text t) (h : tag.writtenText kind literal t = .ok out) :
    Writes tag literal value kind out := by
  rcases kind_of_accepts haccepts with ⟨-, htag⟩ | ⟨rfl, htag⟩ | ⟨rfl, -⟩ | ⟨-, htag⟩
  · exact absurd htag htoggle
  · cases tag with
    | radio | select | step =>
      cases h
      exact .passed (by decide) hvalue
    | input =>
      rw [writtenText] at h
      split at h
      · rename_i number hnumber
        cases h
        exact .rounded rfl hvalue hnumber
      · cases h
    | toggle => exact absurd rfl htoggle
    | _ => exact absurd htag (by decide)
  · have hquoted : Writes tag literal value .string _ := .quoted htoggle hvalue
    cases tag with
    | checkbox => exact absurd (Or.inl rfl) hlist
    | range => exact absurd (Or.inr rfl) hlist
    | _ =>
      cases h
      exact hquoted
  · exact absurd htag hlist

theorem accepts_of_written (h : tag.written literal value = .ok out) :
    tag.accepts (LiteralKind.of literal) = true := by
  rw [written] at h
  split at h
  · cases h
  · rename_i kind hk
    exact (checkedKind_eq_ok_iff.1 hk).1 ▸ (checkedKind_eq_ok_iff.1 hk).2

/-- **Nothing else is written.** -/
theorem writes_of_written (h : tag.written literal value = .ok out) :
    Writes tag literal value (LiteralKind.of literal) out := by
  rw [written] at h
  split at h
  · cases h
  rename_i kind hk
  obtain ⟨rfl, haccepts⟩ := checkedKind_eq_ok_iff.1 hk
  split at h
  · rcases kind_of_accepts haccepts with ⟨hkind, -⟩ | ⟨hkind, -⟩ | ⟨hkind, -⟩ | ⟨-, htag⟩
    · rw [hkind] at h ⊢
      cases h
      exact .truth rfl
    · rw [hkind] at h ⊢
      cases h
      exact .whole rfl
    · rw [hkind] at h ⊢
      cases h
      exact .quotedWhole rfl
    · rcases htag with htag | htag <;> cases htag
  · split at h
    · rename_i items hitems
      exact writes_of_writtenItems haccepts (Or.inl rfl) hitems h
    · cases h
  · split at h
    · rename_i items hitems
      exact writes_of_writtenItems haccepts (Or.inr rfl) hitems h
    · cases h
  · rename_i htoggle hcheckbox hrange
    split at h
    · exact writes_of_writtenText htoggle (not_or_intro hcheckbox hrange) haccepts rfl h
    · cases h

/-! ## The kinds of what is written -/

theorem onOneLine_of_coerced? {item model : Text} (hitem : onOneLine item = true)
    (h : coerced? item model = some out) : onOneLine out = true := by
  rw [coerced?] at h
  split at h
  · exact Literal.onOneLine_of_isNumber (Number.isNumber_of_normalized? h)
  · obtain ⟨q, -, rfl⟩ := Option.map_eq_some_iff.1 h
    exact q.onOneLine_wrap hitem
  · cases h
    rw [Tag.truth]
    split <;> rfl
  · cases h

theorem mem_of_mem_withModels {models items : List Text} {p : Text × Option Text}
    (h : p ∈ withModels models items) : p.1 ∈ items := by
  rw [withModels] at h
  split at h
  · exact (List.of_mem_zip h).1
  · obtain ⟨item, hitem, rfl⟩ := List.mem_map.1 h
    exact hitem

/-- What an element of a list that is written has been made of. -/
theorem exists_coerced_of_mem {models items elements : List Text} {element : Text}
    (h : coercedItems? models items = some elements) (he : element ∈ elements) :
    ∃ item ∈ items, ∃ model, coerced? (Text.trim item) model = some element := by
  obtain ⟨⟨item, model⟩, hmem, hitem⟩ := List.exists_of_mem_mapM h he
  obtain ⟨model, -, hcoerced⟩ := Option.bind_eq_some_iff.1 hitem
  exact ⟨item, mem_of_mem_withModels hmem, model, hcoerced⟩

theorem onOneLine_of_coercedItems? {models items elements : List Text}
    (hitems : ∀ item ∈ items, onOneLine item = true)
    (h : coercedItems? models items = some elements) : ∀ e ∈ elements, onOneLine e = true := by
  intro e he
  obtain ⟨item, hitem, model, hcoerced⟩ := exists_coerced_of_mem h he
  exact onOneLine_of_coerced?
    (onOneLine_of_subset (Text.trim_subset item) (hitems item hitem)) hcoerced

theorem onOneLine_of_bounds? {items : List Text} (ht : onOneLine t = true)
    (h : bounds? t = some items) : ∀ item ∈ items, onOneLine item = true := by
  rw [bounds?] at h
  split at h
  · rename_i low high hsplit
    cases h
    have hjoined : ['-'].intercalate (t.splitOn '-') = t := List.intercalate_splitOn '-'
    rw [hsplit, List.intercalate_cons_cons, List.intercalate_singleton] at hjoined
    have hparts := onOneLine_append.1 (hjoined ▸ ht)
    exact List.forall_mem_cons.2
      ⟨(onOneLine_append.1 hparts.1).1, List.forall_mem_singleton.2 hparts.2⟩
  · cases h

/-- The items for a list are on one line if the texts of the value are. -/
theorem onOneLine_of_itemsFor? {items : List Text} (hvalue : ∀ t ∈ value.texts, onOneLine t = true)
    (h : tag.itemsFor? value = some items) : ∀ item ∈ items, onOneLine item = true := by
  rw [itemsFor?.eq_def] at h
  split at h
  · cases h
    exact hvalue
  · exact onOneLine_of_bounds? (hvalue _ List.mem_cons_self) h
  · cases h
    exact hvalue

theorem onOneLine_flattened (t : Text) : onOneLine (flattened t) = true :=
  List.all_eq_true.2 fun _ hc => (List.mem_filter.1 hc).2

/-- What is written for a string stands between the marks of that string. -/
theorem Writes.exists_wrap (h : Writes tag literal value .string out)
    (hvalue : ∀ t ∈ value.texts, onOneLine t = true) :
    ∃ t, onOneLine t = true ∧ out = (quoteOf literal).wrap t := by
  cases h with
  | quotedWhole htag =>
    exact ⟨_, Literal.onOneLine_of_isNumber (Number.Whole.isNumber_toText _), rfl⟩
  | quoted htag hv =>
    subst hv
    refine ⟨_, ?_, rfl⟩
    split
    · exact onOneLine_flattened _
    · exact hvalue _ List.mem_cons_self

/-- **What is written is of the kind that it is written for.** -/
theorem Writes.of_eq {kind : LiteralKind} (h : Writes tag literal value kind out)
    (hvalue : ∀ t ∈ value.texts, onOneLine t = true)
    (hpassed : ¬((tag = radio ∨ tag = select ∨ tag = step) ∧ kind = .number)) :
    LiteralKind.of out = kind := by
  rcases eq_or_ne kind .string with rfl | hkind
  · obtain ⟨t, hone, rfl⟩ := h.exists_wrap hvalue
    exact LiteralKind.of_eq_string ((quoteOf literal).isString_wrap hone)
  cases h with
  | truth htag =>
    rw [Tag.truth]
    split <;> rfl
  | whole htag => exact LiteralKind.of_eq_number (Number.Whole.isNumber_toText _)
  | rounded htag hv hnumber =>
    exact LiteralKind.of_eq_number (Number.isNumber_of_normalized? hnumber)
  | passed htag hv => exact absurd ⟨htag, rfl⟩ hpassed
  | list htag hitems helements =>
    exact LiteralKind.of_intercalate
      (onOneLine_of_coercedItems? (onOneLine_of_itemsFor? hvalue hitems) helements)
  | quotedWhole | quoted => exact absurd rfl hkind

/-- **What is written is of the kind that was there**, in the same quotation marks, and shows a
value again.  A number that is written as it was handed in is left out. -/
theorem written_keepsKind (h : tag.written literal value = .ok out)
    (hvalue : ∀ t ∈ value.texts, onOneLine t = true)
    (hpassed : ¬((tag = radio ∨ tag = select ∨ tag = step) ∧ LiteralKind.of literal = .number)) :
    LiteralKind.of out = LiteralKind.of literal ∧ Quote.around? out = Quote.around? literal ∧
      ∃ shown, tag.shown out = .ok (shown, LiteralKind.of literal) := by
  have hwrites := writes_of_written h
  have hkind := hwrites.of_eq hvalue hpassed
  have haccepts := accepts_of_written h
  have hknown : LiteralKind.of literal ≠ .unknown := by
    intro hk
    rw [hk, accepts_unknown] at haccepts
    cases haccepts
  refine ⟨hkind, ?_, _, shown_eq_ok_iff.2 ⟨checkedKind_eq_ok_iff.2 ⟨hkind, haccepts⟩, rfl⟩⟩
  by_cases hstring : LiteralKind.of literal = .string
  · rw [hstring] at hwrites
    obtain ⟨t, hone, rfl⟩ := hwrites.exists_wrap hvalue
    obtain ⟨q, body, hbody, hline, -⟩ :=
      Literal.isString_iff.1 (LiteralKind.isString_of_eq_string hstring)
    have hmarks : Quote.around? literal = some q := Quote.around?_eq_some_iff.2 ⟨body, hbody, hline⟩
    rw [Quote.around?_wrap _ hone, quoteOf, hmarks, Option.getD_some]
  · rw [LiteralKind.around?_eq_none hknown hstring, LiteralKind.around?_eq_none]
    · rwa [hkind]
    · rwa [hkind]

/-- Each item of a list takes after the element in its place. -/
theorem written_keepsKind_list :
    let literal := "[1, 'a', \"b\", true]".toList
    let value : Value := .items ["2.50".toList, " it's ".toList, "\\\"".toList, "0".toList]
    let out := "[2.5,'it\\'s',\"\\\"\",false]".toList
    checkbox.written literal value = .ok out ∧
      (∀ t ∈ value.texts, onOneLine t = true) ∧
      ¬((checkbox = radio ∨ checkbox = select ∨ checkbox = step) ∧
        LiteralKind.of literal = .number) ∧
      LiteralKind.of out = LiteralKind.of literal ∧
      Quote.around? out = Quote.around? literal ∧
      ∃ shown, checkbox.shown out = .ok (shown, LiteralKind.of literal) := by
  intro literal value out
  have hwritten : checkbox.written literal value = .ok out := by decide +kernel
  have hone : ∀ t ∈ value.texts, onOneLine t = true := by decide
  have hpassed : ¬((checkbox = radio ∨ checkbox = select ∨ checkbox = step) ∧
      LiteralKind.of literal = .number) := by decide
  exact ⟨hwritten, hone, hpassed, written_keepsKind hwritten hone hpassed⟩

end Tag
end Marginalia
