import Marginalia.Proofs.Except
import Marginalia.Proofs.Tag.Written

/-!
# A written list is read back item for item

A list is written by putting each item into the form of an element of the list that was there, and
the text that comes out is then the list whose elements the next items take their form from.  Two
things could go wrong on the way.  The elements are joined by commas and found again by cutting at
commas and trimming; and the elements that lend their form change from one round to the next, from
the first one for all items to one for each.

Neither does.  A written element is a literal of a known kind, so it has no blanks around it and is
not empty, and it has no comma if the item has none (`Literal.elements_written`).  And the form that
an element lends depends on its kind and on its quotation marks only (`Tag.coerced?_congr`), which a
written element has from the one it took its form from (`Tag.kind_of_coerced?`).

* `Tag.written_list_readBack` — **a written list shows its items again**, each in the form it was
  given, and writing the same items into it gives it again.
-/

set_option autoImplicit false
namespace Marginalia

variable {t out item model e : Text}

/-! ## Elements of a written list -/

theorem LiteralKind.trim_eq_self (h : of t ≠ unknown) : Text.trim t = t := by
  obtain ⟨r, c, rfl, hc⟩ := exists_concat h
  rw [Text.trim, trimStart_eq_self h, Text.trimEnd_concat r (not_isBlank_of_closes hc).1]

theorem LiteralKind.not_allBlank (h : of t ≠ unknown) : ¬ Text.AllBlank t := by
  obtain ⟨r, c, rfl, hc⟩ := exists_concat h
  intro hblank
  have hc' := hblank c (List.mem_append_right r List.mem_cons_self)
  rw [(not_isBlank_of_closes hc).1] at hc'
  cases hc'

/-- **Literals of known kinds without commas are the elements of the list made of them.** -/
theorem Literal.elements_written {elements : List Text}
    (hkind : ∀ e ∈ elements, LiteralKind.of e ≠ .unknown) (hcomma : ∀ e ∈ elements, ',' ∉ e) :
    Literal.elements ('[' :: [','].intercalate elements ++ [']']) = elements := by
  rw [Literal.elements, withoutBrackets_append]
  rcases elements with _ | ⟨e, rest⟩
  · rfl
  · have hblank : Text.isBlankText ([','].intercalate (e :: rest)) = false := by
      rw [Bool.eq_false_iff]
      intro hall
      refine LiteralKind.not_allBlank (hkind e List.mem_cons_self) fun c hc => ?_
      refine List.all_eq_true.1 hall c ?_
      rcases rest with _ | ⟨e', rest⟩
      · rwa [List.intercalate_singleton]
      · rw [List.intercalate_cons_cons]
        exact List.mem_append_left _ (List.mem_append_left _ hc)
    have htrim : (e :: rest).map Text.trim = e :: rest :=
      List.map_congr_left (fun e' he' => LiteralKind.trim_eq_self (hkind e' he')) |>.trans
        (List.map_id _)
    rw [if_neg (by rw [hblank]; decide),
      List.splitOn_intercalate ',' hcomma (List.cons_ne_nil e rest), htrim]

theorem Quote.mem_of_mem_wrap {q : Quote} {c : Char} (h : c ∈ q.wrap t) :
    c = '\\' ∨ c = q.mark ∨ c ∈ t := by
  rw [wrap, List.cons_append, List.mem_cons, List.mem_append, List.mem_singleton] at h
  rcases h with h | h | h
  · exact Or.inr (Or.inl h)
  · rcases mem_of_mem_escape h with h | h
    · exact Or.inl h
    · rcases mem_of_mem_replaceEscaped h with h | h
      · exact Or.inr (Or.inl (List.mem_singleton.1 h))
      · exact Or.inr (Or.inr h)
  · exact Or.inr (Or.inl h)

namespace Tag

variable {tag : Tag} {literal : Text} {value : Value} {models items elements : List Text}

/-! ## One element -/

/-- **The form that an element lends** is its kind and its quotation marks. -/
theorem coerced?_congr {model' : Text} (item : Text)
    (hkind : LiteralKind.of model = LiteralKind.of model')
    (hmarks : Quote.around? model = Quote.around? model') :
    coerced? item model = coerced? item model' := by
  rw [coerced?, coerced?, hkind, hmarks]

/-- An item in the form of an element has the kind and the quotation marks of that element. -/
theorem kind_of_coerced? (hitem : onOneLine item = true) (h : coerced? item model = some e) :
    LiteralKind.of e = LiteralKind.of model ∧ LiteralKind.of e ≠ .unknown ∧
      Quote.around? e = Quote.around? model := by
  have hplain : ∀ {kind : LiteralKind}, LiteralKind.of model = kind → LiteralKind.of e = kind →
      kind ≠ .unknown → kind ≠ .string → Quote.around? e = Quote.around? model := by
    rintro kind hmodel he hknown hstring
    rw [LiteralKind.around?_eq_none (he ▸ hknown) (he ▸ hstring),
      LiteralKind.around?_eq_none (hmodel ▸ hknown) (hmodel ▸ hstring)]
  rw [coerced?] at h
  split at h
  · rename_i hmodel
    have he : LiteralKind.of e = .number :=
      LiteralKind.of_eq_number (Number.isNumber_of_normalized? h)
    exact ⟨by rw [he, hmodel], by rw [he]; decide, hplain hmodel he (by decide) (by decide)⟩
  · rename_i hmodel
    obtain ⟨q, hq, rfl⟩ := Option.map_eq_some_iff.1 h
    have he : LiteralKind.of (q.wrap item) = .string :=
      LiteralKind.of_eq_string (q.isString_wrap hitem)
    exact ⟨by rw [he, hmodel], by rw [he]; decide, by rw [hq, q.around?_wrap hitem]⟩
  · rename_i hmodel
    cases h
    have he : ∀ on, LiteralKind.of (truth on) = .boolean := by decide
    exact ⟨by rw [he, hmodel], by rw [he]; decide, hplain hmodel (he _) (by decide) (by decide)⟩
  · cases h

theorem comma_not_mem_of_coerced? (hitem : ',' ∉ item) (h : coerced? item model = some e) :
    ',' ∉ e := by
  rw [coerced?] at h
  split at h
  · intro hmem
    rcases (Literal.IsNumber.of_isNumber (Number.isNumber_of_normalized? h)).mem hmem with
      hdigit | hpoint | hminus
    · cases hdigit
    · cases hpoint
    · cases hminus
  · obtain ⟨q, -, rfl⟩ := Option.map_eq_some_iff.1 h
    intro hmem
    rcases Quote.mem_of_mem_wrap hmem with hslash | hmark | hmem
    · cases hslash
    · cases q <;> cases hmark
    · exact hitem hmem
  · cases h
    have hno : ∀ on, ',' ∉ truth on := by decide
    exact hno _
  · cases h

/-- An element of a known kind is shown without the quotation marks around it. -/
theorem shownElement_eq_unquoted (h : LiteralKind.of e ≠ .unknown) :
    shownElement e = unquoted e := by
  rw [shownElement]
  split
  · rfl
  · rename_i hstring
    rw [unquoted, LiteralKind.around?_eq_none h hstring]

/-! ## All elements -/

/-- The element that an item takes its form from, given its place and how many items there are: the
one in its place if there are as many elements as items, and the first one otherwise. -/
def modelAt? (models : List Text) (count place : Nat) : Option Text :=
  if models.length = count then models[place]? else models.head?

theorem length_withModels (models items : List Text) :
    (withModels models items).length = items.length := by
  rw [withModels]
  split
  · rename_i hlength
    rw [List.length_zip, List.length_map, hlength, Nat.min_self]
  · exact List.length_map _

theorem getElem_withModels {place : Nat} (h : place < (withModels models items).length)
    (hitem : place < items.length) :
    (withModels models items)[place] = (items[place], modelAt? models items.length place) := by
  rw [modelAt?]
  split
  · rename_i hlength
    have hmodel : place < models.length := hlength ▸ hitem
    simp only [withModels, if_pos hlength, List.getElem_zip, List.getElem_map,
      List.getElem?_eq_getElem hmodel]
  · rename_i hlength
    simp only [withModels, if_neg hlength, List.getElem_map]

/-- **What items are in the form of a list**, place by place. -/
theorem coercedItems?_eq_some_iff : coercedItems? models items = some elements ↔
    items.length = elements.length ∧
      ∀ place (hitem : place < items.length) (he : place < elements.length),
        (modelAt? models items.length place).bind (coerced? (Text.trim items[place]))
          = some elements[place] := by
  have hlength := length_withModels models items
  rw [coercedItems?, List.mapM_eq_some_iff, List.forall₂_iff_get]
  refine and_congr (by rw [hlength]) (forall_congr' fun place => ?_)
  constructor
  · intro h hitem he
    have hplace := h (hlength ▸ hitem) he
    rwa [List.get_eq_getElem, List.get_eq_getElem, getElem_withModels _ hitem] at hplace
  · intro h hwith he
    have hitem : place < items.length := hlength ▸ hwith
    rw [List.get_eq_getElem, List.get_eq_getElem, getElem_withModels _ hitem]
    exact h hitem he

/-- Items that have no commas and keep to one line are written as literals of known kinds, and these
have no commas either. -/
theorem known_of_coercedItems? (hitems : ∀ item ∈ items, onOneLine item = true ∧ ',' ∉ item)
    (h : coercedItems? models items = some elements) :
    ∀ e ∈ elements, LiteralKind.of e ≠ .unknown ∧ ',' ∉ e := by
  intro e he
  obtain ⟨item, hitem, model, hcoerced⟩ := exists_coerced_of_mem h he
  obtain ⟨hone, hcomma⟩ := hitems item hitem
  have htrim := Text.trim_subset item
  exact ⟨(kind_of_coerced? (onOneLine_of_subset htrim hone) hcoerced).2.1,
    comma_not_mem_of_coerced? (fun hmem => hcomma (htrim hmem)) hcoerced⟩

/-- **Written elements lend the same items the form that they have**, each the item in its place. -/
theorem coercedItems?_self (hitems : ∀ item ∈ items, onOneLine item = true)
    (h : coercedItems? models items = some elements) :
    coercedItems? elements items = some elements := by
  obtain ⟨hlength, hplaces⟩ := coercedItems?_eq_some_iff.1 h
  refine coercedItems?_eq_some_iff.2 ⟨hlength, fun place hitem he => ?_⟩
  obtain ⟨model, -, hcoerced⟩ := Option.bind_eq_some_iff.1 (hplaces place hitem he)
  have hone := onOneLine_of_subset (Text.trim_subset _) (hitems _ (List.getElem_mem hitem))
  obtain ⟨hsame, -, hmarks⟩ := kind_of_coerced? hone hcoerced
  rw [modelAt?, if_pos hlength.symm, List.getElem?_eq_getElem he, Option.bind_some,
    coerced?_congr _ hsame hmarks, hcoerced]

/-! ## The whole list -/

/-- The items of a value for a list: those of a list, one text by itself for a set of boxes, and the
two parts around the only hyphen of a text for a range. -/
inductive HandsIn : Tag → Value → List Text → Prop where
  | boxes (items : List Text) : HandsIn checkbox (.items items) items
  | box (t : Text) : HandsIn checkbox (.text t) [t]
  | ends (items : List Text) : HandsIn range (.items items) items
  | bounds {low high : Text} (hlow : '-' ∉ low) (hhigh : '-' ∉ high) :
      HandsIn range (.text (low ++ '-' :: high)) [low, high]

theorem HandsIn.itemsFor?_eq (h : HandsIn tag value items) : tag.itemsFor? value = some items := by
  cases h with
  | boxes | box | ends => rfl
  | @bounds low high hlow hhigh =>
    have hparts : ∀ part ∈ [low, high], '-' ∉ part :=
      List.forall_mem_cons.2 ⟨hlow, List.forall_mem_singleton.2 hhigh⟩
    have hsplit := List.splitOn_intercalate '-' hparts (List.cons_ne_nil _ _)
    have hjoined : ['-'].intercalate [low, high] = low ++ '-' :: high := by simp
    rw [hjoined] at hsplit
    rw [itemsFor?, bounds?, hsplit]

theorem HandsIn.tag_eq (h : HandsIn tag value items) : tag = checkbox ∨ tag = range := by
  cases h with
  | boxes | box => exact Or.inl rfl
  | ends | bounds => exact Or.inr rfl

/-- **A list is written** exactly if there is one and the items have its form. -/
theorem HandsIn.written_iff (h : HandsIn tag value items) : tag.written literal value = .ok out ↔
    LiteralKind.of literal = .array ∧
      ∃ elements, coercedItems? (Literal.elements literal) items = some elements ∧
        out = '[' :: [','].intercalate elements ++ [']'] := by
  have haccepts : ∀ kind, tag.accepts kind = true ↔ kind = .array := by
    intro kind
    rcases h.tag_eq with rfl | rfl <;> cases kind <;> decide
  have hwritten : LiteralKind.of literal = .array →
      tag.written literal value = tag.writtenItems literal items := by
    intro hkind
    have hchecked := checkedKind_eq_ok_iff.2 ⟨hkind, (haccepts .array).2 rfl⟩
    rw [written, hchecked]
    rcases h.tag_eq with rfl | rfl <;> simp only [h.itemsFor?_eq]
  constructor
  · intro hok
    have hkind := (haccepts _).1 (accepts_of_written hok)
    rw [hwritten hkind, writtenItems] at hok
    refine ⟨hkind, ?_⟩
    split at hok
    · rename_i elements helements
      exact ⟨elements, helements, (Except.ok.inj hok).symm⟩
    · cases hok
  · rintro ⟨hkind, elements, helements, rfl⟩
    rw [hwritten hkind, writtenItems, helements]

/-- **A written list shows its items again**, as many as were handed in, each without the quotation
marks of the form it was given; and writing the same items into it gives it again. -/
theorem written_list_readBack (hitems : HandsIn tag value items)
    (hplain : ∀ item ∈ items, onOneLine item = true ∧ ',' ∉ item)
    (h : tag.written literal value = .ok out) :
    (∃ shown, tag.shown out = .ok (.items shown, .array) ∧ shown.length = items.length ∧
      ∀ place (hitem : place < items.length) (hshown : place < shown.length),
        ∃ model element, modelAt? (Literal.elements literal) items.length place = some model ∧
          coerced? (Text.trim items[place]) model = some element ∧
          shown[place] = unquoted element) ∧
      tag.written out value = .ok out := by
  obtain ⟨-, elements, helements, rfl⟩ := hitems.written_iff.1 h
  obtain ⟨hlength, hplaces⟩ := coercedItems?_eq_some_iff.1 helements
  have hone : ∀ item ∈ items, onOneLine item = true := fun item hitem => (hplain item hitem).1
  have hknown := known_of_coercedItems? hplain helements
  have hread := Literal.elements_written (fun e he => (hknown e he).1) fun e he => (hknown e he).2
  have hkind := LiteralKind.of_intercalate (onOneLine_of_coercedItems? hone helements)
  refine ⟨⟨elements.map unquoted, ?_, ?_, fun place hitem hshown => ?_⟩, ?_⟩
  · have haccepts : tag.accepts .array = true := by
      rcases hitems.tag_eq with rfl | rfl <;> rfl
    refine shown_eq_ok_iff.2 ⟨checkedKind_eq_ok_iff.2 ⟨hkind, haccepts⟩, ?_⟩
    have hshown : elements.map shownElement = elements.map unquoted :=
      List.map_congr_left fun e he => shownElement_eq_unquoted (hknown e he).1
    rw [plainValue, hread, hshown]
    rcases hitems.tag_eq with rfl | rfl <;> rfl
  · rw [List.length_map, hlength]
  · have he : place < elements.length := hlength ▸ hitem
    obtain ⟨model, hmodel, hcoerced⟩ := Option.bind_eq_some_iff.1 (hplaces place hitem he)
    exact ⟨model, elements[place], hmodel, hcoerced, List.getElem_map _⟩
  · refine hitems.written_iff.2 ⟨hkind, elements, ?_, rfl⟩
    rw [hread]
    exact coercedItems?_self hone helements

/-- Three items take after the first of two elements, and each after itself the next time.  Then
each takes after one of three elements, a number, a truth value and a string. -/
theorem written_list_readBack_longer :
    let readsBack (literal : Text) (items : List Text) (out : Text) : Prop :=
      HandsIn checkbox (.items items) items ∧
      (∀ item ∈ items, onOneLine item = true ∧ ',' ∉ item) ∧
      checkbox.written literal (.items items) = .ok out ∧
      (∃ shown, checkbox.shown out = .ok (.items shown, .array) ∧ shown.length = items.length ∧
        ∀ place (hitem : place < items.length) (hshown : place < shown.length),
          ∃ model element, modelAt? (Literal.elements literal) items.length place = some model ∧
            coerced? (Text.trim items[place]) model = some element ∧
            shown[place] = unquoted element) ∧
        checkbox.written out (.items items) = .ok out
    readsBack "[ \"x\" , 2 ]".toList [" it's ".toList, "say \\\"hi\"".toList, "".toList]
        "[\"it's\",\"say \\\"hi\\\"\",\"\"]".toList ∧
      readsBack "[1.5, true, 'x']".toList [" 2.50px".toList, "1".toList, " it's ".toList]
        "[2.5,true,'it\\'s']".toList ∧
      checkbox.shown "[2.5,true,'it\\'s']".toList
        = .ok (.items ["2.5".toList, "true".toList, "it\\'s".toList], .array) := by
  intro readsBack
  have hreads {literal out : Text} {items : List Text}
      (hplain : ∀ item ∈ items, onOneLine item = true ∧ ',' ∉ item)
      (hwritten : checkbox.written literal (.items items) = .ok out) :
      readsBack literal items out :=
    ⟨.boxes items, hplain, hwritten, written_list_readBack (.boxes items) hplain hwritten⟩
  exact ⟨hreads (by decide) (by decide +kernel), hreads (by decide) (by decide +kernel),
    by decide +kernel⟩

end Tag
end Marginalia
