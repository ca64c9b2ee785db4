import Marginalia.Proofs.Literal.Kind

/-!
# Values between quotation marks

`Quote.wrap` makes a string literal of any text that keeps to one line.  It goes through the text
twice: escaped marks are taken for bare ones, and then every mark is escaped.  Only the second pass
matters for what kind of literal comes out, because after it every mark has its own backslash in
front: reading the escaped marks from the left meets exactly those pairs
(`Quote.replaceEscaped_escape`), whatever backslashes the text has besides.

* `Quote.isString_wrap` — **a text between quotation marks is a string**, in the marks it was put
  between (`Quote.around?_wrap`).
-/

set_option autoImplicit false
namespace Marginalia
namespace Quote

variable {q : Quote} {new t : Text} {c : Char}

/-! ## Escaped marks -/

theorem escape_cons (q : Quote) (c : Char) (t : Text) :
    q.escape (c :: t) = (if c = q.mark then ['\\', c] else [c]) ++ q.escape t :=
  List.flatMap_cons

/-- No mark stands first in an escaped text. -/
theorem head?_escape_ne (q : Quote) (t : Text) : (q.escape t).head? ≠ some q.mark := by
  rcases t with _ | ⟨c, t⟩
  · exact nofun
  · rw [escape_cons]
    split
    · exact fun h => q.mark_ne_backslash (Option.some.inj h).symm
    · rename_i hc
      exact fun h => hc (Option.some.inj h)

/-- What does not begin an escaped mark is passed by. -/
theorem replaceEscaped_cons_of_head? (h : ¬(c = '\\' ∧ t.head? = some q.mark)) :
    q.replaceEscaped new (c :: t) = c :: q.replaceEscaped new t := by
  rcases t with _ | ⟨d, t⟩
  · rfl
  · rw [replaceEscaped, if_neg fun hcd => h ⟨hcd.1, by rw [hcd.2]; rfl⟩]

/-- **The escaped marks of an escaped text are its marks**, whatever they are replaced by. -/
theorem replaceEscaped_escape (q : Quote) (new t : Text) :
    q.replaceEscaped new (q.escape t) = t.flatMap fun c => if c = q.mark then new else [c] := by
  induction t with
  | nil => rfl
  | cons c t ih =>
    rw [escape_cons, List.flatMap_cons]
    split
    · rename_i hc
      show q.replaceEscaped new ('\\' :: c :: q.escape t) = _
      rw [replaceEscaped, if_pos ⟨rfl, hc⟩, ih]
    · show q.replaceEscaped new (c :: q.escape t) = _
      rw [replaceEscaped_cons_of_head? fun h => head?_escape_ne q t h.2, ih]
      rfl

theorem balances_escape (q : Quote) (t : Text) : q.balances (q.escape t) = true := by
  rw [balances_iff, replaceEscaped_escape, List.mem_flatMap]
  rintro ⟨c, -, hc⟩
  split at hc
  · cases hc
  · rename_i hne
    exact hne (List.mem_singleton.1 hc).symm

/-! ## Characters -/

theorem mem_of_mem_replaceEscaped (h : c ∈ q.replaceEscaped new t) : c ∈ new ∨ c ∈ t := by
  fun_induction replaceEscaped q new t with
  | case1 => cases h
  | case2 => exact Or.inr h
  | case3 d e r _ ih =>
    rcases List.mem_append.1 h with h | h
    · exact Or.inl h
    · exact (ih h).imp_right fun h => List.mem_cons_of_mem _ (List.mem_cons_of_mem _ h)
  | case4 d e r _ ih =>
    rcases List.mem_cons.1 h with rfl | h
    · exact Or.inr List.mem_cons_self
    · exact (ih h).imp_right (List.mem_cons_of_mem _)

theorem mem_of_mem_escape (h : c ∈ q.escape t) : c = '\\' ∨ c ∈ t := by
  obtain ⟨d, hd, hc⟩ := List.mem_flatMap.1 h
  split at hc
  · rcases List.mem_cons.1 hc with rfl | hc
    · exact Or.inl rfl
    · exact Or.inr (List.mem_singleton.1 hc ▸ hd)
  · exact Or.inr (List.mem_singleton.1 hc ▸ hd)

theorem onOneLine_mark (q : Quote) : onOneLine [q.mark] = true := by
  cases q <;> rfl

/-- A line break in what is written comes from the text that was handed in. -/
theorem onOneLine_body (q : Quote) (h : onOneLine t = true) :
    onOneLine (q.escape (q.replaceEscaped [q.mark] t)) = true := by
  refine List.all_eq_true.2 fun c hc => ?_
  rcases mem_of_mem_escape hc with rfl | hc
  · rfl
  · rcases mem_of_mem_replaceEscaped hc with hc | hc
    · exact List.all_eq_true.1 (onOneLine_mark q) c hc
    · exact List.all_eq_true.1 h c hc

/-! ## String literals -/

theorem around?_wrap (q : Quote) (h : onOneLine t = true) : around? (q.wrap t) = some q :=
  around?_eq_some_iff.2 ⟨_, rfl, onOneLine_body q h⟩

/-- **A text between quotation marks is a string.** -/
theorem isString_wrap (q : Quote) (h : onOneLine t = true) : Literal.isString (q.wrap t) = true :=
  Literal.isString_iff.2 ⟨q, _, rfl, onOneLine_body q h, balances_escape q _⟩

theorem onOneLine_wrap (q : Quote) (h : onOneLine t = true) : onOneLine (q.wrap t) = true :=
  onOneLine_append.2
    ⟨onOneLine_append.2 ⟨onOneLine_mark q, onOneLine_body q h⟩, onOneLine_mark q⟩

end Quote
end Marginalia
