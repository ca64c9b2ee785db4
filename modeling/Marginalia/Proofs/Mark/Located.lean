import Mathlib.Data.List.Basic
import Marginalia.Proofs.Source.Governed
import Marginalia.Proofs.Source.Lines

/-!
# Where marks begin

Marks are looked for line by line, and that hides a simpler view: going through a text character by
character, a mark is found wherever one begins and ends the rest of its line.  In that view nothing
depends on how the text is cut into lines, so it is the one to use when a text with line breaks of
its own is put into a source.

## What is here

* `marksIn` and `marksIn_append_break` — the marks of a text, in order, and **the one equation about
  them that everything else follows from**: a line break separates.
* `Mark.beginning?` and `MarkFree` — the mark that begins with the first character of a text, and
  texts in which no mark begins.  Such a text may stand in front of another one without changing its
  marks (`MarkFree.marksIn_append`).
* `MarkFree.of_find?` — no mark begins in a line before the one that is found there.
* `Foreign`, `Mark.isSome_startingAt?_append` and `MarkFree.append_sign` — whether a mark begins
  before an assignment sign is settled before that sign.
-/

set_option autoImplicit false
namespace Marginalia

/-- Whether a character ends a line. -/
def isBreak (c : Char) : Bool := c = '\r' || c = '\n'

/-- A text up to its first line break. -/
def firstLine (t : Text) : Text := t.takeWhile fun c => !isBreak c

theorem firstLine_cons_of_isBreak {c : Char} (hc : isBreak c = true) (t : Text) :
    firstLine (c :: t) = [] := by
  simp [firstLine, hc]

theorem firstLine_cons {c : Char} (hc : isBreak c = false) (t : Text) :
    firstLine (c :: t) = c :: firstLine t := by
  simp [firstLine, hc]

theorem isBreak_of_mem {c : Char} {t : Text} (h : onOneLine t = true) (hc : c ∈ t) :
    isBreak c = false := by
  have := List.all_eq_true.1 h c hc
  simp_all [isBreak]

theorem firstLine_append {s : Text} (h : onOneLine s = true) (t : Text) :
    firstLine (s ++ t) = s ++ firstLine t :=
  List.takeWhile_append_of_pos fun c hc => by rw [isBreak_of_mem h hc]; rfl

theorem firstLine_append_of_isBreak {c : Char} (hc : isBreak c = true) (s t : Text) :
    firstLine (s ++ c :: t) = firstLine s := by
  induction s with
  | nil => exact firstLine_cons_of_isBreak hc t
  | cons d r ih =>
    cases hd : isBreak d with
    | true => rw [List.cons_append, firstLine_cons_of_isBreak hd, firstLine_cons_of_isBreak hd]
    | false => rw [List.cons_append, firstLine_cons hd, firstLine_cons hd, ih]

theorem firstLine_eq_self {t : Text} (h : onOneLine t = true) : firstLine t = t := by
  simpa [firstLine] using firstLine_append h []

/-! ## The marks of a text -/

/-- The marks of a text, in order. -/
def marksIn (t : Text) : List Mark := (Placed.ofText t).map Placed.mark

theorem marksIn_eq (t : Text) :
    marksIn t = (Line.ofText t).filterMap fun l => Mark.find? l.content :=
  map_mark_ofLines 0 _

/-- The marks behind the first line of a text. -/
def marksBelow (t : Text) : List Mark :=
  (Line.ofText t).tail.filterMap fun l => Mark.find? l.content

theorem content_head?_ofText (t : Text) :
    ((Line.ofText t).head?.map Line.content).getD [] = firstLine t := by
  induction t with
  | nil => rfl
  | cons c r ih =>
    rw [Line.ofText_cons]
    by_cases hn : c = '\n'
    · subst hn
      rfl
    by_cases hr : c = '\r'
    · subst hr
      unfold Line.push
      rw [if_neg (by decide), if_pos rfl]
      split <;> rfl
    have hc : isBreak c = false := by simp [isBreak, hn, hr]
    rw [firstLine_cons hc, ← ih]
    cases Line.ofText r with
    | nil => simp [Line.push, hn, hr]
    | cons l rest =>
      rw [Line.push_of_not_break hr hn]
      rfl

theorem marksIn_eq_append (t : Text) :
    marksIn t = (Mark.find? (firstLine t)).toList ++ marksBelow t := by
  rw [marksIn_eq, ← content_head?_ofText, marksBelow]
  cases Line.ofText t with
  | nil => rfl
  | cons l rest =>
    rw [List.filterMap_cons]
    cases h : Mark.find? l.content <;> simp [h]

theorem marksBelow_cons_of_isBreak {c : Char} (hc : isBreak c = true) (t : Text) :
    marksBelow (c :: t) = marksIn t := by
  rw [marksBelow, marksIn_eq, Line.ofText_cons]
  simp only [isBreak, Bool.or_eq_true, decide_eq_true_eq] at hc
  rcases hc with rfl | rfl
  · unfold Line.push
    rw [if_neg (by decide), if_pos rfl]
    split
    · rename_i rest ht
      rw [ht]
      rfl
    · rfl
  · rfl

theorem marksBelow_cons {c : Char} (hc : isBreak c = false) (t : Text) :
    marksBelow (c :: t) = marksBelow t := by
  simp only [isBreak, Bool.or_eq_false_iff, decide_eq_false_iff_not] at hc
  rw [marksBelow, marksBelow, Line.ofText_cons]
  cases Line.ofText t with
  | nil => simp [Line.push, hc.1, hc.2]
  | cons l rest =>
    rw [Line.push_of_not_break hc.1 hc.2]
    rfl

theorem marksBelow_append_break {c : Char} (hc : isBreak c = true) (s t : Text) :
    marksBelow (s ++ c :: t) = marksBelow s ++ marksIn t := by
  induction s with
  | nil => exact marksBelow_cons_of_isBreak hc t
  | cons d r ih =>
    cases hd : isBreak d with
    | true =>
      rw [List.cons_append, marksBelow_cons_of_isBreak hd, marksBelow_cons_of_isBreak hd,
        marksIn_eq_append, ih, firstLine_append_of_isBreak hc, ← List.append_assoc,
        ← marksIn_eq_append]
    | false => rw [List.cons_append, marksBelow_cons hd, marksBelow_cons hd, ih]

/-- **A line break separates marks.** -/
theorem marksIn_append_break {c : Char} (hc : isBreak c = true) (s t : Text) :
    marksIn (s ++ c :: t) = marksIn s ++ marksIn t := by
  rw [marksIn_eq_append, marksBelow_append_break hc, firstLine_append_of_isBreak hc,
    ← List.append_assoc, ← marksIn_eq_append]

theorem marksIn_cons_of_isBreak {c : Char} (hc : isBreak c = true) (t : Text) :
    marksIn (c :: t) = marksIn t :=
  marksIn_append_break hc [] t

/-- A text on one line has the one mark that its line has. -/
theorem marksIn_of_oneLine {t : Text} (h : onOneLine t = true) :
    marksIn t = (Mark.find? t).toList := by
  rw [marksIn_eq]
  by_cases hne : t = []
  · subst hne
    rfl
  · rw [Line.ofText_content_absent h hne, List.filterMap_cons]
    cases Mark.find? t <;> rfl

/-! ## Texts in which no mark begins -/

/-- The mark that begins with the first character of a text. -/
def Mark.beginning? (t : Text) : Option Mark := Mark.startingAt? (firstLine t)

/-- No mark begins within a text when another one stands behind it. -/
def MarkFree : Text → Text → Prop
  | [], _ => True
  | c :: r, behind => Mark.beginning? (c :: (r ++ behind)) = none ∧ MarkFree r behind

instance MarkFree.decidable : (t behind : Text) → Decidable (MarkFree t behind)
  | [], _ => .isTrue trivial
  | _ :: r, behind =>
    have := MarkFree.decidable r behind
    inferInstanceAs (Decidable (_ ∧ _))

theorem marksIn_cons_of_beginning? {c : Char} {t : Text}
    (h : Mark.beginning? (c :: t) = none) : marksIn (c :: t) = marksIn t := by
  cases hc : isBreak c with
  | true => exact marksIn_cons_of_isBreak hc t
  | false =>
    rw [Mark.beginning?, firstLine_cons hc] at h
    rw [marksIn_eq_append, marksIn_eq_append t, firstLine_cons hc, marksBelow_cons hc,
      Mark.find?, h]

namespace MarkFree

variable {s t behind : Text}

theorem append_iff : MarkFree (s ++ t) behind ↔ MarkFree s (t ++ behind) ∧ MarkFree t behind := by
  induction s with
  | nil => simp [MarkFree]
  | cons c r ih => rw [List.cons_append, MarkFree, MarkFree, ih, List.append_assoc, and_assoc]

/-- **A text without marks leaves those behind it alone.** -/
theorem marksIn_append (h : MarkFree t behind) : marksIn (t ++ behind) = marksIn behind := by
  induction t with
  | nil => rfl
  | cons c r ih => rw [List.cons_append, marksIn_cons_of_beginning? h.1, ih h.2]

/-- No mark begins in a line before the one that is found. -/
theorem of_find? (hone : onOneLine (t ++ behind) = true)
    (h : ∀ m, Mark.find? (t ++ behind) = some m → m.text.length ≤ behind.length) :
    MarkFree t behind := by
  induction t with
  | nil => trivial
  | cons c r ih =>
    rw [List.cons_append] at hone h
    have hnone : Mark.startingAt? (c :: (r ++ behind)) = none := by
      refine Option.eq_none_iff_forall_not_mem.2 fun m hm => ?_
      have hlength := h m (by rw [Mark.find?, hm])
      rw [Mark.startingAt?_text hm, List.length_cons, List.length_append] at hlength
      omega
    refine ⟨by rw [Mark.beginning?, firstLine_eq_self hone, hnone], ih (onOneLine_cons.1 hone).2 ?_⟩
    intro m hm
    exact h m (by rw [Mark.find?, hnone, hm])

/-- A mark begins with a slash. -/
theorem of_forall_ne_slash (h : ∀ c ∈ t, c ≠ '/') : MarkFree t behind := by
  induction t with
  | nil => trivial
  | cons c r ih =>
    refine ⟨?_, ih fun d hd => h d (List.mem_cons_of_mem _ hd)⟩
    have hc : c ≠ '/' := h c List.mem_cons_self
    cases hb : isBreak c with
    | true => rw [Mark.beginning?, firstLine_cons_of_isBreak hb]; rfl
    | false =>
      rw [Mark.beginning?, firstLine_cons hb, Mark.startingAt?]
      rintro _ he
      exact absurd (List.cons.inj he).1 hc

end MarkFree

theorem length_marksIn_cons (c : Char) (t : Text) :
    (marksIn t).length ≤ (marksIn (c :: t)).length := by
  cases hc : isBreak c with
  | true => exact Nat.le_of_eq (congrArg List.length (marksIn_cons_of_isBreak hc t).symm)
  | false =>
    rw [marksIn_eq_append, marksIn_eq_append (c :: t), firstLine_cons hc, marksBelow_cons hc,
      List.length_append, List.length_append, Mark.find?]
    cases Mark.startingAt? (c :: firstLine t) with
    | none => exact Nat.le_refl _
    | some m =>
      have : (Mark.find? (firstLine t)).toList.length ≤ 1 := by
        cases Mark.find? (firstLine t) <;> simp
      exact Nat.add_le_add_right this _

theorem length_marksIn_append (s t : Text) :
    (marksIn t).length ≤ (marksIn (s ++ t)).length := by
  induction s with
  | nil => exact Nat.le_refl _
  | cons c r ih => exact Nat.le_trans ih (length_marksIn_cons c (r ++ t))

theorem length_marksBelow_append {s : Text} (hs : onOneLine s = false) (t : Text) :
    (marksIn t).length ≤ (marksBelow (s ++ t)).length := by
  induction s with
  | nil => cases hs
  | cons c r ih =>
    cases hc : isBreak c with
    | true =>
      rw [List.cons_append, marksBelow_cons_of_isBreak hc]
      exact length_marksIn_append r t
    | false =>
      rw [List.cons_append, marksBelow_cons hc]
      refine ih (Bool.eq_false_iff.2 fun hr => Bool.eq_false_iff.1 hs ?_)
      exact onOneLine_cons.2 ⟨by simpa [isBreak] using hc, hr⟩

/-- Where a mark begins in front of a line, the marks are not those of the line. -/
theorem marksIn_cons_ne {c : Char} {r behind : Text} {m : Mark} (hone : onOneLine behind = true)
    (hm : Mark.beginning? (c :: (r ++ behind)) = some m) :
    marksIn (c :: (r ++ behind)) ≠ marksIn behind := by
  intro heq
  cases hc : isBreak c with
  | true =>
    rw [Mark.beginning?, firstLine_cons_of_isBreak hc] at hm
    cases hm
  | false =>
    have hmarks : marksIn (c :: (r ++ behind)) = m :: marksBelow (r ++ behind) := by
      rw [Mark.beginning?, firstLine_cons hc] at hm
      rw [marksIn_eq_append, firstLine_cons hc, marksBelow_cons hc, Mark.find?, hm]
      rfl
    cases hr : onOneLine r with
    | true =>
      -- the mark reaches to the end of the text, so it is longer than any mark behind
      have hall : onOneLine (c :: (r ++ behind)) = true :=
        onOneLine_cons.2 ⟨by simpa [isBreak] using hc, onOneLine_append.2 ⟨hr, hone⟩⟩
      have hfound : Mark.find? behind = some m := by
        rw [← Option.mem_toList, ← marksIn_of_oneLine hone, ← heq, hmarks]
        exact List.mem_cons_self
      have hlength := (Mark.find?_suffix hfound).length_le
      rw [Mark.beginning?, firstLine_eq_self hall] at hm
      rw [Mark.startingAt?_text hm, List.length_cons, List.length_append] at hlength
      omega
    | false =>
      -- the mark ends before the text does, so there is one mark more
      have hlength := length_marksBelow_append hr behind
      rw [← heq, hmarks, List.length_cons] at hlength
      omega

/-- The marks of a line are kept exactly if no mark begins in the text in front of it. -/
theorem marksIn_append_eq_iff {t behind : Text} (hone : onOneLine behind = true) :
    marksIn (t ++ behind) = marksIn behind ↔ MarkFree t behind := by
  refine ⟨fun h => ?_, MarkFree.marksIn_append⟩
  induction t with
  | nil => trivial
  | cons c r ih =>
    have hnone : Mark.beginning? (c :: (r ++ behind)) = none :=
      Option.eq_none_iff_forall_ne_some.2 fun m hm => marksIn_cons_ne hone hm h
    rw [List.cons_append, marksIn_cons_of_beginning? hnone] at h
    exact ⟨hnone, ih h⟩

/-! ## Marks in front of an assignment -/

/-- A character that has no place in a mark up to its tag. -/
structure Foreign (sign : Char) : Prop where
  slash : sign ≠ '/'
  space : sign ≠ ' '
  tagSign : sign ≠ '@'
  name : ∀ tag : Tag, sign ∉ tag.name
  sameLine : isBreak sign = false

theorem foreign_of_sign {sign : Char} (hs : sign = ':' ∨ sign = '=') : Foreign sign := by
  rcases hs with rfl | rfl
  all_goals exact ⟨by decide, by decide, by decide, by rintro (_ | _) <;> decide, rfl⟩

section Sign

variable {sign : Char}

theorem dropWhile_space_append (hs : sign ≠ ' ') (t x : Text) :
    (t ++ sign :: x).dropWhile (· = ' ') = t.dropWhile (· = ' ') ++ sign :: x := by
  rw [List.dropWhile_append]
  split
  · rename_i he
    rw [List.isEmpty_iff.1 he]
    simp [hs]
  · rfl

theorem isPrefixOf?_append_cons {name : Text} (hn : sign ∉ name) (t x : Text) :
    name.isPrefixOf? (t ++ sign :: x) = (name.isPrefixOf? t).map (· ++ sign :: x) := by
  induction name generalizing t with
  | nil => rfl
  | cons c r ih =>
    rw [List.mem_cons, not_or] at hn
    cases t with
    | nil => simp [List.isPrefixOf?, Ne.symm hn.1]
    | cons d t =>
      by_cases hcd : c = d
      · simp [List.isPrefixOf?, hcd, ih hn.2]
      · simp [List.isPrefixOf?, hcd]

namespace Mark

/-- A tag needs one space before the sign, and then the sign itself is attribute text. -/
theorem isSome_details?_append (hs : sign ≠ ' ') (t x : Text) :
    (details? (t ++ sign :: x)).isSome = decide (t.head? = some ' ') := by
  cases t with
  | nil => simp [details?, hs]
  | cons c r =>
    by_cases hc : c = ' '
    · subst hc
      rw [List.cons_append, details?]
      simp only [dropWhile_space_append hs]
      split
      · rename_i he
        simp at he
      · rfl
    · rw [List.cons_append]
      simp [details?, hc]

theorem isSome_tagged?_append (hs : Foreign sign) (t x y : Text) :
    (tagged? (t ++ sign :: x)).isSome = (tagged? (t ++ sign :: y)).isSome := by
  rw [Bool.eq_iff_iff, tagged?, tagged?, List.findSome?_isSome_iff, List.findSome?_isSome_iff]
  refine exists_congr fun tag => and_congr_right fun _ => ?_
  rw [isPrefixOf?_append_cons (hs.name tag), isPrefixOf?_append_cons (hs.name tag)]
  cases tag.name.isPrefixOf? t with
  | none => rfl
  | some r =>
    simp only [Option.map_some, Option.bind_some, Option.isSome_map,
      isSome_details?_append hs.space]

theorem afterSpaces?_append_sign (hs : sign ≠ ' ') (c : Char) (t x : Text) :
    afterSpaces? (c :: (t ++ sign :: x))
      = if c = ' ' then some (t.dropWhile (· = ' ') ++ sign :: x) else none := by
  by_cases hc : c = ' '
  · subst hc
    rw [afterSpaces?, dropWhile_space_append hs, if_pos rfl]
  · rw [if_neg hc]
    unfold afterSpaces?
    split
    · rename_i he
      exact absurd (List.cons.inj he).1 hc
    · rfl

theorem startingAt?_of_ne {c d : Char} (h : ¬(c = '/' ∧ d = '/')) (t : Text) :
    startingAt? (c :: d :: t) = none := by
  unfold startingAt?
  split
  · rename_i he
    cases he
    exact absurd ⟨rfl, rfl⟩ h
  · rfl

/-- **Whether a mark begins before an assignment sign is settled before that sign**: the sign can
only belong to the attribute text. -/
theorem isSome_startingAt?_append (hs : Foreign sign) (t x y : Text) :
    (startingAt? (t ++ sign :: x)).isSome = (startingAt? (t ++ sign :: y)).isSome := by
  match t with
  | [] => simp [startingAt?, hs.slash]
  | [c] =>
    have hne : ¬(c = '/' ∧ sign = '/') := fun h => hs.slash h.2
    rw [List.singleton_append, List.singleton_append, startingAt?_of_ne hne,
      startingAt?_of_ne hne]
  | [c, d] =>
    by_cases hcd : c = '/' ∧ d = '/'
    · obtain ⟨rfl, rfl⟩ := hcd
      simp [startingAt?, afterSpaces?, hs.space]
    · simp only [List.cons_append, startingAt?_of_ne hcd]
  | c :: d :: e :: r =>
    by_cases hcd : c = '/' ∧ d = '/'
    · obtain ⟨rfl, rfl⟩ := hcd
      simp only [List.cons_append, startingAt?, afterSpaces?_append_sign hs.space]
      by_cases he : e = ' '
      · rw [if_pos he, if_pos he]
        -- behind the spaces stands the sign itself, an at sign with a tag, or something else
        cases r.dropWhile (· = ' ') with
        | nil => simp [hs.tagSign]
        | cons f u =>
          by_cases hf : f = '@'
          · subst hf
            simp only [List.cons_append, Option.isSome_map]
            exact isSome_tagged?_append hs u x y
          · simp [hf]
      · rw [if_neg he, if_neg he]
    · simp only [List.cons_append, startingAt?_of_ne hcd]

end Mark

theorem MarkFree.append_sign (hs : Foreign sign) {t x : Text}
    (hone : onOneLine t = true) (h : MarkFree t (sign :: x)) (y : Text) :
    MarkFree t (sign :: y) := by
  have hfirst : ∀ (s z : Text), onOneLine s = true →
      firstLine (s ++ sign :: z) = s ++ sign :: firstLine z := fun s z hone => by
    rw [firstLine_append hone, firstLine_cons hs.sameLine]
  induction t with
  | nil => trivial
  | cons c r ih =>
    refine ⟨?_, ih (onOneLine_cons.1 hone).2 h.2⟩
    have hx := h.1
    rw [← List.cons_append, Mark.beginning?, hfirst _ _ hone] at hx ⊢
    rw [← Option.not_isSome_iff_eq_none] at hx ⊢
    rwa [Mark.isSome_startingAt?_append hs _ (firstLine y) (firstLine x)]

end Sign

end Marginalia
