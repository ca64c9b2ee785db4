import Marginalia.Proofs.Mark.Attributes
import Marginalia.Proofs.Mark.Lengthened
import Marginalia.Source.Addressed

/-!
# An address behind an attribute text

An address is written behind whatever attribute text a mark has, and whether it is read as the hash
of the mark depends on what reading leaves over of that text.

* Nothing is left over: the address is the last attribute, and it is the hash from now on.
* A value is left open: it goes on to the first quotation mark of the address.  The hash changes
  only if the value is one of a hash.
* Anything else: the address is read together with it, or not at all, and the hash stays.

`Attributes.takesAddress` tells the cases in which the address has a say in the hash from the
others, and `Attributes.hash?_append_addressText` says what the hash is then.
-/

set_option autoImplicit false
namespace Marginalia
namespace Attributes

variable {d t t' key value identifier : Text}

/-- The value of a hash that a text leaves open. -/
def openHash? (left : Text) : Option Text :=
  match Text.cutAt? '=' left with
  | some (name, '"' :: body) => if Text.trim name = "hash".toList then some body else none
  | _ => none

/-- Whether an address behind an attribute text has a say in the hash: nothing is left over of the
text, or the value of a hash that is left open. -/
def takesAddress (details : Text) : Bool :=
  let left := unread (Text.trimStart details)
  left.isEmpty || (openHash? left).isSome

/-! ## One more attribute -/

theorem get?_ofText_of_concat (h : readPairs (Text.trim t') = readPairs (Text.trim t) ++
    [(key, value)]) {asked : Text} (hasked : asked ≠ []) :
    (ofText t').get? asked = if asked = key then some value else (ofText t).get? asked := by
  rw [get?, get?, ofText, ofText, h, List.filter_append]
  by_cases hkey : key = []
  · have hne : asked ≠ key := fun he => hasked (he.trans hkey)
    rw [if_neg hne, hkey]
    simp
  · have hfilter : [(key, value)].filter (fun pair => !pair.1.isEmpty) = [(key, value)] := by
      simp [hkey]
    rw [hfilter, Keyed.ofPairs, List.foldl_append]
    exact Keyed.get?_set key value _ asked

/-- An attribute has two quotation marks. -/
theorem two_le_count_of_readPair? {rest : Text} (h : readPair? t = some (key, value, rest)) :
    2 ≤ t.count '"' := by
  obtain ⟨name, after, rfl, -⟩ := readPair?_eq_some_iff.1 h
  have h := List.count_cons_of_ne (show '=' ≠ '"' by decide) (l := '"' :: (value ++ '"' :: after))
  rw [List.count_append, h, List.count_cons_self, List.count_append, List.count_cons_self]
  omega

/-! ## The address -/

theorem addressText_eq (identifier : Text) : addressText identifier
    = ' ' :: ("hash".toList ++ '=' :: '"' :: ('v' :: identifier ++ ['"'])) :=
  rfl

theorem trimStart_addressText (identifier : Text) : Text.trimStart (addressText identifier)
    = "hash".toList ++ '=' :: '"' :: ('v' :: identifier ++ ['"']) := by
  rw [addressText_eq]
  rfl

theorem trim_append_addressText (d identifier : Text) :
    Text.trim (d ++ addressText identifier) = Text.trimStart (d ++ addressText identifier) := by
  obtain ⟨r, hr⟩ : ∃ r, addressText identifier = r ++ ['"'] := ⟨_, rfl⟩
  rw [hr, ← List.append_assoc]
  exact Text.trim_concat _ rfl

theorem readPairs_append_addressText (d identifier : Text) :
    readPairs (Text.trim (d ++ addressText identifier)) = readPairs (Text.trim d) ++
      readPairs (Text.trimStart (unread (Text.trimStart d) ++ addressText identifier)) := by
  rw [trim_append_addressText, readPairs_append, readPairs_trim]

theorem readPairs_append_addressText_of_ne_nil (hleft : unread (Text.trimStart d) ≠ [])
    (identifier : Text) :
    readPairs (Text.trim (d ++ addressText identifier)) = readPairs (Text.trim d) ++
      readPairs (unread (Text.trimStart d) ++ addressText identifier) := by
  have hstart := trimStart_unread (Text.trimStart_trimStart d)
  rw [readPairs_append_addressText, Text.trimStart_append (by rwa [hstart]), hstart]

/-- Where nothing is left over, the address is an attribute. -/
theorem readPairs_addressText (hid : '"' ∉ identifier) :
    readPairs (Text.trimStart (addressText identifier))
      = [("hash".toList, 'v' :: identifier)] := by
  have hv : '"' ∉ 'v' :: identifier := by simp [hid]
  have h : readPair? (Text.trimStart (addressText identifier))
      = some ("hash".toList, 'v' :: identifier, []) :=
    readPair?_eq_some_iff.2 ⟨"hash".toList, [], trimStart_addressText identifier, by decide, hv,
      by decide, rfl⟩
  rw [readPairs_of_some h, readPairs_of_none rfl]

/-- Where no attribute was begun, the address becomes one with a longer key. -/
theorem readPairs_append_of_no_sign {left : Text} (hid : '"' ∉ identifier) (hleft : '=' ∉ left) :
    readPairs (left ++ addressText identifier)
      = [(Text.trim (left ++ " hash".toList), 'v' :: identifier)] := by
  have hv : '"' ∉ 'v' :: identifier := by simp [hid]
  have hname : '=' ∉ left ++ " hash".toList := by
    rw [List.mem_append, not_or]
    exact ⟨hleft, by decide⟩
  have h : readPair? (left ++ addressText identifier)
      = some (Text.trim (left ++ " hash".toList), 'v' :: identifier, []) := by
    refine readPair?_eq_some_iff.2 ⟨left ++ " hash".toList, [], ?_, hname, hv, rfl, rfl⟩
    rw [addressText_eq, List.append_assoc]
    rfl
  rw [readPairs_of_some h, readPairs_of_none rfl]

/-- A value that is left open goes on to the first quotation mark of the address, and what stands
behind that is no attribute. -/
theorem readPairs_append_of_open {name body : Text} (hid : '"' ∉ identifier) (hname : '=' ∉ name)
    (hbody : '"' ∉ body) :
    readPairs (name ++ '=' :: '"' :: body ++ addressText identifier)
      = [(Text.trim name, body ++ " hash=".toList)] := by
  have hvalue : '"' ∉ body ++ " hash=".toList := by
    rw [List.mem_append, not_or]
    exact ⟨hbody, by decide⟩
  have h : readPair? (name ++ '=' :: '"' :: body ++ addressText identifier)
      = some (Text.trim name, body ++ " hash=".toList, 'v' :: identifier ++ ['"']) := by
    refine readPair?_eq_some_iff.2
      ⟨name, 'v' :: identifier ++ ['"'], ?_, hname, hvalue, rfl, rfl⟩
    rw [addressText_eq]
    simp only [List.append_assoc, List.cons_append]
    rfl
  have hend : readPair? ('v' :: identifier ++ ['"']) = none := by
    refine Option.eq_none_iff_forall_ne_some.2 fun ⟨key, value, rest⟩ hpair => ?_
    have hcount := two_le_count_of_readPair? hpair
    rw [List.count_append, List.count_eq_zero.2 (by simp [hid] : '"' ∉ 'v' :: identifier)] at hcount
    exact absurd hcount (by decide)
  rw [readPairs_of_some h, readPairs_of_none hend]

/-! ## The hash of a mark with an address -/

theorem hash_ne_nil : "hash".toList ≠ [] := by decide

theorem hash?_of_readPairs (h : readPairs (Text.trim t') = readPairs (Text.trim t) ++
    [("hash".toList, value)]) (hvalue : value ≠ []) : (ofText t').hash? = some value := by
  rw [hash?, getFilled?, get?_ofText_of_concat h hash_ne_nil, if_pos rfl]
  simp [hvalue]

theorem hash?_of_readPairs_ne (h : readPairs (Text.trim t') = readPairs (Text.trim t) ++
    [(key, value)]) (hkey : "hash".toList ≠ key) : (ofText t').hash? = (ofText t).hash? := by
  rw [hash?, hash?, getFilled?, getFilled?, get?_ofText_of_concat h hash_ne_nil, if_neg hkey]

/-- Nothing is left over: the address is the hash. -/
theorem hash?_append_addressText_of_nil (hid : '"' ∉ identifier)
    (hleft : unread (Text.trimStart d) = []) :
    (ofText (d ++ addressText identifier)).hash? = some ('v' :: identifier) := by
  refine hash?_of_readPairs (t := d) ?_ (List.cons_ne_nil _ _)
  rw [readPairs_append_addressText, hleft, List.nil_append, readPairs_addressText hid]

theorem openHash?_eq_some_iff {left body : Text} : openHash? left = some body ↔
    ∃ name, left = name ++ '=' :: '"' :: body ∧ '=' ∉ name ∧ Text.trim name = "hash".toList := by
  constructor
  · intro h
    unfold openHash? at h
    split at h
    · rename_i name body' hcut
      obtain ⟨hleft, hname⟩ := Text.cutAt?_eq_some_iff.1 hcut
      split at h
      · rename_i hkey
        cases h
        exact ⟨name, hleft, hname, hkey⟩
      · cases h
    · cases h
  · rintro ⟨name, rfl, hname, hkey⟩
    rw [openHash?, Text.cutAt?_eq_some_iff.2 ⟨rfl, hname⟩]
    simp only [hkey, if_true]

/-- The last value of a text that has no further attribute is open. -/
theorem not_mem_of_readPair?_eq_none {name body : Text} (hname : '=' ∉ name)
    (h : readPair? (name ++ '=' :: '"' :: body) = none) : '"' ∉ body := by
  intro hmem
  cases hcut : Text.cutAt? '"' body with
  | none => exact Text.cutAt?_eq_none_iff.1 hcut hmem
  | some cut =>
    obtain ⟨value, after⟩ := cut
    obtain ⟨rfl, hvalue⟩ := Text.cutAt?_eq_some_iff.1 hcut
    have hsome : readPair? (name ++ '=' :: '"' :: (value ++ '"' :: after)) = some _ :=
      readPair?_eq_some_iff.2 ⟨name, after, rfl, hname, hvalue, rfl, rfl⟩
    cases h.symm.trans hsome

/-- A hash is left open: it goes on to the address. -/
theorem hash?_append_addressText_of_open {body : Text} (hid : '"' ∉ identifier)
    (hopen : openHash? (unread (Text.trimStart d)) = some body) :
    (ofText (d ++ addressText identifier)).hash? = some (body ++ " hash=".toList) := by
  obtain ⟨name, hleft, hname, hkey⟩ := openHash?_eq_some_iff.1 hopen
  have hbody : '"' ∉ body :=
    not_mem_of_readPair?_eq_none hname (hleft ▸ readPair?_unread (Text.trimStart d))
  have hne : unread (Text.trimStart d) ≠ [] := by simp [hleft]
  refine hash?_of_readPairs (t := d) ?_ (by simp)
  rw [readPairs_append_addressText_of_ne_nil hne, hleft, readPairs_append_of_open hid hname hbody,
    hkey]

/-- **Otherwise the hash stays.** -/
theorem hash?_append_addressText_of_not_takes (hid : '"' ∉ identifier)
    (hd : takesAddress d = false) :
    (ofText (d ++ addressText identifier)).hash? = (ofText d).hash? := by
  rw [takesAddress, Bool.or_eq_false_iff, List.isEmpty_eq_false_iff] at hd
  obtain ⟨hne, hopen⟩ := hd
  have happend := readPairs_append_addressText_of_ne_nil hne identifier
  rcases readPair?_eq_none_iff.1 (readPair?_unread (Text.trimStart d)) with
    hsign | ⟨name, after, hleft, hname, hhead⟩ | ⟨name, body, hleft, hname, hbody⟩
  · -- a key with a space in it
    rw [readPairs_append_of_no_sign hid hsign] at happend
    refine hash?_of_readPairs_ne happend fun hkey => ?_
    have hstart := trimStart_unread (Text.trimStart_trimStart d)
    have htrim : Text.trim (unread (Text.trimStart d) ++ " hash".toList)
        = unread (Text.trimStart d) ++ " hash".toList := by
      obtain ⟨r, hr⟩ : ∃ r, " hash".toList = r ++ ['h'] := ⟨[' ', 'h', 'a', 's'], by decide⟩
      rw [hr, ← List.append_assoc, Text.trim_concat _ rfl, List.append_assoc,
        Text.trimStart_append (by rwa [hstart]), hstart]
    have hlength := congrArg List.length (hkey.trans htrim)
    rw [List.length_append] at hlength
    exact absurd hlength (by simp)
  · -- no attribute at all
    have hnone : readPair? (unread (Text.trimStart d) ++ addressText identifier) = none := by
      refine readPair?_eq_none_iff.2 (Or.inr (Or.inl
        ⟨name, after ++ addressText identifier, by simp [hleft], hname, ?_⟩))
      cases after with
      | nil => simp [addressText_eq]
      | cons c r => exact hhead
    rw [readPairs_of_none hnone, List.append_nil] at happend
    rw [hash?, hash?, ofText, ofText, happend]
  · -- a value of another key
    rw [hleft, readPairs_append_of_open hid hname hbody] at happend
    refine hash?_of_readPairs_ne happend fun hkey => ?_
    rw [openHash?_eq_some_iff.2 ⟨name, hleft, hname, hkey.symm⟩] at hopen
    cases hopen

end Attributes
end Marginalia
