import Mathlib.Data.List.Infix
import Marginalia.Disk.Basic
import Marginalia.Proofs.Except

/-!
# A disk after a file was written

Writing replaces the bytes at one place of the tree.  What stands at any other list of names is told
by one equation, `Entry.at?_replace`: above the place the folders have one replaced entry, at the
place stands the new file, and everywhere else nothing happened.  Folders keep their names in all
three cases, so every path leads where it led before (`Disk.locate_written`), and this is what the
statements about reading rest on.

* `Disk.read_eq_ok_iff` — what can be read is the text whose bytes a file holds.
* `Disk.bytes?_write` — a file that was written holds the bytes of the new text, and no others.
* `Disk.bytes?_write_of_ne` — **no other file changes**.
-/

set_option autoImplicit false
namespace Marginalia

/-! ## Replacing the bytes at a place -/

namespace Entry

variable {bytes : ByteArray} {target names : List Text} {name : Text} {e inner : Entry}

theorem at?_cons (e : Entry) (name : Text) (names : List Text) :
    e.at? (name :: names) = (e.child? name).bind fun inner => inner.at? names :=
  List.foldlM_cons

/-- Entries that are changed under their names are found changed. -/
theorem lookup_map (change : Text → Entry → Entry) (name : Text) (es : List (Text × Entry)) :
    (es.map fun p => (p.1, change p.1 p.2)).lookup name = (es.lookup name).map (change name) := by
  induction es with
  | nil => rfl
  | cons p es ih =>
    rw [List.map_cons, List.lookup_cons, List.lookup_cons]
    cases hname : name == p.1 with
    | true => rw [Option.map_some, beq_iff_eq.1 hname]
    | false => exact ih

theorem child?_replace (bytes : ByteArray) (name n : Text) (target : List Text) (e : Entry) :
    (e.replace bytes (name :: target)).child? n
      = (e.child? n).map fun inner => if n = name then inner.replace bytes target else inner := by
  cases e with
  | file => rfl
  | folder es =>
    have hentry (p : Text × Entry) : (if p.1 = name then (p.1, p.2.replace bytes target) else p)
        = (p.1, if p.1 = name then p.2.replace bytes target else p.2) := by
      split <;> rfl
    have hentries := List.map_congr_left fun p (_ : p ∈ es) => hentry p
    exact (congrArg (List.lookup n) hentries).trans
      (lookup_map (fun m inner => if m = name then inner.replace bytes target else inner) n es)

theorem child?_replace_nil (bytes : ByteArray) (n : Text) (e : Entry) :
    (e.replace bytes []).child? n = e.child? n := by
  cases e <;> rfl

/-- **What stands at a list of names** after the bytes at another list of names are replaced. -/
theorem at?_replace (bytes : ByteArray) (target names : List Text) (e : Entry) :
    (e.replace bytes target).at? names = (e.at? names).map fun inner =>
      if names <+: target then inner.replace bytes (target.drop names.length) else inner := by
  induction names generalizing e target with
  | nil => simp [at?]
  | cons n names ih =>
    rw [at?_cons, at?_cons]
    cases target with
    | nil =>
      rw [child?_replace_nil]
      cases e.child? n <;> simp
    | cons name target =>
      rw [child?_replace]
      cases hchild : e.child? n with
      | none => rfl
      | some inner =>
        simp only [Option.map_some, Option.bind_some, List.cons_prefix_cons]
        split
        · rename_i hn
          simp [hn, ih]
        · rename_i hn
          simp [hn]

/-- A file stays a file. -/
theorem exists_replace_file (bytes : ByteArray) (target : List Text) (bytes? : Option ByteArray)
    (writable : Bool) : ∃ bytes'?, (file bytes? writable).replace bytes target
      = file bytes'? writable := by
  cases target with
  | nil => exact ⟨some bytes, rfl⟩
  | cons => exact ⟨bytes?, rfl⟩

/-- A folder stays a folder with the same names in it. -/
theorem exists_replace_folder (bytes : ByteArray) (target : List Text)
    (es : List (Text × Entry)) : ∃ es', (folder es).replace bytes target = folder es' ∧
      ∀ n, (es'.lookup n).isSome = (es.lookup n).isSome := by
  cases target with
  | nil => exact ⟨es, rfl, fun _ => rfl⟩
  | cons name target =>
    refine ⟨_, rfl, fun n => ?_⟩
    have hchild := child?_replace bytes name n target (folder es)
    exact (congrArg Option.isSome hchild).trans Option.isSome_map

end Entry

/-! ## Following paths -/

namespace Disk

variable {d d' : Disk} {p q : Path} {t : Text} {bytes : ByteArray} {target names : List Text}

/-- A disk with other bytes at a place. -/
def written (d : Disk) (bytes : ByteArray) (target : List Text) : Disk :=
  { d with root := d.root.replace bytes target }

theorem enter_written (d : Disk) (bytes : ByteArray) (target : List Text) :
    (d.written bytes target).enter = d.enter := by
  funext names piece
  rw [enter, enter, written, Entry.at?_replace]
  by_cases hprefix : names <+: target
  · simp only [if_pos hprefix]
    rcases d.root.at? names with _ | ⟨bytes?, writable⟩ | es
    · rfl
    · obtain ⟨bytes'?, hfile⟩ :=
        Entry.exists_replace_file bytes (target.drop names.length) bytes? writable
      rw [Option.map_some, hfile]
    · obtain ⟨es', hfolder, hnames⟩ :=
        Entry.exists_replace_folder bytes (target.drop names.length) es
      simp only [Option.map_some, hfolder, hnames]
  · simp only [if_neg hprefix, Option.map_id']

/-- **Every path leads where it led before.** -/
theorem locate_written (d : Disk) (bytes : ByteArray) (target : List Text) :
    (d.written bytes target).locate = d.locate := by
  funext p
  rw [locate, locate, enter_written]
  rfl

theorem exists_of_write (h : d.write p t = .ok d') : ∃ names old,
    d.locate p = .ok names ∧ d.root.at? names = some (.file old true) ∧
      d' = d.written (bytesOfText t) names := by
  rw [write] at h
  obtain ⟨names, hnames, h⟩ := Except.bind_eq_ok_iff.1 h
  split at h
  · rename_i old hold
    cases h
    exact ⟨names, old, hnames, hold, rfl⟩
  all_goals cases h

/-- A file whose bytes may be replaced stands where a path leads. -/
def IsWritable (d : Disk) (p : Path) : Prop := ∃ bytes?, d.entry? p = some (.file bytes? true)

theorem exists_write (h : d.IsWritable p) (t : Text) : ∃ d', d.write p t = .ok d' := by
  obtain ⟨bytes?, hentry⟩ := h
  obtain ⟨names, hnames, hat⟩ := Option.bind_eq_some_iff.1 hentry
  refine ⟨d.written (bytesOfText t) names, Except.bind_eq_ok_iff.2 ⟨names, ?_, ?_⟩⟩
  · exact Except.toOption_eq_some_iff.1 hnames
  · simp only [hat]
    rfl

/-! ## What files hold -/

/-- The bytes of a file, if there is one and its bytes may be read. -/
def bytes? (d : Disk) (p : Path) : Option ByteArray :=
  match d.entry? p with
  | some (.file bytes? _) => bytes?
  | _ => none

theorem entry?_eq {names : List Text} (h : d.locate p = .ok names) :
    d.entry? p = d.root.at? names := by
  rw [ entry?, h]
  rfl

theorem entry?_written (h : d.locate q = .ok names) :
    entry? (d.written bytes target) q = (d.root.at? names).map fun inner =>
      if names <+: target then inner.replace bytes (target.drop names.length) else inner := by
  rw [← Entry.at?_replace]
  exact entry?_eq (by rw [locate_written, h])

/-- **The file that was written holds the new text** and nothing else. -/
theorem bytes?_write (h : d.write p t = .ok d') : d'.bytes? p = some (bytesOfText t) := by
  obtain ⟨names, old, hnames, hold, rfl⟩ := exists_of_write h
  rw [bytes?, entry?_written hnames, hold]
  simp [Entry.replace]

/-- **No other file changes.** -/
theorem bytes?_write_of_ne (h : d.write p t = .ok d') (hne : d.locate q ≠ d.locate p) :
    d'.bytes? q = d.bytes? q := by
  obtain ⟨target, old, htarget, hold, rfl⟩ := exists_of_write h
  cases hq : d.locate q with
  | error fault =>
    rw [bytes?, bytes?, entry?, entry?, locate_written, hq]
    rfl
  | ok names =>
    rw [bytes?, bytes?, entry?_written hq, entry?_eq hq]
    by_cases hprefix : names <+: target
    · simp only [if_pos hprefix]
      obtain ⟨rest, rfl⟩ := hprefix
      rw [List.drop_left]
      rcases rest with _ | ⟨name, rest⟩
      · rw [hq, htarget, List.append_nil] at hne
        exact absurd rfl hne
      · rcases d.root.at? names with _ | ⟨bytes?, writable⟩ | es <;> rfl
    · simp only [if_neg hprefix, Option.map_id']

/-! ## Texts and their bytes -/

theorem fromUTF8?_eq_some_iff {bytes : ByteArray} {s : String} :
    String.fromUTF8? bytes = some s ↔ bytes = s.toUTF8 := by
  rw [String.fromUTF8?]
  constructor
  · intro h
    split at h
    · cases h
      rfl
    · cases h
  · rintro rfl
    exact dif_pos s.isValidUTF8

theorem textOfBytes_eq_ok_iff : textOfBytes bytes = .ok t ↔ bytes = bytesOfText t := by
  rw [textOfBytes, bytesOfText, ← fromUTF8?_eq_some_iff]
  cases String.fromUTF8? bytes with
  | none => simp
  | some s =>
    have hs : s = String.ofList t ↔ s.toList = t :=
      ⟨fun h => h ▸ String.toList_ofList, fun h => h ▸ String.ofList_toList.symm⟩
    simp [hs]

/-- **What can be read is the text whose bytes a file holds.** -/
theorem read_eq_ok_iff : d.read p = .ok t ↔ d.bytes? p = some (bytesOfText t) := by
  rw [read, bytes?, entry?]
  cases d.locate p with
  | error fault => simp [bind, Except.bind, Except.toOption]
  | ok names =>
    rcases hat : d.root.at? names with _ | ⟨_ | bytes, writable⟩ | es <;>
      simp [bind, Except.bind, Except.toOption, hat, textOfBytes_eq_ok_iff]

theorem isThere_of_read (h : d.read p = .ok t) : d.isThere p = true := by
  have hbytes := read_eq_ok_iff.1 h
  rw [bytes?] at hbytes
  rw [isThere]
  cases hentry : d.entry? p with
  | none =>
    rw [hentry] at hbytes
    cases hbytes
  | some e => rfl

end Disk
end Marginalia
