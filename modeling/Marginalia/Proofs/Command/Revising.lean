import Marginalia.Command.Run
import Marginalia.Proofs.Disk.Written

/-!
# What is left on a disk

What a batch has written is put on the disk one file after another, so a file is written to a disk
on which others have been written already.  That makes no difference: writing moves no file and
takes no permission away, so a file can be written after the others exactly if it could be written
before them.

Two paths may lead to one place, `./a.js` and `a.js` for instance, and then the later one of two
writings is what is left.  If no two paths do, each file comes out by itself.

* `Command.bytes?_afterWriting` and `Command.bytes?_afterWriting_of_not_lands` — **what is put on
  the disk stays there, and nothing else changes**.
-/

set_option autoImplicit false
namespace Marginalia

/-- A file may be written exactly if it could before. -/
theorem Disk.isWritable_written {d : Disk} {bytes : ByteArray} {target : List Text} {p : Path} :
    (d.written bytes target).IsWritable p ↔ d.IsWritable p := by
  rw [IsWritable, IsWritable]
  cases hp : d.locate p with
  | error fault => rw [ entry?, entry?, locate_written, hp]; rfl
  | ok names =>
    rw [entry?_written hp, entry?_eq hp]
    rcases d.root.at? names with _ | ⟨bytes?, writable⟩ | es
    · rfl
    · by_cases habove : names <+: target
      · obtain ⟨bytes'?, hfile⟩ :=
          Entry.exists_replace_file bytes (target.drop names.length) bytes? writable
        simp [habove, hfile]
      · simp [habove]
    · by_cases habove : names <+: target
      · obtain ⟨es', hfolder, -⟩ :=
          Entry.exists_replace_folder bytes (target.drop names.length) es
        simp [habove, hfolder]
      · simp [habove]

theorem Disk.isWritable_of_write {d d' : Disk} {p : Path} {t : Text} (h : d.write p t = .ok d') :
    d.IsWritable p := by
  obtain ⟨names, old, hnames, hold, -⟩ := exists_of_write h
  exact ⟨old, (entry?_eq hnames).trans hold⟩

namespace Command

variable {d : Disk} {h : Handled} {files : List Handled} {p q : Path} {output : Text}

/-! ## One file -/

/-- A disk after one file of a batch. -/
def afterOne (d : Disk) (h : Handled) : Disk :=
  match h.written with
  | some output => (d.write h.path output).toOption.getD d
  | none => d

/-- Whether a batch writes a file, and the disk takes it. -/
def Lands (d : Disk) (h : Handled) : Prop := h.written ≠ none ∧ d.IsWritable h.path

/-- A file that lands has replaced another one, and otherwise the disk is as before. -/
theorem afterOne_cases (d : Disk) (h : Handled) :
    (¬ Lands d h ∧ afterOne d h = d) ∨
      Lands d h ∧ ∃ output, h.written = some output ∧
        d.write h.path output = .ok (afterOne d h) := by
  rw [afterOne]
  cases hwritten : h.written with
  | none => exact Or.inl ⟨fun hlands => hlands.1 hwritten, rfl⟩
  | some output =>
    cases hwrite : d.write h.path output with
    | error fault =>
      refine Or.inl ⟨fun hlands => ?_, by simp only [hwrite]; rfl⟩
      obtain ⟨after, hafter⟩ := Disk.exists_write hlands.2 output
      cases hwrite.symm.trans hafter
    | ok after =>
      have hlands : Lands d h := ⟨by simp [hwritten], Disk.isWritable_of_write hwrite⟩
      exact Or.inr ⟨hlands, output, rfl, by simp only [hwrite]; rfl⟩

theorem locate_afterOne (d : Disk) (h : Handled) : (afterOne d h).locate = d.locate := by
  rcases afterOne_cases d h with ⟨-, hsame⟩ | ⟨-, output, -, hwrite⟩
  · rw [hsame]
  · obtain ⟨names, old, -, -, hafter⟩ := Disk.exists_of_write hwrite
    rw [hafter, Disk.locate_written]

theorem isWritable_afterOne : (afterOne d h).IsWritable p ↔ d.IsWritable p := by
  rcases afterOne_cases d h with ⟨-, hsame⟩ | ⟨-, output, -, hwrite⟩
  · rw [hsame]
  · obtain ⟨names, old, -, -, hafter⟩ := Disk.exists_of_write hwrite
    rw [hafter, Disk.isWritable_written]

theorem lands_afterOne {k : Handled} : Lands (afterOne d k) h ↔ Lands d h :=
  and_congr_right' isWritable_afterOne

theorem bytes?_afterOne (hwritten : h.written = some output) (hwritable : d.IsWritable h.path) :
    (afterOne d h).bytes? h.path = some (Disk.bytesOfText output) := by
  rcases afterOne_cases d h with ⟨hlands, -⟩ | ⟨-, output', hwritten', hwrite⟩
  · exact absurd ⟨by simp [hwritten], hwritable⟩ hlands
  · cases hwritten.symm.trans hwritten'
    exact Disk.bytes?_write hwrite

theorem bytes?_afterOne_of_not_lands (hq : d.locate q = d.locate h.path → ¬ Lands d h) :
    (afterOne d h).bytes? q = d.bytes? q := by
  rcases afterOne_cases d h with ⟨-, hsame⟩ | ⟨hlands, output, -, hwrite⟩
  · rw [hsame]
  · exact Disk.bytes?_write_of_ne hwrite fun hplace => hq hplace hlands

/-! ## All files -/

theorem afterWriting_cons (d : Disk) (h : Handled) (files : List Handled) :
    afterWriting d (h :: files) = afterWriting (afterOne d h) files := rfl

/-- **A place where nothing lands stays as it is.** -/
theorem bytes?_afterWriting_of_not_lands
    (hq : ∀ h ∈ files, d.locate q = d.locate h.path → ¬ Lands d h) :
    (afterWriting d files).bytes? q = d.bytes? q := by
  induction files generalizing d with
  | nil => rfl
  | cons h files ih =>
    rw [afterWriting_cons, ih, bytes?_afterOne_of_not_lands (hq h List.mem_cons_self)]
    intro k hk
    rw [locate_afterOne, lands_afterOne]
    exact hq k (List.mem_cons_of_mem _ hk)

/-- **What lands is there in the end**, unless another file leads to the same place. -/
theorem bytes?_afterWriting (apart : (files.map fun h => d.locate h.path).Nodup) (hh : h ∈ files)
    (hwritten : h.written = some output) (hwritable : d.IsWritable h.path) :
    (afterWriting d files).bytes? h.path = some (Disk.bytesOfText output) := by
  induction files generalizing d with
  | nil => cases hh
  | cons k files ih =>
    rw [List.map_cons, List.nodup_cons] at apart
    rw [afterWriting_cons]
    rcases List.mem_cons.1 hh with rfl | hh
    · rw [bytes?_afterWriting_of_not_lands, bytes?_afterOne hwritten hwritable]
      intro k hk hplace
      rw [locate_afterOne] at hplace
      exact absurd (List.mem_map.2 ⟨k, hk, hplace.symm⟩) apart.1
    · refine ih ?_ hh (isWritable_afterOne.2 hwritable)
      rw [locate_afterOne]
      exact apart.2

end Command
end Marginalia
