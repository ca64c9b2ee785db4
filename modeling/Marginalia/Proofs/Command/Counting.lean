import Mathlib.Data.List.Dedup
import Marginalia.Proofs.Command.Filling
import Marginalia.Proofs.Form.Edits

/-!
# How many values are said to have been written

A run that writes a file says how many values it has set: as many as were handed in, less the
refusals.  Values are handed in under hashes, one for each, but refusals are counted by mark.  A
hash that two marks carry may be refused by both, and then it is taken off twice; and where a hash
is refused by one mark and taken by the other, it counts as refused.

So the number is never too large.  It is too small if a hash is refused more than once, unless there
is nothing left to be counted.

* `length_accepted_add` — the hashes that are handed in are those that nothing refuses, and those
  that are refused, each once.
* `writtenCount_fill_eq_iff` — when the number is that of the hashes that nothing refuses.
* `Command.runRequest_fill_count` — **what a run says, and when it is true.**
-/

set_option autoImplicit false
namespace Marginalia

/-! ## Refused hashes -/

namespace Filled

/-- The hashes that are refused, each as often as it is. -/
def refusedHashes (f : Filled) : List Text := f.refusals.map Refusal.hash

/-- The hashes among the entries that nothing refuses. -/
def accepted (f : Filled) (entries : Entries) : List Text :=
  entries.keys.filter fun hash => !f.refusedHashes.contains hash

theorem length_dedup_refusedHashes_le (f : Filled) :
    f.refusedHashes.dedup.length ≤ f.refusals.length := by
  have hle := (List.dedup_sublist f.refusedHashes).length_le
  rwa [refusedHashes, List.length_map] at hle

theorem nodup_refusedHashes_iff_length (f : Filled) :
    f.refusedHashes.Nodup ↔ f.refusals.length = f.refusedHashes.dedup.length := by
  have hlength : f.refusedHashes.length = f.refusals.length := List.length_map _
  rw [← List.dedup_eq_self, ← hlength]
  exact ⟨fun h => by rw [h], fun h => (List.dedup_sublist _).eq_of_length h.symm⟩

end Filled

/-- The hashes that the marks of a source refuse. -/
def refusedByMarks (source : Text) (entries : Entries) (user : Option Text) : List Text :=
  ((Placed.ofText source).filterMap (Placed.refusal? entries user)).map Refusal.hash

section

variable {source : Text} {entries : Entries} {user : Option Text} {hash : Text}

theorem refusedHashes_fill : (fill source entries user).refusedHashes
    = refusedByMarks source entries user ++ unknownHashes source entries := by
  rw [Filled.refusedHashes, fill, List.map_append, List.map_map, refusedByMarks]
  congr 1
  exact List.map_id _

/-- A mark refuses the value that is handed in under its hash. -/
theorem exists_of_mem_refusedByMarks (h : hash ∈ refusedByMarks source entries user) :
    hash ∈ entries.keys ∧ ∃ p ∈ Placed.ofText source, p.mark.hash? = some hash := by
  obtain ⟨r, hr, rfl⟩ := List.mem_map.1 h
  obtain ⟨p, hp, hr⟩ := List.mem_filterMap.1 hr
  obtain ⟨⟨value, asked⟩, -⟩ := Placed.asked_of_refusal? hr
  obtain ⟨hhash, hget⟩ := Mark.request?_eq_some_iff.1 asked
  refine ⟨Keyed.mem_keys_iff_isSome_get?.2 ?_, p, hp, hhash⟩
  rw [hget]
  rfl

theorem mem_keys_of_mem_refusedHashes (h : hash ∈ (fill source entries user).refusedHashes) :
    hash ∈ entries.keys := by
  rw [refusedHashes_fill] at h
  rcases List.mem_append.1 h with hmark | hunknown
  · exact (exists_of_mem_refusedByMarks hmark).1
  · exact (mem_unknownHashes.1 hunknown).1

/-- What is refused more than once is refused by marks. -/
theorem nodup_refusedHashes_iff (distinct : entries.keys.Nodup) :
    (fill source entries user).refusedHashes.Nodup ↔
      (refusedByMarks source entries user).Nodup := by
  rw [refusedHashes_fill, List.nodup_append]
  refine ⟨fun h => h.1, fun h => ⟨h, nodup_unknownHashes distinct, fun a ha b hb => ?_⟩⟩
  rintro rfl
  obtain ⟨-, p, hp, hhash⟩ := exists_of_mem_refusedByMarks ha
  exact (mem_unknownHashes.1 hb).2 p hp hhash

/-! ## The number -/

/-- **The hashes that are handed in are those that nothing refuses, and those that are refused**,
each of them once. -/
theorem length_accepted_add (source : Text) (user : Option Text) (distinct : entries.keys.Nodup) :
    ((fill source entries user).accepted entries).length
      + (fill source entries user).refusedHashes.dedup.length = entries.length := by
  have hperm : (entries.keys.filter (fill source entries user).refusedHashes.contains).Perm
      (fill source entries user).refusedHashes.dedup := by
    rw [List.perm_ext_iff_of_nodup (distinct.filter _) (List.nodup_dedup _)]
    intro hash
    simpa using fun h => mem_keys_of_mem_refusedHashes h
  have hsplit := entries.keys.length_eq_length_filter_add
    (fill source entries user).refusedHashes.contains
  rw [hperm.length_eq, Keyed.keys, List.length_map, Nat.add_comm] at hsplit
  exact hsplit.symm

/-- What is said falls short by the refusals of a hash other than the first. -/
theorem writtenCount_fill (distinct : entries.keys.Nodup) :
    (fill source entries user).writtenCount entries
      = ((fill source entries user).accepted entries).length
        - ((fill source entries user).refusals.length
          - (fill source entries user).refusedHashes.dedup.length) := by
  have hadd := length_accepted_add source user distinct
  have hle := (fill source entries user).length_dedup_refusedHashes_le
  rw [Filled.writtenCount]
  omega

theorem writtenCount_fill_eq_iff (distinct : entries.keys.Nodup) :
    (fill source entries user).writtenCount entries
        = ((fill source entries user).accepted entries).length ↔
      (refusedByMarks source entries user).Nodup ∨
        (fill source entries user).accepted entries = [] := by
  have hle := (fill source entries user).length_dedup_refusedHashes_le
  rw [writtenCount_fill distinct, ← nodup_refusedHashes_iff distinct,
    Filled.nodup_refusedHashes_iff_length, ← List.length_eq_zero_iff]
  omega

end

/-! ## The values of a run -/

section

variable {start entries : Entries}

theorem Json.nodup_keys_of_entries? {j : Json} (h : j.entries? = some entries) :
    entries.keys.Nodup := by
  obtain ⟨fields, -, h⟩ := Option.bind_eq_some_iff.1 h
  obtain ⟨pairs, -, h⟩ := Option.bind_eq_some_iff.1 h
  cases h
  exact Keyed.nodup_keys_ofPairs pairs

theorem Entries.nodup_keys_of_foldlM_assign {assignments : List Text} (distinct : start.keys.Nodup)
    (h : assignments.foldlM Entries.assign start = .ok entries) : entries.keys.Nodup := by
  induction assignments generalizing start with
  | nil =>
    cases h
    exact distinct
  | cons a rest ih =>
    rw [List.foldlM_cons] at h
    obtain ⟨next, hnext, h⟩ := Except.bind_eq_ok_iff.1 h
    obtain ⟨hash, value, -, rfl⟩ := Entries.assign_eq_ok_iff.1 hnext
    exact ih (Keyed.nodup_keys_set distinct) h

end

namespace Command

variable {s : Surroundings} {file : Path} {values : Option Path} {assignments : List Text}
variable {source : Text} {entries : Entries} {user : Option Text} {d after : Disk}

/-- A run has one value for each hash. -/
theorem nodup_keys_entries (h : Command.entries s values assignments = .ok entries) :
    entries.keys.Nodup := by
  obtain ⟨start, hstart, hassign⟩ := exists_stated h
  refine Entries.nodup_keys_of_foldlM_assign ?_ hassign
  cases hstart with
  | nothing => exact List.nodup_nil
  | values _ _ decoded => exact Json.nodup_keys_of_entries? decoded

/-! ## What a run says -/

/-- How a failure is reported, if there is one. -/
def failureLine (failure? : Option Failure) : Text :=
  failure?.toList.flatMap fun failure => "Error: ".toList ++ failure.message ++ ['\n']

theorem err_failingWith (o : Outcome) (failure? : Option Failure) :
    (o.failingWith failure?).err = o.err ++ failureLine failure? := by
  cases failure? <;> simp [Outcome.failingWith, failureLine]

/-- The line that says how many values are set. -/
def countLine (file : Path) (count : Nat) : Text :=
  "Set ".toList ++ countText count ++ " value(s) in ".toList ++ file.spelled ++ ['\n']

/-- What is said of a file that is written: how many values are set, and what is refused. -/
def summary (file : Path) (filled : Filled) (count : Nat) : Text :=
  countLine file count ++ filled.complaints ++ failureLine filled.failure?

theorem countLine_prefix (file : Path) (filled : Filled) (count : Nat) :
    countLine file count <+: summary file filled count :=
  (List.prefix_append _ _).trans (List.prefix_append _ _)

theorem err_filledOutcome_of_saved
    (h : saved d file source (fill source entries user).content = .ok after) :
    (filledOutcome d file source entries user true).err = summary file (fill source entries user)
      ((fill source entries user).writtenCount entries) := by
  rw [saved] at h
  simp only [filledOutcome, h, if_true]
  exact err_failingWith ..

/-- A run that writes says how many values it has set, and what it has refused. -/
theorem err_runRequest_fill {preferences : Preferences} (user : Option Text) (write verbose : Bool)
    (hpreferences : Preferences.InForce s.disk preferences)
    (hentries : Command.entries s values assignments = .ok entries)
    (hread : s.disk.read file = .ok source)
    (hwrites : (write || preferences.write) = true)
    (hsave : (fill source entries (user <|> preferences.user)).content = source ∨
      s.disk.IsWritable file) :
    (runRequest s ⟨.fill file values assignments user write, verbose⟩).err
      = summary file (fill source entries (user <|> preferences.user))
        ((fill source entries (user <|> preferences.user)).writtenCount entries) := by
  obtain ⟨after, hsaved⟩ := exists_saved hsave
  have hrun : (runRequest s ⟨.fill file values assignments user write, verbose⟩).err
      = (fillIn s file values assignments (user <|> (Preferences.ofDisk s.disk).1.user)
        (write || (Preferences.ofDisk s.disk).1.write)).err := rfl
  rw [hrun, ← Preferences.inForce_iff.1 hpreferences, hwrites, fillIn, hentries]
  simp only [hread]
  exact err_filledOutcome_of_saved hsaved

/-- **The number of values that a run says it has set** falls short of the hashes that nothing
refuses by the refusals of a hash other than the first.  So it is the number of those hashes exactly
if no hash is refused by two marks, or there are none. -/
theorem runRequest_fill_count {preferences : Preferences} (user : Option Text)
    (write verbose : Bool)
    (hpreferences : Preferences.InForce s.disk preferences)
    (hentries : Command.entries s values assignments = .ok entries)
    (hread : s.disk.read file = .ok source)
    (hwrites : (write || preferences.write) = true)
    (hsave : (fill source entries (user <|> preferences.user)).content = source ∨
      s.disk.IsWritable file) :
    let filled := fill source entries (user <|> preferences.user)
    let count := filled.writtenCount entries
    (runRequest s ⟨.fill file values assignments user write, verbose⟩).err
        = summary file filled count ∧
      count = (filled.accepted entries).length
        - (filled.refusals.length - filled.refusedHashes.dedup.length) ∧
      (count = (filled.accepted entries).length ↔
        (refusedByMarks source entries (user <|> preferences.user)).Nodup ∨
          filled.accepted entries = []) := by
  have hdistinct := nodup_keys_entries hentries
  exact ⟨err_runRequest_fill user write verbose hpreferences hentries hread hwrites hsave,
    writtenCount_fill hdistinct, writtenCount_fill_eq_iff hdistinct⟩

/-- One of two values is refused.  Who asks and that the file is to be written stand in a list of
preferences. -/
theorem runRequest_fill_count_one :
    let source := ("// @input hash=\"a\" access=\"alice\"\nx = 1\n" ++
      "// @checkbox hash=\"b\"\ny = 2\n").toList
    let config := "[null,\"alice\",true,false]".toList
    let disk : Disk := {
      root := .folder [
        ("sigil.config.json".toList, .file (some (Disk.bytesOfText config)) false),
        ("site.js".toList, .file (some (Disk.bytesOfText source)) true)]
      here := [] }
    let s : Surroundings := ⟨disk, .empty, ⟨0, id⟩⟩
    let assignments := ["a=2".toList, "b=4".toList]
    "Set 1 value(s) in site.js\n".toList <+:
      (runRequest s ⟨.fill ⟨"site.js".toList⟩ none assignments none false, false⟩).err := by
  intro source config disk s assignments
  let entries : Entries := [("a".toList, .text ['2']), ("b".toList, .text ['4'])]
  have hsource : disk.read ⟨"site.js".toList⟩ = .ok source := Disk.read_eq_ok_iff.2 rfl
  have hconfig : disk.read ⟨"sigil.config.json".toList⟩ = .ok config := Disk.read_eq_ok_iff.2 rfl
  have hentries : Command.entries s none assignments = .ok entries := by decide +kernel
  have hparsed : ∃ j, Json.read? config = some j ∧
      Preferences.ofJson? j = some ⟨some "alice".toList, true, false⟩ :=
    Option.bind_eq_some_iff.1 (by decide +kernel)
  obtain ⟨j, hj, hstates⟩ := hparsed
  have hpreferences : Preferences.InForce disk ⟨some "alice".toList, true, false⟩ :=
    .stated hconfig hj (Preferences.ofJson?_eq_some_iff.1 hstates)
  obtain ⟨herr, -, hcount⟩ := runRequest_fill_count none false false hpreferences hentries hsource
    rfl (Or.inr ⟨_, rfl⟩)
  have honce : (refusedByMarks source entries (some "alice".toList)).Nodup := by decide +kernel
  have haccepted : (fill source entries (some "alice".toList)).accepted entries
      = ["a".toList] := by decide +kernel
  have hline : countLine ⟨"site.js".toList⟩ 1 = "Set 1 value(s) in site.js\n".toList := by
    decide +kernel
  have hwritten : (fill source entries (some "alice".toList)).writtenCount entries = 1 :=
    (hcount.2 (Or.inl honce)).trans (congrArg List.length haccepted)
  have herr' : (runRequest s ⟨.fill ⟨"site.js".toList⟩ none assignments none false, false⟩).err
      = summary ⟨"site.js".toList⟩ (fill source entries (some "alice".toList))
        ((fill source entries (some "alice".toList)).writtenCount entries) := herr
  rw [herr', ← hline, ← hwritten]
  exact countLine_prefix _ _ _

/-- Two marks refuse the one value, and the other is written; but none is said to be. -/
theorem runRequest_fill_miscounts :
    let source := ("// @checkbox hash=\"a\"\nx = 1\n// @checkbox hash=\"a\"\ny = 2\n" ++
      "// @input hash=\"b\"\nz = 3\n").toList
    let disk : Disk := {
      root := .folder [("site.js".toList, .file (some (Disk.bytesOfText source)) true)]
      here := [] }
    let s : Surroundings := ⟨disk, .empty, ⟨0, id⟩⟩
    let assignments := ["a=1".toList, "b=4".toList]
    let entries : Entries := [("a".toList, .text ['1']), ("b".toList, .text ['4'])]
    Command.entries s none assignments = .ok entries ∧
      (fill source entries none).accepted entries = ["b".toList] ∧
      "Set 0 value(s) in site.js\n".toList <+:
        (runRequest s ⟨.fill ⟨"site.js".toList⟩ none assignments none true, false⟩).err := by
  intro source disk s assignments entries
  have hsource : disk.read ⟨"site.js".toList⟩ = .ok source := Disk.read_eq_ok_iff.2 rfl
  have hentries : Command.entries s none assignments = .ok entries := by decide +kernel
  have hpreferences : Preferences.InForce disk .unset := Preferences.inForce_iff.2 rfl
  have herr := err_runRequest_fill none true false hpreferences hentries hsource rfl
    (Or.inr ⟨_, rfl⟩)
  have hrefusals : (fill source entries none).refusals
      = List.replicate 2 ⟨['a'], .illegalLiteral .checkbox .number⟩ := by decide +kernel
  have hcount : (fill source entries none).writtenCount entries = 0 := by
    rw [Filled.writtenCount, hrefusals]
    rfl
  have hline : countLine ⟨"site.js".toList⟩ 0 = "Set 0 value(s) in site.js\n".toList := by
    decide +kernel
  refine ⟨hentries, ?_, ?_⟩
  · rw [Filled.accepted, Filled.refusedHashes, hrefusals]
    decide +kernel
  · rw [herr, ← hline, ← hcount]
    exact countLine_prefix _ _ _

end Command
end Marginalia
