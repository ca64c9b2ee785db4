import Mathlib.Data.List.Nodup
import Marginalia.Command.Run
import Marginalia.Proofs.Command.Revising

/-!
# What becomes of the files of a batch

A file of a batch fails if it cannot be read or cannot be written, changes if its text becomes
another one, and stays as it is otherwise.  That a file changes is found out before it is written,
so a file that cannot be written has changed its text already; still it counts as failed and as
nothing else.  How many files stay is not counted but left over, and is right only if the other two
kinds never come to more than all files.

`Handles` lists the ways in which a file is handled, and everything else is read off them: what a
file does (`Handles.fate`), whether it is written, and what is shown of it.

Reading and writing are two functions here, and a batch knows nothing else of the disk.  Where they
are those of a disk, the texts that were written are found on it afterwards, if no two paths lead to
one place (`read_afterWriting_run`).

* `count_add_count_add_count` — the three kinds make up all files.
* `run_accounts` — **how a batch accounts for its files**, whatever reading and writing them comes
  to.
-/

set_option autoImplicit false
namespace Marginalia
namespace Batch

variable {b : Batch} {place : Nat} {p : Path} {output : Text}

/-! ## One file -/

/-- A file fails if it cannot be read, or if its text is to be replaced and cannot be. -/
def Fails (b : Batch) (place : Nat) (p : Path) : Prop :=
  (∃ fault, b.read p = .error fault) ∨
    ∃ source fault, b.read p = .ok source ∧ b.revise place source ≠ source ∧ b.writes = true ∧
      b.write p (b.revise place source) = .error fault

/-- A file changes if its text becomes another one, and if that can be written when it is to be. -/
def Changes (b : Batch) (place : Nat) (p : Path) : Prop :=
  ∃ source, b.read p = .ok source ∧ b.revise place source ≠ source ∧
    (b.writes = true → b.write p (b.revise place source) = .ok ())

/-- A file stays as it is if its text does. -/
def Stays (b : Batch) (place : Nat) (p : Path) : Prop :=
  ∃ source, b.read p = .ok source ∧ b.revise place source = source

/-- The ways in which a file is handled, each with what is kept of it. -/
inductive Handles (b : Batch) (place : Nat) (p : Path) : Handled → Prop
  | unreadable {fault : DiskFault} (read : b.read p = .error fault) :
      Handles b place p ⟨p, none, .error (.unreadable p fault)⟩
  | same {source : Text} (read : b.read p = .ok source) (stays : b.revise place source = source) :
      Handles b place p ⟨p, none, .ok (source, false)⟩
  | shown {source : Text} (read : b.read p = .ok source) (differs : b.revise place source ≠ source)
      (unasked : b.writes = false) :
      Handles b place p ⟨p, none, .ok (b.revise place source, true)⟩
  | unwritable {source : Text} {fault : DiskFault} (read : b.read p = .ok source)
      (differs : b.revise place source ≠ source) (asked : b.writes = true)
      (write : b.write p (b.revise place source) = .error fault) :
      Handles b place p ⟨p, some (b.revise place source), .error (.unwritable p fault)⟩
  | written {source : Text} (read : b.read p = .ok source)
      (differs : b.revise place source ≠ source) (asked : b.writes = true)
      (write : b.write p (b.revise place source) = .ok ()) :
      Handles b place p ⟨p, some (b.revise place source), .ok (b.revise place source, true)⟩

theorem handles_handle (b : Batch) (place : Nat) (p : Path) :
    b.Handles place p (b.handle place p) := by
  rw [handle]
  cases hread : b.read p with
  | error fault => exact .unreadable hread
  | ok source =>
    simp only
    split
    · rename_i hsame
      rw [hsame]
      exact .same hread hsame
    · rename_i hdiffers
      split
      · rename_i hasked
        cases hwrite : b.write p (b.revise place source) with
        | error fault => exact .unwritable hread hdiffers hasked hwrite
        | ok done => exact .written hread hdiffers hasked hwrite
      · rename_i hasked
        exact .shown hread hdiffers (Bool.not_eq_true _ ▸ hasked)

namespace Handles

variable {h : Handled}

theorem path_eq (hh : b.Handles place p h) : h.path = p := by
  cases hh <;> rfl

theorem hasFailed_iff (hh : b.Handles place p h) : h.hasFailed = true ↔ b.Fails place p := by
  cases hh <;> simp [Handled.hasFailed, Fails, *]

theorem hasChanged_iff (hh : b.Handles place p h) : h.hasChanged = true ↔ b.Changes place p := by
  cases hh <;> simp [Handled.hasChanged, Changes, *]

theorem written_eq_some_iff (hh : b.Handles place p h) :
    h.written = some output ↔ b.writes = true ∧
      ∃ source, b.read p = .ok source ∧ b.revise place source ≠ source ∧
        b.revise place source = output := by
  cases hh <;> simp [*]

/-- **A file fails, changes or stays**, and does not do two of it. -/
theorem fate (hh : b.Handles place p h) :
    (b.Fails place p ∧ ¬ b.Changes place p ∧ ¬ b.Stays place p) ∨
      (¬ b.Fails place p ∧ b.Changes place p ∧ ¬ b.Stays place p) ∨
      (¬ b.Fails place p ∧ ¬ b.Changes place p ∧ b.Stays place p) := by
  cases hh <;> simp [Fails, Changes, Stays, *]

end Handles

instance (b : Batch) (place : Nat) (p : Path) : Decidable (b.Fails place p) :=
  decidable_of_iff _ (handles_handle b place p).hasFailed_iff

instance (b : Batch) (place : Nat) (p : Path) : Decidable (b.Changes place p) :=
  decidable_of_iff _ (handles_handle b place p).hasChanged_iff

instance (b : Batch) (place : Nat) (p : Path) : Decidable (b.Stays place p) :=
  decidable_of_iff (¬ b.Fails place p ∧ ¬ b.Changes place p) <| by
    rcases (handles_handle b place p).fate with h | h | h <;> simp [h]

theorem changes_of_differs {source : Text} (hread : b.read p = .ok source)
    (hdiffers : b.revise place source ≠ source) (hfine : ¬ b.Fails place p) :
    b.Changes place p := by
  rcases (handles_handle b place p).fate with hfails | hchanges | ⟨-, -, source', hsource', hstays⟩
  · exact absurd hfails.1 hfine
  · exact hchanges.2.1
  · cases hread.symm.trans hsource'
    exact absurd hstays hdiffers

/-- Two batches that treat one file alike. -/
structure AgreeOn (b b' : Batch) (place : Nat) (p : Path) : Prop where
  read : b.read p = b'.read p
  write : b.write p = b'.write p
  writes : b.writes = b'.writes
  revise : b.revise place = b'.revise place

theorem AgreeOn.handle_eq {b' : Batch} (h : b.AgreeOn b' place p) :
    b.handle place p = b'.handle place p := by
  rw [handle, handle, h.read, h.write, h.writes, h.revise]

/-! ## All files -/

/-- How many files of a list are as described. -/
def count (paths : List Path) (P : Nat → Path → Prop) [∀ place p, Decidable (P place p)] : Nat :=
  paths.zipIdx.countP fun x => P x.2 x.1

theorem getElem?_run (b : Batch) (paths : List Path) (i : Nat) :
    (b.run paths)[i]? = paths[i]?.map (b.handle i) :=
  List.getElem?_mapIdx

theorem countP_run {f : Handled → Bool} {P : Nat → Path → Prop} [∀ place p, Decidable (P place p)]
    (h : ∀ place p, f (b.handle place p) = true ↔ P place p) (paths : List Path) :
    (b.run paths).countP f = count paths P := by
  rw [run, List.mapIdx_eq_zipIdx_map, List.countP_map, count]
  refine List.countP_congr fun x _ => ?_
  simp [h]

theorem changed_run (b : Batch) (paths : List Path) :
    changed (b.run paths) = count paths b.Changes :=
  countP_run (fun place p => (handles_handle b place p).hasChanged_iff) paths

theorem failed_run (b : Batch) (paths : List Path) :
    failed (b.run paths) = count paths b.Fails :=
  countP_run (fun place p => (handles_handle b place p).hasFailed_iff) paths

/-- **The files that fail, that change and that stay make up all files.** -/
theorem count_add_count_add_count (b : Batch) (paths : List Path) :
    count paths b.Changes + count paths b.Fails + count paths b.Stays = paths.length := by
  have hcounts (l : List (Path × Nat)) :
      (l.countP fun x => b.Changes x.2 x.1) + (l.countP fun x => b.Fails x.2 x.1)
        + (l.countP fun x => b.Stays x.2 x.1) = l.length := by
    induction l with
    | nil => rfl
    | cons x l ih =>
      simp only [List.countP_cons, List.length_cons]
      rcases (handles_handle b x.2 x.1).fate with h | h | h <;> simp [h] <;> omega
  exact (hcounts paths.zipIdx).trans List.length_zipIdx

theorem unchanged_run (b : Batch) (paths : List Path) :
    unchanged (b.run paths) = count paths b.Stays := by
  have hlength : (b.run paths).length = paths.length := List.length_mapIdx
  have htotal := count_add_count_add_count b paths
  rw [unchanged, hlength, changed_run, failed_run]
  omega

/-- What a file becomes, if it can be read. -/
def revised (b : Batch) (place : Nat) (p : Path) : Text :=
  match b.read p with
  | .ok source => b.revise place source
  | .error _ => []

theorem Handles.shown_eq {h : Handled} (hh : b.Handles place p h) (unasked : b.writes = false) :
    (match h.result with
      | .ok (output, _) => output
      | .error _ => []) = b.revised place p := by
  cases hh <;> simp_all [revised]

theorem outputs_run (unasked : b.writes = false) (paths : List Path) :
    outputs (b.run paths) = (paths.mapIdx b.revised).flatten := by
  rw [outputs, run, List.mapIdx_eq_zipIdx_map, List.mapIdx_eq_zipIdx_map, List.flatMap_map,
    ← List.flatMap_def]
  exact congrArg (List.flatMap · paths.zipIdx)
    (funext fun x => (handles_handle b x.2 x.1).shown_eq unasked)

theorem map_path_run (b : Batch) (paths : List Path) :
    (b.run paths).map Handled.path = paths := by
  refine List.ext_getElem? fun i => ?_
  have hpath : Handled.path ∘ b.handle i = id := funext fun p => (handles_handle b i p).path_eq
  rw [List.getElem?_map, getElem?_run, Option.map_map, hpath, Option.map_id, id]

theorem written_run (unasked : b.writes = false) (paths : List Path) :
    ∀ h ∈ b.run paths, h.written = none := by
  intro h hh
  obtain ⟨i, hi, rfl⟩ := List.mem_mapIdx.1 hh
  rw [Option.eq_none_iff_forall_ne_some]
  intro output hwritten
  have hasked := ((handles_handle b i paths[i]).written_eq_some_iff.1 hwritten).1
  exact Bool.false_ne_true (unasked.symm.trans hasked)

theorem failure?_run_eq_some_iff {paths : List Path} {failure : Failure} :
    failure? (b.run paths) = some failure ↔
      0 < count paths b.Fails ∧ failure = .files (count paths b.Fails) := by
  rw [failure?, failed_run]
  split
  · rename_i hnone
    simp [hnone]
  · rename_i hsome
    simp [Nat.pos_of_ne_zero hsome, eq_comm]

/-! ## On a disk -/

/-- The files of a batch are those of a disk. -/
structure WorksOn (b : Batch) (d : Disk) : Prop where
  read : b.read = d.read
  write : b.write = fun p t => (d.write p t).map fun _ => ()

section

variable {d : Disk} {paths : List Path} {i : Nat} {source : Text}

theorem disk_revise (h : b.WorksOn d) {patterns : List Text}
    (hpaths : Command.scriptsOn d patterns = .ok paths) :
    (Command.revise d patterns b.writes b.verb b.revise).disk
      = Command.afterWriting d (b.run paths) := by
  have hbatch : b = ⟨d.read, fun p t => (d.write p t).map fun _ => (), b.writes, b.revise,
      b.verb⟩ := by rw [← h.read, ← h.write]
  rw [Command.revise, hpaths]
  simp only [Outcome.failingWith, ← hbatch]
  split <;> rfl

/-- The files of a batch are as far apart as its paths. -/
theorem apart_run (b : Batch) (apart : (paths.map d.locate).Nodup) :
    ((b.run paths).map fun h => d.locate h.path).Nodup := by
  rwa [← b.map_path_run paths, List.map_map] at apart

theorem mem_run_iff {h : Handled} :
    h ∈ b.run paths ↔ ∃ i p, paths[i]? = some p ∧ b.handle i p = h := by
  rw [List.mem_iff_getElem?]
  refine exists_congr fun i => ?_
  rw [getElem?_run, Option.map_eq_some_iff]

theorem WorksOn.write_eq_ok_iff (h : b.WorksOn d) : b.write p output = .ok () ↔ d.IsWritable p := by
  rw [h.write, Except.map_eq_ok_iff]
  constructor
  · rintro ⟨after, hwrite, -⟩
    exact Disk.isWritable_of_write hwrite
  · intro hwritable
    obtain ⟨after, hwrite⟩ := Disk.exists_write hwritable output
    exact ⟨after, hwrite, rfl⟩

/-- What lands is a file that is to be written and changes. -/
theorem lands_handle_iff (h : b.WorksOn d) :
    Command.Lands d (b.handle place p) ↔ b.writes = true ∧ b.Changes place p := by
  have hhandles := handles_handle b place p
  rw [Command.Lands, hhandles.path_eq, Option.ne_none_iff_exists']
  simp only [hhandles.written_eq_some_iff, Changes, h.write_eq_ok_iff]
  constructor
  · rintro ⟨⟨output, hasked, source, hread, hdiffers, -⟩, hwritable⟩
    exact ⟨hasked, source, hread, hdiffers, fun _ => hwritable⟩
  · rintro ⟨hasked, source, hread, hdiffers, hwritable⟩
    exact ⟨⟨_, hasked, source, hread, hdiffers, rfl⟩, hwritable hasked⟩

theorem bytes?_afterWriting_run {q : Path} (h : b.WorksOn d)
    (hq : ∀ i p, paths[i]? = some p → d.locate q = d.locate p → b.writes = true → ¬ b.Changes i p) :
    (Command.afterWriting d (b.run paths)).bytes? q = d.bytes? q := by
  refine Command.bytes?_afterWriting_of_not_lands fun k hk hplace hlands => ?_
  obtain ⟨i, p, hp, rfl⟩ := mem_run_iff.1 hk
  obtain ⟨hasked, hchanges⟩ := (lands_handle_iff h).1 hlands
  rw [(handles_handle b i p).path_eq] at hplace
  exact hq i p hp hplace hasked hchanges

/-- **A file that does not fail holds what its text becomes**, if no other path leads to it. -/
theorem read_afterWriting_run (h : b.WorksOn d) (apart : (paths.map d.locate).Nodup)
    (hp : paths[i]? = some p) (hread : d.read p = .ok source) (hasked : b.writes = true)
    (hfine : ¬ b.Fails i p) :
    (Command.afterWriting d (b.run paths)).read p = .ok (b.revise i source) := by
  have hread' : b.read p = .ok source := h.read ▸ hread
  rw [Disk.read_eq_ok_iff]
  by_cases hsame : b.revise i source = source
  · rw [hsame, ← Disk.read_eq_ok_iff.1 hread]
    refine bytes?_afterWriting_run h fun j p' hp' hplace _ hchanges => ?_
    have hi : i < (paths.map d.locate).length := by
      rw [List.length_map]
      exact (List.getElem?_eq_some_iff.1 hp).1
    have hij : i = j := (List.getElem?_inj hi apart).1 (by
      rw [List.getElem?_map, List.getElem?_map, hp, hp', Option.map_some, Option.map_some, hplace])
    subst hij
    cases hp.symm.trans hp'
    obtain ⟨source', hsource', hdiffers, -⟩ := hchanges
    cases hread'.symm.trans hsource'
    exact hdiffers hsame
  · have hhandles := handles_handle b i p
    have hmem : b.handle i p ∈ b.run paths := mem_run_iff.2 ⟨i, p, hp, rfl⟩
    have hwritten := hhandles.written_eq_some_iff.2 ⟨hasked, source, hread', hsame, rfl⟩
    have hlands : Command.Lands d (b.handle i p) :=
      (lands_handle_iff h).2 ⟨hasked, changes_of_differs hread' hsame hfine⟩
    have hbytes := Command.bytes?_afterWriting (apart_run b apart) hmem hwritten hlands.2
    rwa [hhandles.path_eq] at hbytes

end

/-! ## The account -/

/-- How a batch accounts for the files of a list. -/
structure Accounts (b : Batch) (paths : List Path) : Prop where
  /-- Each file is handled, in the order of the list. -/
  order : (b.run paths).map Handled.path = paths
  /-- What becomes of a file hangs on that file: it is the same in every other batch that treats
  this one file alike, whatever happens to the other files there. -/
  independent : ∀ (b' : Batch) (paths' : List Path) (i : Nat) (p : Path), paths[i]? = some p →
    paths'[i]? = some p → b.AgreeOn b' i p → (b.run paths)[i]? = (b'.run paths')[i]?
  /-- A file is written exactly if that is asked for and its text can be read and differs. -/
  written : ∀ (i : Nat) (p : Path) (output : Text), paths[i]? = some p →
    ((b.run paths)[i]?.bind Handled.written = some output ↔ b.writes = true ∧
      ∃ source, b.read p = .ok source ∧ b.revise i source ≠ source ∧ b.revise i source = output)
  /-- A file fails, changes or stays, and does not do two of it. -/
  fate : ∀ (i : Nat) (p : Path),
    (b.Fails i p ∧ ¬ b.Changes i p ∧ ¬ b.Stays i p) ∨
      (¬ b.Fails i p ∧ b.Changes i p ∧ ¬ b.Stays i p) ∨
      (¬ b.Fails i p ∧ ¬ b.Changes i p ∧ b.Stays i p)
  /-- The files are counted as what they do. -/
  changed_eq : changed (b.run paths) = count paths b.Changes
  failed_eq : failed (b.run paths) = count paths b.Fails
  unchanged_eq : unchanged (b.run paths) = count paths b.Stays
  /-- Each file is counted once, so what is left over is never less than nothing. -/
  total : changed (b.run paths) + failed (b.run paths) + count paths b.Stays = paths.length
  /-- If it is not asked for, nothing is written but what the files become to standard output. -/
  shown : b.writes = false → (∀ h ∈ b.run paths, h.written = none) ∧
    b.out (b.run paths) = (paths.mapIdx b.revised).flatten
  /-- The batch fails exactly if a file does, and says how many do. -/
  failure : ∀ failure, failure? (b.run paths) = some failure ↔
    0 < count paths b.Fails ∧ failure = .files (count paths b.Fails)
  /-- If the files are the scripts on a disk that some patterns stand for, each at a place of its
  own, a file that is to be written and does not fail holds what its text becomes afterwards, and at
  every other place there is what was there. -/
  onDisk : ∀ (d : Disk) (patterns : List Text), b.WorksOn d →
    Command.scriptsOn d patterns = .ok paths → (paths.map d.locate).Nodup →
    let after := (Command.revise d patterns b.writes b.verb b.revise).disk
    (∀ i p source, paths[i]? = some p → d.read p = .ok source → b.writes = true →
      ¬ b.Fails i p → after.read p = .ok (b.revise i source)) ∧
    ∀ q, (∀ i p, paths[i]? = some p → d.locate q = d.locate p → b.writes = true →
      ¬ b.Changes i p) → after.bytes? q = d.bytes? q

/-- **A batch accounts for every file.** -/
theorem run_accounts (b : Batch) (paths : List Path) : b.Accounts paths where
  order := map_path_run b paths
  independent b' paths' i p hp hp' h := by
    rw [getElem?_run, getElem?_run, hp, hp', Option.map_some, Option.map_some, h.handle_eq]
  written i p output hp := by
    rw [getElem?_run, hp]
    exact (handles_handle b i p).written_eq_some_iff
  fate i p := (handles_handle b i p).fate
  changed_eq := changed_run b paths
  failed_eq := failed_run b paths
  unchanged_eq := unchanged_run b paths
  total := by
    rw [changed_run, failed_run]
    exact count_add_count_add_count b paths
  shown unasked := by
    refine ⟨written_run unasked paths, ?_⟩
    rw [out, unasked, outputs_run unasked]
    rfl
  failure _ := failure?_run_eq_some_iff
  onDisk d patterns h hpaths apart := by
    intro after
    have hafter : after = Command.afterWriting d (b.run paths) := disk_revise h hpaths
    rw [hafter]
    exact ⟨fun i p source hp => read_afterWriting_run h apart hp,
      fun q => bytes?_afterWriting_run h⟩

/-- A file that is not there, one that may not be written, one that stays and one that changes; and
one that changes on a disk. -/
theorem run_accounts_mixed :
    let b : Batch := {
      read := fun p => if p.spelled = "gone.js".toList then .error .notFound else .ok p.spelled
      write := fun p _ => if p.spelled = "kept.js".toList then .error .denied else .ok ()
      writes := true
      revise := fun place source => if place = 2 then source else source ++ [';']
      verb := "hashed".toList }
    let paths : List Path := ["gone.js", "kept.js", "same.js", "new.js"].map fun s => ⟨s.toList⟩
    let d : Disk := {
      root := .folder [("a.js".toList, .file (some (Disk.bytesOfText ['x'])) true),
        ("b.js".toList, .file (some (Disk.bytesOfText ['y'])) true)]
      here := [] }
    paths[3]? = some ⟨"new.js".toList⟩ ∧
      (b.run paths)[3]?.bind Handled.written = some "new.js;".toList ∧
      failed (b.run paths) = 2 ∧ unchanged (b.run paths) = 1 ∧
      failure? (b.run paths) = some (.files 2) ∧
      (Command.revise d ["a.js".toList] true b.verb b.revise).disk.read ⟨"a.js".toList⟩
        = .ok "x;".toList ∧
      (Command.revise d ["a.js".toList] true b.verb b.revise).disk.bytes? ⟨"b.js".toList⟩
        = some (Disk.bytesOfText ['y']) := by
  intro b paths d
  have h := run_accounts b paths
  have hplace : paths[3]? = some ⟨"new.js".toList⟩ := by decide
  have hfails : count paths b.Fails = 2 := by decide +kernel
  have hstays : count paths b.Stays = 1 := by decide +kernel
  have hwritten := (h.written 3 _ "new.js;".toList hplace).2
    ⟨rfl, "new.js".toList, by decide, by decide, by decide⟩
  have hfailure := (h.failure (.files 2)).2 (by rw [hfails]; exact ⟨by decide, rfl⟩)
  let onDisk : Batch := ⟨d.read, fun p t => (d.write p t).map fun _ => (), true, b.revise, b.verb⟩
  have hvisited : ["a.js".toList].flatMap (scriptsOf (Expansion.expand d)
      fun pattern => Walk.visited d ⟨pattern⟩) = [⟨"a.js".toList⟩] := by decide +kernel
  have hscripts : Command.scriptsOn d ["a.js".toList] = .ok [⟨"a.js".toList⟩] := by
    rw [Command.scriptsOn, Command.scripts, survey, hvisited, List.mergeSort_singleton]
    rfl
  have hread : d.read ⟨"a.js".toList⟩ = .ok ['x'] := Disk.read_eq_ok_iff.2 rfl
  obtain ⟨hrevised, hkept⟩ := (run_accounts onDisk [⟨"a.js".toList⟩]).onDisk d ["a.js".toList]
    ⟨rfl, rfl⟩ hscripts (List.nodup_singleton _)
  refine ⟨hplace, hwritten, h.failed_eq.trans hfails, h.unchanged_eq.trans hstays, hfailure,
    hrevised 0 _ ['x'] rfl hread rfl ?_, (hkept ⟨"b.js".toList⟩ ?_).trans rfl⟩
  · rintro (⟨fault, hfault⟩ | ⟨source, fault, -, -, -, hfault⟩)
    · cases hfault.symm.trans hread
    · have hwrite : onDisk.write ⟨"a.js".toList⟩ (onDisk.revise 0 source) = .ok () :=
        (WorksOn.write_eq_ok_iff ⟨rfl, rfl⟩).2 ⟨_, rfl⟩
      cases hfault.symm.trans hwrite
  · intro i p hp hsame
    obtain rfl := List.mem_singleton.1 (List.mem_of_getElem? hp)
    exact absurd hsame (by decide +kernel)

end Batch
end Marginalia
