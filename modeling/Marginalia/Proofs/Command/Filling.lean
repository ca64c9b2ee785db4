import Marginalia.Command.Run
import Marginalia.Proofs.Command.Preferences
import Marginalia.Proofs.Form.Rewriting
import Marginalia.Proofs.Text.Cut
import Marginalia.Proofs.Text.Keyed

/-!
# Filling in a file from the command line

A run reads the values, applies the assignments, reads the file, fills it in, writes it and reports
what was refused.  Any of these may fail, and only the last of them does so after the disk has
changed.  `Hindered` collects the failures that come before, in whatever order the run meets them,
and `Intake` says what the run works with if there are none: the text of the file and the values,
where of several assignments for a hash the last one counts.

Which list of entries the run builds on the way does not matter.  Filling in asks only what stands
under each hash (`fill_congr`), and this is all that `Intake` says about the entries.  Who asks and
whether to write may be left to the file of preferences, and `Preferences.InForce` is what that file
says.

The payoff is `Command.runRequest_fill`: **the file is replaced as a whole or left alone.**
-/

set_option autoImplicit false
namespace Marginalia

/-! ## Assignments -/

/-- An assignment of a value to a hash: the first equals sign stands between them. -/
def IsAssignment (assignment hash value : Text) : Prop :=
  assignment = hash ++ '=' :: value ∧ '=' ∉ hash ∧ hash ≠ []

/-- The value of the last assignment for a hash. -/
def lastAssigned? (assignments : List Text) (hash : Text) : Option Text :=
  (assignments.reverse.filterMap (Text.cutAt? '=')).lookup hash

section Assignments

variable {start entries : Entries} {assignment hash value : Text} {assignments : List Text}

theorem lastAssigned?_cons (h : IsAssignment assignment hash value) (key : Text) :
    lastAssigned? (assignment :: assignments) key
      = (lastAssigned? assignments key).or (if key = hash then some value else none) := by
  have hcut : Text.cutAt? '=' assignment = some (hash, value) :=
    Text.cutAt?_eq_some_iff.2 ⟨h.1, h.2.1⟩
  have hlast : [(hash, value)].lookup key = if key = hash then some value else none :=
    Keyed.get?_cons hash value [] key
  rw [lastAssigned?, lastAssigned?, List.reverse_cons, List.filterMap_append, List.lookup_append,
    List.filterMap_cons_some hcut, List.filterMap_nil, hlast]

namespace Entries

theorem assign_eq_ok_iff : start.assign assignment = .ok entries ↔
    ∃ hash value, IsAssignment assignment hash value ∧
      entries = Keyed.set hash (.text value) start := by
  rw [assign]
  constructor
  · intro h
    split at h
    · rename_i hash value hcut
      split at h
      · cases h
      · rename_i hne
        cases h
        obtain ⟨happ, hnot⟩ := Text.cutAt?_eq_some_iff.1 hcut
        exact ⟨hash, value, ⟨happ, hnot, hne⟩, rfl⟩
    · cases h
  · rintro ⟨hash, value, ⟨happ, hnot, hne⟩, rfl⟩
    rw [Text.cutAt?_eq_some_iff.2 ⟨happ, hnot⟩]
    exact if_neg hne

/-- **Assignments succeed together**: all of them are well formed, and the last one for a hash takes
the place of what was there. -/
theorem get?_of_foldlM_assign (h : assignments.foldlM assign start = .ok entries) :
    (∀ a ∈ assignments, ∃ hash value, IsAssignment a hash value) ∧
    ∀ key, entries.get? key = ((lastAssigned? assignments key).map .text).or (start.get? key) := by
  induction assignments generalizing start with
  | nil =>
    cases h
    exact ⟨by simp, fun key => rfl⟩
  | cons a rest ih =>
    rw [List.foldlM_cons] at h
    obtain ⟨next, hnext, h⟩ := Except.bind_eq_ok_iff.1 h
    obtain ⟨hash, value, ha, rfl⟩ := assign_eq_ok_iff.1 hnext
    obtain ⟨hrest, hget⟩ := ih h
    refine ⟨List.forall_mem_cons.2 ⟨⟨hash, value, ha⟩, hrest⟩, fun key => ?_⟩
    rw [hget, lastAssigned?_cons ha, Keyed.get?_set]
    split <;> cases lastAssigned? rest key <;> rfl

theorem exists_foldlM_assign (h : ∀ a ∈ assignments, ∃ hash value, IsAssignment a hash value)
    (start : Entries) : ∃ entries, assignments.foldlM assign start = .ok entries := by
  induction assignments generalizing start with
  | nil => exact ⟨start, rfl⟩
  | cons a rest ih =>
    obtain ⟨⟨hash, value, ha⟩, hrest⟩ := List.forall_mem_cons.1 h
    rw [List.foldlM_cons, assign_eq_ok_iff.2 ⟨hash, value, ha, rfl⟩]
    exact ih hrest _

end Entries
end Assignments

/-! ## Entries count by what stands under each hash -/

section Entries

variable {entries entries' : Entries} {source : Text}

theorem Mark.request?_congr (h : ∀ hash, entries.get? hash = entries'.get? hash) (m : Mark) :
    m.request? entries = m.request? entries' := by
  simp only [Mark.request?, h]

theorem unknownHashes_eq_nil_iff : unknownHashes source entries = [] ↔
    ∀ hash ∈ entries.keys, hash ∈ (Placed.ofText source).filterMap fun p => p.mark.hash? := by
  rw [unknownHashes, ← List.length_eq_zero_iff, List.length_mergeSort, List.length_eq_zero_iff,
    List.filter_eq_nil_iff]
  simp

/-- **Filling in asks only what stands under each hash.** -/
theorem fill_congr (h : ∀ hash, entries.get? hash = entries'.get? hash) (source : Text)
    (user : Option Text) : (fill source entries user).content = (fill source entries' user).content ∧
      ((fill source entries user).refusals = [] ↔ (fill source entries' user).refusals = []) := by
  have hline : filledLine entries user = filledLine entries' user := by
    funext ⟨m?, l⟩
    cases m? with
    | none => rfl
    | some m => simp only [filledLine, Mark.request?_congr h]
  have hrefusal : Placed.refusal? entries user = Placed.refusal? entries' user := by
    funext p
    simp only [Placed.refusal?, Mark.request?_congr h]
  have hkeys (hash : Text) : hash ∈ entries.keys ↔ hash ∈ entries'.keys := by
    rw [Keyed.mem_keys_iff_isSome_get?, Keyed.mem_keys_iff_isSome_get?, h]
  constructor
  · simp only [fill, filledContent, hline]
  · simp only [fill, hrefusal, List.append_eq_nil_iff, List.map_eq_nil_iff,
      unknownHashes_eq_nil_iff, hkeys]

end Entries

namespace Command

variable {s : Surroundings} {file : Path} {values : Option Path} {assignments : List Text}
variable {source : Text} {entries : Entries} {user : Option Text} {writes : Bool} {d : Disk}

/-! ## What a run works with -/

/-- The text that values are read from: what comes in on standard input for a dash. -/
def valuesText (s : Surroundings) (p : Path) : Except DiskFault Text :=
  if p.spelled = ['-'] then Disk.textOfBytes s.input else s.disk.read p

/-- The values that stand in a file, or none if no file is named. -/
inductive Stated (s : Surroundings) : Option Path → Entries → Prop
  | nothing : Stated s none []
  | values {p : Path} {t : Text} {j : Json} {entries : Entries} (text : valuesText s p = .ok t)
      (parsed : Json.read? t = some j) (decoded : j.entries? = some entries) :
      Stated s (some p) entries

/-- What a run works with: the text of the file, and under each hash the last value assigned to it
or else the one that the values state. -/
structure Intake (s : Surroundings) (file : Path) (values : Option Path) (assignments : List Text)
    (source : Text) (entries : Entries) : Prop where
  read : s.disk.read file = .ok source
  assigned : ∀ a ∈ assignments, ∃ hash value, IsAssignment a hash value
  stated : ∃ start, Stated s values start ∧ ∀ hash,
    entries.get? hash = ((lastAssigned? assignments hash).map .text).or (start.get? hash)

/-- What keeps a run from filling in anything. -/
inductive Hindered (s : Surroundings) (file : Path) (values : Option Path)
    (assignments : List Text) : Prop
  | unreadable {fault : DiskFault} : s.disk.read file = .error fault →
      Hindered s file values assignments
  | noValues {p : Path} {fault : DiskFault} : values = some p → valuesText s p = .error fault →
      Hindered s file values assignments
  | undecodable {p : Path} {t : Text} : values = some p → valuesText s p = .ok t →
      (Json.read? t).bind Json.entries? = none → Hindered s file values assignments
  | malformed {a : Text} : a ∈ assignments → (¬ ∃ hash value, IsAssignment a hash value) →
      Hindered s file values assignments

theorem ofFile_eq_ok_iff {p : Path} {content : Except DiskFault Text} :
    Entries.ofFile p content = .ok entries ↔
      ∃ t, content = .ok t ∧ (Json.read? t).bind Json.entries? = some entries := by
  cases content with
  | error fault => simp [Entries.ofFile]
  | ok t => cases h : (Json.read? t).bind Json.entries? <;> simp [Entries.ofFile, h]

theorem entries_some {p : Path} : Command.entries s (some p) assignments
    = (Entries.ofFile p (valuesText s p)).bind fun start =>
      assignments.foldlM Entries.assign start := rfl

theorem exists_stated (h : Command.entries s values assignments = .ok entries) :
    ∃ start, Stated s values start ∧ assignments.foldlM Entries.assign start = .ok entries := by
  cases values with
  | none => exact ⟨[], .nothing, h⟩
  | some p =>
    rw [entries_some] at h
    obtain ⟨start, hstart, hassign⟩ := Except.bind_eq_ok_iff.1 h
    obtain ⟨t, htext, hread⟩ := ofFile_eq_ok_iff.1 hstart
    obtain ⟨j, hj, hentries⟩ := Option.bind_eq_some_iff.1 hread
    exact ⟨start, .values htext hj hentries, hassign⟩

/-- What the stages of a run give is what the run works with. -/
theorem intake_of_entries (hentries : Command.entries s values assignments = .ok entries)
    (hread : s.disk.read file = .ok source) : Intake s file values assignments source entries := by
  obtain ⟨start, hstated, hassign⟩ := exists_stated hentries
  obtain ⟨hassigned, hget⟩ := Entries.get?_of_foldlM_assign hassign
  exact ⟨hread, hassigned, start, hstated, hget⟩

theorem Stated.entries_eq {start : Entries} (h : Stated s values start) (assignments : List Text) :
    Command.entries s values assignments = assignments.foldlM Entries.assign start := by
  cases h with
  | nothing => rfl
  | values text parsed decoded =>
    have hread : (Json.read? _).bind Json.entries? = some start :=
      Option.bind_eq_some_iff.2 ⟨_, parsed, decoded⟩
    rw [entries_some, ofFile_eq_ok_iff.2 ⟨_, text, hread⟩]
    rfl

/-- What a run works with its stages give, up to the order of the entries. -/
theorem Intake.exists_entries (h : Intake s file values assignments source entries) :
    ∃ given, Command.entries s values assignments = .ok given ∧
      ∀ hash, given.get? hash = entries.get? hash := by
  obtain ⟨start, hstated, hget⟩ := h.stated
  obtain ⟨given, hgiven⟩ := Entries.exists_foldlM_assign h.assigned start
  refine ⟨given, (hstated.entries_eq assignments).trans hgiven, fun hash => ?_⟩
  rw [(Entries.get?_of_foldlM_assign hgiven).2, hget]

theorem Hindered.not_intake (h : Hindered s file values assignments) :
    ¬ Intake s file values assignments source entries := by
  intro hintake
  obtain ⟨start, hstated, -⟩ := hintake.stated
  cases h with
  | unreadable hread => cases hread.symm.trans hintake.read
  | noValues hvalues htext =>
    cases hstated with
    | nothing => cases hvalues
    | values text parsed decoded =>
      cases hvalues
      cases htext.symm.trans text
  | undecodable hvalues htext hread =>
    cases hstated with
    | nothing => cases hvalues
    | values text parsed decoded =>
      cases hvalues
      cases htext.symm.trans text
      rw [parsed, Option.bind_some, decoded] at hread
      cases hread
  | malformed ha hmalformed => exact hmalformed (hintake.assigned _ ha)

theorem hindered_or_stated (s : Surroundings) (file : Path) (values : Option Path)
    (assignments : List Text) :
    Hindered s file values assignments ∨ ∃ start, Stated s values start := by
  cases values with
  | none => exact Or.inr ⟨[], .nothing⟩
  | some p =>
    cases htext : valuesText s p with
    | error fault => exact Or.inl (.noValues rfl htext)
    | ok t =>
      cases hread : (Json.read? t).bind Json.entries? with
      | none => exact Or.inl (.undecodable rfl htext hread)
      | some start =>
        obtain ⟨j, hj, hstart⟩ := Option.bind_eq_some_iff.1 hread
        exact Or.inr ⟨start, .values htext hj hstart⟩

/-- **A run is hindered or has something to work with.** -/
theorem hindered_or_intake (s : Surroundings) (file : Path) (values : Option Path)
    (assignments : List Text) : Hindered s file values assignments ∨
      ∃ source entries, Intake s file values assignments source entries := by
  cases hread : s.disk.read file with
  | error fault => exact Or.inl (.unreadable hread)
  | ok source =>
    by_cases hassigned : ∀ a ∈ assignments, ∃ hash value, IsAssignment a hash value
    · refine (hindered_or_stated s file values assignments).imp_right fun ⟨start, hstart⟩ => ?_
      obtain ⟨entries, hentries⟩ := Entries.exists_foldlM_assign hassigned start
      exact ⟨source, entries,
        intake_of_entries ((hstart.entries_eq assignments).trans hentries) hread⟩
    · obtain ⟨a, hassigned⟩ := not_forall.1 hassigned
      obtain ⟨ha, hmalformed⟩ := Classical.not_imp.1 hassigned
      exact Or.inl (.malformed ha hmalformed)

/-! ## Saving -/

/-- The disk after new content is put in the place of a text; nothing is written unless it is
new. -/
def saved (d : Disk) (file : Path) (source content : Text) : Except DiskFault Disk :=
  if content = source then .ok d else d.write file content

variable {content : Text} {after : Disk} {fault : DiskFault}

theorem bytes?_of_saved (hread : d.read file = .ok source)
    (h : saved d file source content = .ok after) :
    after.bytes? file = some (Disk.bytesOfText content) := by
  rw [saved] at h
  split at h
  · rename_i hsame
    cases h
    rw [hsame]
    exact Disk.read_eq_ok_iff.1 hread
  · exact Disk.bytes?_write h

theorem bytes?_of_saved_of_ne {q : Path} (h : saved d file source content = .ok after)
    (hne : d.locate q ≠ d.locate file) : after.bytes? q = d.bytes? q := by
  rw [saved] at h
  split at h
  · cases h
    rfl
  · exact Disk.bytes?_write_of_ne h hne

theorem exists_saved (h : content = source ∨ d.IsWritable file) :
    ∃ after, saved d file source content = .ok after := by
  rw [saved]
  split
  · exact ⟨d, rfl⟩
  · rename_i hnew
    exact Disk.exists_write (h.resolve_left hnew) content

/-! ## Outcomes -/

theorem disk_failingWith (o : Outcome) (failure? : Option Failure) :
    (o.failingWith failure?).disk = o.disk := by
  cases failure? <;> rfl

theorem exit_failingWith (o : Outcome) (f : Filled) (h : o.exit = 0) :
    (o.failingWith f.failure?).exit = if f.refusals = [] then 0 else 1 := by
  rw [Filled.failure?]
  split
  · exact h
  · rfl

theorem filledOutcome_of_saved
    (h : saved d file source (fill source entries user).content = .ok after) :
    (filledOutcome d file source entries user true).disk = after ∧
      (filledOutcome d file source entries user true).exit
        = if (fill source entries user).refusals = [] then 0 else 1 := by
  rw [saved] at h
  simp only [filledOutcome, h, if_true]
  exact ⟨disk_failingWith .., exit_failingWith _ _ rfl⟩

theorem filledOutcome_of_unsaved
    (h : saved d file source (fill source entries user).content = .error fault) :
    (filledOutcome d file source entries user true).disk = d := by
  rw [saved] at h
  simp only [filledOutcome, h, if_true]
  rfl

theorem disk_filledOutcome_false :
    (filledOutcome d file source entries user false).disk = d :=
  disk_failingWith ..

theorem fillIn_of_hindered (h : Hindered s file values assignments) :
    (fillIn s file values assignments user writes).disk = s.disk ∧
      (fillIn s file values assignments user writes).exit = 1 := by
  rw [fillIn]
  split
  · exact ⟨rfl, rfl⟩
  · rename_i given hgiven
    split
    · exact ⟨rfl, rfl⟩
    · rename_i source hread
      exact absurd (intake_of_entries hgiven hread) h.not_intake

theorem fillIn_of_intake (h : Intake s file values assignments source entries)
    (user : Option Text) (writes : Bool) :
    ∃ given : Entries, (∀ hash, given.get? hash = entries.get? hash) ∧
      fillIn s file values assignments user writes
        = filledOutcome s.disk file source given user writes := by
  obtain ⟨given, hgiven, hget⟩ := h.exists_entries
  refine ⟨given, hget, ?_⟩
  rw [fillIn, hgiven]
  simp only [h.read]

/-- A run that is asked to write and can save what the form comes to does so. -/
theorem fillIn_of_saved (h : Intake s file values assignments source entries)
    (hsaved : saved s.disk file source (fill source entries user).content = .ok after) :
    (fillIn s file values assignments user true).disk = after ∧
      (fillIn s file values assignments user true).exit
        = if (fill source entries user).refusals = [] then 0 else 1 := by
  obtain ⟨given, hget, hfillIn⟩ := fillIn_of_intake h user true
  obtain ⟨hcontent, hrefusals⟩ := fill_congr hget source user
  rw [← hcontent] at hsaved
  simp only [hfillIn, ← hrefusals]
  exact filledOutcome_of_saved hsaved

/-- A run that changes the disk saves what the form comes to. -/
theorem disk_fillIn (h : Intake s file values assignments source entries) (user : Option Text)
    (writes : Bool) : (fillIn s file values assignments user writes).disk = s.disk ∨
      writes = true ∧ saved s.disk file source (fill source entries user).content
        = .ok (fillIn s file values assignments user writes).disk := by
  obtain ⟨given, hget, hfillIn⟩ := fillIn_of_intake h user writes
  rw [hfillIn, ← (fill_congr hget source user).1]
  cases writes with
  | false => exact Or.inl disk_filledOutcome_false
  | true =>
    cases hsaved : saved s.disk file source (fill source given user).content with
    | error fault => exact Or.inl (filledOutcome_of_unsaved hsaved)
    | ok after => exact Or.inr ⟨rfl, by rw [(filledOutcome_of_saved hsaved).1]⟩

/-! ## The run -/

/-- **The file is replaced as a whole or left alone**, and no other file changes.  If nothing hinders
the run it writes what the form comes to whenever it may, and its exit code tells whether values
were refused.  What the command line leaves open is as the preferences in force have it. -/
theorem runRequest_fill (s : Surroundings) (file : Path) (values : Option Path)
    (assignments : List Text) (user : Option Text) (write verbose : Bool) :
    let preferences := (Preferences.ofDisk s.disk).1
    let writes := write || preferences.write
    let after := runRequest s ⟨.fill file values assignments user write, verbose⟩
    (∀ p, Preferences.InForce s.disk p ↔ p = preferences) ∧
    (∀ q, s.disk.locate q ≠ s.disk.locate file → after.disk.bytes? q = s.disk.bytes? q) ∧
    (writes = false → after.disk = s.disk) ∧
    (Hindered s file values assignments → after.disk = s.disk ∧ after.exit = 1) ∧
    (¬ Hindered s file values assignments →
      ∃ source entries, Intake s file values assignments source entries) ∧
    ∀ source entries, Intake s file values assignments source entries →
      let filled := fill source entries (user <|> preferences.user)
      (after.disk = s.disk ∨
        after.disk.bytes? file = some (Disk.bytesOfText filled.content)) ∧
      (writes = true → filled.content = source ∨ s.disk.IsWritable file →
        after.disk.bytes? file = some (Disk.bytesOfText filled.content) ∧
          after.exit = if filled.refusals = [] then 0 else 1) := by
  intro preferences writes after
  have hcases := hindered_or_intake s file values assignments
  refine ⟨fun _ => Preferences.inForce_iff, fun q hq => ?_, fun hw => ?_, fillIn_of_hindered, hcases.resolve_left,
    fun source entries h => ⟨?_, fun hw hwritable => ?_⟩⟩
  · rcases hcases with hhindered | ⟨source, entries, h⟩
    · exact congrArg (Disk.bytes? · q) (fillIn_of_hindered hhindered).1
    · rcases disk_fillIn h (user <|> preferences.user) writes with hsame | ⟨-, hsaved⟩
      · exact congrArg (Disk.bytes? · q) hsame
      · exact bytes?_of_saved_of_ne hsaved hq
  · rcases hcases with hhindered | ⟨source, entries, h⟩
    · exact (fillIn_of_hindered hhindered).1
    · refine (disk_fillIn h (user <|> preferences.user) writes).resolve_right ?_
      rintro ⟨hwritten, -⟩
      exact Bool.false_ne_true (hw.symm.trans hwritten)
  · refine (disk_fillIn h (user <|> preferences.user) writes).imp_right ?_
    rintro ⟨-, hsaved⟩
    exact bytes?_of_saved h.read hsaved
  · obtain ⟨d, hsaved⟩ := exists_saved hwritable
    obtain ⟨hdisk, hexit⟩ := fillIn_of_saved h hsaved
    rw [← hw] at hdisk hexit
    exact ⟨(congrArg (Disk.bytes? · file) hdisk).trans (bytes?_of_saved h.read hsaved), hexit⟩

/-- Preferences and a value from files, a value that is assigned twice, and one for a hash that no
mark carries. -/
theorem runRequest_fill_lost :
    let source := ("// @input hash=\"a\" access=\"alice\"\nx = 'old'\n" ++
      "// @input hash=\"b\"\ny = 1\n").toList
    let values := "\x7b\"b\":\"2\"\x7d".toList
    let config := "\x7b\"write\":true,\"user\":\"alice\"\x7d".toList
    let disk : Disk := {
      root := .folder [
        ("sigil.config.json".toList, .file (some (Disk.bytesOfText config)) false),
        ("site.js".toList, .file (some (Disk.bytesOfText source)) true),
        ("values".toList, .file (some (Disk.bytesOfText values)) false)]
      here := [] }
    let assignments := ["a=new".toList, "lost=1".toList, "a=newer".toList]
    let task : Task := .fill ⟨"site.js".toList⟩ (some ⟨"values".toList⟩) assignments none false
    let after := Command.runRequest ⟨disk, .empty, ⟨0, id⟩⟩ ⟨task, false⟩
    Preferences.InForce disk ⟨some "alice".toList, true, false⟩ ∧
    after.disk.bytes? ⟨"site.js".toList⟩ = some (Disk.bytesOfText
      ("// @input hash=\"a\" access=\"alice\"\nx = 'newer'\n" ++
        "// @input hash=\"b\"\ny = 2\n").toList) ∧
    after.exit = 1 := by
  intro source values config disk assignments task after
  let entries : Entries := [("b".toList, .text ['2']), ("a".toList, .text "newer".toList),
    ("lost".toList, .text ['1'])]
  have hconfig : disk.read Preferences.path = .ok config := Disk.read_eq_ok_iff.2 rfl
  have hsource : disk.read ⟨"site.js".toList⟩ = .ok source := Disk.read_eq_ok_iff.2 rfl
  have hvalues : disk.read ⟨"values".toList⟩ = .ok values := Disk.read_eq_ok_iff.2 rfl
  have hstart : Entries.ofFile ⟨"values".toList⟩ (disk.read ⟨"values".toList⟩)
      = .ok [("b".toList, .text ['2'])] :=
    ofFile_eq_ok_iff.2 ⟨values, hvalues, by decide +kernel⟩
  have hassign : assignments.foldlM Entries.assign [("b".toList, .text ['2'])] = .ok entries := by
    decide +kernel
  have hentries : Command.entries ⟨disk, .empty, ⟨0, id⟩⟩ (some ⟨"values".toList⟩) assignments
      = .ok entries := Except.bind_eq_ok_iff.2 ⟨_, hstart, hassign⟩
  have hdecoded : (Json.read? config).bind Preferences.ofJson?
      = some ⟨some "alice".toList, true, false⟩ := by decide +kernel
  have hpreferences : (Preferences.ofDisk disk).1 = ⟨some "alice".toList, true, false⟩ := by
    rw [Preferences.ofDisk_fst, hconfig]
    simp only [Except.toOption, Option.bind_some, hdecoded, Option.getD_some]
  have hfill : fill source entries (some "alice".toList)
      = { content := ("// @input hash=\"a\" access=\"alice\"\nx = 'newer'\n" ++
            "// @input hash=\"b\"\ny = 2\n").toList
          refusals := [⟨"lost".toList, .hashNotFound⟩] } := by decide +kernel
  obtain ⟨hinForce, -, -, -, -, hrun⟩ := runRequest_fill ⟨disk, .empty, ⟨0, id⟩⟩
    ⟨"site.js".toList⟩ (some ⟨"values".toList⟩) assignments none false false
  have hafter := (hrun source entries (intake_of_entries hentries hsource)).2
  simp only [hpreferences, Option.orElse_eq_orElse, Option.orElse_eq_or, Option.none_or,
    hfill] at hinForce hafter
  exact ⟨(hinForce _).2 rfl, hafter rfl (Or.inr ⟨_, rfl⟩)⟩

end Command
end Marginalia
