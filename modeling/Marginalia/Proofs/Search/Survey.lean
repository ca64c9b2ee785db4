import Mathlib.Data.List.Sort
import Marginalia.Command.Run
import Marginalia.Proofs.Disk.PathOrder

/-!
# The scripts of a survey

A survey is asked for with patterns, in some order, and some of them may stand for the same paths,
under the same spelling or another one.  What is found is in the order of paths and not in that of
the patterns, and every path is there once.

That neighbours are compared is enough to find all repetitions, since paths that say the same are
neighbours in any order of paths.  So a survey is determined by the set of its patterns, but for
spellings: of several spellings of a path the one that is found first is kept, and what is found
first does depend on the order of the patterns.

* `Found` — which paths some patterns stand for.
* `ascending_withoutRepeats` — leaving out repetitions, an order becomes a strict one.
* `find?_of_mem_survey` — a script keeps the spelling that was found first.
* `Command.scripts_sameSet` — **the same patterns stand for the same scripts**, in whatever order
  and however often they are listed.
-/

set_option autoImplicit false
namespace Marginalia

variable {expand walk : Text → List Path} {patterns patterns' : List Text}
variable {p q last : Path} {l : List Path} {t : Text}

/-! ## What is looked for -/

/-- Whether a path has the extension of a script. -/
def Path.HasScriptExtension (p : Path) : Prop :=
  p.extension? = some "js".toList ∨ p.extension? = some "mjs".toList ∨
    p.extension? = some "cjs".toList

theorem Path.isScript_iff : p.isScript = true ↔ p.HasScriptExtension := by
  rw [isScript, HasScriptExtension]
  cases p.extension? <;> simp [scriptExtensions]

theorem Path.isInstalled_iff :
    p.isInstalled = true ↔ Component.name "node_modules".toList ∈ p.components :=
  List.contains_iff_mem

/-- Whether a text is a pattern with wildcards. -/
def HasWildcard (t : Text) : Prop := '*' ∈ t ∨ '?' ∈ t ∨ '[' ∈ t

theorem isWild_iff : Expansion.isWild t = true ↔ HasWildcard t := by
  simp [Expansion.isWild, HasWildcard, or_assoc, exists_or, and_or_left]

/-- The scripts that some patterns stand for, as they are spelled. -/
inductive Found (expand walk : Text → List Path) (patterns : List Text) (p : Path) : Prop
  /-- What a pattern with wildcards expands to, unless it is part of an installed package. -/
  | expanded {t : Text} (listed : t ∈ patterns) (wild : HasWildcard t) (path : p ∈ expand t)
      (script : p.HasScriptExtension)
      (outside : Component.name "node_modules".toList ∉ p.components)
  /-- What a walk from a path visits. -/
  | walked {t : Text} (listed : t ∈ patterns) (plain : ¬ HasWildcard t) (path : p ∈ walk t)
      (script : p.HasScriptExtension)

theorem mem_scripts_iff :
    p ∈ patterns.flatMap (scriptsOf expand walk) ↔ Found expand walk patterns p := by
  rw [List.mem_flatMap]
  constructor
  · rintro ⟨t, listed, h⟩
    rw [scriptsOf] at h
    split at h
    · rename_i hwild
      obtain ⟨path, hscript⟩ := List.mem_filter.1 h
      rw [Bool.and_eq_true, Bool.not_eq_true', ← Bool.not_eq_true] at hscript
      exact .expanded listed (isWild_iff.1 hwild) path (Path.isScript_iff.1 hscript.1)
        (mt Path.isInstalled_iff.2 hscript.2)
    · rename_i hwild
      obtain ⟨path, hscript⟩ := List.mem_filter.1 h
      exact .walked listed (mt isWild_iff.2 hwild) path (Path.isScript_iff.1 hscript)
  · intro h
    cases h with
    | @expanded t listed wild path script outside =>
      refine ⟨t, listed, ?_⟩
      rw [scriptsOf, if_pos (isWild_iff.2 wild), List.mem_filter, Bool.and_eq_true,
        Bool.not_eq_true', ← Bool.not_eq_true]
      exact ⟨path, Path.isScript_iff.2 script, mt Path.isInstalled_iff.1 outside⟩
    | @walked t listed plain path script =>
      refine ⟨t, listed, ?_⟩
      rw [scriptsOf, if_neg (mt isWild_iff.1 plain), List.mem_filter]
      exact ⟨path, Path.isScript_iff.2 script⟩

/-! ## Leaving out repetitions -/

theorem behind_sublist (last : Path) (l : List Path) :
    (withoutRepeats.behind last l).Sublist l := by
  induction l generalizing last with
  | nil => exact List.Sublist.refl _
  | cons p rest ih =>
    rw [withoutRepeats.behind]
    split
    · exact (ih last).cons p
    · exact (ih p).cons_cons p

/-- What is left out says the same as something that is kept. -/
theorem exists_same_of_mem_behind (h : p ∈ last :: l) :
    ∃ q ∈ last :: withoutRepeats.behind last l, q.same p = true := by
  induction l generalizing last with
  | nil =>
    obtain rfl := List.mem_singleton.1 h
    exact ⟨p, List.mem_cons_self, Path.same_iff.2 rfl⟩
  | cons first rest ih =>
    rcases List.mem_cons.1 h with rfl | h
    · exact ⟨p, List.mem_cons_self, Path.same_iff.2 rfl⟩
    rw [withoutRepeats.behind]
    split
    · rename_i hsame
      rcases List.mem_cons.1 h with rfl | h
      · exact ⟨last, List.mem_cons_self, hsame⟩
      · exact ih (List.mem_cons_of_mem _ h)
    · obtain ⟨q, hq, hsame⟩ := ih h
      exact ⟨q, List.mem_cons_of_mem _ hq, hsame⟩

/-- Of paths in order, those that are kept are in strict order. -/
theorem ascending_behind (h : (last :: l).Pairwise fun p q => p.rank ≤ q.rank) :
    (last :: withoutRepeats.behind last l).Pairwise Path.Before := by
  induction l generalizing last with
  | nil => exact List.pairwise_singleton _ _
  | cons p rest ih =>
    obtain ⟨hlast, hrest⟩ := List.pairwise_cons.1 h
    rw [withoutRepeats.behind]
    split
    · exact ih (h.sublist ((List.sublist_cons_self p rest).cons_cons last))
    · rename_i hsame
      have hbefore : last.rank < p.rank :=
        lt_of_le_of_ne (hlast p List.mem_cons_self) (mt Path.same_iff.2 hsame)
      have hascending := ih hrest
      refine List.pairwise_cons.2 ⟨fun q hq => Path.before_iff.2 ?_, hascending⟩
      rcases List.mem_cons.1 hq with rfl | hq
      · exact hbefore
      · exact hbefore.trans (Path.before_iff.1 ((List.pairwise_cons.1 hascending).1 q hq))

theorem withoutRepeats_sublist (l : List Path) : (withoutRepeats l).Sublist l := by
  cases l with
  | nil => exact List.Sublist.refl _
  | cons p rest => exact (behind_sublist p rest).cons_cons p

theorem exists_same_of_mem_withoutRepeats (h : p ∈ l) :
    ∃ q ∈ withoutRepeats l, q.same p = true := by
  cases l with
  | nil => cases h
  | cons first rest => exact exists_same_of_mem_behind h

/-- **Without repetitions, paths in order are in strict order.** -/
theorem ascending_withoutRepeats (h : l.Pairwise fun p q => p.rank ≤ q.rank) :
    (withoutRepeats l).Pairwise Path.Before := by
  cases l with
  | nil => exact List.Pairwise.nil
  | cons p rest => exact ascending_behind h

/-- What is kept is the first of all that say the same. -/
theorem find?_behind (h : (last :: l).Pairwise fun p q => p.rank ≤ q.rank)
    (hq : q ∈ last :: withoutRepeats.behind last l) : (last :: l).find? q.same = some q := by
  induction l generalizing last with
  | nil =>
    obtain rfl := List.mem_singleton.1 hq
    exact List.find?_cons_of_pos (Path.same_iff.2 rfl)
  | cons p rest ih =>
    rcases List.mem_cons.1 hq with rfl | hbehind
    · exact List.find?_cons_of_pos (Path.same_iff.2 rfl)
    have hbefore : last.rank < q.rank :=
      Path.before_iff.1 ((List.pairwise_cons.1 (ascending_behind h)).1 q hbehind)
    have hlast : ¬ q.same last = true := mt Path.same_iff.1 hbefore.ne'
    rw [List.find?_cons_of_neg hlast]
    rw [withoutRepeats.behind] at hbehind
    split at hbehind
    · -- the next path is left out, so what is kept is found behind it
      rename_i hsame
      have hp : ¬ q.same p = true := by
        rwa [Path.same_iff, ← Path.same_iff.1 hsame, ← Path.same_iff]
      have hshort := h.sublist ((List.sublist_cons_self p rest).cons_cons last)
      have hfound := ih hshort (List.mem_cons_of_mem _ hbehind)
      rwa [List.find?_cons_of_neg hlast, ← List.find?_cons_of_neg hp] at hfound
    · exact ih h.of_cons hbehind

theorem find?_withoutRepeats (h : l.Pairwise fun p q => p.rank ≤ q.rank)
    (hq : q ∈ withoutRepeats l) : l.find? q.same = some q := by
  cases l with
  | nil => cases hq
  | cons p rest => exact find?_behind h hq

/-! ## Sorting -/

theorem pairwise_sorted (l : List Path) :
    (l.mergeSort Path.atMost).Pairwise fun p q => p.rank ≤ q.rank :=
  (List.pairwise_mergeSort Path.atMost_trans Path.atMost_total l).imp Path.atMost_iff.1

/-- Paths that say the same keep their order. -/
theorem filter_same_sorted (l : List Path) (q : Path) :
    (l.mergeSort Path.atMost).filter q.same = l.filter q.same := by
  have hsame : (l.filter q.same).Pairwise fun p r => p.atMost r = true := by
    refine List.pairwise_of_forall_mem_list fun p hp r hr => Path.atMost_iff.2 ?_
    have hp := Path.same_iff.1 (List.mem_filter.1 hp).2
    have hr := Path.same_iff.1 (List.mem_filter.1 hr).2
    rw [← hp, hr]
  have hsublist := (List.sublist_mergeSort Path.atMost_trans Path.atMost_total hsame
    List.filter_sublist).filter q.same
  simp only [List.filter_filter, Bool.and_self] at hsublist
  have hlength := ((List.mergeSort_perm l Path.atMost).filter q.same).length_eq
  exact (hsublist.eq_of_length hlength.symm).symm

/-! ## Surveys -/

theorem ascending_survey : (survey expand walk patterns).Pairwise Path.Before :=
  ascending_withoutRepeats (pairwise_sorted _)

theorem found_of_mem_survey (h : p ∈ survey expand walk patterns) :
    Found expand walk patterns p :=
  mem_scripts_iff.1 (List.mem_mergeSort.1 ((withoutRepeats_sublist _).subset h))

theorem exists_same_of_found (h : Found expand walk patterns p) :
    ∃ q ∈ survey expand walk patterns, q.same p = true :=
  exists_same_of_mem_withoutRepeats (List.mem_mergeSort.2 (mem_scripts_iff.2 h))

/-- **A script keeps the spelling that was found first.** -/
theorem find?_of_mem_survey (h : q ∈ survey expand walk patterns) :
    (patterns.flatMap (scriptsOf expand walk)).find? q.same = some q := by
  rw [← List.head?_filter, ← filter_same_sorted, List.head?_filter]
  exact find?_withoutRepeats (pairwise_sorted _) h

theorem found_congr (same : ∀ t, t ∈ patterns ↔ t ∈ patterns') :
    Found expand walk patterns p ↔ Found expand walk patterns' p := by
  simp only [← mem_scripts_iff, List.mem_flatMap, same]

theorem mem_map_rank_survey_iff {r : List (List Nat)} :
    r ∈ (survey expand walk patterns).map Path.rank ↔
      ∃ p, Found expand walk patterns p ∧ p.rank = r := by
  rw [List.mem_map]
  constructor
  · rintro ⟨p, hp, hr⟩
    exact ⟨p, found_of_mem_survey hp, hr⟩
  · rintro ⟨p, hp, rfl⟩
    obtain ⟨q, hq, hsame⟩ := exists_same_of_found hp
    exact ⟨q, hq, Path.same_iff.1 hsame⟩

/-- Whatever the order of the patterns and however often they are listed, the same is found. -/
theorem map_rank_survey (expand walk : Text → List Path)
    (same : ∀ t, t ∈ patterns ↔ t ∈ patterns') :
    (survey expand walk patterns).map Path.rank = (survey expand walk patterns').map Path.rank := by
  have hascending (ps : List Text) : ((survey expand walk ps).map Path.rank).Pairwise (· < ·) :=
    List.pairwise_map.2 (ascending_survey.imp Path.before_iff.1)
  refine (hascending patterns).eq_of_mem_iff (hascending patterns') fun r => ?_
  simp only [mem_map_rank_survey_iff, found_congr same]

namespace Command

theorem scripts_eq_ok_iff {files : List Path} : scripts expand walk patterns = .ok files ↔
    survey expand walk patterns = files ∧ files ≠ [] := by
  rw [scripts]
  cases survey expand walk patterns with
  | nil => exact ⟨nofun, fun h => absurd h.1.symm h.2⟩
  | cons p rest => exact ⟨fun h => by cases h; exact ⟨rfl, nofun⟩, fun h => congrArg _ h.1⟩

theorem survey_eq_nil_iff :
    survey expand walk patterns = [] ↔ ∀ p, ¬ Found expand walk patterns p := by
  rw [List.eq_nil_iff_forall_not_mem]
  refine ⟨fun h p hp => ?_, fun h p hp => h p (found_of_mem_survey hp)⟩
  obtain ⟨q, hq, -⟩ := exists_same_of_found hp
  exact h q hq

/-- **No scripts are found exactly if the patterns stand for none**, and nothing else goes wrong. -/
theorem scripts_eq_error_iff {failure : Failure} :
    scripts expand walk patterns = .error failure ↔
      failure = .noScripts patterns ∧ ∀ p, ¬ Found expand walk patterns p := by
  rw [← survey_eq_nil_iff, scripts]
  cases survey expand walk patterns with
  | nil => exact ⟨fun h => by cases h; exact ⟨rfl, rfl⟩, fun h => congrArg _ h.1.symm⟩
  | cons p rest => exact ⟨nofun, nofun⟩

/-- **The same patterns stand for the same scripts.**  Whatever the patterns expand to and the walks
visit, two lists of the same patterns give lists of which every two entries say the same: the
scripts that the patterns stand for, in the strict order of paths, each under the spelling that is
found first.  There is a failure exactly if there are no such scripts. -/
theorem scripts_sameSet (same : ∀ t, t ∈ patterns ↔ t ∈ patterns') :
    (∀ failure, scripts expand walk patterns = .error failure ↔
      failure = .noScripts patterns ∧ ∀ p, ¬ Found expand walk patterns p) ∧
    ((∃ p, Found expand walk patterns p) → ∃ files files',
      scripts expand walk patterns = .ok files ∧ scripts expand walk patterns' = .ok files' ∧
      List.Forall₂ (fun p q => p.same q = true) files files' ∧
      files.Pairwise Path.Before ∧
      (∀ p ∈ files, Found expand walk patterns p) ∧
      (∀ p ∈ files, (patterns.flatMap (scriptsOf expand walk)).find? p.same = some p) ∧
      ∀ p, Found expand walk patterns p → ∃ q ∈ files, q.same p = true) := by
  refine ⟨fun _ => scripts_eq_error_iff, fun ⟨p, hp⟩ => ?_⟩
  have hne : survey expand walk patterns ≠ [] := fun h => survey_eq_nil_iff.1 h p hp
  have hne' : survey expand walk patterns' ≠ [] := fun h =>
    survey_eq_nil_iff.1 h p ((found_congr same).1 hp)
  refine ⟨_, _, scripts_eq_ok_iff.2 ⟨rfl, hne⟩, scripts_eq_ok_iff.2 ⟨rfl, hne'⟩, ?_,
    ascending_survey, fun _ => found_of_mem_survey, fun _ => find?_of_mem_survey,
    fun _ => exists_same_of_found⟩
  have hranks := map_rank_survey expand walk same
  rw [← List.forall₂_eq_eq_eq, List.forall₂_map_left_iff, List.forall₂_map_right_iff] at hranks
  exact hranks.imp fun _ _ => Path.same_iff.2

/-- Two patterns that stand for one file under two spellings, in another order and one of them
twice. -/
theorem scripts_sameSet_spellings :
    let d : Disk := {
      root := .folder [
        ("lib".toList, .folder [
          ("b.js".toList, .file none false),
          ("a.mjs".toList, .file none false),
          ("notes.md".toList, .file none false)])]
      here := [] }
    let patterns := ["lib/*".toList, "lib//b.js".toList]
    let patterns' := ["lib//b.js".toList, "lib/*".toList, "lib//b.js".toList]
    (∀ t, t ∈ patterns ↔ t ∈ patterns') ∧ ∃ files files',
      scriptsOn d patterns = .ok files ∧ scriptsOn d patterns' = .ok files' ∧
      List.Forall₂ (fun p q => p.same q = true) files files' ∧ files.Pairwise Path.Before ∧
      ∃ p ∈ files, p.same ⟨"lib//b.js".toList⟩ = true := by
  intro d patterns patterns'
  have hsub : patterns ⊆ patterns' := by decide
  have hsub' : patterns' ⊆ patterns := by decide
  have same : ∀ t, t ∈ patterns ↔ t ∈ patterns' := fun t => ⟨fun h => hsub h, fun h => hsub' h⟩
  have hfound : Found (Expansion.expand d) (fun t => Walk.visited d ⟨t⟩) patterns
      ⟨"lib//b.js".toList⟩ :=
    .walked (t := "lib//b.js".toList) (by decide) (mt isWild_iff.2 (by decide)) (by decide +kernel)
      (Path.isScript_iff.1 (by decide +kernel))
  obtain ⟨-, hfiles⟩ := scripts_sameSet same
  obtain ⟨files, files', hok, hok', hsame, hascending, -, -, hall⟩ := hfiles ⟨_, hfound⟩
  exact ⟨same, files, files', hok, hok', hsame, hascending, hall _ hfound⟩

end Command
end Marginalia
