import AfterFlow.WorkspaceChanges.LineCounts
import Mathlib.Algebra.GroupWithZero.Nat
import Mathlib.Algebra.Order.BigOperators.Group.List
import Mathlib.Data.List.ReduceOption

/-!
# The budgets of a comparison

A comparison goes through the changed paths in order. Each has an entry, with a diff if its texts
are there and the diff fits into what is left of the budget of bytes, and the first entries are
listed. So the summary counts all entries, the listed ones respect the limits, and the flag
`truncated` tells whether anything was left out for its size: a file that was not scanned, an entry
over the limit, a diff of a large file, or one over the budget. A diff that is left out because a
file is binary or sensitive, or because its text cannot be read, does not set it.

## Main results

* `compareSnapshots_keeps` — limits are kept and every change is counted
-/

namespace AfterFlow.WorkspaceChanges

open Keyed List

variable (D : Differ) (readCached : String → Option String)
  (before after : WorkspaceSnapshot) (limits : WorkspaceChangeLimits)

/-- The path is not there on both sides with the same file. -/
def changedPath (path : String) : Bool :=
  !unchanged (before.files.lookup path) (after.files.lookup path)

/-- `get_changed_paths`. -/
def getChangedPaths : Finset String :=
  (before.files.keys ∪ after.files.keys).filter fun path => changedPath before after path

/-- The entry of a path, with the bytes that are left for its diff. -/
def changeOf (remainingBytes : ℕ) (path : String) : WorkspaceFileChange :=
  fileChange path (before.files.lookup path) (after.files.lookup path)
    (buildDiff D readCached path (before.files.lookup path) (after.files.lookup path) remainingBytes)

/-- The entries of the changed paths, after so many bytes of diffs. -/
def changesFrom : ℕ → List String → List WorkspaceFileChange
  | _, [] => []
  | used, path :: paths =>
    if changedPath before after path then
      let c := changeOf D readCached before after (limits.maxTotalDiffBytes - used) path
      c :: changesFrom (used + c.diff.utf8ByteSize) paths
    else changesFrom used paths

/-- All entries of a comparison. -/
def allChanges : List WorkspaceFileChange :=
  changesFrom D readCached before after limits 0 (allPaths before after)

/-- The diff of the entry was left out for its size. -/
def WorkspaceFileChange.IsCut (c : WorkspaceFileChange) : Bool :=
  decide (c.diffUnavailableReason = some .large) || decide (c.diffUnavailableReason = some .truncated)

/-- The bytes of the diffs of entries. -/
def diffBytes (cs : List WorkspaceFileChange) : ℕ := (cs.map fun c => c.diff.utf8ByteSize).sum

/-! ### One file -/

variable {path : String} {beforeFile afterFile : Option FileSnapshot} {remainingBytes : ℕ}

/-- **A diff fits into what is left.** -/
theorem diff_buildDiff_le : (buildDiff D readCached path beforeFile afterFile
    remainingBytes).diff.utf8ByteSize ≤ remainingBytes := by
  rw [buildDiff]
  split
  · exact Nat.zero_le _
  · split
    · dsimp only
      split
      · exact Nat.zero_le _
      · rename_i hfits
        exact Nat.le_of_not_lt hfits
    · exact Nat.zero_le _

theorem diffTruncated_buildDiff :
    (buildDiff D readCached path beforeFile afterFile remainingBytes).diffTruncated = true →
      (buildDiff D readCached path beforeFile afterFile remainingBytes).reason =
        some .truncated := by
  rw [buildDiff]
  split
  · intro h
    cases h
  · split
    · dsimp only
      split
      · intro _
        rfl
      · intro h
        cases h
    · intro h
      cases h

/-- **No diff is made for a sensitive file**, whatever the other side is. -/
theorem diff_buildDiff_sensitive {file : FileSnapshot} (hfile : file.sensitive = true)
    (hside : beforeFile = some file ∨ afterFile = some file) :
    (buildDiff D readCached path beforeFile afterFile remainingBytes).diff = "" := by
  have hmem : some DiffUnavailableReason.sensitive ∈
      [beforeFile, afterFile].reduceOption.map FileSnapshot.contentUnavailableReason := by
    refine mem_map.2 ⟨file, ?_, file.hsensitive hfile⟩
    rw [reduceOption_mem_iff]
    rcases hside with rfl | rfl <;> simp
  have hreason : diffUnavailableReason beforeFile afterFile = some .sensitive := by
    rw [diffUnavailableReason, find?_cons_of_pos (by simpa using hmem)]
  rw [buildDiff, hreason]

/-! ### The loop -/

/-- What the loop carries once entries have been added. -/
def Totals.addAll (t : Totals) (cs : List WorkspaceFileChange) : Totals where
  changes := t.changes ++ cs.take (limits.maxFiles - t.changes.length)
  created := t.created + cs.countP fun c => c.status = .created
  modified := t.modified + cs.countP fun c => c.status = .modified
  deleted := t.deleted + cs.countP fun c => c.status = .deleted
  additions := t.additions + (cs.map WorkspaceFileChange.additions).sum
  deletions := t.deletions + (cs.map WorkspaceFileChange.deletions).sum
  totalDiffBytes := t.totalDiffBytes + diffBytes cs
  truncated := t.truncated || cs.any WorkspaceFileChange.IsCut ||
    decide (limits.maxFiles < t.changes.length + cs.length)

variable {t : Totals} {c : WorkspaceFileChange} {cs : List WorkspaceFileChange}

theorem Totals.addAll_nil (h : t.changes.length ≤ limits.maxFiles) : t.addAll limits [] = t := by
  simp [Totals.addAll, diffBytes, not_lt.2 h]

theorem length_addAll (h : t.changes.length ≤ limits.maxFiles) :
    (t.addAll limits cs).changes.length ≤ limits.maxFiles := by
  rw [Totals.addAll, length_append, length_take]
  omega

/-- Entries one after the other. -/
theorem Totals.addAll_cons (h : t.changes.length ≤ limits.maxFiles) :
    (t.addAll limits [c]).addAll limits cs = t.addAll limits (c :: cs) := by
  have hcount : ∀ p : WorkspaceFileChange → Bool,
      (c :: cs).countP p = [c].countP p + cs.countP p := fun p => by
    rw [← countP_append, singleton_append]
  rw [Totals.addAll, Totals.addAll, Totals.addAll, Totals.mk.injEq]
  refine ⟨?_, ?_, ?_, ?_, ?_, ?_, ?_, ?_⟩
  · rw [append_assoc, length_append, length_take]
    cases hk : limits.maxFiles - t.changes.length with
    | zero =>
      simp [hk]
    | succ k =>
      have hrest : limits.maxFiles - (t.changes.length + min (k + 1) [c].length) = k := by
        simp only [length_singleton]
        omega
      rw [hrest]
      simp
  · rw [hcount, Nat.add_assoc]
  · rw [hcount, Nat.add_assoc]
  · rw [hcount, Nat.add_assoc]
  · simp [Nat.add_assoc]
  · simp [Nat.add_assoc]
  · simp [diffBytes, Nat.add_assoc]
  · -- an entry is over the limit if the list was full, or became so
    have hover : limits.maxFiles < t.changes.length + [c].length ∨
        limits.maxFiles < (t.changes ++ [c].take (limits.maxFiles - t.changes.length)).length +
          cs.length ↔ limits.maxFiles < t.changes.length + (c :: cs).length := by
      simp only [length_append, length_take, length_cons, length_nil]
      omega
    rw [Bool.eq_iff_iff]
    simp only [Bool.or_eq_true, decide_eq_true_eq, any_cons, any_nil, Bool.or_false,
      ← hover]
    tauto

/-- **One path** adds its entry, if it has changed. -/
theorem comparePath_eq (h : t.changes.length ≤ limits.maxFiles) (path : String) :
    comparePath D readCached before after limits t path =
      if changedPath before after path then
        t.addAll limits [changeOf D readCached before after
          (limits.maxTotalDiffBytes - t.totalDiffBytes) path]
      else t := by
  rw [comparePath]
  cases hchanged : changedPath before after path with
  | false =>
    have hsame : unchanged (before.files.lookup path) (after.files.lookup path) = true := by
      simpa [changedPath] using hchanged
    rw [if_pos hsame]
    rfl
  | true =>
    have hdiffers : unchanged (before.files.lookup path) (after.files.lookup path) = false := by
      simpa [changedPath] using hchanged
    rw [if_neg (by simp [hdiffers]), if_pos rfl, Totals.addAll, Totals.mk.injEq]
    refine ⟨?_, ?_, ?_, ?_, ?_, ?_, ?_, ?_⟩
    · split
      · rename_i hlisted
        rw [take_of_length_le (by rw [length_singleton]; omega)]
        rfl
      · rename_i hfull
        rw [Nat.sub_eq_zero_of_le (Nat.le_of_not_lt hfull), take_zero, append_nil]
    · rw [countP_singleton]
      split <;> simp_all [changeOf, fileChange]
    · rw [countP_singleton]
      split <;> simp_all [changeOf, fileChange]
    · rw [countP_singleton]
      split <;> simp_all [changeOf, fileChange]
    · rfl
    · rfl
    · rfl
    · have htruncated := @diffTruncated_buildDiff D readCached path (before.files.lookup path)
        (after.files.lookup path) (limits.maxTotalDiffBytes - t.totalDiffBytes)
      rw [Bool.eq_iff_iff]
      simp only [Bool.or_eq_true, decide_eq_true_eq, Bool.not_eq_true', decide_eq_false_iff_not,
        any_cons, any_nil, Bool.or_false, WorkspaceFileChange.IsCut, changeOf, fileChange,
        length_singleton]
      have hfull : ¬t.changes.length < limits.maxFiles ↔ limits.maxFiles < t.changes.length + 1 := by
        omega
      rw [hfull]
      tauto

/-- **The loop** adds the entries of the changed paths. -/
theorem foldl_comparePath (paths : List String) :
    ∀ t : Totals, t.changes.length ≤ limits.maxFiles →
      paths.foldl (comparePath D readCached before after limits) t =
        t.addAll limits (changesFrom D readCached before after limits t.totalDiffBytes paths) := by
  induction paths with
  | nil =>
    intro t h
    rw [changesFrom, Totals.addAll_nil limits h]
    rfl
  | cons path paths ih =>
    intro t h
    rw [foldl_cons, comparePath_eq D readCached before after limits h, changesFrom]
    split
    · rw [ih _ (length_addAll limits h), Totals.addAll_cons limits h]
      have hused : (t.addAll limits [changeOf D readCached before after
          (limits.maxTotalDiffBytes - t.totalDiffBytes) path]).totalDiffBytes =
            t.totalDiffBytes + (changeOf D readCached before after
              (limits.maxTotalDiffBytes - t.totalDiffBytes) path).diff.utf8ByteSize := by
        simp [Totals.addAll, diffBytes]
      rw [hused]
    · exact ih t h

/-- **A comparison is read off its entries**: the first of them are listed, all are counted. -/
theorem compareSnapshots_eq :
    compareSnapshots D readCached before after limits =
      let cs := allChanges D readCached before after limits
      { summary :=
          { created := cs.countP fun c => c.status = .created
            modified := cs.countP fun c => c.status = .modified
            deleted := cs.countP fun c => c.status = .deleted
            additions := (cs.map WorkspaceFileChange.additions).sum
            deletions := (cs.map WorkspaceFileChange.deletions).sum
            truncated := before.truncated || after.truncated ||
              cs.any WorkspaceFileChange.IsCut || decide (limits.maxFiles < cs.length) }
        files := cs.take limits.maxFiles
        limits := limits } := by
  rw [compareSnapshots, foldl_comparePath D readCached before after limits _ _ (Nat.zero_le _)]
  simp [Totals.addAll, allChanges]
  rfl

/-! ### The entries -/

theorem paths_changesFrom (paths : List String) (used : ℕ) :
    (changesFrom D readCached before after limits used paths).map WorkspaceFileChange.path =
      paths.filter (changedPath before after) := by
  induction paths generalizing used with
  | nil => rfl
  | cons path paths ih =>
    rw [changesFrom]
    split
    · rename_i hchanged
      rw [map_cons, ih, filter_cons_of_pos hchanged]
      rfl
    · rename_i hsame
      rw [ih, filter_cons_of_neg hsame]

/-- **The diffs fit into the budget.** -/
theorem diffBytes_changesFrom (paths : List String) {used : ℕ} (h : used ≤ limits.maxTotalDiffBytes) :
    used + diffBytes (changesFrom D readCached before after limits used paths) ≤
      limits.maxTotalDiffBytes := by
  induction paths generalizing used with
  | nil => simpa [changesFrom, diffBytes] using h
  | cons path paths ih =>
    rw [changesFrom]
    split
    · have hfits : (changeOf D readCached before after (limits.maxTotalDiffBytes - used)
          path).diff.utf8ByteSize ≤ limits.maxTotalDiffBytes - used := diff_buildDiff_le ..
      have hused : used + (changeOf D readCached before after (limits.maxTotalDiffBytes - used)
          path).diff.utf8ByteSize ≤ limits.maxTotalDiffBytes := by omega
      have hrest := ih hused
      simp only [diffBytes, map_cons, sum_cons] at hrest ⊢
      omega
    · exact ih h

theorem eq_changeOf_of_mem {paths : List String} {used : ℕ} {c : WorkspaceFileChange}
    (h : c ∈ changesFrom D readCached before after limits used paths) :
    ∃ remaining, c = changeOf D readCached before after remaining c.path := by
  induction paths generalizing used with
  | nil => cases h
  | cons path paths ih =>
    rw [changesFrom] at h
    split at h
    · rcases mem_cons.1 h with rfl | h
      · exact ⟨_, rfl⟩
      · exact ih h
    · exact ih h

theorem paths_allChanges : (allChanges D readCached before after limits).map
    WorkspaceFileChange.path = (allPaths before after).filter (changedPath before after) :=
  paths_changesFrom ..

theorem nodup_allPaths : (allPaths before after).Nodup := Finset.sort_nodup ..

theorem length_allChanges : (allChanges D readCached before after limits).length =
    (getChangedPaths before after).card := by
  have hnodup := (nodup_allPaths before after).filter (changedPath before after)
  rw [← length_map (f := WorkspaceFileChange.path), paths_allChanges,
    ← toFinset_card_of_nodup hnodup, getChangedPaths]
  congr 1
  ext path
  simp [allPaths]

theorem count_statuses (cs : List WorkspaceFileChange) :
    (cs.countP fun c => c.status = .created) + (cs.countP fun c => c.status = .modified) +
      (cs.countP fun c => c.status = .deleted) = cs.length := by
  induction cs with
  | nil => rfl
  | cons c cs ih =>
    simp only [countP_cons, length_cons]
    cases c.status <;> simp <;> omega

/-- A file that is known on one of the sides. -/
def OnASide (path : String) (file : FileSnapshot) : Prop :=
  before.files.lookup path = some file ∨ after.files.lookup path = some file

/-- **A comparison keeps its limits and counts every change.** The summary counts the changed paths;
the listed entries are the first of theirs, each path once, with diffs within the budget. The flag is
set iff a snapshot was truncated, an entry is not listed, or a diff was left out because a file is
large or the budget is used up. A path that is sensitive on either side has no diff. -/
theorem compareSnapshots_keeps :
    (let r := compareSnapshots D readCached before after limits
    let all := allChanges D readCached before after limits
    r.summary.created + r.summary.modified + r.summary.deleted =
      (getChangedPaths before after).card ∧
    (r.files.map WorkspaceFileChange.path).Nodup ∧
    r.files.length ≤ limits.maxFiles ∧
    diffBytes r.files ≤ limits.maxTotalDiffBytes ∧
    (r.summary.truncated = true ↔ before.truncated = true ∨ after.truncated = true ∨
      limits.maxFiles < (getChangedPaths before after).card ∨
      ∃ c ∈ all, c.diffUnavailableReason = some .large ∨
        c.diffUnavailableReason = some .truncated) ∧
    ∀ c ∈ r.files, ∀ file, OnASide before after c.path file → file.sensitive = true →
      c.diff = "") := by
  intro r all
  have hr : r = _ := compareSnapshots_eq D readCached before after limits
  have hsub : r.files.Sublist all := by
    rw [hr]
    exact take_sublist _ _
  refine ⟨?_, ?_, ?_, ?_, ?_, ?_⟩
  · rw [hr, ← length_allChanges D readCached before after limits]
    exact count_statuses _
  · have hnodup : (all.map WorkspaceFileChange.path).Nodup := by
      rw [paths_allChanges]
      exact (nodup_allPaths before after).filter _
    exact hnodup.sublist (hsub.map _)
  · rw [hr]
    exact length_take_le _ _
  · have hall : diffBytes all ≤ limits.maxTotalDiffBytes := by
      have hbytes := diffBytes_changesFrom D readCached before after limits
        (allPaths before after) (Nat.zero_le _)
      rwa [Nat.zero_add] at hbytes
    exact ((hsub.map _).sum_le_sum fun _ _ => Nat.zero_le _).trans hall
  · rw [hr, ← length_allChanges D readCached before after limits]
    simp only [Bool.or_eq_true, decide_eq_true_eq, any_eq_true, WorkspaceFileChange.IsCut]
    constructor
    · rintro (((h | h) | h) | h)
      · exact .inl h
      · exact .inr (.inl h)
      · exact .inr (.inr (.inr h))
      · exact .inr (.inr (.inl h))
    · rintro (h | h | h | h)
      · exact .inl (.inl (.inl h))
      · exact .inl (.inl (.inr h))
      · exact .inr h
      · exact .inl (.inr h)
  · intro c hc file hside hsensitive
    obtain ⟨remaining, hchange⟩ := eq_changeOf_of_mem D readCached before after limits
      (hsub.subset hc)
    rw [hchange]
    exact diff_buildDiff_sensitive D readCached hsensitive hside

/-- A snapshot of one binary file. -/
def binarySnapshot (size : ℕ) : WorkspaceSnapshot := ⟨Finmap.singleton "/p" (binaryFile size), false⟩

/-- The diff of a binary file is left out, and the flag is not set. -/
theorem compareSnapshots_binary :
    let r := compareSnapshots rewriteAll (fun _ => none) (binarySnapshot 1) (binarySnapshot 2) {}
    r.summary.modified = 1 ∧ r.summary.truncated = false ∧
      ∃ c ∈ r.files, c.diff = "" ∧ c.diffUnavailableReason = some .binary := by
  have hpaths : allPaths (binarySnapshot 1) (binarySnapshot 2) = ["/p"] := by
    simp [allPaths, binarySnapshot, Finmap.keys_singleton]
  rw [compareSnapshots, hpaths]
  decide

end AfterFlow.WorkspaceChanges
