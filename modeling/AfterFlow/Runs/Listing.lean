import AfterFlow.Keyed.Newest
import AfterFlow.Runs.Manager
import Mathlib.Data.String.Basic

/-!
# The newest runs of a thread

`list_by_thread` asks the store for as many rows as are wanted beyond the records in memory. But the
records in memory have rows as well, and these may be all that the store then returns.

## Main results

* `listed_newest_iff` — the newest runs are listed iff they are reached
-/

namespace AfterFlow.Runs

open Keyed List

/-! ### Rows and records -/

inductive DisconnectMode where
  | cancel
  | continue
  deriving DecidableEq

def DisconnectMode.ofValue? : String → Option DisconnectMode
  | "cancel" => some .cancel
  | "continue" => some .continue
  | _ => none

def RunStatus.ofValue? : String → Option RunStatus
  | "pending" => some .pending
  | "running" => some .running
  | "success" => some .success
  | "error" => some .error
  | "timeout" => some .timeout
  | "interrupted" => some .interrupted
  | _ => none

variable {I : Type}

/-- A row of a store. `info` are the columns that are copied as they are. -/
structure StoredRun (I : Type) where
  runId : String
  threadId : String
  userId : Option String := none
  status : Option String
  onDisconnect : Option String := none
  createdAt : String
  info : I

/-- A record as it is listed. -/
structure ListedRun (I : Type) where
  runId : String
  threadId : String
  userId : Option String := none
  status : RunStatus
  onDisconnect : DisconnectMode := .cancel
  createdAt : String
  storeOnly : Bool := false
  info : I

/-- A value that is missing or empty. -/
def orElseEmpty (s : Option String) (default : String) : String :=
  match s with
  | none | some "" => default
  | some s => s

/-- `_record_from_store`; `none` where it raises. -/
def recordFromStore (row : StoredRun I) : Option (ListedRun I) :=
  (RunStatus.ofValue? (orElseEmpty row.status "pending")).bind fun status =>
    (DisconnectMode.ofValue? (orElseEmpty row.onDisconnect "cancel")).map fun onDisconnect =>
      { runId := row.runId, threadId := row.threadId, userId := row.userId, status, onDisconnect
        createdAt := row.createdAt, storeOnly := true, info := row.info }

/-- `list_by_thread` of `MemoryRunStore`. -/
def MemoryRunStore.listByThread (rows : List (StoredRun I)) (threadId : String)
    (userId : Option String) (limit : ℕ) : List (StoredRun I) :=
  newest StoredRun.createdAt limit
    (rows.filter fun r => r.threadId = threadId ∧ (userId = none ∨ r.userId = userId))

/-! ### The listing -/

/-- A row is added to the records, unless its run is among them. -/
def addRow (records : List (ListedRun I)) (row : StoredRun I) : List (ListedRun I) :=
  if row.runId ≠ "" ∧ ∀ r ∈ records, r.runId ≠ row.runId then
    records ++ (recordFromStore row).toList
  else records

/-- `list_by_thread`, given the records of the thread in memory. The store is asked with a limit,
and may raise. -/
def listByThread (memory : List (ListedRun I))
    (store : Option (ℕ → Option (List (StoredRun I)))) (limit : ℕ) : List (ListedRun I) :=
  match store with
  | none => newest ListedRun.createdAt limit memory
  | some listRows =>
    match listRows (limit - memory.length) with
    | none => newest ListedRun.createdAt limit memory
    | some rows => newest ListedRun.createdAt limit (rows.foldl addRow memory)

/-! ### What is asked of it -/

/-- The record of a row, if it has one. -/
def StoredRun.record (row : StoredRun I) : Option (ListedRun I) :=
  if row.runId = "" then none else recordFromStore row

/-- The runs that only the store has. -/
def storeOnly (memory : List (ListedRun I)) (rows : List (StoredRun I)) : List (ListedRun I) :=
  (rows.filterMap StoredRun.record).filter fun r => ∀ r' ∈ memory, r'.runId ≠ r.runId

/-- The runs in memory and in the store, the record in memory of a run in both. -/
def allRuns (memory : List (ListedRun I)) (rows : List (StoredRun I)) : List (ListedRun I) :=
  memory ++ storeOnly memory rows

/-- The ids and dates of records and rows. -/
def stamps (memory : List (ListedRun I)) (rows : List (StoredRun I)) : List (String × String) :=
  memory.map (fun r => (r.runId, r.createdAt)) ++ rows.map fun r => (r.runId, r.createdAt)

/-- Every run is once in memory and once in the store, and has a date of its own. -/
structure Dated (memory : List (ListedRun I)) (rows : List (StoredRun I)) : Prop where
  inMemory : (memory.map ListedRun.runId).Nodup
  inStore : (rows.map StoredRun.runId).Nodup
  dates : ∀ p ∈ stamps memory rows, ∀ q ∈ stamps memory rows, p.2 = q.2 ↔ p.1 = q.1

/-- No run that only the store has, with fewer than `limit` newer runs, lies behind more rows than
are asked for. -/
def Reached (memory : List (ListedRun I)) (rows : List (StoredRun I)) (limit : ℕ) : Prop :=
  ∀ r ∈ storeOnly memory rows,
    newer ListedRun.createdAt r.createdAt (allRuns memory rows) < limit →
      newer StoredRun.createdAt r.createdAt rows + memory.length < limit

/-! ### Records of rows -/

variable {memory : List (ListedRun I)} {rows rows' : List (StoredRun I)} {row : StoredRun I}
  {r : ListedRun I} {limit : ℕ}

theorem recordFromStore_stamp (h : recordFromStore row = some r) :
    r.runId = row.runId ∧ r.createdAt = row.createdAt := by
  obtain ⟨status, -, h⟩ := Option.bind_eq_some_iff.1 h
  obtain ⟨onDisconnect, -, rfl⟩ := Option.map_eq_some_iff.1 h
  exact ⟨rfl, rfl⟩

theorem record_stamp (h : row.record = some r) :
    r.runId = row.runId ∧ r.createdAt = row.createdAt := by
  rw [StoredRun.record] at h
  split at h
  · cases h
  · exact recordFromStore_stamp h

theorem mem_storeOnly : r ∈ storeOnly memory rows ↔
    (∃ row ∈ rows, row.record = some r) ∧ ∀ r' ∈ memory, r'.runId ≠ r.runId := by
  rw [storeOnly, mem_filter, mem_filterMap, decide_eq_true_eq]

theorem records_sublist : ((rows.filterMap StoredRun.record).map ListedRun.runId).Sublist
    (rows.map StoredRun.runId) := by
  induction rows with
  | nil => exact .slnil
  | cons row rows ih =>
    rw [filterMap_cons]
    cases h : row.record with
    | none => exact ih.cons _
    | some r =>
      rw [map_cons, map_cons, (record_stamp h).1]
      exact ih.cons_cons _

theorem storeOnly_cons : storeOnly memory (row :: rows) =
    storeOnly memory [row] ++ storeOnly memory rows := by
  rw [storeOnly, storeOnly, storeOnly, ← filter_append, ← filterMap_append,
    singleton_append]

theorem addRow_eq : addRow memory row = memory ++ storeOnly memory [row] := by
  rw [addRow, storeOnly, filterMap_cons, filterMap_nil, StoredRun.record]
  by_cases hid : row.runId = ""
  · rw [if_neg fun h => h.1 hid, if_pos hid]
    exact (append_nil _).symm
  · rw [if_neg hid]
    cases hrecord : recordFromStore row with
    | none => simp
    | some r =>
      have hstamp := (recordFromStore_stamp hrecord).1
      by_cases hnew : ∀ r' ∈ memory, r'.runId ≠ row.runId
      · rw [if_pos ⟨hid, hnew⟩, filter_cons_of_pos (by simpa [hstamp] using hnew)]
        rfl
      · rw [if_neg fun h => hnew h.2, filter_cons_of_neg (by simpa [hstamp] using hnew)]
        exact (append_nil _).symm

theorem foldl_addRow (h : (rows.map StoredRun.runId).Nodup) :
    rows.foldl addRow memory = allRuns memory rows := by
  induction rows generalizing memory with
  | nil => simp [allRuns, storeOnly]
  | cons row rows ih =>
    obtain ⟨hrow, hrows⟩ := nodup_cons.1 h
    -- the record of this row has the id of no other row
    have hother : ∀ r ∈ rows.filterMap StoredRun.record, row.runId ≠ r.runId := by
      intro r hr heq
      obtain ⟨row', hrow', hrecord⟩ := mem_filterMap.1 hr
      rw [heq, (record_stamp hrecord).1] at hrow
      exact hrow (mem_map_of_mem hrow')
    have hadded : storeOnly (memory ++ storeOnly memory [row]) rows = storeOnly memory rows := by
      refine filter_congr fun r hr => decide_eq_decide.2 ?_
      refine ⟨fun hall r' hr' => hall r' (mem_append_left _ hr'), fun hall r' hr' => ?_⟩
      rcases mem_append.1 hr' with hr' | hr'
      · exact hall r' hr'
      · obtain ⟨⟨row', hrow', hrecord⟩, -⟩ := mem_storeOnly.1 hr'
        rw [(record_stamp hrecord).1, mem_singleton.1 hrow']
        exact hother r hr
    have hcons : storeOnly memory (row :: rows) =
        storeOnly memory [row] ++ storeOnly memory rows := storeOnly_cons
    rw [foldl_cons, ih hrows, addRow_eq, allRuns, allRuns, hadded, hcons, append_assoc]

/-! ### Dates -/

theorem mem_stamps (hr : r ∈ allRuns memory rows) :
    (r.runId, r.createdAt) ∈ stamps memory rows := by
  rcases mem_append.1 hr with hr | hr
  · exact mem_append_left _ (mem_map_of_mem hr)
  · obtain ⟨⟨row, hrow, hrecord⟩, -⟩ := mem_storeOnly.1 hr
    rw [(record_stamp hrecord).1, (record_stamp hrecord).2]
    exact mem_append_right _ (mem_map_of_mem hrow)

theorem Dated.rows_nodup (h : Dated memory rows) : (rows.map StoredRun.createdAt).Nodup := by
  rw [List.Nodup, pairwise_map]
  refine List.Pairwise.imp_of_mem ?_ (pairwise_map.1 h.inStore)
  intro row row' hrow hrow' hne heq
  refine hne ((h.dates (row.runId, row.createdAt) ?_ (row'.runId, row'.createdAt) ?_).1 heq)
  · exact mem_append_right _ (mem_map_of_mem hrow)
  · exact mem_append_right _ (mem_map_of_mem hrow')

theorem allRuns_ids (hmemory : (memory.map ListedRun.runId).Nodup)
    (hrows : (rows.map StoredRun.runId).Nodup) :
    ((allRuns memory rows).map ListedRun.runId).Nodup := by
  rw [allRuns, map_append]
  refine List.Nodup.append hmemory ?_ ?_
  · exact hrows.sublist ((filter_sublist.map _).trans records_sublist)
  · intro id hid hid'
    obtain ⟨r, hr, rfl⟩ := mem_map.1 hid
    obtain ⟨r', hr', heq⟩ := mem_map.1 hid'
    exact (mem_storeOnly.1 hr').2 r hr heq.symm

theorem Dated.allRuns_nodup (h : Dated memory rows) :
    ((allRuns memory rows).map ListedRun.createdAt).Nodup := by
  rw [List.Nodup, pairwise_map]
  refine List.Pairwise.imp_of_mem ?_ (pairwise_map.1 (allRuns_ids h.inMemory h.inStore))
  intro r r' hr hr' hne heq
  exact hne ((h.dates _ (mem_stamps hr) _ (mem_stamps hr')).1 heq)

theorem Dated.of_sublist (h : Dated memory rows) (hsub : ∀ row ∈ rows', row ∈ rows)
    (hnodup : (rows'.map StoredRun.runId).Nodup) : Dated memory rows' := by
  have hstamps : ∀ p ∈ stamps memory rows', p ∈ stamps memory rows := by
    intro p hp
    rcases mem_append.1 hp with hp | hp
    · exact mem_append_left _ hp
    · obtain ⟨row, hrow, rfl⟩ := mem_map.1 hp
      exact mem_append_right _ (mem_map_of_mem (hsub row hrow))
  exact ⟨h.inMemory, hnodup, fun p hp q hq => h.dates p (hstamps p hp) q (hstamps q hq)⟩

/-! ### The listing is the newest runs -/

/-- The rows that are asked for. -/
def fetched (memory : List (ListedRun I)) (rows : List (StoredRun I)) (limit : ℕ) :
    List (StoredRun I) := newest StoredRun.createdAt (limit - memory.length) rows

theorem Dated.fetched (h : Dated memory rows) : Dated memory (fetched memory rows limit) := by
  have hsub : (Runs.fetched memory rows limit).Sublist (newestFirst StoredRun.createdAt rows) :=
    take_sublist _ _
  refine h.of_sublist (fun row hrow => newestFirst_perm.subset (hsub.subset hrow)) ?_
  exact ((newestFirst_perm.map _).nodup_iff.2 h.inStore).sublist (hsub.map _)

/-- A run that only the store has is seen if its row is among those that are asked for. -/
theorem Dated.mem_seen (h : Dated memory rows) (hr : r ∈ storeOnly memory rows) :
    r ∈ allRuns memory (Runs.fetched memory rows limit) ↔
      newer StoredRun.createdAt r.createdAt rows + memory.length < limit := by
  obtain ⟨⟨row, hrow, hrecord⟩, hnew⟩ := mem_storeOnly.1 hr
  obtain ⟨hid, hdate⟩ := record_stamp hrecord
  have hfetched : row ∈ Runs.fetched memory rows limit ↔
      newer StoredRun.createdAt r.createdAt rows + memory.length < limit := by
    rw [Runs.fetched, mem_newest h.rows_nodup, hdate, and_iff_right hrow]
    omega
  rw [← hfetched, allRuns, mem_append]
  constructor
  · rintro (hmem | hmem)
    · exact absurd rfl (hnew r hmem)
    · obtain ⟨⟨row', hrow', hrecord'⟩, -⟩ := mem_storeOnly.1 hmem
      have hrows' : row' ∈ rows := newestFirst_perm.subset (mem_of_mem_take hrow')
      have hsame : row' = row := by
        refine inj_on_of_nodup_map h.inStore hrows' hrow ?_
        rw [← hid, (record_stamp hrecord').1]
      exact hsame ▸ hrow'
  · exact fun hmem => .inr (mem_storeOnly.2 ⟨⟨row, hmem, hrecord⟩, hnew⟩)

theorem listed_eq {store : ℕ → Option (List (StoredRun I))} (h : Dated memory rows)
    (hstore : ∀ k, store k = some (newest StoredRun.createdAt k rows)) :
    listByThread memory (some store) limit =
      newest ListedRun.createdAt limit (allRuns memory (fetched memory rows limit)) := by
  have hfetched : Dated memory (fetched memory rows limit) := h.fetched
  rw [listByThread, hstore]
  dsimp only
  rw [← foldl_addRow hfetched.inStore, fetched]

/-- **The newest runs are listed exactly if they are reached.** The store answers with its newest
rows. -/
theorem listed_newest_iff {store : ℕ → Option (List (StoredRun I))} (h : Dated memory rows)
    (hstore : ∀ k, store k = some (newest StoredRun.createdAt k rows)) (limit : ℕ) :
    listByThread memory (some store) limit =
        newest ListedRun.createdAt limit (allRuns memory rows) ↔
      Reached memory rows limit := by
  have hfetched : Dated memory (fetched memory rows limit) := h.fetched
  have hsub : ∀ row ∈ fetched memory rows limit, row ∈ rows := fun row hrow =>
    newestFirst_perm.subset (mem_of_mem_take hrow)
  rw [listed_eq h hstore]
  constructor
  · intro heq r hr hnewer
    have hwanted : r ∈ newest ListedRun.createdAt limit (allRuns memory rows) :=
      (mem_newest h.allRuns_nodup).2 ⟨mem_append_right _ hr, hnewer⟩
    rw [← heq] at hwanted
    exact (h.mem_seen hr).1 (newestFirst_perm.subset (mem_of_mem_take hwanted))
  · intro hreached
    refine newest_eq h.allRuns_nodup hfetched.allRuns_nodup (fun r hr => ?_) fun r hr => ?_
    · refine mem_append.2 ((mem_append.1 hr).imp_right fun hr => ?_)
      obtain ⟨⟨row, hrow, hrecord⟩, hnew⟩ := mem_storeOnly.1 hr
      exact mem_storeOnly.2 ⟨⟨row, hsub row hrow, hrecord⟩, hnew⟩
    · obtain ⟨hmem, hnewer⟩ := (mem_newest h.allRuns_nodup).1 hr
      rcases mem_append.1 hmem with hmem | hmem
      · exact mem_append_left _ hmem
      · exact (h.mem_seen hmem).2 (hreached r hmem hnewer)

/-- A run that was stored and one that is in memory as well. -/
def demoRows : List (StoredRun Unit) :=
  [⟨"run-1", "thread-1", none, some "success", none, "2026-01-01", ()⟩,
    ⟨"run-2", "thread-1", none, some "running", none, "2026-01-02", ()⟩]

def demoMemory : List (ListedRun Unit) :=
  [⟨"run-2", "thread-1", none, .running, .cancel, "2026-01-02", false, ()⟩]

theorem dated_demo : Dated demoMemory demoRows := ⟨by decide, by decide, by decide⟩

theorem listed_newest_iff_demo :
    listByThread demoMemory (some fun k => some (MemoryRunStore.listByThread demoRows "thread-1"
        none k)) 3 =
        newest ListedRun.createdAt 3 (allRuns demoMemory demoRows) ↔
      Reached demoMemory demoRows 3 :=
  listed_newest_iff dated_demo (fun _ => rfl) 3

/-- **An older run is hidden** behind the row of the record in memory: of two runs one is listed,
where two were asked for. -/
theorem older_run_hidden :
    Dated demoMemory demoRows ∧
      (listByThread demoMemory (some fun k => some (MemoryRunStore.listByThread demoRows "thread-1"
        none k)) 2).map ListedRun.runId = ["run-2"] ∧
      (newest ListedRun.createdAt 2 (allRuns demoMemory demoRows)).map ListedRun.runId =
        ["run-2", "run-1"] :=
  ⟨dated_demo, by decide, by decide⟩

end AfterFlow.Runs
