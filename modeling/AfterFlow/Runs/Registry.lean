import AfterFlow.Runs.Manager

/-!
# The index by thread

`RunManager` keeps its runs twice: `_runs` has the records in the order of their creation, and
`_runs_by_thread` the ids of every thread, so that a thread is read without going through all runs.
`Runs.Manager` reads a thread from the records. Here the index is kept as the source keeps it, the
store may be missing, and its operations fail as they like.
-/

namespace AfterFlow.Runs

open Coop List Function Option

/-- What a store operation raises. -/
inductive StoreFailure where
  | database (locked : Bool)
  | other (detail : String)
  deriving DecidableEq

def StoreFailure.exn : StoreFailure → ManagerExn
  | database locked => .database locked
  | other detail => .other detail

structure Registry extends RunWorld where
  /-- `_runs_by_thread`, the buckets in the order of insertion. -/
  runsByThread : String → Option (List ℕ) := fun _ => none
  /-- What the next store operation raises. -/
  storeFailure : Option StoreFailure := none

abbrev RegistryProc (α : Type) := Coro Registry RunOp RunOp.Reply ManagerExn α

namespace Registry

variable (w : Registry)

/-- Change what is beside the index. -/
def withRuns (runs : RunWorld) : Registry := { w with toRunWorld := runs }

/-- `_index_run_locked`. -/
def indexRunLocked (record : RunRecord) : Registry :=
  let bucket := (w.runsByThread record.threadId).getD []
  { w with
    runsByThread := update w.runsByThread record.threadId
      (some (if record.runId ∈ bucket then bucket else bucket ++ [record.runId])) }

/-- `_unindex_run_locked`. -/
def unindexRunLocked (runId : ℕ) (threadId : String) : Registry :=
  match w.runsByThread threadId with
  | none => w
  | some bucket =>
    let bucket := bucket.filter fun id => id ≠ runId
    { w with
      runsByThread := update w.runsByThread threadId
        (if bucket = [] then none else some bucket) }

/-- `_thread_records_locked`. -/
def threadRecordsLocked (threadId : String) : List RunRecord :=
  ((w.runsByThread threadId).getD []).filterMap w.find?

/-- Insert a pending record, and index it. -/
def insertRun (info : RunInfo) : RunRecord × Registry :=
  let (record, runs) := w.insertRecord info
  (record, (w.withRuns runs).indexRunLocked record)

/-- Pop a record, and drop it from the index. -/
def removeRun (runId : ℕ) (threadId : String) : Registry :=
  (w.withRuns (w.pop runId)).unindexRunLocked runId threadId

/-- The part of `cleanup` under the lock. -/
def cleanup (runId : ℕ) : Registry :=
  match w.find? runId with
  | none => w
  | some record => w.removeRun runId record.threadId

/-- The runs of a thread that are in the way. -/
def inflightLocked (threadId : String) : List ℕ :=
  ((w.threadRecordsLocked threadId).filter RunRecord.inflight).map RunRecord.runId

/-- A call that does not touch the index. -/
def onRuns {α : Type} (f : RunWorld → α × RunWorld) : α × Registry :=
  ((f w.toRunWorld).1, w.withRuns (f w.toRunWorld).2)

/-- An awaited operation. The store raises what `storeFailure` says. -/
def perform : (op : RunOp) → Registry → Except ManagerExn op.Reply × Registry
  | .store runId attempt call, w => match w.storeFailure with
    | some failure => (.error failure.exn, w)
    | none => w.onRuns (RunOp.perform (.store runId attempt call))
  | op, w => w.onRuns op.perform

end Registry

/-! ### The operations -/

namespace Indexed

variable (policy : RetryPolicy) (hasStore : Bool)

/-- `async with self._lock`. -/
def underLock {α : Type} (body : RegistryProc α) : RegistryProc α :=
  Coro.withLock .acquire (fun w => w.withRuns w.release) body

/-- A write to the store, which does not see the index. -/
def toStore {α : Type} (p : RunProc α) : RegistryProc α :=
  p.zoom Registry.toRunWorld fun runs w => w.withRuns runs

/-- `_persist_new_run_to_store`. -/
def persistNewRunToStore (record : RunRecord) : RegistryProc Unit :=
  if hasStore then toStore (Runs.persistNewRunToStore policy record) else return ()

/-- `_persist_status`. -/
def persistStatus (record : RunRecord) (status : RunStatus) (error : Option String := none) :
    RegistryProc Bool :=
  if hasStore then toStore (Runs.persistStatus policy record status error) else return true

/-- The new run in memory and in the store, or in neither. -/
def insertPersisted (info : RunInfo) : RegistryProc RunRecord := do
  let record ← Coro.update fun w => w.insertRun info
  (persistNewRunToStore policy hasStore record).tryCatch fun e => do
    Coro.modify fun w => w.removeRun record.runId record.threadId
    .raise e
  return record

def create (info : RunInfo) : RegistryProc RunRecord :=
  underLock (insertPersisted policy hasStore info)

/-- The part of `create_or_reject` under the lock: the new run, and the interrupted ones. -/
def admitRun (info : RunInfo) : RegistryProc (RunRecord × List RunRecord) := do
  if info.multitaskStrategy = .enqueue then
    .raise (.unsupportedStrategy ("Multitask strategy '" ++ info.multitaskStrategy.value ++
      "' is not yet supported. Supported strategies: reject, interrupt, rollback"))
  else
    let w ← Coro.get
    let inflight := w.inflightLocked info.threadId
    if info.multitaskStrategy = .reject ∧ inflight ≠ [] then
      .raise (.conflict ("Thread " ++ info.threadId ++ " already has an active run"))
    else
      let record ← insertPersisted policy hasStore info
      if info.multitaskStrategy = .reject then return (record, [])
      else
        let interrupted ← Coro.update fun w =>
          w.onRuns (interruptAll info.multitaskStrategy.action inflight)
        return (record, interrupted)

def createOrReject (info : RunInfo) : RegistryProc RunRecord := do
  let (record, interrupted) ← underLock (admitRun policy hasStore info)
  Coro.forEach interrupted fun r => do
    let _ ← persistStatus policy hasStore r .interrupted
    return ()
  return record

def setStatus (runId : ℕ) (status : RunStatus) (error : Option String := none) :
    RegistryProc Unit := do
  let found ← underLock (Coro.update fun w =>
    w.onRuns fun runs => runs.setStatus runId status error)
  match found with
  | none => return ()
  | some record =>
    let _ ← persistStatus policy hasStore record status error
    return ()

def setFinalizing (runId : ℕ) (finalizing : Bool) : RegistryProc Unit :=
  underLock (Coro.update fun w => w.onRuns fun runs =>
    ((), runs.modify runId fun r => { r with finalizing }))

def cancel (runId : ℕ) (action : AbortAction := .interrupt) : RegistryProc Bool := do
  let answer ← underLock (Coro.update fun w => w.onRuns fun runs => runs.cancel runId action)
  match answer with
  | .error known => return known
  | .ok record =>
    let _ ← persistStatus policy hasStore record .interrupted
    return true

def cleanup (runId : ℕ) (delay : ℚ := 300) : RegistryProc Unit := do
  if delay > 0 then
    let _ ← Coro.call .sleep
  underLock (Coro.update fun w => ((), w.cleanup runId))

end Indexed

/-! ### What the index says -/

namespace Registry

/-- The index lists the runs of every thread in the order of their creation, and has no empty
bucket. -/
structure Exact (w : Registry) : Prop where
  creation : (w.runs.map RunRecord.runId).Pairwise (· < ·)
  fresh : ∀ r ∈ w.runs, r.runId < w.uuids
  lists : ∀ t, (w.runsByThread t).getD [] = (w.threadRecords t).map RunRecord.runId
  full : ∀ t, w.runsByThread t ≠ some []

end Registry

/-- What a record is indexed by. -/
def RunRecord.place (r : RunRecord) : ℕ × String := (r.runId, r.threadId)

/-- A record but for its task, which is attached and ends without the lock. -/
def RunRecord.still (r : RunRecord) : RunRecord := { r with task := none }

/-- What the lock protects: the records in their order, and the index. -/
def Registry.face (w : Registry) : List RunRecord × (String → Option (List ℕ)) :=
  (w.runs.map RunRecord.still, w.runsByThread)

namespace Registry.Exact

variable {w w' : Registry} {t : String} {runId : ℕ} {info : RunInfo}

theorem runsByThread_eq (h : w.Exact) (t : String) : w.runsByThread t =
    if w.threadRecords t = [] then none else some ((w.threadRecords t).map RunRecord.runId) := by
  have hlists := h.lists t
  have hfull := h.full t
  cases hbucket : w.runsByThread t with
  | none =>
    rw [hbucket, getD_none] at hlists
    rw [if_pos (map_eq_nil_iff.1 hlists.symm)]
  | some bucket =>
    rw [hbucket, getD_some] at hlists
    rw [hbucket, hlists] at hfull
    rw [hlists, if_neg]
    rintro hnil
    exact hfull (by rw [hnil, map_nil])

theorem map_threadRecords (runs : RunWorld) (t : String) :
    (runs.threadRecords t).map RunRecord.runId =
      ((runs.runs.map RunRecord.place).filter fun p => p.2 = t).map Prod.fst := by
  rw [RunWorld.threadRecords, List.filter_map, List.map_map]
  rfl

theorem index_eq (h : w.Exact) (h' : w'.Exact)
    (hplaces : w'.runs.map RunRecord.place = w.runs.map RunRecord.place) :
    w'.runsByThread = w.runsByThread := by
  funext t
  have hids : (w'.threadRecords t).map RunRecord.runId =
      (w.threadRecords t).map RunRecord.runId := by
    rw [map_threadRecords, map_threadRecords, hplaces]
  have hnil : w'.threadRecords t = [] ↔ w.threadRecords t = [] := by
    rw [← map_eq_nil_iff (f := RunRecord.runId), hids, map_eq_nil_iff]
  rw [h.runsByThread_eq, h'.runsByThread_eq, hids]
  simp only [hnil]

theorem of_places (h : w.Exact) (hplaces : w'.runs.map RunRecord.place = w.runs.map RunRecord.place)
    (hindex : w'.runsByThread = w.runsByThread) (huuids : w'.uuids = w.uuids) : w'.Exact := by
  have hids : w'.runs.map RunRecord.runId = w.runs.map RunRecord.runId := by
    have := congrArg (List.map Prod.fst) hplaces
    rwa [List.map_map, List.map_map] at this
  refine ⟨hids ▸ h.creation, fun r hr => ?_, fun t => ?_, fun t => hindex ▸ h.full t⟩
  · have hmem : r.runId ∈ w.runs.map RunRecord.runId := hids ▸ List.mem_map_of_mem hr
    obtain ⟨r₀, hr₀, hid⟩ := List.mem_map.1 hmem
    rw [← hid, huuids]
    exact h.fresh r₀ hr₀
  · rw [hindex, h.lists, map_threadRecords, map_threadRecords, hplaces]

theorem find?_of_mem {runs : List RunRecord} {r : RunRecord}
    (h : (runs.map RunRecord.runId).Pairwise (· < ·)) (hr : r ∈ runs) :
    runs.find? (fun r' => r'.runId = r.runId) = some r := by
  induction runs with
  | nil => exact absurd hr not_mem_nil
  | cons a runs ih =>
    obtain ⟨ha, hrest⟩ := pairwise_cons.1 h
    rcases mem_cons.1 hr with rfl | hr
    · exact find?_cons_of_pos (by simp)
    · have hlt := ha r.runId (mem_map_of_mem hr)
      rw [find?_cons_of_neg (by simpa using hlt.ne), ih hrest hr]

/-- **A thread read by the index** is the thread read from the records. -/
theorem threadRecordsLocked (h : w.Exact) (t : String) :
    w.threadRecordsLocked t = w.threadRecords t := by
  have hfind : ∀ r ∈ w.runs, w.find? r.runId = some r := fun r => find?_of_mem h.creation
  rw [Registry.threadRecordsLocked, h.lists, filterMap_map]
  have hsome : ∀ r ∈ w.threadRecords t, (w.find? ∘ RunRecord.runId) r = some r := fun r hr =>
    hfind r (mem_filter.1 hr).1
  rw [filterMap_congr hsome, filterMap_some]

theorem inflightLocked (h : w.Exact) (t : String) : w.inflightLocked t = w.inflight t := by
  rw [Registry.inflightLocked, h.threadRecordsLocked, RunWorld.inflight]

/-! ### What keeps the index exact -/

theorem getD_unindexRunLocked (w : Registry) (runId : ℕ) (t t' : String) :
    ((w.unindexRunLocked runId t).runsByThread t').getD [] =
      if t' = t then ((w.runsByThread t).getD []).filter (fun id => id ≠ runId)
      else (w.runsByThread t').getD [] := by
  rw [unindexRunLocked]
  by_cases ht : t' = t
  · subst ht
    rw [if_pos rfl]
    cases hbucket : w.runsByThread t' with
    | none => simp [hbucket]
    | some bucket =>
      simp only [update_self, getD_some]
      split
      · next hnil => rw [hnil, getD_none]
      · rfl
  · rw [if_neg ht]
    cases w.runsByThread t with
    | none => rfl
    | some bucket => exact congrArg (getD · []) (update_of_ne ht _ _)

theorem full_unindexRunLocked (h : ∀ t, w.runsByThread t ≠ some []) (runId : ℕ) (t t' : String) :
    (w.unindexRunLocked runId t).runsByThread t' ≠ some [] := by
  rw [unindexRunLocked]
  cases w.runsByThread t with
  | none => exact h t'
  | some bucket =>
    by_cases ht : t' = t
    · subst ht
      simp only [update_self]
      split
      · simp
      · next hne => simpa using hne
    · simp only [update_of_ne ht]
      exact h t'

@[simp] theorem unindexRunLocked_toRunWorld (w : Registry) (runId : ℕ) (t : String) :
    (w.unindexRunLocked runId t).toRunWorld = w.toRunWorld := by
  rw [unindexRunLocked]
  cases w.runsByThread t <;> rfl

theorem runs_insertRun (w : Registry) (info : RunInfo) :
    (w.insertRun info).2.runs = w.runs ++ [(w.insertRun info).1] := rfl

theorem runsByThread_insertRun (h : w.Exact) (info : RunInfo) (t : String) :
    (w.insertRun info).2.runsByThread t = if t = info.threadId then
      some ((w.runsByThread t).getD [] ++ [w.uuids]) else w.runsByThread t := by
  show update w.runsByThread info.threadId _ t = _
  by_cases ht : t = info.threadId
  · subst ht
    have hnot : w.uuids ∉ (w.runsByThread info.threadId).getD [] := fun hmem => by
      rw [h.lists] at hmem
      obtain ⟨r, hr, hid⟩ := mem_map.1 hmem
      exact (h.fresh r (mem_filter.1 hr).1).ne hid
    rw [update_self, if_pos rfl]
    exact congrArg some (if_neg hnot)
  · rw [update_of_ne ht, if_neg ht]

/-- **A creation** keeps the index exact. -/
theorem insertRun (h : w.Exact) (info : RunInfo) : (w.insertRun info).2.Exact := by
  refine ⟨?_, fun r hr => ?_, fun t => ?_, fun t => ?_⟩
  · rw [runs_insertRun, map_append, pairwise_append]
    refine ⟨h.creation, pairwise_singleton _ _, fun id hid id' hid' => ?_⟩
    obtain ⟨r, hr, rfl⟩ := mem_map.1 hid
    obtain rfl := mem_singleton.1 hid'
    exact h.fresh r hr
  · rw [runs_insertRun] at hr
    rcases mem_append.1 hr with hr | hr
    · exact (h.fresh r hr).trans (Nat.lt_succ_self _)
    · obtain rfl := mem_singleton.1 hr
      exact Nat.lt_succ_self _
  · have hthread : (w.insertRun info).1.threadId = info.threadId := rfl
    rw [runsByThread_insertRun h, RunWorld.threadRecords, runs_insertRun, filter_append,
      map_append]
    split
    · next ht =>
      rw [getD_some, h.lists, filter_singleton, hthread, decide_eq_true ht.symm]
      rfl
    · next ht =>
      rw [filter_singleton, hthread, decide_eq_false (Ne.symm ht), h.lists]
      exact (append_nil _).symm
  · rw [runsByThread_insertRun h]
    split
    · simp
    · exact h.full t

theorem locked_removeRun (w : Registry) (runId : ℕ) (threadId : String) :
    (w.removeRun runId threadId).locked = w.locked := by
  rw [Registry.removeRun, unindexRunLocked_toRunWorld]
  rfl

theorem runs_removeRun (w : Registry) (runId : ℕ) (threadId : String) :
    (w.removeRun runId threadId).runs = w.runs.filter fun r => r.runId ≠ runId := by
  rw [Registry.removeRun, unindexRunLocked_toRunWorld]
  rfl

/-- **A removal** keeps the index exact, where the thread is the one of the run. -/
theorem removeRun (h : w.Exact) {threadId : String}
    (hthread : ∀ r ∈ w.runs, r.runId = runId → r.threadId = threadId) :
    (w.removeRun runId threadId).Exact := by
  have huuids : (w.removeRun runId threadId).uuids = w.uuids := by
    rw [Registry.removeRun, unindexRunLocked_toRunWorld]
    rfl
  refine ⟨?_, fun r hr => ?_, fun t => ?_, fun t => ?_⟩
  · rw [runs_removeRun]
    exact h.creation.sublist (filter_sublist.map _)
  · rw [runs_removeRun] at hr
    rw [huuids]
    exact h.fresh r (mem_filter.1 hr).1
  · rw [Registry.removeRun, getD_unindexRunLocked, RunWorld.threadRecords, ← Registry.removeRun,
      runs_removeRun, List.filter_filter]
    show (if t = threadId then ((w.runsByThread threadId).getD []).filter _
      else (w.runsByThread t).getD []) = _
    split
    · next ht =>
      subst ht
      rw [h.lists, List.filter_map, RunWorld.threadRecords, List.filter_filter]
      refine congrArg _ (List.filter_congr fun r _ => ?_)
      exact Bool.and_comm _ _
    · next ht =>
      rw [h.lists, RunWorld.threadRecords]
      refine congrArg _ (List.filter_congr fun r hr => ?_)
      by_cases hid : r.runId = runId
      · have hother : r.threadId ≠ t := fun heq => ht (heq.symm.trans (hthread r hr hid))
        simp [hother]
      · simp [hid]
  · exact full_unindexRunLocked (w := w.withRuns (w.pop runId)) h.full runId threadId t

theorem cleanup (h : w.Exact) (runId : ℕ) : (w.cleanup runId).Exact := by
  rw [Registry.cleanup]
  cases hfind : w.find? runId with
  | none => exact h
  | some record =>
    have hid : record.runId = runId := by simpa using find?_some hfind
    refine h.removeRun fun r hr hrid => ?_
    have hr' := find?_of_mem h.creation hr
    rw [hrid] at hr'
    exact congrArg (fun r : RunRecord => r.threadId) (some.inj (hr'.symm.trans hfind))

theorem locked_cleanup (w : Registry) (runId : ℕ) : (w.cleanup runId).locked = w.locked := by
  rw [Registry.cleanup]
  cases w.find? runId with
  | none => rfl
  | some record => exact locked_removeRun w runId record.threadId

/-- **A creation that is taken back** leaves what was there, whatever happened to the tasks in
between. -/
theorem removeRun_insertRun (h : w.Exact) (h' : w'.Exact)
    (hface : w'.face = (w.insertRun info).2.face) :
    (w'.removeRun (w.insertRun info).1.runId (w.insertRun info).1.threadId).Exact ∧
      (w'.removeRun (w.insertRun info).1.runId (w.insertRun info).1.threadId).face = w.face := by
  set record := (w.insertRun info).1 with hrecord
  have hstill : w'.runs.map RunRecord.still = w.runs.map RunRecord.still ++ [record.still] := by
    have := congrArg Prod.fst hface
    rwa [Registry.face, Registry.face, runs_insertRun, map_append] at this
  have hthread : ∀ r ∈ w'.runs, r.runId = record.runId → r.threadId = record.threadId := by
    intro r hr hid
    have hmem : r.still ∈ w'.runs.map RunRecord.still := mem_map_of_mem hr
    rw [hstill, mem_append, mem_singleton] at hmem
    rcases hmem with hmem | hmem
    · obtain ⟨r₀, hr₀, heq⟩ := mem_map.1 hmem
      have hold : r₀.still.runId = r.still.runId := congrArg RunRecord.runId heq
      exact absurd (hold.trans hid) (h.fresh r₀ hr₀).ne
    · have hnew : r.still.threadId = record.still.threadId :=
        congrArg (fun r : RunRecord => r.threadId) hmem
      exact hnew
  have hruns : (w'.removeRun record.runId record.threadId).runs.map RunRecord.still =
      w.runs.map RunRecord.still := by
    rw [runs_removeRun]
    have hcomm : (w'.runs.filter fun r => r.runId ≠ record.runId).map RunRecord.still =
        (w'.runs.map RunRecord.still).filter fun r => r.runId ≠ record.runId := by
      rw [List.filter_map]
      rfl
    have hkeep : (w.runs.map RunRecord.still).filter (fun r => r.runId ≠ record.runId) =
        w.runs.map RunRecord.still := by
      refine filter_eq_self.2 fun r hr => ?_
      obtain ⟨r₀, hr₀, rfl⟩ := mem_map.1 hr
      exact decide_eq_true (h.fresh r₀ hr₀).ne
    have hdrop : [record.still].filter (fun r => r.runId ≠ record.runId) = [] :=
      filter_eq_nil_iff.2 fun r hr => by
        rw [mem_singleton.1 hr]
        simp [RunRecord.still]
    rw [hcomm, hstill, filter_append, hkeep, hdrop, append_nil]
  have hplaces : ∀ runs : List RunRecord,
      runs.map RunRecord.place = (runs.map RunRecord.still).map RunRecord.place := fun runs => by
    rw [List.map_map]
    rfl
  refine ⟨h'.removeRun hthread, Prod.ext hruns (h.index_eq (h'.removeRun hthread) ?_)⟩
  rw [hplaces, hruns, ← hplaces]

end Registry.Exact

/-! ### Calls that do not touch the index -/

/-- The same runs are there, in the same threads. -/
structure RunWorld.SamePlaces (w w' : RunWorld) : Prop where
  places : w'.runs.map RunRecord.place = w.runs.map RunRecord.place
  uuids : w'.uuids = w.uuids
  locked : w'.locked = w.locked

namespace RunWorld.SamePlaces

variable {w w' w'' : RunWorld} {runId : ℕ}

theorem refl : w.SamePlaces w := ⟨rfl, rfl, rfl⟩

theorem trans (h : w.SamePlaces w') (h' : w'.SamePlaces w'') : w.SamePlaces w'' :=
  ⟨h'.places.trans h.places, h'.uuids.trans h.uuids, h'.locked.trans h.locked⟩

theorem modify (w : RunWorld) (runId : ℕ) {f : RunRecord → RunRecord}
    (hf : ∀ r, (f r).place = r.place) : w.SamePlaces (w.modify runId f) := by
  refine ⟨?_, rfl, rfl⟩
  rw [RunWorld.modify, List.map_map]
  refine List.map_congr_left fun r _ => ?_
  show (if r.runId = runId then f r else r).place = r.place
  split
  · exact hf r
  · rfl

theorem transition (w : RunWorld) (runId : ℕ) (status : RunStatus) {f : RunRecord → RunRecord}
    (hf : ∀ r, (f r).place = r.place) : w.SamePlaces (w.transition runId status f) :=
  have h := modify w runId (f := fun r => { f r with status }) fun r => hf r
  ⟨h.places, h.uuids, h.locked⟩

theorem interruptAll (w : RunWorld) (action : AbortAction) (ids : List ℕ) :
    w.SamePlaces (Runs.interruptAll action ids w).2 := by
  refine interruptAll_invariant (P := fun w' => w.SamePlaces w') (fun w' id _ h => ?_) refl
  have hone : w'.SamePlaces (w'.interrupt id action) :=
    transition w' id .interrupted (f := fun r => r.abort action) fun _ => rfl
  exact h.trans hone

theorem setStatus (w : RunWorld) (runId : ℕ) (status : RunStatus) (error : Option String) :
    w.SamePlaces (w.setStatus runId status error).2 := by
  rw [RunWorld.setStatus]
  cases w.find? runId with
  | none => exact refl
  | some r => exact transition w runId status fun _ => rfl

theorem cancel (w : RunWorld) (runId : ℕ) (action : AbortAction) :
    w.SamePlaces (w.cancel runId action).2 := by
  rw [RunWorld.cancel]
  cases w.find? runId with
  | none => exact refl
  | some r =>
    dsimp only
    split
    · exact refl
    split
    · exact refl
    exact transition w runId .interrupted fun _ => rfl

end RunWorld.SamePlaces

theorem Registry.Exact.withRuns {w : Registry} {runs : RunWorld} (h : w.Exact)
    (hruns : w.toRunWorld.SamePlaces runs) : (w.withRuns runs).Exact :=
  h.of_places hruns.places rfl hruns.uuids

end AfterFlow.Runs
