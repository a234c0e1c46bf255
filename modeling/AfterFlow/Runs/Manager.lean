import AfterFlow.Coop.Lock
import AfterFlow.Runs.Config
import Mathlib.Algebra.Order.Ring.Unbundled.Rat

/-!
# The run manager

`manager.py`: the registry of runs in memory, and the rows of a store behind it. The registry
changes under one lock. The rows follow after the lock is released, each write being tried again
while the store says it is locked, up to the attempts of a policy. Only a new run is written under
the lock, so that nobody sees a run without a row.

Records are references in the source: whoever holds one sees it change. A held record is looked up
again here wherever the source reads it. The gateway always gives the manager a store.

## History

`RunWorld.owed` and `RunWorld.log` are proof-only: the statuses that were announced in memory and
whose write is not over, and the order in which statuses changed and runs executed. No operation
reads them.
-/

namespace AfterFlow.Runs

open Coop

inductive RunStatus where
  | pending
  | running
  | success
  | error
  | timeout
  | interrupted
  deriving DecidableEq

/-- `multitask_strategy`. -/
inductive Strategy where
  | reject
  | interrupt
  | rollback
  | enqueue
  deriving DecidableEq

def Strategy.value : Strategy → String
  | reject => "reject"
  | interrupt => "interrupt"
  | rollback => "rollback"
  | enqueue => "enqueue"

/-- What to do with the checkpoint of a run that is cancelled. -/
inductive AbortAction where
  | interrupt
  | rollback
  deriving DecidableEq

/-- A handle of a task. A cancellation that was requested reaches the task at its next await. -/
structure RunTask where
  begun : Bool := false
  done : Bool := false
  cancelRequested : Bool := false
  deriving DecidableEq

/-- The figures and texts a completed run leaves. -/
structure Usage where
  totalInputTokens : ℕ := 0
  totalOutputTokens : ℕ := 0
  totalTokens : ℕ := 0
  llmCallCount : ℕ := 0
  leadAgentTokens : ℕ := 0
  subagentTokens : ℕ := 0
  middlewareTokens : ℕ := 0
  messageCount : ℕ := 0
  lastAiMessage : Option String := none
  firstHumanMessage : Option String := none
  deriving DecidableEq

/-- Overwrite what is given. -/
def Usage.update (old new : Usage) : Usage :=
  { new with
    lastAiMessage := new.lastAiMessage.orElse fun _ => old.lastAiMessage
    firstHumanMessage := new.firstHumanMessage.orElse fun _ => old.firstHumanMessage }

/-- What does not change after a run is created. -/
structure RunInfo where
  threadId : String
  assistantId : Option String := none
  multitaskStrategy : Strategy := .reject
  metadata : Fields := []
  kwargs : Fields := []
  userId : Option String := none
  modelName : Option String := none

structure RunRecord extends RunInfo where
  runId : ℕ
  createdAt : ℕ
  status : RunStatus := .pending
  error : Option String := none
  usage : Usage := {}
  task : Option RunTask := none
  abortEvent : Bool := false
  abortAction : AbortAction := .interrupt
  finalizing : Bool := false

structure RunRow extends RunInfo where
  createdAt : ℕ
  status : RunStatus
  error : Option String
  usage : Usage := {}

/-- The exceptions of the manager and its callers. `cancelled` is no `Exception`. -/
inductive ManagerExn where
  | service (e : RunExn)
  | conflict (detail : String)
  | unsupportedStrategy (detail : String)
  | database (locked : Bool)
  | other (detail : String)
  | cancelled
  deriving DecidableEq

/-- `_is_retryable_persistence_error`. -/
def isRetryable : ManagerExn → Bool
  | .database locked => locked
  | _ => false

/-- The store operations that write a row. -/
inductive StoreCall where
  | put (payload : RunRow)
  | updateStatus (status : RunStatus) (error : Option String)
  | updateRunCompletion (status : RunStatus) (usage : Usage) (error : Option String)

/-- The status a store operation writes. -/
def StoreCall.status : StoreCall → RunStatus
  | put payload => payload.status
  | updateStatus status _ => status
  | updateRunCompletion status .. => status

/-- What happened to a run. -/
inductive RunMark where
  | status (runId : ℕ) (status : RunStatus)
  | executes (runId : ℕ)
  | cleaned (runId : ℕ)
  deriving DecidableEq

/-- What a worker does outside the manager. -/
inductive WorkerStep where
  | captureWorkspace
  | readCheckpoint
  | begin
  | publish
  | rollback
  | publishError
  | flushEvents
  | recordWorkspace
  | flushJournal
  | interruptedTitle
  | syncTitle
  | threadStatus
  | completedHook
  | publishEnd
  deriving DecidableEq

/-- What is asked of the world outside the manager. The last await of `start_run` comes with the run
it is for. -/
inductive Query where
  | checkAccess (threadId userId : String)
  | goalThreadLock (threadId : String)
  | threadOwner (threadId : String) (asUser : Bool)
  | threadWrite (threadId : String)
  | checkpoint (read : ReadConfig)
  | internalOwner (runId : ℕ)
  | worker (runId : ℕ) (step : WorkerStep)
  | chunk (runId : ℕ)
  | continuation (runId : ℕ)

/-- What the stream of a graph gives: its end, or a chunk with the text of a failed model call, if
it has one. -/
inductive Chunk where
  | done
  | next (llmError : Option String)
  deriving DecidableEq

@[reducible] def Query.Reply : Query → Type
  | .checkAccess .. => Bool
  | .goalThreadLock _ => Unit
  | .threadOwner .. => Option (Option String)
  | .threadWrite _ => Unit
  | .checkpoint _ => Bool
  | .internalOwner _ => Unit
  | .worker .. => Unit
  | .chunk _ => Chunk
  | .continuation _ => Bool

structure RunWorld where
  /-- `_runs`, in the order of insertion. -/
  runs : List RunRecord := []
  rows : ℕ → Option RunRow := fun _ => none
  locked : Bool := false
  /-- The next run id. -/
  uuids : ℕ := 0
  now : ℕ := 0
  /-- What the world outside the manager answers, or the text of the exception it raises. -/
  outside : (q : Query) → Except String q.Reply
  owed : Multiset (ℕ × RunStatus) := 0
  log : List RunMark := []

/-- What is awaited. A store operation comes with the number of its attempt. -/
inductive RunOp where
  | acquire
  | store (runId attempt : ℕ) (call : StoreCall)
  | sleep
  | outside (q : Query)
  /-- What nobody ever answers. -/
  | never

@[reducible] def RunOp.Reply : RunOp → Type
  | .acquire => Unit
  | .store .. => Bool
  | .sleep => Unit
  | .outside q => q.Reply
  | .never => Empty

abbrev RunProc (α : Type) := Coro RunWorld RunOp RunOp.Reply ManagerExn α

/-! ### The registry -/

namespace RunWorld

variable (w : RunWorld)

def find? (runId : ℕ) : Option RunRecord := w.runs.find? fun r => r.runId = runId

/-- `_thread_records_locked`. -/
def threadRecords (threadId : String) : List RunRecord :=
  w.runs.filter fun r => r.threadId = threadId

/-- Change one record. -/
def modify (runId : ℕ) (f : RunRecord → RunRecord) : RunWorld :=
  { w with runs := w.runs.map fun r => if r.runId = runId then f r else r }

/-- Change a status, and announce it. -/
def transition (runId : ℕ) (status : RunStatus) (f : RunRecord → RunRecord) : RunWorld :=
  { w.modify runId fun r => { f r with status } with
    owed := (runId, status) ::ₘ w.owed
    log := w.log ++ [.status runId status] }

/-- The write of an announced status is over. -/
def settled (runId : ℕ) (status : RunStatus) : RunWorld :=
  { w with owed := w.owed.erase (runId, status) }

def release : RunWorld := { w with locked := false }

/-- Put a row as a snapshot says. A row that is there keeps its birth and its figures. -/
def putRow (runId : ℕ) (payload : RunRow) : RunWorld :=
  { w with rows := Function.update w.rows runId (some (match w.rows runId with
    | none => payload
    | some row => { payload with createdAt := row.createdAt, usage := row.usage })) }

/-- Change a row, if it is there. -/
def modifyRow (runId : ℕ) (f : RunRow → RunRow) : RunWorld :=
  { w with rows := Function.update w.rows runId ((w.rows runId).map f) }

end RunWorld

def StoreCall.perform (runId : ℕ) (w : RunWorld) : StoreCall → Bool × RunWorld
  | put payload => (true, w.putRow runId payload)
  | updateStatus status error => ((w.rows runId).isSome, w.modifyRow runId fun row =>
      { row with status, error := error.orElse fun _ => row.error })
  | updateRunCompletion status usage error => ((w.rows runId).isSome, w.modifyRow runId fun row =>
      { row with status, usage := row.usage.update usage, error := error.orElse fun _ => row.error })

@[grind =] def RunOp.perform : (op : RunOp) → RunWorld → Except ManagerExn op.Reply × RunWorld
  | .acquire, w => (.ok (), { w with locked := true })
  | .store runId _ call, w => (.ok (call.perform runId w).1, (call.perform runId w).2)
  | .sleep, w => (.ok (), w)
  | .outside q, w => ((w.outside q).mapError .other, w)
  | .never, w => (.error .cancelled, w)

/-- Await one operation. -/
abbrev runAwait (op : RunOp) : RunProc op.Reply := Coro.call op

/-- `async with self._lock`. -/
def underLock {α : Type} (body : RunProc α) : RunProc α :=
  Coro.withLock .acquire RunWorld.release body

/-- `try: p except Exception as e: h e`. -/
def catchException {α : Type} (p : RunProc α) (h : ManagerExn → RunProc α) : RunProc α :=
  p.tryCatch fun e => if e = .cancelled then .raise e else h e

/-! ### Writing to the store -/

/-- `PersistenceRetryPolicy`. -/
structure RetryPolicy where
  maxAttempts : ℕ := 5
  initialDelay : ℚ := 1 / 20
  maxDelay : ℚ := 1
  backoffFactor : ℚ := 2

variable (policy : RetryPolicy)

/-- The attempts of a store operation, with how many are left after this one. -/
@[grind =] def retrying (runId : ℕ) (call : StoreCall) : (left attempt : ℕ) → (delay : ℚ) → RunProc Bool
  | 0, attempt, _ => runAwait (.store runId attempt call)
  | left + 1, attempt, delay =>
    let next := retrying runId call left (attempt + 1)
      (min policy.maxDelay (if delay = 0 then policy.initialDelay else delay * policy.backoffFactor))
    (runAwait (.store runId attempt call)).tryCatch fun e =>
      if ¬ isRetryable e then .raise e
      else if delay > 0 then (runAwait .sleep).bind fun _ => next
      else next

/-- `_call_store_with_retry`. -/
def callStoreWithRetry (runId : ℕ) (call : StoreCall) : RunProc Bool :=
  retrying policy runId call (policy.maxAttempts - 1) 1 policy.initialDelay

/-- `_store_put_payload`. -/
def RunRecord.payload (r : RunRecord) (error : Option String := none) : RunRow :=
  { toRunInfo := r.toRunInfo, createdAt := r.createdAt, status := r.status
    error := error.orElse fun _ => r.error }

/-- `_persist_snapshot_to_store`. -/
def persistSnapshotToStore (runId : ℕ) (payload : RunRow) : RunProc Bool :=
  catchException (do
      let _ ← callStoreWithRetry policy runId (.put payload)
      return true)
    fun _ => return false

/-- `_persist_new_run_to_store`. -/
def persistNewRunToStore (record : RunRecord) : RunProc Unit := do
  let _ ← callStoreWithRetry policy record.runId (.put record.payload)
  return ()

/-- `_persist_status`. -/
def persistStatus (record : RunRecord) (status : RunStatus) (error : Option String := none) :
    RunProc Bool := do
  let w ← Coro.get
  let payload := ((w.find? record.runId).getD record).payload error
  let persisted ← catchException (do
      let updated ← callStoreWithRetry policy record.runId (.updateStatus status error)
      if updated then return true
      else persistSnapshotToStore policy record.runId payload)
    fun _ => return false
  Coro.modify fun w => w.settled record.runId status
  return persisted

/-! ### The operations -/

/-- The part of `set_status` under the lock. -/
def RunWorld.setStatus (w : RunWorld) (runId : ℕ) (status : RunStatus) (error : Option String) :
    Option RunRecord × RunWorld :=
  match w.find? runId with
  | none => (none, w)
  | some record => (some record, w.transition runId status fun r =>
      { r with error := error.orElse fun _ => r.error })

def setStatus (runId : ℕ) (status : RunStatus) (error : Option String := none) : RunProc Unit := do
  let found ← underLock (Coro.update fun w => w.setStatus runId status error)
  match found with
  | none => return ()
  | some record =>
    let _ ← persistStatus policy record status error
    return ()

def setFinalizing (runId : ℕ) (finalizing : Bool) : RunProc Unit :=
  underLock (Coro.update fun w => ((), w.modify runId fun r => { r with finalizing }))

/-- Mark a run interrupted, and cancel its task if there is one. -/
def RunRecord.abort (action : AbortAction) (r : RunRecord) : RunRecord :=
  let taskActive := r.task.any fun t => ¬ t.done
  { r with
    abortAction := action
    abortEvent := true
    finalizing := taskActive
    task := if taskActive then r.task.map fun t => { t with cancelRequested := true } else r.task }

def RunWorld.interrupt (w : RunWorld) (runId : ℕ) (action : AbortAction) : RunWorld :=
  w.transition runId .interrupted fun r => r.abort action

/-- The part of `cancel` under the lock: an answer at once, or the interrupted record. -/
def RunWorld.cancel (w : RunWorld) (runId : ℕ) (action : AbortAction) :
    Except Bool RunRecord × RunWorld :=
  match w.find? runId with
  | none => (.error false, w)
  | some record =>
    if record.status = .interrupted then (.error true, w)
    else if record.status ≠ .pending ∧ record.status ≠ .running then (.error false, w)
    else (.ok record, w.interrupt runId action)

def cancel (runId : ℕ) (action : AbortAction := .interrupt) : RunProc Bool := do
  let answer ← underLock (Coro.update fun w => w.cancel runId action)
  match answer with
  | .error known => return known
  | .ok record =>
    let _ ← persistStatus policy record .interrupted
    return true

/-- Whether a run is in the way of another one. -/
def RunRecord.inflight (r : RunRecord) : Bool :=
  r.status = .pending ∨ r.status = .running ∨ r.finalizing

/-- The runs of a thread that are in the way. -/
def RunWorld.inflight (w : RunWorld) (threadId : String) : List ℕ :=
  ((w.threadRecords threadId).filter RunRecord.inflight).map RunRecord.runId

/-- How a strategy aborts a run. -/
def Strategy.action : Strategy → AbortAction
  | rollback => .rollback
  | _ => .interrupt

/-- Insert a pending record. Ids are drawn here: nothing reads one earlier. -/
def RunWorld.insertRecord (w : RunWorld) (info : RunInfo) : RunRecord × RunWorld :=
  let record : RunRecord := { toRunInfo := info, runId := w.uuids, createdAt := w.now }
  (record, { w with runs := w.runs ++ [record], uuids := w.uuids + 1 })

/-- `self._runs.pop(run_id)`. -/
def RunWorld.pop (w : RunWorld) (runId : ℕ) : RunWorld :=
  { w with runs := w.runs.filter fun r => r.runId ≠ runId }

/-- Interrupt the runs in the way, except those that are finalizing. -/
@[grind =] def interruptAll (action : AbortAction) : List ℕ → RunWorld → List RunRecord × RunWorld
  | [], w => ([], w)
  | runId :: runIds, w => match w.find? runId with
    | none => interruptAll action runIds w
    | some r =>
      if r.finalizing then interruptAll action runIds w
      else
        let (rest, w') := interruptAll action runIds (w.interrupt runId action)
        (r :: rest, w')

theorem interruptAll_invariant {P : RunWorld → Prop} {action : AbortAction} {runIds : List ℕ}
    (hone : ∀ w, ∀ runId ∈ runIds, P w → P (w.interrupt runId action)) {w : RunWorld} (h : P w) :
    P (interruptAll action runIds w).2 := by
  induction runIds generalizing w with
  | nil => exact h
  | cons runId runIds ih =>
    have hrest : ∀ w, ∀ id ∈ runIds, P w → P (w.interrupt id action) := fun w id hid =>
      hone w id (List.mem_cons_of_mem _ hid)
    rw [interruptAll]
    cases w.find? runId with
    | none => exact ih hrest h
    | some r =>
      dsimp only
      split
      · exact ih hrest h
      · exact ih hrest (hone w runId List.mem_cons_self h)

/-- The part of `create_or_reject` under the lock: the new run, and the interrupted ones. -/
def admitRun (info : RunInfo) : RunProc (RunRecord × List RunRecord) := do
  if info.multitaskStrategy = .enqueue then
    .raise (.unsupportedStrategy ("Multitask strategy '" ++ info.multitaskStrategy.value ++
      "' is not yet supported. Supported strategies: reject, interrupt, rollback"))
  else
    let w ← Coro.get
    if info.multitaskStrategy = .reject ∧ w.inflight info.threadId ≠ [] then
      .raise (.conflict ("Thread " ++ info.threadId ++ " already has an active run"))
    else
      let record ← Coro.update fun w => w.insertRecord info
      (persistNewRunToStore policy record).tryCatch fun e => do
        Coro.modify fun w => w.pop record.runId
        .raise e
      if info.multitaskStrategy = .reject then return (record, [])
      else
        let interrupted ← Coro.update
          (interruptAll info.multitaskStrategy.action (w.inflight info.threadId))
        return (record, interrupted)

def createOrReject (info : RunInfo) : RunProc RunRecord := do
  let (record, interrupted) ← underLock (admitRun policy info)
  Coro.forEach interrupted fun r => do
    let _ ← persistStatus policy r .interrupted
    return ()
  return record

/-- The arguments of `update_run_completion`. -/
structure CompletionData where
  status : RunStatus
  usage : Usage
  error : Option String := none

/-- Overwrite the figures of a record. The status is for the store only. -/
def RunRecord.complete (r : RunRecord) (data : CompletionData) : RunRecord :=
  { r with
    usage := r.usage.update data.usage
    error := data.error.orElse fun _ => r.error }

/-- The part of `update_run_completion` under the lock. -/
def RunWorld.complete (w : RunWorld) (runId : ℕ) (data : CompletionData) :
    Option RunRow × RunWorld :=
  ((w.find? runId).map fun r => (r.complete data).payload data.error,
    w.modify runId fun r => r.complete data)

/-- The write of a completion. -/
def callCompletion (runId : ℕ) (data : CompletionData) : RunProc Bool :=
  callStoreWithRetry policy runId (.updateRunCompletion data.status data.usage data.error)

/-- Write a completion, and once more if the row had to be put back. -/
def writeCompletion (runId : ℕ) (data : CompletionData) (recovery : Option RunRow) :
    RunProc Unit := do
  let updated ← callCompletion policy runId data
  if updated then return ()
  else match recovery with
    | none => return ()
    | some payload =>
      let persisted ← persistSnapshotToStore policy runId payload
      if persisted then
        let _ ← callCompletion policy runId data
        return ()
      else return ()

def updateRunCompletion (runId : ℕ) (data : CompletionData) : RunProc Unit := do
  let recovery ← underLock (Coro.update fun w => w.complete runId data)
  catchException (writeCompletion policy runId data recovery) fun _ => return ()

/-! ### Waiting for the cleanup of others -/

/-- Whether an older run of the thread is finalizing. -/
def priorFinalizing (runId : ℕ) : List RunRecord → Bool
  | [] => false
  | r :: rs => if r.runId = runId then false else r.finalizing || priorFinalizing runId rs

/-- Whether the thread has the run, and an older one is finalizing. -/
def RunWorld.mustWait (w : RunWorld) (threadId : String) (runId : ℕ) : Bool :=
  (w.threadRecords threadId).any (fun r => r.runId = runId) ∧
    priorFinalizing runId (w.threadRecords threadId)

/-- `wait_for_prior_finalizing`, for a number of polls. After them it waits forever. -/
def waitForPriorFinalizing (threadId : String) (runId : ℕ) : (polls : ℕ) → RunProc Unit
  | 0 => do
    let _ ← runAwait .never
    return ()
  | polls + 1 => do
    let wait ← underLock (do
      let w ← Coro.get
      return w.mustWait threadId runId)
    if wait then
      let _ ← runAwait .sleep
      waitForPriorFinalizing threadId runId polls
    else return ()

/-- Whether a newer run of the thread may have started. -/
def RunWorld.laterStarted (w : RunWorld) (threadId : String) (runId : ℕ) : Bool :=
  (((w.threadRecords threadId).dropWhile fun r => r.runId ≠ runId).drop 1).any fun r =>
    r.status ≠ .pending ∨ r.finalizing

def hasLaterStartedRun (threadId : String) (runId : ℕ) : RunProc Bool :=
  underLock do
    let w ← Coro.get
    return w.laterStarted threadId runId

end AfterFlow.Runs
