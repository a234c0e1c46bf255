import AfterFlow.Coop.System
import AfterFlow.Events.Stores
import AfterFlow.Scheduler.Tasks

/-!
# The scheduler service and its endpoints

`ScheduledTaskService` and the endpoints as coroutines over the two tables. Every call of a
repository is awaited, and so is the launch of a run, so anything may happen between two of them.
Here a call of a repository is one step; that some of them await twice themselves is the subject of
`Scheduler.Repositories`.
`dispatch_task` and the endpoints work on a copy of the row that they were given or have read.

Some operations carry more than the call they stand for, so that statements can speak of it: who
calls, the caller's copy of the row, and whether a row is created only to be skipped. The
repositories do not look at these.
-/

namespace AfterFlow.Scheduler

open Coop Events

/-! ### The awaited calls -/

/-- The arguments of `launch_run`, with the metadata of the run. -/
structure LaunchArgs where
  threadId : String
  assistantId : Option String
  prompt : String
  ownerUserId : String
  taskId : String
  taskRunId : ℕ
  trigger : Trigger

structure LaunchResult where
  runId : String
  threadId : String

/-- Who calls a repository. -/
inductive Caller where
  | dispatch
  | completion
  | pause
  | resume
  | update
  deriving DecidableEq

inductive SchedOp where
  | countActiveRuns
  | hasActiveRuns (taskId : String)
  | createRun (row : RunRow) (skips : Bool)
  | launchRun (args : LaunchArgs)
  | updateStatus (caller : Caller) (id : ℕ) (u : StatusUpdate)
  | updateAfterLaunch (task : TaskRow) (u : LaunchUpdate)
  | getTask (taskId userId : String)
  | updateTask (caller : Caller) (existing : TaskRow) (taskId userId : String) (u : TaskUpdates)
  | claimDueTasks (now : Time) (limit : ℕ)
  | checkAccess (threadId userId : String)

@[reducible] def SchedOp.Reply : SchedOp → Type
  | .countActiveRuns => ℕ
  | .hasActiveRuns _ => Bool
  | .launchRun _ => LaunchResult
  | .getTask _ _ => Option TaskRow
  | .updateTask _ _ _ _ _ => Option TaskRow
  | .claimDueTasks _ _ => List TaskRow
  | .checkAccess _ _ => Bool
  | _ => Unit

/-- The tables, how many uuids were drawn, and what a statement wants to remember. -/
structure World (γ : Type) where
  store : Store
  uuids : ℕ
  memory : γ

/-- The settings of the service, and what is outside: how a launch ends and which threads a user may
use. -/
structure Setting where
  cal : Calendar
  leaseOwner : String
  leaseSeconds : ℕ
  maxConcurrentRuns : ℕ
  minOnceDelaySeconds : ℕ
  launch : LaunchArgs → Except SchedExn LaunchResult
  access : (threadId userId : String) → Bool

variable {γ : Type} (cfg : Setting)

/-- What the calls do. A row with an id that is taken is not created. -/
@[grind =] def perform : (op : SchedOp) → Store → Except SchedExn op.Reply × Store
  | .countActiveRuns, s => (.ok s.countActiveRuns, s)
  | .hasActiveRuns taskId, s => (.ok (s.hasActiveRuns taskId), s)
  | .createRun row _, s =>
    if s.runs.any fun r => r.id = row.id then (.error .database, s) else (.ok (), s.createRun row)
  | .launchRun args, s => (cfg.launch args, s)
  | .updateStatus _ id u, s => (.ok (), s.updateStatus id u)
  | .updateAfterLaunch task u, s => (.ok (), s.updateAfterLaunch task.id u)
  | .getTask taskId userId, s => (.ok (s.getTask taskId userId), s)
  | .updateTask _ _ taskId userId u, s =>
    (.ok (s.updateTask taskId userId u).1, (s.updateTask taskId userId u).2)
  | .claimDueTasks now limit, s =>
    (.ok (s.claimDueTasks now cfg.leaseOwner cfg.leaseSeconds limit).1,
      (s.claimDueTasks now cfg.leaseOwner cfg.leaseSeconds limit).2)
  | .checkAccess threadId userId, s => (.ok (cfg.access threadId userId), s)

/-- `remember` says how the memory changes with an operation, by its reply and the tables before
it. -/
def schedBackend (remember : (op : SchedOp) → Except SchedExn op.Reply → Store → γ → γ) :
    Backend (World γ) SchedOp SchedOp.Reply SchedExn where
  perform op w :=
    ((perform cfg op w.store).1,
      ⟨(perform cfg op w.store).2, w.uuids,
        remember op (perform cfg op w.store).1 w.store w.memory⟩)
  fault := .database

/-- The coroutines of the scheduler. -/
abbrev SchedProc (γ α : Type) := Coro (World γ) SchedOp SchedOp.Reply SchedExn α

/-- Await one of the calls. -/
def schedAwait (op : SchedOp) : SchedProc γ op.Reply := Coro.call op

/-- `uuid.uuid4()`. -/
def uuid4 : SchedProc γ ℕ := Coro.update fun w => (w.uuids, { w with uuids := w.uuids + 1 })

/-! ### Dispatching -/

inductive DispatchOutcome where
  | launched
  | skipped
  | conflict
  | failed
  deriving DecidableEq

structure DispatchResult where
  outcome : DispatchOutcome
  taskRunId : Option ℕ
  runId : Option String
  threadId : String
  error : Option String

/-- `_is_overlap_conflict`. -/
def isOverlapConflict : SchedExn → Bool
  | .conflict _ => true
  | .http statusCode _ => statusCode = 409
  | _ => false

/-- `_task_status_for_failure`. -/
def taskStatusForFailure (task : TaskRow) (trigger : Trigger) : TaskStatus :=
  if trigger = .manual then task.status
  else if task.scheduleType = .once then .failed
  else .enabled

/-- `_task_status_for_skip`. -/
def taskStatusForSkip (task : TaskRow) : TaskStatus :=
  if task.scheduleType = .once then .failed else .enabled

/-- The status of the task after a launch: a `once` task stays running until the completion hook. -/
def taskStatusForLaunch (task : TaskRow) (trigger : Trigger) : TaskStatus :=
  if task.scheduleType = .once then .running
  else if trigger = .manual ∧ task.status = .paused then .paused
  else .enabled

/-- When the task of a copy is due next. -/
def TaskRow.next (cal : Calendar) (task : TaskRow) (now : Time) : Except SchedExn (Option Time) :=
  Scheduler.nextRunAt cal task.scheduleType task.scheduleSpec task.timezone now

/-- `_finalize_skip`. -/
def finalizeSkip (task : TaskRow) (taskRunId : ℕ) (threadId : String) (now : Time)
    (error : String) : SchedProc γ DispatchResult := do
  let nextAt ← Coro.ofExcept (task.next cfg.cal now)
  schedAwait (.updateStatus .dispatch taskRunId
    { status := .skipped, runId := none, error := some error, startedAt := some now
      finishedAt := some now, protectTerminal := false })
  schedAwait (.updateAfterLaunch task
    { status := taskStatusForSkip task, nextRunAt := nextAt, lastRunAt := task.lastRunAt
      lastRunId := task.lastRunId, lastThreadId := task.lastThreadId
      lastError := if task.scheduleType = .once then some error else none
      incrementRunCount := false, protectTerminal := false })
  pure ⟨.skipped, some taskRunId, none, threadId, some error⟩

/-- What `dispatch_task` tries. -/
def launchTask (task : TaskRow) (taskRunId : ℕ) (threadId : String) (now : Time)
    (trigger : Trigger) : SchedProc γ DispatchResult := do
  let result ← schedAwait (.launchRun
    { threadId := threadId, assistantId := task.assistantId, prompt := task.prompt
      ownerUserId := task.userId, taskId := task.id, taskRunId := taskRunId, trigger := trigger })
  let nextAt ← Coro.ofExcept (task.next cfg.cal now)
  schedAwait (.updateStatus .dispatch taskRunId
    { status := .running, runId := some result.runId, error := none, startedAt := some now
      finishedAt := none, protectTerminal := true })
  schedAwait (.updateAfterLaunch task
    { status := taskStatusForLaunch task trigger, nextRunAt := nextAt, lastRunAt := some now
      lastRunId := some result.runId, lastThreadId := some result.threadId, lastError := none
      incrementRunCount := true, protectTerminal := true })
  pure ⟨.launched, some taskRunId, some result.runId, result.threadId, none⟩

/-- What `dispatch_task` does about an exception. -/
def launchFailed (task : TaskRow) (taskRunId : ℕ) (threadId : String) (now : Time)
    (trigger : Trigger) (exc : SchedExn) : SchedProc γ DispatchResult := do
  let nextAt ← Coro.ofExcept (task.next cfg.cal now)
  if isOverlapConflict exc ∧ trigger = .scheduled ∧ task.overlapPolicy = "skip" then
    finalizeSkip cfg task taskRunId threadId now exc.text
  else
    schedAwait (.updateStatus .dispatch taskRunId
      { status := .failed, runId := none, error := some exc.text, startedAt := some now
        finishedAt := some now, protectTerminal := false })
    schedAwait (.updateAfterLaunch task
      { status := taskStatusForFailure task trigger, nextRunAt := nextAt, lastRunAt := some now
        lastRunId := none, lastThreadId := some threadId, lastError := some exc.text
        incrementRunCount := false, protectTerminal := false })
    pure ⟨if isOverlapConflict exc then .conflict else .failed, some taskRunId, none, threadId,
      some exc.text⟩

/-- The thread of the run: that of the task, or a new one. -/
def executionThreadId (task : TaskRow) : SchedProc γ String :=
  if task.contextMode = .freshThreadPerRun ∨ task.threadId.getD "" = "" then do
    let n ← uuid4
    pure (toString n)
  else pure (task.threadId.getD "")

/-- Whether a run of the task is in the way. -/
def overlaps (task : TaskRow) : SchedProc γ Bool :=
  if task.overlapPolicy = "skip" then schedAwait (.hasActiveRuns task.id) else pure false

/-- `dispatch_task`. -/
def dispatchTask (task : TaskRow) (now : Time) (trigger : Trigger) :
    SchedProc γ DispatchResult := do
  let threadId ← executionThreadId task
  let skips ← overlaps task
  if skips = true ∧ trigger = .manual then
    pure ⟨.conflict, none, none, threadId, some "task already has an active run"⟩
  else
    let taskRunId ← uuid4
    schedAwait (.createRun
      { id := taskRunId, taskId := task.id, threadId := threadId, scheduledFor := now
        trigger := trigger, status := .queued, runId := none, error := none, startedAt := none
        finishedAt := none } skips)
    if skips then
      finalizeSkip cfg task taskRunId threadId now
        "skipped: a previous run of this task is still active"
    else
      Coro.tryCatch (launchTask cfg task taskRunId threadId now trigger)
        (launchFailed cfg task taskRunId threadId now trigger)

/-- `run_once`. -/
def runOnce (now : Time) : SchedProc γ Unit := do
  let active ← schedAwait .countActiveRuns
  if cfg.maxConcurrentRuns ≤ active then pure ()
  else
    let claimed ← schedAwait (.claimDueTasks now (cfg.maxConcurrentRuns - active))
    Coro.forEach claimed fun task => do
      let _ ← dispatchTask cfg task now .scheduled
      pure ()

/-! ### The completion hook -/

inductive RecordStatus where
  | pending
  | running
  | success
  | error
  | timeout
  | interrupted
  deriving DecidableEq

/-- A run as the hook sees it. The metadata may lack the ids. -/
structure RunRecord where
  status : RecordStatus
  runId : String
  userId : Option String
  error : Option String
  scheduledTaskId : Option String
  scheduledTaskRunId : Option ℕ

/-- The terminal status of the run with its error, if it has ended. -/
@[grind =] def terminalStatus (record : RunRecord) : Option (RunStatus × Option String) :=
  match record.status with
  | .success => some (.success, none)
  | .interrupted =>
    let error := record.error.filter fun text => text ≠ ""
    some (.interrupted, some (error.getD "run was interrupted before completion"))
  | .error | .timeout => some (.failed, record.error)
  | .pending | .running => none

/-- The status in which a `once` task ends. -/
def onceStatus : RunStatus → TaskStatus
  | .success => .completed
  | .interrupted => .cancelled
  | _ => .failed

theorem onceStatus_isTerminal (status : RunStatus) : (onceStatus status).isTerminal = true := by
  cases status <;> rfl

/-- What the hook does about a run of a task. -/
def completeRun (record : RunRecord) (taskId : String) (taskRunId : ℕ) (userId : String)
    (status : RunStatus) (error : Option String) (now : Time) : SchedProc γ Unit := do
  schedAwait (.updateStatus .completion taskRunId
    { status := status, runId := some record.runId, error := error, startedAt := none
      finishedAt := some now, protectTerminal := false })
  match ← schedAwait (.getTask taskId userId) with
  | none => pure ()
  | some task =>
    let _ ← schedAwait (.updateTask .completion task taskId userId
      { TaskUpdates.empty with
        lastError := some error
        status := if task.scheduleType = .once then some (onceStatus status) else none })
    pure ()

/-- `handle_run_completion`. -/
@[grind =] def handleRunCompletion (record : RunRecord) (now : Time) : SchedProc γ Unit :=
  match record.scheduledTaskId, record.scheduledTaskRunId,
    record.userId.filter fun userId => userId ≠ "" with
  | some taskId, some taskRunId, some userId =>
    match terminalStatus record with
    | none => pure ()
    | some (status, error) => completeRun record taskId taskRunId userId status error now
  | _, _, _ => pure ()

/-! ### The endpoints -/

/-- The row of the user's task, as an endpoint reads it first. -/
def readTask (user : Option String) (taskId : String) : SchedProc γ (String × TaskRow) :=
  match user with
  | none => .raise (.http 401 "Authentication required")
  | some userId => do
    match ← schedAwait (.getTask taskId userId) with
    | none => .raise (.http 404 "Scheduled task not found")
    | some existing => pure (userId, existing)

/-- `_ensure_task_mutable`. -/
def ensureTaskMutable (task : TaskRow) : Except SchedExn Unit :=
  if task.status = .running then .error (.http 409
    "Scheduled task is currently running; retry after the active execution finishes")
  else .ok ()

/-- Set the status of a task that is not running. -/
def setStatus (caller : Caller) (status : TaskStatus) (user : Option String) (taskId : String) :
    SchedProc γ TaskRow := do
  let (userId, existing) ← readTask user taskId
  Coro.ofExcept (ensureTaskMutable existing)
  match ← schedAwait (.updateTask caller existing taskId userId
    { TaskUpdates.empty with status := some status }) with
  | none => .raise (.http 404 "Scheduled task not found")
  | some updated => pure updated

/-- `pause_scheduled_task`. -/
def pauseScheduledTask (user : Option String) (taskId : String) : SchedProc γ TaskRow :=
  setStatus .pause .paused user taskId

/-- `resume_scheduled_task`. -/
def resumeScheduledTask (user : Option String) (taskId : String) : SchedProc γ TaskRow :=
  setStatus .resume .enabled user taskId

/-- The body of an update; what it leaves out is `none`. -/
structure UpdateBody where
  contextMode : Option String
  threadId : Option String
  title : Option String
  prompt : Option String
  scheduleSpec : Option Spec
  timezone : Option String

def parseContextMode : String → Except SchedExn ContextMode
  | "fresh_thread_per_run" => .ok .freshThreadPerRun
  | "reuse_thread" => .ok .reuseThread
  | _ => .error (.http 422 "Unsupported context_mode")

/-- `except ValueError as exc: raise HTTPException(422, str(exc))`. -/
def unprocessable : SchedExn → SchedExn
  | .value message => .http 422 message
  | exc => exc

/-- The `schedule_spec` that is stored: a cron expression is normalized. -/
def storedSpec (scheduleType : ScheduleType) (spec : Spec) : Except SchedExn Spec :=
  match scheduleType with
  | .once => .ok spec
  | .cron =>
    match spec.lookup "cron" with
    | some (.str raw) => do
      let expr ← normalizeCronExpression raw
      .ok (withField spec "cron" (.str expr))
    | _ => .error (.http 422 "cron schedule requires schedule_spec.cron")

/-- The new schedule of a task and when it is due next. The clock is read twice. -/
def reschedule (existing : TaskRow) (body : UpdateBody) (now later : Time) :
    Except SchedExn (Spec × Option Time) := do
  let timezone := body.timezone.getD existing.timezone
  let spec ← (storedSpec existing.scheduleType
    (body.scheduleSpec.getD existing.scheduleSpec)).mapError unprocessable
  let next ← (nextRunAt cfg.cal existing.scheduleType spec timezone now).mapError unprocessable
  match existing.scheduleType, next with
  | .once, none => .error (.http 422 "once schedule must be in the future")
  | .once, some at_ =>
    if at_ < later + cfg.minOnceDelaySeconds then
      .error (.http 422
        s!"once schedule must be at least {cfg.minOnceDelaySeconds} seconds in the future")
    else .ok (spec, next)
  | .cron, _ => .ok (spec, next)

/-- The fields of the thread: a fresh one is no thread of the task. -/
def threadUpdates (existing : TaskRow) (userId : String) (body : UpdateBody)
    (updates : TaskUpdates) : SchedProc γ TaskUpdates :=
  if updates.contextMode.getD existing.contextMode = .reuseThread then
    let threadId := (body.threadId.or existing.threadId).getD ""
    if threadId = "" then .raise (.http 422 "reuse_thread requires thread_id")
    else do
      let allowed ← schedAwait (.checkAccess threadId userId)
      if allowed = true then pure updates else .raise (.http 404 "Thread not found")
  else pure { updates with threadId := some none }

/-- The fields of the schedule; a task that has ended is armed again. -/
def scheduleUpdates (existing : TaskRow) (body : UpdateBody) (now later : Time)
    (updates : TaskUpdates) : Except SchedExn TaskUpdates :=
  if body.scheduleSpec.isSome ∨ body.timezone.isSome then do
    let (spec, next) ← reschedule cfg existing body now later
    .ok { updates with
          scheduleSpec := some spec, nextRunAt := some next
          status := if next.isSome ∧ existing.status.isTerminal then some .enabled else none }
  else .ok updates

/-- `update_scheduled_task`. -/
def updateScheduledTask (user : Option String) (taskId : String) (body : UpdateBody)
    (now later : Time) : SchedProc γ (Option TaskRow) := do
  let (userId, existing) ← readTask user taskId
  Coro.ofExcept (ensureTaskMutable existing)
  let contextMode ← Coro.ofExcept (body.contextMode.mapM parseContextMode)
  let updates ← threadUpdates existing userId body
    { TaskUpdates.empty with
      contextMode := contextMode, threadId := body.threadId.map some, title := body.title
      prompt := body.prompt, scheduleSpec := body.scheduleSpec, timezone := body.timezone }
  Coro.ofExcept ((body.timezone.forM (validateTimezone cfg.cal)).mapError unprocessable)
  let updates ← Coro.ofExcept (scheduleUpdates cfg existing body now later updates)
  schedAwait (.updateTask .update existing taskId userId updates)

/-- `trigger_scheduled_task`. -/
def triggerScheduledTask (user : Option String) (taskId : String) (now : Time) :
    SchedProc γ Unit := do
  let (_, task) ← readTask user taskId
  let result ← dispatchTask cfg task now .manual
  match result.outcome with
  | .conflict =>
    let error := result.error.filter fun text => text ≠ ""
    .raise (.http 409 (error.getD "Scheduled task trigger conflicted with an active run"))
  | .failed =>
    let error := result.error.filter fun text => text ≠ ""
    .raise (.http 502 (error.getD "Scheduled task trigger failed"))
  | _ => pure ()

/-! ### The program -/

/-- The calls that start a coroutine; times are those at which its clock is read. -/
inductive SchedCall where
  | poll (now : Time)
  | dispatch (task : TaskRow) (now : Time) (trigger : Trigger)
  | complete (record : RunRecord) (now : Time)
  | pause (user : Option String) (taskId : String)
  | resume (user : Option String) (taskId : String)
  | update (user : Option String) (taskId : String) (body : UpdateBody) (now later : Time)
  | trigger (user : Option String) (taskId : String) (now : Time)

@[grind =] def handler : SchedCall → SchedProc γ Unit
  | .poll now => runOnce cfg now
  | .dispatch task now trigger => do
    let _ ← dispatchTask cfg task now trigger
    pure ()
  | .complete record now => handleRunCompletion record now
  | .pause user taskId => do
    let _ ← pauseScheduledTask user taskId
    pure ()
  | .resume user taskId => do
    let _ ← resumeScheduledTask user taskId
    pure ()
  | .update user taskId body now later => do
    let _ ← updateScheduledTask cfg user taskId body now later
    pure ()
  | .trigger user taskId now => triggerScheduledTask cfg user taskId now

/-- Any number of calls over the two tables. -/
def scheduler (remember : (op : SchedOp) → Except SchedExn op.Reply → Store → γ → γ) :
    Program (World γ) SchedOp SchedOp.Reply SchedExn Unit SchedCall Empty where
  toBackend := schedBackend cfg remember
  handler := handler cfg
  tick := fun e => nomatch e

/-! ### An example -/

/-- Every launch succeeds, texts of dates mean 10, and cron schedules are due every minute. -/
def demoSetting : Setting where
  cal := ⟨fun _ => true, fun _ _ => .ok 10, fun _ _ now => .ok (now + 60), fun _ => ""⟩
  leaseOwner := "gateway"
  leaseSeconds := 30
  maxConcurrentRuns := 3
  minOnceDelaySeconds := 0
  launch := fun args => .ok ⟨"run-1", args.threadId⟩
  access := fun _ _ => true

/-- A task of user `user-1` that was created a while ago. -/
def demoTask (scheduleType : ScheduleType) (spec : Spec) (nextRunAt : Option Time) : TaskRow where
  id := "task-1"
  userId := "user-1"
  threadId := none
  contextMode := .freshThreadPerRun
  assistantId := some "lead_agent"
  title := "Report"
  prompt := "Write the report"
  scheduleType := scheduleType
  scheduleSpec := spec
  timezone := "UTC"
  status := .enabled
  overlapPolicy := "skip"
  nextRunAt := nextRunAt
  lastRunAt := none
  lastRunId := none
  lastThreadId := none
  lastError := none
  leaseOwner := none
  leaseExpiresAt := none
  runCount := 0

/-- A task to be run once, at 10. -/
def onceTask : TaskRow := demoTask .once [("run_at", .str "2026-01-01T00:00:10")] (some 10)

/-- The run of the task has ended. -/
def demoRecord (status : RecordStatus) : RunRecord :=
  ⟨status, "run-1", some "user-1", none, some "task-1", some 1⟩

end AfterFlow.Scheduler
