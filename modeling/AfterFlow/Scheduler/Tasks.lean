import AfterFlow.Events.Record

/-!
# Scheduled tasks and their runs

The tables `scheduled_tasks` and `scheduled_task_runs` and what the two repositories do to them, if
nobody comes between the read and the commit of a method. `Scheduler.Repositories` writes the
methods out with both of their awaits.

A write after a launch may protect terminal statuses: then it leaves the status and the error of a
row that has ended as they are, and only adds what it knows of the launch.

The libraries that read dates, time zones and cron expressions are the fields of a `Calendar`.
-/

namespace AfterFlow.Scheduler

open List

open Events (Value)

/-! ### Schedules -/

/-- An instant; durations have the same unit. -/
abbrev Time := ℕ

inductive ScheduleType where
  | once
  | cron
  deriving DecidableEq

/-- The fields of `schedule_spec`. -/
abbrev Spec := List (String × Value)

inductive SchedExn where
  | conflict (message : String)
  | http (statusCode : ℕ) (detail : String)
  | value (message : String)
  /-- A database call failed. -/
  | database
  deriving DecidableEq

/-- `str(exc)`. -/
def SchedExn.text : SchedExn → String
  | .conflict message => message
  | .http statusCode detail => s!"{statusCode}: {detail}"
  | .value message => message
  | .database => "database error"

/-- The libraries for dates; an error is the message of a `ValueError`. -/
structure Calendar where
  /-- Whether `ZoneInfo(name)` finds the zone. -/
  hasZone : String → Bool
  /-- `datetime.fromisoformat(text)`, in the zone if the text names none. -/
  fromisoformat : (text zone : String) → Except String Time
  /-- `croniter(expr, now).get_next(datetime)` in the zone. -/
  getNext : (expr zone : String) → Time → Except String Time
  /-- `str(value)`, of a value that is no string. -/
  str : Value → String

variable (cal : Calendar)

def validateTimezone (timezoneName : String) : Except SchedExn Unit :=
  if cal.hasZone timezoneName then .ok ()
  else .error (.value s!"Unknown timezone: {timezoneName}")

/-- `expr.split()`. -/
def split (expr : String) : List String :=
  ((expr.toList.splitOnP PyStr.isSpace).filter fun part => part ≠ []).map String.ofList

def normalizeCronExpression (expr : String) : Except SchedExn String :=
  let parts := split expr
  if parts.length ≠ 5 then .error (.value "Cron expression must contain exactly 5 fields")
  else .ok (" ".intercalate parts)

/-- `str(schedule_spec.get("cron", ""))`. -/
def cronText (spec : Spec) : String :=
  match spec.lookup "cron" with
  | none => ""
  | some (.str expr) => expr
  | some v => cal.str v

/-- `next_run_at`: when a schedule is due next after `now`, if it is. -/
def nextRunAt (scheduleType : ScheduleType) (spec : Spec) (timezoneName : String) (now : Time) :
    Except SchedExn (Option Time) := do
  validateTimezone cal timezoneName
  match scheduleType with
  | .once =>
    match spec.lookup "run_at" with
    | some (.str raw) =>
      let runAt ← (cal.fromisoformat raw timezoneName).mapError .value
      .ok (if now < runAt then some runAt else none)
    | _ => .error (.value "once schedule requires run_at")
  | .cron =>
    let expr ← normalizeCronExpression (cronText cal spec)
    let next ← (cal.getNext expr timezoneName now).mapError .value
    .ok (some next)

/-! ### Rows -/

inductive TaskStatus where
  | enabled
  | running
  | paused
  | completed
  | failed
  | cancelled
  deriving DecidableEq

/-- `TERMINAL_TASK_STATUSES`. -/
def TaskStatus.isTerminal : TaskStatus → Bool
  | .completed | .failed | .cancelled => true
  | _ => false

inductive RunStatus where
  | queued
  | running
  | success
  | failed
  | skipped
  | interrupted
  deriving DecidableEq

/-- `TERMINAL_RUN_STATUSES`. -/
def RunStatus.isTerminal : RunStatus → Bool
  | .success | .failed | .skipped | .interrupted => true
  | _ => false

/-- `ACTIVE_RUN_STATUSES`. -/
def RunStatus.isActive : RunStatus → Bool
  | .queued | .running => true
  | _ => false

inductive Trigger where
  | manual
  | scheduled
  deriving DecidableEq

inductive ContextMode where
  | freshThreadPerRun
  | reuseThread
  deriving DecidableEq

structure TaskRow where
  id : String
  userId : String
  threadId : Option String
  contextMode : ContextMode
  assistantId : Option String
  title : String
  prompt : String
  scheduleType : ScheduleType
  scheduleSpec : Spec
  timezone : String
  status : TaskStatus
  overlapPolicy : String
  nextRunAt : Option Time
  lastRunAt : Option Time
  lastRunId : Option String
  lastThreadId : Option String
  lastError : Option String
  leaseOwner : Option String
  leaseExpiresAt : Option Time
  runCount : ℕ

/-- A run of a task; its id is the number of `task-run-`. -/
structure RunRow where
  id : ℕ
  taskId : String
  threadId : String
  scheduledFor : Time
  trigger : Trigger
  status : RunStatus
  runId : Option String
  error : Option String
  startedAt : Option Time
  finishedAt : Option Time

/-! ### Writes -/

/-- The arguments of `update_status`. -/
structure StatusUpdate where
  status : RunStatus
  runId : Option String
  error : Option String
  startedAt : Option Time
  finishedAt : Option Time
  protectTerminal : Bool

/-- What `update_status` does to a row. -/
def RunRow.updateStatus (u : StatusUpdate) (row : RunRow) : RunRow :=
  if u.protectTerminal && row.status.isTerminal then
    { row with runId := row.runId.or u.runId, startedAt := row.startedAt.or u.startedAt }
  else
    { row with
      status := u.status, runId := u.runId, error := u.error
      startedAt := u.startedAt.or row.startedAt, finishedAt := u.finishedAt.or row.finishedAt }

/-- The arguments of `update_after_launch`. -/
structure LaunchUpdate where
  status : TaskStatus
  nextRunAt : Option Time
  lastRunAt : Option Time
  lastRunId : Option String
  lastThreadId : Option String
  lastError : Option String
  incrementRunCount : Bool
  protectTerminal : Bool

/-- What `update_after_launch` does to a row. -/
def TaskRow.updateAfterLaunch (u : LaunchUpdate) (row : TaskRow) : TaskRow :=
  let row :=
    if u.protectTerminal && row.status.isTerminal then row
    else { row with status := u.status, lastError := u.lastError }
  { row with
    nextRunAt := u.nextRunAt, lastRunAt := u.lastRunAt, lastRunId := u.lastRunId
    lastThreadId := u.lastThreadId
    runCount := if u.incrementRunCount then row.runCount + 1 else row.runCount
    leaseOwner := none, leaseExpiresAt := none }

/-- The fields that `update` may set. -/
structure TaskUpdates where
  contextMode : Option ContextMode
  threadId : Option (Option String)
  title : Option String
  prompt : Option String
  scheduleSpec : Option Spec
  timezone : Option String
  nextRunAt : Option (Option Time)
  status : Option TaskStatus
  lastError : Option (Option String)

/-- No field is set. -/
def TaskUpdates.empty : TaskUpdates := ⟨none, none, none, none, none, none, none, none, none⟩

/-- What `update` does to a row. -/
def TaskRow.update (u : TaskUpdates) (row : TaskRow) : TaskRow :=
  { row with
    contextMode := u.contextMode.getD row.contextMode, threadId := u.threadId.getD row.threadId
    title := u.title.getD row.title, prompt := u.prompt.getD row.prompt
    scheduleSpec := u.scheduleSpec.getD row.scheduleSpec
    timezone := u.timezone.getD row.timezone, nextRunAt := u.nextRunAt.getD row.nextRunAt
    status := u.status.getD row.status, lastError := u.lastError.getD row.lastError }

/-- Whether `claim_due_tasks` admits a row. -/
def TaskRow.isDue (now : Time) (row : TaskRow) : Bool :=
  row.nextRunAt.any (· ≤ now) &&
    (row.status = .enabled && row.leaseExpiresAt.all (· < now) ||
      row.status = .running && row.leaseExpiresAt.any (· < now))

/-- What `claim_due_tasks` does to a row. -/
def TaskRow.claim (leaseOwner : String) (leaseExpiresAt : Time) (row : TaskRow) : TaskRow :=
  { row with leaseOwner := some leaseOwner, leaseExpiresAt := some leaseExpiresAt
             status := .running }

section Rows

variable {row : RunRow} {task : TaskRow}

@[simp] theorem RunRow.updateStatus_id (u : StatusUpdate) : (row.updateStatus u).id = row.id := by
  rw [RunRow.updateStatus]
  split <;> rfl

@[simp] theorem RunRow.updateStatus_taskId (u : StatusUpdate) :
    (row.updateStatus u).taskId = row.taskId := by
  rw [RunRow.updateStatus]
  split <;> rfl

@[simp] theorem RunRow.updateStatus_trigger (u : StatusUpdate) :
    (row.updateStatus u).trigger = row.trigger := by
  rw [RunRow.updateStatus]
  split <;> rfl

theorem RunRow.updateStatus_status (u : StatusUpdate) : (row.updateStatus u).status =
    if u.protectTerminal = true ∧ row.status.isTerminal = true then row.status else u.status := by
  rw [RunRow.updateStatus]
  split <;> simp_all

@[simp] theorem TaskRow.updateAfterLaunch_id (u : LaunchUpdate) :
    (task.updateAfterLaunch u).id = task.id := by
  rw [TaskRow.updateAfterLaunch]
  split <;> rfl

theorem TaskRow.updateAfterLaunch_status (u : LaunchUpdate) : (task.updateAfterLaunch u).status =
    if u.protectTerminal = true ∧ task.status.isTerminal = true then task.status
    else u.status := by
  rw [TaskRow.updateAfterLaunch]
  split <;> simp_all

@[simp] theorem TaskRow.update_id (u : TaskUpdates) : (task.update u).id = task.id := rfl

@[simp] theorem TaskRow.update_status (u : TaskUpdates) :
    (task.update u).status = u.status.getD task.status := rfl

theorem TaskRow.isDue_eq_false (henabled : task.status ≠ .enabled)
    (hrunning : task.status ≠ .running) (now : Time) : task.isDue now = false := by
  simp [TaskRow.isDue, henabled, hrunning]

theorem RunStatus.isActive_eq_not_isTerminal (status : RunStatus) :
    status.isActive = !status.isTerminal := by
  cases status <;> rfl

end Rows

/-! ### The tables -/

/-- The two tables. -/
structure Store where
  tasks : List TaskRow
  runs : List RunRow

namespace Store

variable (s : Store)

/-- The rows with the key are changed by `f`. -/
def onTask (id : String) (f : TaskRow → TaskRow) : Store :=
  { s with tasks := s.tasks.map fun row => if row.id = id then f row else row }

def onRun (id : ℕ) (f : RunRow → RunRow) : Store :=
  { s with runs := s.runs.map fun row => if row.id = id then f row else row }

/-- `ScheduledTaskRunRepository.create`. -/
def createRun (row : RunRow) : Store := { s with runs := s.runs ++ [row] }

def hasActiveRuns (taskId : String) : Bool :=
  s.runs.any fun row => row.taskId = taskId && row.status.isActive

def countActiveRuns : ℕ := s.runs.countP fun row => row.status.isActive

def updateStatus (id : ℕ) (u : StatusUpdate) : Store := s.onRun id (RunRow.updateStatus u)

def updateAfterLaunch (taskId : String) (u : LaunchUpdate) : Store :=
  s.onTask taskId (TaskRow.updateAfterLaunch u)

/-- `ScheduledTaskRepository.get`. -/
def getTask (taskId userId : String) : Option TaskRow :=
  (s.tasks.find? fun row => row.id = taskId).filter fun row => row.userId = userId

/-- `ScheduledTaskRepository.update`: the row after it, if the user has the task. -/
def updateTask (taskId userId : String) (u : TaskUpdates) : Option TaskRow × Store :=
  match s.getTask taskId userId with
  | none => (none, s)
  | some row => (some (row.update u), s.onTask taskId (TaskRow.update u))

/-- The first rows that are due, by `next_run_at` and id. -/
def dueTasks (now : Time) (limit : ℕ) : List TaskRow :=
  let due := (s.tasks.filter (TaskRow.isDue now)).insertionSort fun a b =>
    a.nextRunAt.getD 0 < b.nextRunAt.getD 0 ∨
      a.nextRunAt.getD 0 = b.nextRunAt.getD 0 ∧ a.id ≤ b.id
  due.take limit

/-- `claim_due_tasks`. -/
def claimDueTasks (now : Time) (leaseOwner : String) (leaseSeconds limit : ℕ) :
    List TaskRow × Store :=
  let claim := TaskRow.claim leaseOwner (now + leaseSeconds)
  let rows := s.dueTasks now limit
  (rows.map claim,
    { s with tasks := s.tasks.map fun row =>
      if row.id ∈ rows.map TaskRow.id then claim row else row })

variable {s} {id taskId : String} {n : ℕ} {row : RunRow} {task : TaskRow}

theorem mem_onRun {f : RunRow → RunRow} :
    row ∈ (s.onRun n f).runs ↔ ∃ r ∈ s.runs, (if r.id = n then f r else r) = row := mem_map

theorem mem_onTask {f : TaskRow → TaskRow} :
    task ∈ (s.onTask id f).tasks ↔ ∃ t ∈ s.tasks, (if t.id = id then f t else t) = task :=
  mem_map

theorem mem_createRun {r : RunRow} : row ∈ (s.createRun r).runs ↔ row ∈ s.runs ∨ row = r := by
  rw [createRun, mem_append, mem_singleton]

theorem getTask_eq_some {userId : String} (h : s.getTask taskId userId = some task) :
    task ∈ s.tasks ∧ task.id = taskId := by
  obtain ⟨hfind, -⟩ := Option.filter_eq_some_iff.1 h
  exact ⟨mem_of_find?_eq_some hfind, by simpa using find?_some hfind⟩

theorem updateTask_cases (s : Store) (taskId userId : String) (u : TaskUpdates) :
    s.updateTask taskId userId u = (none, s) ∨ ∃ row ∈ s.tasks, row.id = taskId ∧
      s.updateTask taskId userId u = (some (row.update u), s.onTask taskId (TaskRow.update u)) := by
  cases h : s.getTask taskId userId with
  | none => exact .inl (by simp only [updateTask, h])
  | some row =>
    obtain ⟨hmem, hid⟩ := getTask_eq_some h
    exact .inr ⟨row, hmem, hid, by simp only [updateTask, h]⟩

theorem isDue_of_mem_dueTasks {now : Time} {limit : ℕ} (h : task ∈ s.dueTasks now limit) :
    task ∈ s.tasks ∧ task.isDue now = true := by
  have hmem := (mem_insertionSort _).1 (mem_of_mem_take h)
  exact ⟨mem_of_mem_filter hmem, (mem_filter.1 hmem).2⟩

end Store

end AfterFlow.Scheduler
