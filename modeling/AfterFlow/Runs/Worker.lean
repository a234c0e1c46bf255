import AfterFlow.Runs.Start

/-!
# The worker of a run

`run_agent` of `worker.py`: wait until older runs have cleaned up, mark the run running, execute the
graph, mark how it ended, clean up. A cancellation is an exception at the next await of the task,
whatever it awaits there, and is no `Exception`.

Left out is what touches neither a status nor a flag of a run: the progress reports of the journal
and the name of the model. The loops of the source have no bound; `fuel` bounds them here, and a
loop that runs out of it waits forever.
-/

namespace AfterFlow.Runs

open Coop

/-- `RunContext`: which parts are configured. -/
structure RunContext where
  checkpointer : Bool
  eventStore : Bool
  threadStore : Bool
  completedHook : Bool
  usage : Usage := {}
  fuel : ℕ

variable (ctx : RunContext) (policy : RetryPolicy) (runId : ℕ) (threadId : String)

/-- Await a step outside the manager. -/
def ask (step : WorkerStep) : RunProc Unit := runAwait (.outside (.worker runId step))

/-- A step whose exceptions are logged. -/
def attempt (step : WorkerStep) : RunProc Unit :=
  catchException (ask runId step) fun _ => return ()

/-- A block for a part that may not be configured. -/
def provided (configured : Bool) (body : RunProc Unit) : RunProc Unit :=
  if configured then body else return ()

def waitForever {α : Type} (a : α) : RunProc α := do
  let _ ← runAwait .never
  return a

/-- `record.abort_event.is_set()`. -/
def aborted : RunProc Bool := do
  let w ← Coro.get
  return (w.find? runId).any RunRecord.abortEvent

def RunWorld.mark (w : RunWorld) (m : RunMark) : RunWorld := { w with log := w.log ++ [m] }

/-! ### Executing -/

/-- `_stream_once`: publish chunks until the stream ends or the run is aborted. The text is that of
the first failed model call. -/
def streamOnce : (chunks : ℕ) → RunProc (Option String)
  | 0 => waitForever none
  | chunks + 1 => do
    let chunk ← runAwait (.outside (.chunk runId))
    match chunk with
    | .done => return none
    | .next llmError =>
      let stop ← aborted runId
      if stop then return none
      else
        ask runId .publish
        let rest ← streamOnce chunks
        return llmError.orElse fun _ => rest

/-- Further turns while the goal of the thread wants them. -/
def continueGoal (chunks : ℕ) : (rounds : ℕ) → RunProc (Option String)
  | 0 => waitForever none
  | rounds + 1 => do
    let stop ← aborted runId
    if stop then return none
    else
      let more ← runAwait (.outside (.continuation runId))
      let stop ← aborted runId
      if ¬ more ∨ stop then return none
      else
        let llmError ← streamOnce runId chunks
        match llmError with
        | some text => return some text
        | none => continueGoal chunks rounds

/-- How a run that was cancelled ends. -/
def abortRun : RunProc Unit := do
  setFinalizing runId true
  let w ← Coro.get
  match (w.find? runId).map RunRecord.abortAction with
  | some .rollback =>
    setStatus policy runId .error (some "Rolled back by user")
    attempt runId .rollback
  | _ => setStatus policy runId .interrupted

/-- The final status. -/
def conclude (llmError : Option String) : RunProc Unit := do
  let stop ← aborted runId
  if stop then abortRun policy runId
  else match llmError with
    | some text => setStatus policy runId .error (some text)
    | none => setStatus policy runId .success

/-- The body of `run_agent`. Building the agent may raise as publishing the metadata may. -/
def execute : RunProc Unit := do
  waitForPriorFinalizing threadId runId ctx.fuel
  setStatus policy runId .running
  provided ctx.eventStore (attempt runId .captureWorkspace)
  provided ctx.checkpointer (attempt runId .readCheckpoint)
  ask runId .publish
  Coro.modify fun w => w.mark (.executes runId)
  let llmError ← streamOnce runId ctx.fuel
  let llmError ← match llmError with
    | some text => pure (some text)
    | none => continueGoal runId ctx.fuel ctx.fuel
  conclude policy runId llmError

/-- `str(exc)`. -/
def ManagerExn.text : ManagerExn → String
  | service (.http _ detail) => detail
  | service (.valueError detail) => detail
  | service (.typeError detail) => detail
  | service (.attributeError detail) => detail
  | conflict detail => detail
  | unsupportedStrategy detail => detail
  | database _ => "database is locked"
  | other detail => detail
  | cancelled => ""

/-- The handlers of `run_agent`. -/
def failRun (e : ManagerExn) : RunProc Unit :=
  if e = .cancelled then abortRun policy runId
  else do
    setStatus policy runId .error (some e.text)
    ask runId .publishError

/-! ### Cleaning up -/

/-- Note the figures of the run. -/
def recordCompletion : RunProc Unit := do
  attempt runId .flushJournal
  let w ← Coro.get
  match w.find? runId with
  | none => return ()
  | some record => updateRunCompletion policy runId { status := record.status, usage := ctx.usage }

/-- Give an interrupted run a title, unless a later run has started. -/
def titleInterrupted : RunProc Unit := do
  let w ← Coro.get
  if (w.find? runId).any fun r => r.status = .interrupted then
    catchException (do
        waitForPriorFinalizing threadId runId ctx.fuel
        let later ← hasLaterStartedRun threadId runId
        if later then return () else ask runId .interruptedTitle)
      fun _ => return ()
  else return ()

/-- The end of a cleanup: `set_finalizing(run_id, False)`, if the flag is up. -/
def endCleanup : RunProc Unit := do
  let w ← Coro.get
  if (w.find? runId).any RunRecord.finalizing then
    underLock (Coro.update fun w =>
      ((), (w.modify runId fun r => { r with finalizing := false }).mark (.cleaned runId)))
  else Coro.modify fun w => w.mark (.cleaned runId)

/-- The `finally` block of `run_agent`. -/
def cleanup : RunProc Unit := do
  provided ctx.eventStore (attempt runId .flushEvents)
  provided ctx.eventStore (attempt runId .recordWorkspace)
  provided ctx.eventStore (recordCompletion ctx policy runId)
  provided ctx.checkpointer (titleInterrupted ctx runId threadId)
  provided (ctx.checkpointer && ctx.threadStore) (attempt runId .syncTitle)
  provided ctx.threadStore (attempt runId .threadStatus)
  provided ctx.completedHook (attempt runId .completedHook)
  endCleanup runId
  ask runId .publishEnd

/-- `try: body finally: last`. -/
def tryFinally (body last : RunProc Unit) : RunProc Unit :=
  (body.tryCatch fun e => last.bind fun _ => .raise e).bind fun _ => last

/-- Change the handle of a task. -/
def RunRecord.mapTask (f : RunTask → RunTask) (r : RunRecord) : RunRecord :=
  { r with task := r.task.map f }

def RunWorld.modifyTask (w : RunWorld) (f : RunTask → RunTask) : RunWorld :=
  w.modify runId (RunRecord.mapTask f)

def runAgent : RunProc Unit :=
  tryFinally ((execute ctx policy runId threadId).tryCatch (failRun policy runId))
    (cleanup ctx policy runId threadId)

def RunWorld.begun (w : RunWorld) (runId : ℕ) : RunWorld :=
  w.modifyTask runId fun t => { t with begun := true }

def RunWorld.done (w : RunWorld) (runId : ℕ) : RunWorld :=
  w.modifyTask runId fun t => { t with done := true }

/-- The task of a run: a task that is cancelled before its first step never begins. -/
def runTask : RunProc Unit :=
  tryFinally (do
      ask runId .begin
      let w ← Coro.get
      match w.find? runId with
      | none => return ()
      | some record =>
        Coro.modify fun w => w.begun runId
        runAgent ctx policy runId record.threadId)
    (Coro.modify fun w => w.done runId)

/-! ### Tasks that can be cancelled -/

/-- An operation, and the run whose task awaits it, if it is one. -/
structure TaskOp where
  task : Option ℕ
  op : RunOp

@[reducible] def TaskOp.Reply (o : TaskOp) : Type := o.op.Reply

abbrev TaskProc (α : Type) := Coro RunWorld TaskOp TaskOp.Reply ManagerExn α

/-- Await everything as the task of a run, or as nobody's. -/
def asTask (task : Option ℕ) {α : Type} : RunProc α → TaskProc α
  | .pure a => .pure a
  | .raise e => .raise e
  | .read k => .read fun w => asTask task (k w)
  | .write f k => .write f (asTask task k)
  | .await op k => .await ⟨task, op⟩ fun reply => asTask task (k reply)

section AsTask

variable (task : Option ℕ) {α β : Type}

@[simp] theorem asTask_bind (p : RunProc α) (f : α → RunProc β) :
    asTask task (p.bind f) = (asTask task p).bind fun a => asTask task (f a) := by
  induction p with
  | pure | raise => rfl
  | read k ih => exact congrArg _ (funext ih)
  | write g k ih => exact congrArg _ ih
  | await op k ih => exact congrArg _ (funext ih)

@[simp] theorem asTask_tryCatch (p : RunProc α) (h : ManagerExn → RunProc α) :
    asTask task (p.tryCatch h) = (asTask task p).tryCatch fun e => asTask task (h e) := by
  induction p with
  | pure | raise => rfl
  | read k ih => exact congrArg _ (funext ih)
  | write g k ih => exact congrArg _ ih
  | await op k ih => exact congrArg _ (funext ih)

end AsTask

/-- Whether the task of a run has a cancellation to come. -/
def RunRecord.cancelPending (r : RunRecord) : Bool := r.task.any RunTask.cancelRequested

def RunWorld.cancelPending (w : RunWorld) (runId : ℕ) : Bool :=
  (w.find? runId).any RunRecord.cancelPending

/-- The cancellation has reached the task. -/
def RunWorld.delivered (w : RunWorld) (runId : ℕ) : RunWorld :=
  w.modifyTask runId fun t => { t with cancelRequested := false }

/-- A cancellation takes the place of what the task awaits. -/
def TaskOp.perform (o : TaskOp) (w : RunWorld) : Except ManagerExn o.Reply × RunWorld :=
  match o.task with
  | none => o.op.perform w
  | some runId =>
    if w.cancelPending runId then (.error .cancelled, w.delivered runId) else o.op.perform w

/-- What goes on in a thread. -/
inductive ThreadCall where
  | start (threadId : String) (body : StartBody) (request : StartRequest)
  | cancel (runId : ℕ) (action : AbortAction)
  | worker (runId : ℕ)

/-- What changes besides: the answers from outside, and the time. -/
inductive ThreadTick where
  | outside (answers : (q : Query) → Except String q.Reply)
  | clock (now : ℕ)

def ThreadTick.apply : ThreadTick → RunWorld → RunWorld
  | .outside answers, w => { w with outside := answers }
  | .clock now, w => { w with now }

/-- The code of a call. -/
@[grind =] def ThreadCall.proc (env : StartEnv) (ctx : RunContext) : ThreadCall → TaskProc Unit
  | start threadId body request => asTask none ((startRun env threadId body request).bind fun _ =>
      return ())
  | cancel runId action => asTask none ((Runs.cancel env.policy runId action).bind fun _ => return ())
  | worker runId => asTask (some runId) (runTask ctx env.policy runId)

/-- Starts, cancellations and workers at once. -/
def threadProgram (env : StartEnv) (ctx : RunContext) :
    Program RunWorld TaskOp TaskOp.Reply ManagerExn Unit ThreadCall ThreadTick where
  perform := TaskOp.perform
  fault := .cancelled
  handler := ThreadCall.proc env ctx
  tick := ThreadTick.apply

abbrev ThreadState := Sys RunWorld TaskOp TaskOp.Reply ManagerExn Unit ThreadCall

end AfterFlow.Runs
