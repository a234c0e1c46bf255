import AfterFlow.Coop.Lock
import AfterFlow.Goals.State

/-!
# The goal loop

After a turn the worker has the goal evaluated, and goes on with a hidden turn as long as the goal
may be continued. Goal and conversation are in the latest checkpoint of the thread. While the worker
awaits a read or a write of it, the user may set or clear the goal or send a message. Goals are
written under a lock of the thread; messages are not.

A turn of the agent reads the state of the thread, and while the worker streams it writes
checkpoints with the goal that it has read: what the user does to the goal meanwhile is undone. The
evaluator answers whatever it likes, a run may be aborted at any time, and any awaited operation may
raise. The loop is followed for an arbitrary number of turns.

## Ghosts

The thread remembers what no code reads: how many messages the user has sent, when goals were set,
which goals were cleared or replaced, which conversation was last read for an evaluation, which goal
the evaluator last wrote over, and what each continuation was started with.
-/

namespace AfterFlow.Goals

open Coop Coro

/-- The latest checkpoint of the thread. -/
structure Checkpoint where
  id : ℕ
  goal : Option GoalState
  messages : List Message
  pendingWrites : Bool
  deriving DecidableEq

/-- What a continuation is started with: the goal that was evaluated, on which conversation, and the
goal as it was written back. `asked` is a ghost, the number of the user's messages at that time. -/
structure Continuation where
  goal : GoalState
  messages : List Message
  evaluation : GoalEvaluation
  noProgressCount : ℕ
  updated : GoalState
  asked : ℕ
  deriving DecidableEq

/-- A continuation that was started, with the number of the run, and with what was known then. -/
structure Started extends Continuation where
  run : ℕ
  replaced : Option GoalState
  askedThen : ℕ
  gone : Bool
  deriving DecidableEq

structure Thread where
  checkpoint : Option Checkpoint
  nextId : ℕ
  locked : Bool
  running : Bool
  aborted : Bool
  fellBack : Bool
  /-- What the evaluator answers next; it may raise. -/
  verdict : Option GoalEvaluation
  runs : ℕ
  asked : ℕ
  known : List ℕ
  changed : List (List Char × ℕ)
  evaluating : Option (GoalState × List Message × ℕ)
  replaced : Option GoalState
  started : List Started
  deriving DecidableEq

/-- Which read of the checkpoint it is. -/
inductive Site where
  | turn
  | goal
  | conversation
  | recheckGoal
  | recheckCheckpoint
  | write
  | guardGoal
  | guardCheckpoint
  deriving DecidableEq

inductive Node where
  | goal
  | goalEvaluator
  deriving DecidableEq

inductive GoalOp where
  | lock
  | startRun
  | getTuple (site : Site)
  | put (asNode : Node) (cp : Checkpoint)
  | evaluate
  | publish
  /-- A turn is streamed that has read this goal. -/
  | stream (input : Option Continuation) (loaded : Option GoalState)
  | append (m : Message)
  /-- The turn that has read this goal writes a checkpoint. -/
  | speak (loaded : Option GoalState) (messages : List Message) (pendingWrites : Bool)
  deriving DecidableEq

@[reducible] def GoalOp.Reply : GoalOp → Type
  | .getTuple _ => Option Checkpoint
  | .evaluate => GoalEvaluation
  | _ => Unit

inductive GoalExn where
  | lookup
  | writeConflict
  | failed
  deriving DecidableEq

abbrev GoalProc := Coro Thread GoalOp GoalOp.Reply GoalExn

/-! ### The thread -/

def Thread.goal? (w : Thread) : Option GoalState := w.checkpoint.bind Checkpoint.goal

def Thread.messages (w : Thread) : List Message := w.checkpoint.elim [] Checkpoint.messages

/-- A new checkpoint. -/
def Thread.write (w : Thread) (goal : Option GoalState) (messages : List Message)
    (pendingWrites : Bool) : Thread :=
  { w with
    checkpoint := some ⟨w.nextId, goal, messages, pendingWrites⟩
    nextId := w.nextId + 1 }

/-- Whether what is written about a goal lets it be continued. -/
def Checkpoint.continues (cp : Checkpoint) : Bool :=
  cp.goal.any fun goal => goal.lastEvaluation.any fun last => last.standDown.isNone

/-- What a write of a goal leaves behind: the goal that was stored is gone, unless it is the same
one, and what stands down is no longer evaluated. -/
def Thread.putGoal (w : Thread) (asNode : Node) (cp : Checkpoint) : Thread :=
  { w with
    checkpoint := some cp
    known := (cp.goal.map GoalState.createdAt).toList ++ w.known
    changed := (w.goal?.filter fun goal => cp.goal.all fun new => new.inst ≠ goal.inst).toList.map
      GoalState.inst ++ w.changed
    evaluating := if asNode = .goalEvaluator ∧ cp.continues = false then none else w.evaluating
    replaced := if asNode = .goalEvaluator then w.goal? else w.replaced }

def Thread.read (goal : GoalState) (messages : List Message) (w : Thread) : Thread :=
  { w with evaluating := some (goal, messages, w.asked) }

/-- A continuation is started. -/
def Thread.start (c : Continuation) (w : Thread) : Thread :=
  { w with
    started := {
      toContinuation := c
      run := w.runs
      replaced := w.replaced
      askedThen := w.asked
      gone := w.changed.contains c.goal.inst } :: w.started }

def goalBackend : Backend Thread GoalOp GoalOp.Reply GoalExn where
  perform
    | .lock, w => (.ok (), { w with locked := true })
    | .startRun, w =>
      (.ok (), { w with running := true, aborted := false, fellBack := false, runs := w.runs + 1 })
    | .getTuple _, w => (.ok w.checkpoint, w)
    | .put asNode cp, w => (.ok (), w.putGoal asNode cp)
    | .evaluate, w => (w.verdict.elim (.error .failed) .ok, w)
    | .publish, w => (.ok (), w)
    | .stream _ _, w => (.ok (), w)
    | .append m, w =>
      (.ok (), { w.write w.goal? (w.messages ++ [m]) false with asked := w.asked + 1 })
    | .speak loaded messages pendingWrites, w =>
      (.ok (), { w.write loaded messages pendingWrites with evaluating := none })
  fault := .failed

/-! ### Reading and writing goals -/

/-- The latest checkpoint. -/
def getTuple (site : Site) : GoalProc (Option Checkpoint) := call (GoalOp.getTuple site)

/-- `read_thread_goal`. -/
def readThreadGoal (site : Site) : GoalProc (Option GoalState) := do
  let tuple ← getTuple site
  return tuple.bind Checkpoint.goal

/-- A checkpoint with a new id, at the end of `write_thread_goal`. -/
def putGoal (asNode : Node) (goal : Option GoalState) (messages : List Message) :
    GoalProc Unit := do
  let id ← Coro.update fun w => (w.nextId, { w with nextId := w.nextId + 1 })
  call (GoalOp.put asNode ⟨id, goal, messages, false⟩)

/-- `write_thread_goal`. -/
def writeThreadGoal (goal : Option GoalState) (asNode : Node) (expectedCheckpointId : Option ℕ) :
    GoalProc Unit := do
  let tuple ← getTuple .write
  match tuple with
  | none => .raise .lookup
  | some cp =>
    if expectedCheckpointId.any fun id => id ≠ cp.id then .raise .writeConflict
    else
      putGoal asNode goal cp.messages

/-- `async with goal_thread_lock(thread_id)`. -/
def withGoalLock {α : Type} (body : GoalProc α) : GoalProc α :=
  withLock GoalOp.lock (fun w => { w with locked := false }) body

/-- `ensure_thread_checkpoint`. -/
def ensureThreadCheckpoint : GoalProc Unit := do
  let tuple ← getTuple .write
  match tuple with
  | some _ => return ()
  | none => putGoal .goal none []

/-- `set_thread_goal`. -/
def setThreadGoal (objective : List Char) (maxContinuations now : ℕ) : GoalProc Unit := do
  ensureThreadCheckpoint
  match buildGoalState objective maxContinuations now with
  | .error _ => .raise .failed
  | .ok goal =>
    withGoalLock do
      ensureThreadCheckpoint
      writeThreadGoal (some goal) .goal none

/-- `clear_thread_goal`. -/
def clearThreadGoal : GoalProc Unit := withGoalLock (writeThreadGoal none .goal none)

/-! ### Evaluating -/

/-- `_has_durable_goal_turn_receipt`. -/
def hasDurableGoalTurnReceipt (cp : Checkpoint) : Bool :=
  !cp.pendingWrites &&
    (cp.messages.filter fun m => m.isVisible && m.stripped ≠ []).getLast?.any fun m => m.role = .ai

/-- `evaluate_goal_completion`. -/
def evaluateGoalCompletion (messages : List Message) : GoalProc GoalEvaluation :=
  if hasVisibleConversation messages && hasVisibleAssistantEvidence messages then
    call GoalOp.evaluate
  else
    return ⟨false, .missingEvidence, "No visible assistant evidence is available yet.".toList, []⟩

/-- `_persist_goal_evaluation`. -/
def persistGoalEvaluation (runId : List Char) (goal : GoalState) (evaluation : GoalEvaluation)
    (noProgressCount : ℕ) (continuationCount : Option ℕ) (standDown : Option StandDown)
    (evidenceSignature : List Char) : GoalProc (Option GoalState) :=
  Coro.tryCatch
    (do
      let updated ← withGoalLock do
        let tuple ← getTuple .write
        match tuple with
        | none => return none
        | some cp =>
          match cp.goal with
          | none => return none
          | some current =>
            if goalInstanceMatches (some goal) (some current) then
              let updated := attachGoalEvaluation current evaluation runId continuationCount
                (some noProgressCount) standDown evidenceSignature
              writeThreadGoal (some updated) .goalEvaluator (some cp.id)
              return some updated
            else return none
      match updated with
      | none => return none
      | some updated =>
        call GoalOp.publish
        return some updated)
    fun _ => return none

/-- The goal is cleared when it is satisfied. -/
def clearSatisfiedGoal (goal : GoalState) : GoalProc Unit :=
  Coro.tryCatch
    (do
      let cleared ← withGoalLock do
        let tuple ← getTuple .write
        match tuple with
        | none => return false
        | some cp =>
          if goalInstanceMatches (some goal) cp.goal then
            writeThreadGoal none .goalEvaluator (some cp.id)
            return true
          else return false
      if cleared then call GoalOp.publish else return ())
    fun _ => return ()

/-- `_reread_goal_and_checkpoint`, where an exception makes the worker stand down. -/
def rereadGoalAndCheckpoint (goalSite checkpointSite : Site) :
    GoalProc (Option (Option GoalState × Option Checkpoint)) :=
  Coro.tryCatch
    (do
      let goal ← readThreadGoal goalSite
      let tuple ← getTuple checkpointSite
      return some (goal, tuple))
    fun _ => return none

section Worker

variable (sha256 : List Char → List Char)

/-- The first part of `_prepare_goal_continuation_input`: the goal and the conversation are read,
and the goal is evaluated. -/
def evaluateGoal (runId : List Char) (goal : GoalState) :
    GoalProc (Option (Checkpoint × ℕ × GoalEvaluation)) :=
  Coro.tryCatch
    (do
      let tuple ← getTuple .conversation
      match tuple with
      | none => return none
      | some cp =>
        if hasDurableGoalTurnReceipt cp then
          Coro.modify (Thread.read goal cp.messages)
          let w ← Coro.get
          if w.aborted then return none
          else
            let evaluation ← evaluateGoalCompletion cp.messages
            let later ← Coro.get
            if later.aborted then return none
            else return some (cp, w.asked, evaluation)
        else
          let evidenceSignature := latestVisibleAssistantSignature sha256 cp.messages
          let evaluation : GoalEvaluation := {
            satisfied := false
            blocker := .runFailed
            reason := "No durable assistant end-of-turn receipt was available.".toList
            evidenceSummary := [] }
          let _ ← persistGoalEvaluation runId goal evaluation
            (computeNoProgressCount goal evaluation evidenceSignature) none
            (some .noDurableEndOfTurn) evidenceSignature
          return none)
    fun _ => return none

/-- The last part: the evaluation is persisted, and the guard looks again. -/
def queueContinuation (runId : List Char) (goal : GoalState) (cp : Checkpoint) (asked : ℕ)
    (evaluation : GoalEvaluation) (noProgressCount : ℕ) : GoalProc (Option Continuation) := do
  let evidenceSignature := latestVisibleAssistantSignature sha256 cp.messages
  let nextCount := goal.continuationCount + 1
  let updated ← persistGoalEvaluation runId goal evaluation noProgressCount (some nextCount) none
    evidenceSignature
  match updated with
  | none => return none
  | some updated =>
    let latest ← rereadGoalAndCheckpoint .guardGoal .guardCheckpoint
    match latest with
    | some (some latestGoal, some latestCheckpoint) =>
      if goalInstanceMatches (some updated) (some latestGoal) then
        if visibleConversationSignature latestCheckpoint.messages =
            visibleConversationSignature cp.messages then
          return some ⟨goal, cp.messages, evaluation, noProgressCount, updated, asked⟩
        else
          let _ ← persistGoalEvaluation runId latestGoal evaluation noProgressCount
            (some nextCount) (some .threadChangedBeforeContinuation) evidenceSignature
          return none
      else return none
    | _ => return none

/-- The middle part: the thread is looked at again, and the gates decide. -/
def decideContinuation (runId : List Char) (goal : GoalState) (cp : Checkpoint) (asked : ℕ)
    (evaluation : GoalEvaluation) : GoalProc (Option Continuation) := do
  let evidenceSignature := latestVisibleAssistantSignature sha256 cp.messages
  let noProgressCount := computeNoProgressCount goal evaluation evidenceSignature
  let current ← rereadGoalAndCheckpoint .recheckGoal .recheckCheckpoint
  match current with
  | some (some currentGoal, some currentCheckpoint) =>
    if goalInstanceMatches (some goal) (some currentGoal) then
      if currentCheckpoint.id ≠ cp.id ∨ visibleConversationSignature currentCheckpoint.messages ≠
          visibleConversationSignature cp.messages then
        let _ ← persistGoalEvaluation runId currentGoal evaluation noProgressCount none
          (some .threadChangedAfterEvaluation) evidenceSignature
        return none
      else if evaluation.satisfied then
        clearSatisfiedGoal goal
        return none
      else if (standDownReason goal evaluation noProgressCount).isSome ∨
          shouldContinueGoal goal evaluation (some noProgressCount) = false then
        let _ ← persistGoalEvaluation runId goal evaluation noProgressCount none
          (standDownReason goal evaluation noProgressCount) evidenceSignature
        return none
      else queueContinuation sha256 runId goal cp asked evaluation noProgressCount
    else return none
  | _ => return none

/-- `_prepare_goal_continuation_input`. -/
def prepareGoalContinuationInput (runId : List Char) : GoalProc (Option Continuation) := do
  let w ← Coro.get
  if w.aborted then return none
  else
    let goal ← Coro.tryCatch (readThreadGoal .goal) fun _ => return none
    match goal with
    | none => return none
    | some goal =>
      let evaluated ← evaluateGoal sha256 runId goal
      match evaluated with
      | none => return none
      | some (cp, asked, evaluation) => decideContinuation sha256 runId goal cp asked evaluation

/-! ### Running -/

/-- `_stream_once`: the state of the thread is read, and the turn is streamed with it. -/
def streamOnce (input : Option Continuation) : GoalProc Unit := do
  let loaded ← readThreadGoal .turn
  call (GoalOp.stream input loaded)

/-- The loop over continuations, followed for a number of turns. -/
def goalLoop (runId : List Char) : ℕ → GoalProc Unit
  | 0 => return ()
  | n + 1 => do
    let before ← Coro.get
    if before.aborted || before.fellBack then return ()
    else
      let continuation ← prepareGoalContinuationInput sha256 runId
      let w ← Coro.get
      match continuation with
      | none => return ()
      | some c =>
        if w.aborted then return ()
        else
          Coro.modify (Thread.start c)
          streamOnce (some c)
          goalLoop runId n

/-- `run_agent`, from the requested turn on. -/
def runAgent (runId : List Char) (turns : ℕ) : GoalProc Unit :=
  withLock GoalOp.startRun (fun w => { w with running := false }) do
    streamOnce none
    goalLoop sha256 runId turns

inductive GoalReq where
  | run (runId : List Char) (turns : ℕ)
  | set (objective : List Char) (maxContinuations now : ℕ)
  | clear
  | say (text : List Char)
  | speak (loaded : Option GoalState) (messages : List Message) (pendingWrites : Bool)
  deriving DecidableEq

inductive GoalEnv where
  | abort
  | fallBack
  | answer (verdict : Option GoalEvaluation)

def goalProgram : Program Thread GoalOp GoalOp.Reply GoalExn Unit GoalReq GoalEnv where
  toBackend := goalBackend
  handler
    | .run runId turns => runAgent sha256 runId turns
    | .set objective maxContinuations now => setThreadGoal objective maxContinuations now
    | .clear => clearThreadGoal
    | .say text => call (GoalOp.append ⟨.human, false, text⟩)
    | .speak loaded messages pendingWrites => call (GoalOp.speak loaded messages pendingWrites)
  tick
    | .abort, w => { w with aborted := true }
    | .fallBack, w => { w with fellBack := true }
    | .answer verdict, w => { w with verdict := verdict }

end Worker

end AfterFlow.Goals
