import AfterFlow.Transition.Runs
import Mathlib.Algebra.Ring.Nat

/-!
# Background tasks of subagents

A `task` call puts a subagent into a table that all calls of the process share, and polls it there.
The worker that streams the subagent, the thread that waits for the worker, the call and the cleanup
after it find the subagent by the id of the tool call, which the model's provider has chosen.

## Scope

A poll, a terminal write and a look at the table are one step each. What the agent streams and
counts is up to the schedule, and so is when a timeout strikes and when a call that waits for its
subagent gives up. Nothing that a poll writes to the stream raises.

## History

`World.log` is proof-only.
-/

namespace AfterFlow.Subagents

open Function

/-! ### Subagents -/

inductive SubagentStatus where
  | pending
  | running
  | completed
  | failed
  | cancelled
  | timedOut
  deriving DecidableEq

def SubagentStatus.isTerminal : SubagentStatus → Bool
  | .completed | .failed | .cancelled | .timedOut => true
  | .pending | .running => false

/-- A record of the tokens that were used, or the sum of such records. -/
structure TokenUsage where
  inputTokens : ℕ
  outputTokens : ℕ
  totalTokens : ℕ
  deriving DecidableEq

/-- `_summarize_usage`. -/
def summarizeUsage (records : List TokenUsage) : Option TokenUsage :=
  if records = [] then none
  else some ⟨(records.map TokenUsage.inputTokens).sum, (records.map TokenUsage.outputTokens).sum,
    (records.map TokenUsage.totalTokens).sum⟩

structure SubagentResult (M : Type) where
  status : SubagentStatus := .pending
  result : Option String := none
  error : Option String := none
  stopReason : Option String := none
  aiMessages : List M := []
  tokenUsageRecords : List TokenUsage := []
  usageReported : Bool := false
  cancelEvent : Bool := false
  deriving DecidableEq

/-- What `task_tool` gives back for a subagent that is over. -/
inductive TaskResult where
  | completed (result stopReason : Option String)
  | failed (error stopReason : Option String)
  | cancelled (error : Option String)
  | timedOut (error : Option String)
  deriving DecidableEq

namespace SubagentResult

variable {M : Type}

/-- `try_set_terminal`: the first terminal status stays. -/
def trySetTerminal (r : SubagentResult M) (status : SubagentStatus)
    (result error stopReason : Option String) (tokenUsageRecords : Option (List TokenUsage)) :
    SubagentResult M :=
  if r.status.isTerminal then r
  else
    { r with
      result := result.or r.result
      error := error.or r.error
      stopReason := stopReason.or r.stopReason
      tokenUsageRecords := tokenUsageRecords.getD r.tokenUsageRecords
      status }

def taskResult? (r : SubagentResult M) : Option TaskResult :=
  match r.status with
  | .completed => some (.completed r.result r.stopReason)
  | .failed => some (.failed r.error r.stopReason)
  | .cancelled => some (.cancelled r.error)
  | .timedOut => some (.timedOut r.error)
  | .pending | .running => none

/-- The status and all that comes with it. -/
def payload (r : SubagentResult M) : SubagentResult M :=
  { r with usageReported := false, cancelEvent := false }

end SubagentResult

/-! ### Calls -/

structure Call (R : Type) where
  toolCallId : String
  timeoutSeconds : ℕ
  /-- The journal that `_find_usage_recorder` finds. -/
  recorder : Option R
  cacheTokenUsage : Bool

def Call.maxPollCount {R : Type} (call : Call R) : ℕ := (call.timeoutSeconds + 60) / 5

/-- Where a call is. It polls, and sleeps with the subagent that it has looked up. -/
inductive Stage (I : Type) where
  | called
  | polling (pollCount lastMessageCount : ℕ)
  | sleeping (source : I) (pollCount lastMessageCount : ℕ)
  /-- The call is cancelled and waits for its subagent. -/
  | awaiting
  | awaited (source : I)
  /-- The call is over, and a deferred cleanup may go on. -/
  | over (sweeping : Bool)

/-- Where `_aexecute` is, and which `result_holder` it has. -/
inductive Worker (I : Type) where
  | idle
  | queued
  | streaming (holder : I)
  /-- The worker has a chunk and has found no cancellation. -/
  | checked (holder : I)
  /-- The future has raised, or is cancelled. -/
  | dead
  | finished

def Worker.isChecked {I : Type} : Worker I → Bool
  | .checked _ => true
  | _ => false

/-- Where `run_task` is, which waits for the future. -/
inductive Watch (I : Type) where
  | idle
  | waiting (holder : I)
  /-- The timeout has struck. -/
  | expired (holder : I)
  | over

structure Task (I : Type) where
  stage : Stage I := .called
  worker : Worker I := .idle
  watch : Watch I := .idle
  /-- The records of the token collector. -/
  collected : List TokenUsage := []

/-- What a call does that can be seen from outside. -/
inductive Event (I R M : Type) where
  /-- A `task_running` event with a message of `source`. -/
  | message (caller source : I) (message : M) (index : ℕ)
  | returned (caller source : I) (result : TaskResult) (usage : Option TokenUsage)
  /-- "Task disappeared from background tasks". -/
  | disappeared (caller : I)
  | pollingTimedOut (caller source : I) (status : SubagentStatus)
  | wrote (caller object : I)
  /-- The thread that waits has ended what the worker had not. -/
  | cutShort (object : I)
  | cancelled (caller object : I)
  /-- The entry of `object` is no longer in the table. -/
  | removed (caller object : I)
  | recorded (caller object : I) (run : R) (records : List TokenUsage)
  deriving DecidableEq

structure World (I R M : Type) where
  objects : I → SubagentResult M
  tasks : I → Task I
  /-- `_background_tasks`. -/
  backgroundTasks : String → Option I
  /-- `_subagent_usage_cache`. -/
  usageCache : String → Option TokenUsage
  log : List (Event I R M)

/-- How a stream ends. -/
inductive Outcome where
  | completed (result : String) (stopReason : Option String)
  | failed (error : String) (stopReason : Option String)

inductive Act (I M : Type) where
  /-- `execute_async`. -/
  | start (i : I)
  /-- The first lines of `run_task`. -/
  | begin (i : I)
  | check (i : I)
  /-- `capture_new_step_messages`. -/
  | capture (i : I) (messages : List M)
  /-- The collector counts a call of the model. -/
  | count (i : I) (usage : TokenUsage)
  | settle (i : I) (outcome : Outcome)
  | die (i : I)
  | join (i : I)
  | expire (i : I)
  | timeOut (i : I)
  /-- `run_task` catches what the future has raised. -/
  | crash (i : I) (error : String)
  | poll (i : I)
  | wake (i : I)
  | cancel (i : I)
  | look (i : I)
  | finish (i : I)
  /-- The call is cancelled again, or its subagent takes too long. -/
  | giveUp (i : I)
  | sweep (i : I)
  | leave (i : I)

/-- The call that starts. -/
def Act.starts {I M : Type} : Act I M → Option I
  | .start i => some i
  | _ => none

/-- The call whose subagent times out. -/
def Act.timesOut {I M : Type} : Act I M → Option I
  | .timeOut i => some i
  | _ => none

section Steps

variable {I R M : Type} [DecidableEq I] (calls : I → Call R)

namespace World

def onObject (w : World I R M) (o : I) (f : SubagentResult M → SubagentResult M) : World I R M :=
  { w with objects := update w.objects o (f (w.objects o)) }

def onTask (w : World I R M) (i : I) (f : Task I → Task I) : World I R M :=
  { w with tasks := update w.tasks i (f (w.tasks i)) }

def note (w : World I R M) (es : List (Event I R M)) : World I R M := { w with log := w.log ++ es }

def goTo (w : World I R M) (i : I) (stage : Stage I) : World I R M :=
  w.onTask i fun t => { t with stage }

/-- The subagent under the call's id. -/
def find (w : World I R M) (i : I) : Option I := w.backgroundTasks (calls i).toolCallId

/-- `execute_async`. The entry that was under the id is gone. -/
def start (w : World I R M) (i : I) : World I R M :=
  { w with
    backgroundTasks := update w.backgroundTasks (calls i).toolCallId (some i)
    log := w.log ++ ((w.find calls i).map fun o => Event.removed i o).toList }.onTask i fun t =>
      { t with stage := .polling 0 0, worker := .queued }

/-- `request_cancel_background_task`. -/
def requestCancel (w : World I R M) (i : I) : World I R M :=
  match w.find calls i with
  | none => w
  | some o => (w.onObject o fun r => { r with cancelEvent := true }).note [.cancelled i o]

/-- `cleanup_background_task`. -/
def cleanup (w : World I R M) (i : I) : World I R M :=
  match w.find calls i with
  | none => w
  | some o =>
    if (w.objects o).status.isTerminal then
      { w with
        backgroundTasks := update w.backgroundTasks (calls i).toolCallId none
        log := w.log ++ [.removed i o] }
    else w

/-- `_cache_subagent_usage`. -/
def cacheUsage (w : World I R M) (i : I) (usage : Option TokenUsage) : World I R M :=
  if (calls i).cacheTokenUsage = true ∧ usage.isSome = true then
    { w with usageCache := update w.usageCache (calls i).toolCallId usage }
  else w

/-- `_report_subagent_usage`. -/
def reportUsage (w : World I R M) (i o : I) : World I R M :=
  if (w.objects o).usageReported = true ∨ (w.objects o).tokenUsageRecords = [] then w
  else
    match (calls i).recorder with
    | none => w
    | some run =>
      (w.onObject o fun r => { r with usageReported := true }).note
        [.recorded i o run (w.objects o).tokenUsageRecords]

/-- The `task_running` events of the messages that are new to the call. -/
def running (w : World I R M) (i o : I) (lastMessageCount : ℕ) : List (Event I R M) :=
  ((w.objects o).aiMessages.zipIdx.drop lastMessageCount).map fun p => .message i o p.1 p.2

/-- One round of the loop of `task_tool`. -/
def poll (w : World I R M) (i : I) (pollCount lastMessageCount : ℕ) : World I R M :=
  match w.find calls i with
  | none => (w.note [.disappeared i]).goTo i (.over false)
  | some o =>
    let r := w.objects o
    let w := w.note (w.running i o lastMessageCount)
    let usage := summarizeUsage r.tokenUsageRecords
    match r.taskResult? with
    | some result =>
      ((((w.cacheUsage calls i usage).reportUsage calls i o).note
        [.returned i o result usage]).goTo i (.over false)).cleanup calls i
    | none => w.goTo i (.sleeping o pollCount (max lastMessageCount r.aiMessages.length))

/-- The call has polled as often as it may. -/
def pollingTimedOut (w : World I R M) (i o : I) : World I R M :=
  let w := w.reportUsage calls i o
  let r := w.objects o
  (((w.cacheUsage calls i (summarizeUsage r.tokenUsageRecords)).requestCancel calls i).note
    [.pollingTimedOut i o r.status]).goTo i (.over true)

/-- The end of a call that was cancelled. -/
def afterCancel (w : World I R M) (i : I) (finalResult : Option I) : World I R M :=
  let w := { w with usageCache := update w.usageCache (calls i).toolCallId none }
  match finalResult with
  | none => w.goTo i (.over true)
  | some o =>
    let w := w.reportUsage calls i o
    if (w.objects o).status.isTerminal then (w.goTo i (.over false)).cleanup calls i
    else w.goTo i (.over true)

/-- The worker ends what it streams. -/
def settle (w : World I R M) (i o : I) (status : SubagentStatus)
    (result error stopReason : Option String) : World I R M :=
  ((w.onObject o fun r => r.trySetTerminal status result error stopReason
    (some (w.tasks i).collected)).onTask i fun t => { t with worker := .finished }).note
    [.wrote i o]

/-- The thread that waits ends what the worker has not. -/
def cut (w : World I R M) (i o : I) (status : SubagentStatus) (error : String) : World I R M :=
  ((w.onObject o fun r => r.trySetTerminal status none (some error) none none).onTask i fun t =>
    { t with watch := .over }).note
    (.wrote i o :: if (w.objects o).status.isTerminal then [] else [.cutShort o])

end World

/-- One step of a call, of its worker, of the thread that waits for it, or of the cleanup. -/
def step (w : World I R M) : Act I M → Option (World I R M)
  | .start i =>
    match (w.tasks i).stage with
    | .called => some (w.start calls i)
    | _ => none
  | .begin i =>
    match (w.tasks i).worker with
    | .queued =>
      match w.find calls i with
      | none => some (w.onTask i fun t => { t with worker := .finished, watch := .over })
      | some o =>
        some (((w.onObject o fun r => { r with status := .running }).onTask i fun t =>
          { t with worker := .streaming o, watch := .waiting o }).note [.wrote i o])
    | _ => none
  | .check i =>
    match (w.tasks i).worker with
    | .streaming o =>
      if (w.objects o).cancelEvent then
        some (w.settle i o .cancelled none (some "Cancelled by user") none)
      else some (w.onTask i fun t => { t with worker := .checked o })
    | _ => none
  | .capture i messages =>
    match (w.tasks i).worker with
    | .checked o =>
      some (((w.onObject o fun r => { r with aiMessages := r.aiMessages ++ messages }).onTask i
        fun t => { t with worker := .streaming o }).note [.wrote i o])
    | _ => none
  | .count i usage =>
    match (w.tasks i).worker with
    | .streaming _ => some (w.onTask i fun t => { t with collected := t.collected ++ [usage] })
    | _ => none
  | .settle i outcome =>
    match (w.tasks i).worker, outcome with
    | .streaming o, .completed result stopReason =>
      some (w.settle i o .completed (some result) none stopReason)
    | .streaming o, .failed error stopReason =>
      some (w.settle i o .failed none (some error) stopReason)
    | _, _ => none
  | .die i =>
    match (w.tasks i).worker with
    | .streaming _ => some (w.onTask i fun t => { t with worker := .dead })
    | _ => none
  | .join i =>
    match (w.tasks i).watch, (w.tasks i).worker with
    | .waiting _, .finished => some (w.onTask i fun t => { t with watch := .over })
    | _, _ => none
  | .expire i =>
    match (w.tasks i).watch with
    | .waiting o =>
      some (((w.onObject o fun r => { r with cancelEvent := true }).onTask i fun t =>
        { t with watch := .expired o }).note [.cancelled i o])
    | _ => none
  | .timeOut i =>
    match (w.tasks i).watch with
    | .expired o => some (w.cut i o .timedOut
        ("Execution timed out after " ++ toString (calls i).timeoutSeconds ++ " seconds"))
    | _ => none
  | .crash i error =>
    match (w.tasks i).watch, (w.tasks i).worker with
    | .waiting _, .dead =>
      -- the subagent is looked up again
      match w.find calls i with
      | none => some (w.onTask i fun t => { t with watch := .over })
      | some o => some (w.cut i o .failed error)
    | _, _ => none
  | .poll i =>
    match (w.tasks i).stage with
    | .polling pollCount lastMessageCount => some (w.poll calls i pollCount lastMessageCount)
    | _ => none
  | .wake i =>
    match (w.tasks i).stage with
    | .sleeping o pollCount lastMessageCount =>
      if (calls i).maxPollCount < pollCount + 1 then some (w.pollingTimedOut calls i o)
      else some (w.goTo i (.polling (pollCount + 1) lastMessageCount))
    | _ => none
  | .cancel i =>
    match (w.tasks i).stage with
    | .sleeping _ _ _ => some ((w.requestCancel calls i).goTo i .awaiting)
    | _ => none
  | .look i =>
    match (w.tasks i).stage, w.find calls i with
    | .awaiting, some o =>
      if (w.objects o).status.isTerminal then some (w.goTo i (.awaited o)) else none
    | _, _ => none
  | .finish i =>
    match (w.tasks i).stage with
    | .awaited o => some (w.afterCancel calls i (some o))
    | _ => none
  | .giveUp i =>
    match (w.tasks i).stage with
    | .awaiting => some (w.afterCancel calls i (w.find calls i))
    | .awaited _ => some (w.afterCancel calls i (w.find calls i))
    | _ => none
  | .sweep i =>
    match (w.tasks i).stage with
    | .over true =>
      match w.find calls i with
      | none => some (w.goTo i (.over false))
      | some o =>
        if (w.objects o).status.isTerminal then
          some ((w.goTo i (.over false)).cleanup calls i)
        else none
    | _ => none
  | .leave i =>
    match (w.tasks i).stage with
    | .over true => some (w.goTo i (.over false))
    | _ => none

/-- The table has no entry under the id of a call that starts, and no timeout is written between a
worker's look at the cancellation and its capture of the messages. -/
def Orderly (w : World I R M) (a : Act I M) : Prop :=
  (∀ i ∈ a.starts, w.find calls i = none) ∧ ∀ i ∈ a.timesOut, (w.tasks i).worker.isChecked = false

instance (w : World I R M) (a : Act I M) : Decidable (Orderly calls w a) :=
  inferInstanceAs (Decidable (_ ∧ ∀ i ∈ a.timesOut, _))

/-- No call has started. -/
structure World.Begins (w : World I R M) : Prop where
  objects : ∀ i, w.objects i = {}
  tasks : ∀ i, w.tasks i = {}
  backgroundTasks : ∀ id, w.backgroundTasks id = none
  log : w.log = []

/-! ### What is promised -/

/-- A subagent later. -/
structure SubagentResult.Evolves (r r' : SubagentResult M) : Prop where
  messages : r.aiMessages <+: r'.aiMessages
  /-- A terminal status and all that comes with it stay. -/
  settled : r.status.isTerminal = true → r'.payload = r.payload
  reported : r.usageReported = true → r'.usageReported = true

/-- The event is about the subagent that the call has started, and tells what is true of it. -/
def Event.Own (objects : I → SubagentResult M) : Event I R M → Prop
  | .message i o m k => o = i ∧ (objects i).aiMessages[k]? = some m
  | .returned i o result usage =>
    o = i ∧ (objects i).taskResult? = some result ∧
      usage = summarizeUsage (objects i).tokenUsageRecords ∧
      ((calls i).recorder.isSome → (objects i).tokenUsageRecords ≠ [] →
        (objects i).usageReported = true)
  | .disappeared _ => False
  | .pollingTimedOut i o _ => o = i
  | .wrote i o | .cancelled i o | .removed i o => o = i
  | .cutShort _ => True
  | .recorded i o run records =>
    o = i ∧ (calls i).recorder = some run ∧ (objects i).status.isTerminal = true ∧
      records = (objects i).tokenUsageRecords ∧ (objects i).usageReported = true

/-- The subagent whose usage the event reports. -/
def Event.recordedOf : Event I R M → Option I
  | .recorded _ o _ _ => some o
  | _ => none

/-- Every call has had its own subagent's outcome. -/
structure World.Kept (w : World I R M) : Prop where
  own : ∀ e ∈ w.log, e.Own calls w.objects
  /-- No usage is reported twice. -/
  once : (w.log.filterMap Event.recordedOf).Nodup
  /-- The usage of a subagent that a call returns is reported. -/
  reported : ∀ i o result usage, .returned i o result usage ∈ w.log → (calls i).recorder.isSome →
    (w.objects i).tokenUsageRecords ≠ [] → i ∈ w.log.filterMap Event.recordedOf
  /-- A worker that ends its subagent leaves all that the collector has counted. -/
  collected : ∀ i, (w.objects i).status.isTerminal = true → .cutShort i ∉ w.log →
    (w.objects i).tokenUsageRecords = (w.tasks i).collected

end Steps

end AfterFlow.Subagents
