import AfterFlow.PyStr
import AfterFlow.Transition.Runs
import Mathlib.Data.Fintype.Basic

/-!
# Branching

A branch of a thread is a new thread whose only checkpoint is a copy of the parent's, as it was
after the turn that the caller names. The copy is whole: it has the messages, and it has the handle
of the sandbox that the parent was using. The files of the parent are no part of a checkpoint. They
are copied where the turn is the parent's latest, which is looked up once.

Calls and the runs on all threads take turns. A tool call takes the sandbox that its thread's state
names, where the provider still has it, and acquires one otherwise.

## Scope

Of the channels of a checkpoint there are the messages and the sandbox. Of a row there is what a
branch writes. The provider never gives one sandbox to two threads. An id that `uuid4` draws is
nobody's.

## History

`Message.run`, `World.lastRun`, `World.acquiredFor`, `World.toolCalls` and `World.copies` are
proof-only.
-/

namespace AfterFlow.Threads.Branching

open Function

variable {I R : Type}

/-! ### The two scans -/

inductive MessageType where
  | human
  | ai
  | system
  | tool
  deriving DecidableEq

structure Message (R : Type) where
  /-- `_message_id`; an empty id is none. -/
  id : Option String
  type : MessageType
  hideFromUi : Bool
  text : String
  /-- The run that wrote it. -/
  run : Option R
  deriving DecidableEq

namespace Message

/-- `_is_branch_visible_message`. -/
def isBranchVisible (m : Message R) : Bool := !m.hideFromUi && (m.type = .human || m.type = .ai)

/-- `_is_branch_assistant_message`. -/
def isBranchAssistant (m : Message R) : Bool := m.type = .ai

end Message

structure Checkpoint (R : Type) where
  id : String
  messages : List (Message R)
  /-- The id in the `sandbox` channel. -/
  sandbox : Option String
  deriving DecidableEq

/-- `index_by_id`: of two messages with one id the last. -/
@[grind =] def indexById (id : String) : List (Message R) → Option ℕ
  | [] => none
  | m :: ms =>
    match indexById id ms with
    | some n => some (n + 1)
    | none => if m.id = some id then some 0 else none

def targetEndIndex (messages : List (Message R)) (targets : List String) : ℕ :=
  (targets.filterMap fun id => indexById id messages).foldr max 0

/-- `_matches_branch_target`. -/
def matchesBranchTarget (messages : List (Message R)) (targets : List String) : Bool :=
  targets ≠ [] &&
  targets.all (fun id => (indexById id messages).isSome) &&
  targets.all (fun id => ((indexById id messages).bind fun n => messages[n]?).any
    Message.isBranchAssistant) &&
  !(messages.drop (targetEndIndex messages targets + 1)).any Message.isBranchVisible

/-- `_BRANCH_HISTORY_SCAN_LIMIT`. -/
def branchHistoryScanLimit : ℕ := 200

/-- `_find_branch_checkpoint`, on the checkpoints of the thread, the latest first. -/
def findBranchCheckpoint (checkpoints : List (Checkpoint R)) (targets : List String) :
    Option (Checkpoint R) :=
  (checkpoints.take branchHistoryScanLimit).find? fun c => matchesBranchTarget c.messages targets

/-- The newest checkpoint that holds messages. -/
def newest (checkpoints : List (Checkpoint R)) : Option (Checkpoint R) :=
  (checkpoints.take branchHistoryScanLimit).find? fun c => !c.messages.isEmpty

/-- `_branch_targets_latest_turn`. -/
def branchTargetsLatestTurn (checkpoints : List (Checkpoint R)) (targets : List String) : Bool :=
  (newest checkpoints).any fun c => matchesBranchTarget c.messages targets

/-- The last of the target messages. -/
def lastTarget (messages : List (Message R)) (targets : List String) : Option (Message R) :=
  messages[targetEndIndex messages targets]?

/-- The last message of a user or an assistant that the chat shows. -/
def lastVisible (messages : List (Message R)) : Option (Message R) :=
  (messages.filter Message.isBranchVisible).getLast?

/-! ### Rows -/

structure BranchMetadata where
  parentThreadId : String
  parentCheckpointId : String
  parentMessageId : String
  deriving DecidableEq

structure ThreadMetaRow where
  displayName : Option String
  /-- `deerflow_sidecar`. -/
  sidecar : Bool
  /-- What `deerflow_branch` marks. -/
  branch : Option BranchMetadata
  deriving DecidableEq

/-- Whether the text begins with `branch:`, in any case. -/
def startsWithBranch (s : String) : Bool :=
  (s.toList.take 7).map Char.toLower = "branch:".toList

/-- The loop of `_default_branch_display_name`; every round takes seven characters. -/
def dropBranchWords : ℕ → String → String
  | 0, s => s
  | n + 1, s =>
    if startsWithBranch s then dropBranchWords n (PyStr.strip (String.ofList (s.toList.drop 7)))
    else s

/-- `_default_branch_display_name`. -/
def defaultBranchDisplayName (sourceTitle : Option String) (sourceIsBranch : Bool) :
    Option String :=
  sourceTitle.bind fun title =>
    let name := PyStr.strip title
    let name := if sourceIsBranch then dropBranchWords name.length name else name
    if name = "" then none else some name

/-! ### Calls and runs -/

/-- The path and the body of a request. -/
structure Call where
  threadId : String
  messageId : String
  messageIds : List String
  title : Option String

def Call.targetMessageIds (call : Call) : List String := call.messageId :: call.messageIds

/-- `body.title or …`. -/
def Call.displayName (call : Call) (source : ThreadMetaRow) : Option String :=
  (call.title.filter (· ≠ "")).or
    (defaultBranchDisplayName source.displayName source.branch.isSome)

inductive WorkspaceCloneMode where
  | notFound
  | currentThreadBestEffort
  | failed
  | skippedHistoricalTurn
  deriving DecidableEq

/-- Where a call is; `c` is the checkpoint found, `latest` the answer of the second scan. -/
inductive CallStage (R : Type) where
  | called
  | finding (source : ThreadMetaRow)
  | looking (source : ThreadMetaRow) (c : Checkpoint R)
  | putting (source : ThreadMetaRow) (c : Checkpoint R) (latest : Bool) (newThreadId id : String)
  | creating (source : ThreadMetaRow) (c : Checkpoint R) (latest : Bool) (newThreadId : String)
  | copying (c : Checkpoint R) (newThreadId : String)
  | done (c : Checkpoint R) (newThreadId : String) (mode : WorkspaceCloneMode)
  /-- `drawn` is the new id, where the call got so far. -/
  | raised (drawn : Option String)
  deriving DecidableEq

/-- The thread that the call makes. -/
@[grind =] def CallStage.drawn : CallStage R → Option String
  | .putting _ _ _ newThreadId _ | .creating _ _ _ newThreadId | .copying _ newThreadId
  | .done _ newThreadId _ => some newThreadId
  | .raised drawn => drawn
  | .called | .finding _ | .looking _ _ => none

/-- Whether the call is going to copy the parent's files. -/
def CallStage.copies : CallStage R → Bool
  | .putting _ _ latest _ _ | .creating _ _ latest _ => latest
  | .copying _ _ => true
  | _ => false

/-- The state of a run, with the sandboxes that its tool calls have acquired in this step. -/
inductive RunStage (R : Type) where
  | waiting
  | started
  | running (c : Checkpoint R) (updates : List String)
  | writing (c : Checkpoint R)
  | over
  deriving DecidableEq

/-- Who knows a thread id. -/
inductive Known where
  /-- Nobody has drawn it. -/
  | fresh
  /-- A call has drawn it, and has told nobody. -/
  | drawn
  | told
  deriving DecidableEq

structure World (I R : Type) where
  /-- The checkpoints of a thread, the latest first. -/
  checkpoints : String → List (Checkpoint R)
  rows : String → Option ThreadMetaRow
  ids : String → Known
  /-- Whether `SandboxProvider.get` finds the sandbox. -/
  live : String → Bool
  call : I → CallStage R
  run : R → RunStage R
  /-- The run that was the last to start on the thread. -/
  lastRun : String → Option R
  /-- The thread for which the sandbox was acquired. -/
  acquiredFor : String → Option String
  /-- The tool calls: the thread and the sandbox. -/
  toolCalls : List (String × String)
  /-- The copies of files: the call, the checkpoint that it copied, the last run by then. -/
  copies : List (I × Checkpoint R × Option R)

inductive Act (I R : Type) where
  /-- What the call awaits comes back. -/
  | next (i : I)
  /-- The second scan comes back, or raises, and the call draws its ids. -/
  | look (i : I) (raises : Bool) (newThreadId id : String)
  /-- The copy of the files is over. -/
  | copy (i : I) (found : Bool)
  /-- What the call awaits raises. -/
  | fail (i : I)
  /-- The call is cancelled. -/
  | cancel (i : I)
  | start (r : R)
  | load (r : R)
  /-- A tool call; `sandboxId` is what the provider gives if it is asked. -/
  | tool (r : R) (sandboxId : String)
  /-- A step of the graph ends with the messages. -/
  | advance (r : R) (messages : List (Message R)) (id : String)
  | put (r : R)
  | finish (r : R)
  /-- The `n`-th checkpoint is written again, with other messages. -/
  | edit (threadId : String) (n : ℕ) (messages : List (Message R)) (id : String)
  /-- Another route acquires the sandbox of a thread. -/
  | acquire (threadId sandboxId : String)
  /-- The provider loses a sandbox. -/
  | lose (sandboxId : String)

/-- `merge_sandbox`; `none` where it raises. -/
def mergeSandbox (existing : Option String) (new : String) : Option (Option String) :=
  match existing with
  | none => some (some new)
  | some old => if old = new then some (some old) else none

section Steps

variable [DecidableEq I] [DecidableEq R] (calls : I → Call) (threadOf : R → String)

namespace World

def goTo (w : World I R) (i : I) (stage : CallStage R) : World I R :=
  { w with call := update w.call i stage }

def runTo (w : World I R) (r : R) (stage : RunStage R) : World I R :=
  { w with run := update w.run r stage }

/-- `aput`. -/
def put (w : World I R) (threadId : String) (c : Checkpoint R) : World I R :=
  { w with checkpoints := update w.checkpoints threadId (c :: w.checkpoints threadId) }

def setRow (w : World I R) (threadId : String) (row : ThreadMetaRow) : World I R :=
  { w with
    rows := update w.rows threadId (some row)
    ids := update w.ids threadId .told }

def draw (w : World I R) (threadId : String) : World I R :=
  { w with ids := update w.ids threadId .drawn }

/-- `SandboxProvider.acquire`. -/
def acquire (w : World I R) (threadId sandboxId : String) : Option (World I R) :=
  if ∀ t ∈ w.acquiredFor sandboxId, t = threadId then
    some { w with
      live := update w.live sandboxId true
      acquiredFor := update w.acquiredFor sandboxId (some threadId) }
  else none

/-- A tool call of a thread in a sandbox. -/
def useSandbox (w : World I R) (threadId sandboxId : String) : World I R :=
  { w with toolCalls := w.toolCalls ++ [(threadId, sandboxId)] }

def latest (w : World I R) (threadId : String) : Checkpoint R :=
  ((w.checkpoints threadId).head?).getD ⟨"", [], none⟩

/-- What a call awaits comes back. -/
@[grind =] def next (w : World I R) (i : I) : Option (World I R) :=
  let call := calls i
  match w.call i with
  | .called =>
    match w.rows call.threadId with
    | none => some (w.goTo i (.raised none))
    | some source =>
      if source.sidecar then some (w.goTo i (.raised none)) else some (w.goTo i (.finding source))
  | .finding source =>
    match findBranchCheckpoint (w.checkpoints call.threadId) call.targetMessageIds with
    | none => some (w.goTo i (.raised none))
    | some c =>
      if c.id = "" then some (w.goTo i (.raised none)) else some (w.goTo i (.looking source c))
  | .putting source c latest newThreadId id =>
    -- the copy is whole, the handle of the sandbox included
    some ((w.put newThreadId { c with id := id }).goTo i (.creating source c latest newThreadId))
  | .creating source c latest newThreadId =>
    if (w.rows newThreadId).isSome then some (w.goTo i (.raised (some newThreadId)))
    else
      let row : ThreadMetaRow :=
        ⟨call.displayName source, false, some ⟨call.threadId, c.id, call.messageId⟩⟩
      some ((w.setRow newThreadId row).goTo i
        (if latest then .copying c newThreadId else .done c newThreadId .skippedHistoricalTurn))
  | .looking _ _ | .copying _ _ | .done _ _ _ | .raised _ => none

/-- What a call awaits raises. The second scan answers no then; see `Act.look`. -/
@[grind =] def fail (w : World I R) (i : I) : Option (World I R) :=
  match w.call i with
  | .looking _ _ | .done _ _ _ | .raised _ => none
  | .copying c newThreadId => some (w.goTo i (.done c newThreadId .failed))
  | stage => some (w.goTo i (.raised stage.drawn))

/-- `ensure_sandbox_initialized`, and the update that `SandboxMiddleware` makes of it. -/
def tool (w : World I R) (r : R) (c : Checkpoint R) (updates : List String) (sandboxId : String) :
    Option (World I R) :=
  match c.sandbox.filter w.live with
  | some held => some (w.useSandbox (threadOf r) held)
  | none =>
    (w.acquire (threadOf r) sandboxId).map fun w' =>
      (w'.useSandbox (threadOf r) sandboxId).runTo r
        (.running c (if c.sandbox.isNone then updates ++ [sandboxId] else updates))

end World

@[grind =] def step (w : World I R) : Act I R → Option (World I R)
  | .next i => w.next calls i
  | .look i raises newThreadId id =>
    match w.call i with
    | .looking source c =>
      if w.ids newThreadId = .fresh then
        let latest := !raises &&
          branchTargetsLatestTurn (w.checkpoints (calls i).threadId) (calls i).targetMessageIds
        some ((w.draw newThreadId).goTo i (.putting source c latest newThreadId id))
      else none
    | _ => none
  | .copy i found =>
    match w.call i with
    | .copying c newThreadId =>
      if found then
        some ({ w with copies := w.copies ++ [(i, c, w.lastRun (calls i).threadId)] }.goTo i
          (.done c newThreadId .currentThreadBestEffort))
      else some (w.goTo i (.done c newThreadId .notFound))
    | _ => none
  | .fail i => w.fail i
  | .cancel i =>
    match w.call i with
    | .done _ _ _ | .raised _ => none
    | stage => some (w.goTo i (.raised stage.drawn))
  | .start r =>
    if w.run r = .waiting ∧ w.ids (threadOf r) = .told then
      some ({ w with lastRun := update w.lastRun (threadOf r) (some r) }.runTo r .started)
    else none
  | .load r =>
    if w.run r = .started then some (w.runTo r (.running (w.latest (threadOf r)) [])) else none
  | .tool r sandboxId =>
    match w.run r with
    | .running c updates => w.tool threadOf r c updates sandboxId
    | _ => none
  | .advance r messages id =>
    match w.run r with
    | .running c updates =>
      if ∀ m ∈ messages, m ∈ c.messages ∨ m.run = some r then
        match updates.foldlM mergeSandbox c.sandbox with
        | none => some (w.runTo r .over)
        | some sandbox => some (w.runTo r (.writing ⟨id, messages, sandbox⟩))
      else none
    | _ => none
  | .put r =>
    match w.run r with
    | .writing c => some ((w.put (threadOf r) c).runTo r (.running c []))
    | _ => none
  | .finish r => if w.run r = .waiting then none else some (w.runTo r .over)
  | .edit threadId n messages id =>
    let base := ((w.checkpoints threadId)[n]?).getD ⟨"", [], none⟩
    if w.ids threadId = .told ∧ ∀ m ∈ messages, m ∈ base.messages ∨ m.run = none then
      some (w.put threadId { base with id := id, messages := messages })
    else none
  | .acquire threadId sandboxId => w.acquire threadId sandboxId
  | .lose sandboxId => some { w with live := update w.live sandboxId false }

/-! ### Conditions -/

/-- The run that wrote the last visible message. -/
def turnOf (messages : List (Message R)) : Option R := (lastVisible messages).bind Message.run

/-- The condition on a turn that is branched from, when the second scan comes back.
* The target message is one that the chat shows.
* The thread has used no sandbox by then.
* If the turn still ends the newest checkpoint, no later run has started. -/
structure World.Fits (w : World I R) (i : I) (c : Checkpoint R) (raises : Bool) : Prop where
  visible : ∀ m ∈ lastTarget c.messages (calls i).targetMessageIds, m.isBranchVisible = true
  sandbox : c.sandbox = none
  current : raises = false → branchTargetsLatestTurn (w.checkpoints (calls i).threadId)
    (calls i).targetMessageIds = true → w.lastRun (calls i).threadId = turnOf c.messages

/-- The checkpoint of the branch is written, and its row is not. -/
def CallStage.unlisted : CallStage R → Bool
  | .creating _ _ _ _ => true
  | _ => false

/-- The condition on a step. The row of a branch can be created, no call is cancelled once the
branch has its checkpoint, and no run starts on a thread whose files are going to be copied. -/
@[grind =] def Orderly (w : World I R) : Act I R → Prop
  | .look i raises _ _ =>
    match w.call i with
    | .looking _ c => w.Fits calls i c raises
    | _ => True
  | .fail i => (w.call i).unlisted = false
  | .cancel i =>
    match w.call i with
    | .creating _ _ _ _ | .copying _ _ => False
    | _ => True
  | .start r => ∀ i, (calls i).threadId = threadOf r → (w.call i).copies = false
  | _ => True

/-- No call and no run has started. A thread whose id is not told does not exist, and the threads
that exist name sandboxes of their own. -/
structure World.Begins (w : World I R) : Prop where
  call : ∀ i, w.call i = .called
  run : ∀ r, w.run r = .waiting
  ids : ∀ t, w.ids t ≠ .drawn
  untold : ∀ t, w.ids t ≠ .told → w.checkpoints t = [] ∧ w.rows t = none
  sandbox : ∀ t, ∀ c ∈ w.checkpoints t, ∀ s ∈ c.sandbox, w.acquiredFor s = some t
  toolCalls : w.toolCalls = []
  copies : w.copies = []

/-- Branches are conversations up to their turns, apart from their parents. -/
structure World.Separate (w : World I R) : Prop where
  /-- A branch begins with the messages of a checkpoint of its parent, which end, as far as the chat
  shows them, with the last target message. -/
  messages : ∀ i c newThreadId mode, w.call i = .done c newThreadId mode →
    c ∈ w.checkpoints (calls i).threadId ∧
    (∃ m, lastTarget c.messages (calls i).targetMessageIds = some m ∧
      lastVisible c.messages = some m) ∧
    ∃ c', (w.checkpoints newThreadId).getLast? = some c' ∧ c'.messages = c.messages
  /-- Files are copied only if no run has started since the turn. -/
  files : ∀ p ∈ w.copies, p.2.2 = turnOf p.2.1.messages
  /-- Tool calls run in sandboxes of their own threads. -/
  sandbox : ∀ p ∈ w.toolCalls, w.acquiredFor p.2 = some p.1
  /-- A call that raises leaves nothing. -/
  raised : ∀ i t, w.call i = .raised (some t) → w.checkpoints t = [] ∧ w.rows t = none

/-- The call that takes the step. -/
def Act.caller : Act I R → Option I
  | .next i | .look i _ _ _ | .copy i _ | .fail i | .cancel i => some i
  | _ => none

end Steps

end AfterFlow.Threads.Branching
