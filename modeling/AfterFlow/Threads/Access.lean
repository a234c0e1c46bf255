import AfterFlow.Transition.Runs
import Mathlib.Data.Fintype.Basic

/-!
# Who may use a thread

A thread has an owner row, checkpoints, and runs that write checkpoints. A request asks once whether
its caller may use the thread, and does the rest in steps of its own, some of which may fail
unnoticed. A row that is missing denies nobody, except where the route requires it.

An internal caller acts for the owner that its header names. It is asked for under two ids, and
where the row is not its owner's it moves the row.

## Scope

The store of the rows is the SQL one. Of a response only messages, titles and goals are told. A run
may be told what to keep of the messages that it has read, and what to add.

## History

`World.responses` and `moves` are proof-only.
-/

namespace AfterFlow.Threads.Access

/-! ### Callers -/

/-- A character that `_UNSAFE_USER_ID_CHAR_RE` leaves. -/
def isSafeUserIdChar (c : Char) : Bool := c.isAlphanum || c = '_' || c = '-'

/-- `make_safe_user_id`; `digest` is the start of the SHA-256 in hexadecimal. -/
def makeSafeUserId (digest : String → String) (raw : String) : String :=
  let sanitized := String.ofList (raw.toList.map fun c => if isSafeUserIdChar c then c else '-')
  if sanitized = raw then raw else sanitized ++ "-" ++ digest raw

inductive Caller where
  | user (id : String)
  /-- The caller holds the internal token and names an owner. -/
  | internal (ownerUserId : String)
  deriving DecidableEq

/-- The id of `request.state.user`. -/
def Caller.userId (digest : String → String) : Caller → String
  | .user id => id
  | .internal ownerUserId => makeSafeUserId digest ownerUserId

def Caller.isInternal : Caller → Bool
  | .user _ => false
  | .internal _ => true

/-- The user for whom the caller acts. -/
def Caller.actsFor : Caller → String
  | .user id => id
  | .internal ownerUserId => ownerUserId

/-! ### Rows -/

structure ThreadMetaRow where
  userId : Option String
  deriving DecidableEq

/-- `check_access`. -/
def checkAccess (row : Option ThreadMetaRow) (userId : String) (requireExisting : Bool) : Bool :=
  match row with
  | none => !requireExisting
  | some row => row.userId = none ∨ row.userId = some userId

/-- `get`, of the row of one user. -/
def getOwned (row : Option ThreadMetaRow) (userId : String) : Option ThreadMetaRow :=
  row.filter fun row => row.userId = some userId

/-! ### Checkpoints -/

/-- A message, a title or a goal. The author is the user for whom it was written. -/
structure Item where
  author : String
  text : String
  deriving DecidableEq

structure Checkpoint where
  messages : List Item
  title : Option Item
  goal : Option Item
  deriving DecidableEq

def emptyCheckpoint : Checkpoint := ⟨[], none, none⟩

def Checkpoint.items (c : Checkpoint) : List Item := c.messages ++ c.title.toList ++ c.goal.toList

/-- What an entry of the history tells; only the latest tells the messages. -/
def historyItems : List Checkpoint → List Item
  | [] => []
  | c :: cs => c.messages ++ (c :: cs).flatMap fun c => c.title.toList

/-! ### Requests -/

inductive Call where
  | createThread
  /-- `underThread` is the route below a thread; `wait` answers with the final state. -/
  | startRun (underThread wait : Bool)
  | deleteThreadData
  | setThreadGoal (objective : String)
  | getThread
  | getThreadState
  | getThreadHistory (skip limit : ℕ)
  | getThreadGoal
  deriving DecidableEq

structure Request where
  caller : Caller
  threadId : String
  call : Call

/-- Where a request is; the next await is what the name says. -/
inductive Stage where
  /-- `check_access` of the route; the second time for the owner of an internal caller. -/
  | gate (second : Bool)
  /-- `check_access` of `start_run`. -/
  | access (second : Bool)
  | admitting
  | get
  | getUnscoped
  | moving
  | getAgain
  | creating
  /-- `ensure_thread_checkpoint`. -/
  | ensuring (again : Bool)
  | rooting (again : Bool)
  | reading
  | putting (c : Checkpoint)
  | running (c : Checkpoint)
  | writing (c : Checkpoint)
  /-- The run that the caller waits for is over. -/
  | waited
  /-- `adelete_thread`. -/
  | cleaning
  | removing
  | over
  deriving DecidableEq

namespace Call

/-- Whether the route requires the row. -/
def requireExisting : Call → Bool
  | .startRun _ _ | .deleteThreadData => true
  | _ => false

def entry : Call → Stage
  | .createThread => .get
  | .startRun underThread _ => if underThread then .gate false else .access false
  | _ => .gate false

/-- What comes after the route's check. -/
def granted : Call → Stage
  | .startRun _ _ => .access false
  | .deleteThreadData => .cleaning
  | .setThreadGoal _ => .get
  | _ => .reading

/-- What comes after the row of the acting user is found. -/
@[grind =] def found : Call → Stage
  | .createThread => .over
  | .setThreadGoal _ => .ensuring false
  | _ => .reading

/-- What comes after the row is created. -/
def created : Call → Stage
  | .createThread => .rooting false
  | .setThreadGoal _ => .ensuring false
  | _ => .reading

def startsRun : Call → Bool
  | .startRun _ _ => true
  | _ => false

/-- What comes after an exception of the row's store: `start_run` goes on. -/
def unnoted (call : Call) : Stage := if call.startsRun then .reading else .over

/-- What comes after the thread has a checkpoint. -/
def rooted (again : Bool) : Call → Stage
  | .createThread => .over
  | _ => if again then .reading else .ensuring true

end Call

structure World (I : Type) where
  /-- `threads_meta`. -/
  rows : String → Option ThreadMetaRow
  /-- The checkpoints of a thread, the latest first. -/
  checkpoints : String → List Checkpoint
  stage : I → Stage
  /-- What requests have been answered. -/
  responses : List (I × List Item)
  /-- The rows that requests have moved to another owner. -/
  moves : List (I × ThreadMetaRow)

inductive Act (I : Type) where
  /-- What the request awaits comes back. -/
  | next (i : I)
  /-- The run has made the values of its next checkpoint. -/
  | advance (i : I) (c : Checkpoint)
  /-- The run goes on from the latest checkpoint. -/
  | resume (i : I)
  | finish (i : I)
  /-- What the request awaits raises. -/
  | fail (i : I)

section Steps

variable {I : Type} [DecidableEq I] (digest : String → String) (requests : I → Request)

namespace World

def goTo (w : World I) (i : I) (stage : Stage) : World I :=
  { w with stage := Function.update w.stage i stage }

def respond (w : World I) (i : I) (items : List Item) : World I :=
  { w with responses := w.responses ++ [(i, items)] }

/-- The row of the request's thread. -/
def row (w : World I) (i : I) : Option ThreadMetaRow := w.rows (requests i).threadId

def setRow (w : World I) (i : I) (row : Option ThreadMetaRow) : World I :=
  { w with rows := Function.update w.rows (requests i).threadId row }

/-- The checkpoints of the request's thread. -/
def saved (w : World I) (i : I) : List Checkpoint := w.checkpoints (requests i).threadId

def setSaved (w : World I) (i : I) (saved : List Checkpoint) : World I :=
  { w with checkpoints := Function.update w.checkpoints (requests i).threadId saved }

/-- `aput`. -/
def put (w : World I) (i : I) (c : Checkpoint) : World I :=
  w.setSaved requests i (c :: w.saved requests i)

/-- All that is written in the checkpoints of a thread. -/
def content (w : World I) (threadId : String) : List Item :=
  (w.checkpoints threadId).flatMap Checkpoint.items

/-- The answer of a check. -/
def check (w : World I) (i : I) (second requireExisting : Bool) : Bool :=
  checkAccess (w.row requests i)
    (if second then (requests i).caller.actsFor else (requests i).caller.userId digest)
    requireExisting

/-- What a request does with the latest checkpoint. -/
def read (w : World I) (i : I) : World I :=
  let latest := ((w.saved requests i).head?).getD emptyCheckpoint
  match (requests i).call with
  | .startRun _ _ => w.goTo i (.running latest)
  | .setThreadGoal objective =>
    if w.saved requests i = [] then w.goTo i .over
    else w.goTo i (.putting { latest with goal := some ⟨(requests i).caller.actsFor, objective⟩ })
  | .getThreadGoal => (w.respond i latest.goal.toList).goTo i .over
  | .getThreadHistory skip limit =>
    (w.respond i (historyItems (((w.saved requests i).drop skip).take limit))).goTo i .over
  | _ => (w.respond i latest.items).goTo i .over

/-- What a request awaits comes back. -/
@[grind =] def next (w : World I) (i : I) : Option (World I) :=
  let call := (requests i).call
  let caller := (requests i).caller
  match w.stage i with
  | .gate second =>
    if w.check digest requests i second call.requireExisting then some (w.goTo i call.granted)
    else if !second && caller.isInternal then some (w.goTo i (.gate true))
    else some (w.goTo i .over)
  | .access second =>
    if w.check digest requests i second false then some (w.goTo i .admitting)
    else if !second && caller.isInternal then some (w.goTo i (.access true))
    else some (w.goTo i .over)
  | .admitting => some (w.goTo i .get)
  | .get =>
    if (getOwned (w.row requests i) caller.actsFor).isSome then some (w.goTo i call.found)
    else some (w.goTo i (if caller.isInternal then .getUnscoped else .creating))
  | .getUnscoped =>
    match w.row requests i with
    | none => some (w.goTo i .creating)
    | some row =>
      some (w.goTo i (if row.userId = some caller.actsFor then .getAgain else .moving))
  | .moving =>
    match w.row requests i with
    | none => some (w.goTo i .getAgain)
    | some row =>
      some (({ w with moves := w.moves ++ [(i, row)] }.setRow requests i
        (some { row with userId := some caller.actsFor })).goTo i .getAgain)
  | .getAgain =>
    if (getOwned (w.row requests i) caller.actsFor).isSome then some (w.goTo i call.found)
    else some (w.goTo i .creating)
  | .creating =>
    -- a second row under the key is an error
    if (w.row requests i).isSome then some (w.goTo i call.unnoted)
    else some ((w.setRow requests i (some ⟨some caller.actsFor⟩)).goTo i call.created)
  | .ensuring again =>
    if w.saved requests i = [] then some (w.goTo i (.rooting again))
    else some (w.goTo i (call.rooted again))
  | .rooting again => some ((w.put requests i emptyCheckpoint).goTo i (call.rooted again))
  | .reading => some (w.read requests i)
  | .putting c => some (((w.put requests i c).respond i c.goal.toList).goTo i .over)
  | .running _ => none
  | .writing c => some ((w.put requests i c).goTo i (.running c))
  | .waited =>
    some ((w.respond i (((w.saved requests i).head?).getD emptyCheckpoint).items).goTo i .over)
  | .cleaning => some ((w.setSaved requests i []).goTo i .removing)
  | .removing =>
    if (getOwned (w.row requests i) (caller.userId digest)).isSome then
      some ((w.setRow requests i none).goTo i .over)
    else some (w.goTo i .over)
  | .over => none

/-- What a request awaits raises. Only the cleanup and the note of a run's thread go on. -/
@[grind =] def fail (w : World I) (i : I) : Option (World I) :=
  match w.stage i with
  | .over => none
  | .cleaning => some (w.goTo i .removing)
  | .get | .getUnscoped | .moving | .getAgain | .creating =>
    some (w.goTo i (requests i).call.unnoted)
  | _ => some (w.goTo i .over)

end World

@[grind =] def step (w : World I) : Act I → Option (World I)
  | .next i => w.next digest requests i
  | .advance i c =>
    match w.stage i with
    | .running read =>
      -- the run keeps what it has read and adds what it writes for its user
      if ∀ item ∈ c.items, item ∈ read.items ∨ item.author = (requests i).caller.actsFor then
        some ((w.respond i c.items).goTo i (.writing c))
      else none
    | _ => none
  | .resume i =>
    match w.stage i with
    | .running _ => some (w.goTo i .reading)
    | _ => none
  | .finish i =>
    match w.stage i, (requests i).call with
    | .running _, .startRun _ wait => some (w.goTo i (if wait then .waited else .over))
    | _, _ => none
  | .fail i => w.fail requests i

/-! ### Conditions -/

/-- The request has been let in and may still read or write what the thread holds. -/
@[grind =] def Stage.holds (call : Call) : Stage → Bool
  | .gate _ | .access _ | .cleaning | .removing | .over => false
  -- `set_thread_goal` gives up where it finds another user's row
  | .get | .getUnscoped | .moving | .getAgain | .creating => call.startsRun
  | .ensuring _ | .rooting _ => call ≠ .createThread
  | _ => true

/-- The request may still write, and has found the row. -/
@[grind =] def Stage.writes (call : Call) : Stage → Bool
  | .ensuring _ | .rooting _ => call ≠ .createThread
  | .putting _ | .running _ | .writing _ => true
  | .reading =>
    match call with
    | .setThreadGoal _ => true
    | _ => false
  | _ => false

/-- The condition on a step, where another request `j` of the thread is under way.
* A row is moved only if it has been its new owner's, where the request starts no run.
* A row is removed only if the checkpoints hold nothing any more and no one is about to write.
* A row is created only if no one who acts for another user has been let in before.
* A run begins only if the thread has a row. -/
def World.Fits (w : World I) (i : I) : Prop :=
  (w.stage i = .moving → (requests i).call.startsRun = false → ∀ row ∈ w.row requests i,
    row.userId = some (requests i).caller.actsFor) ∧
  (w.stage i = .removing →
    (getOwned (w.row requests i) ((requests i).caller.userId digest)).isSome = true →
    w.content (requests i).threadId = [] ∧ ∀ j, (requests j).threadId = (requests i).threadId →
      (w.stage j).writes (requests j).call = false) ∧
  (w.stage i = .creating → w.row requests i = none →
    ∀ j, (requests j).threadId = (requests i).threadId →
      (w.stage j).holds (requests j).call = true →
      (requests j).caller.actsFor = (requests i).caller.actsFor) ∧
  (w.stage i = .reading → (requests i).call.startsRun = true → (w.row requests i).isSome = true)

/-- What comes back keeps the threads apart. -/
def Orderly (w : World I) : Act I → Prop
  | .next i => w.Fits digest requests i
  | _ => True

/-- No request has begun. The rows have owners, and a thread holds what its owner has written. -/
structure World.Begins (w : World I) : Prop where
  rows : ∀ threadId, ∀ row ∈ w.rows threadId,
    ∃ i, row.userId = some (requests i).caller.actsFor
  content : ∀ threadId, ∀ item ∈ w.content threadId,
    w.rows threadId = some ⟨some item.author⟩
  stage : ∀ i, w.stage i = (requests i).call.entry
  responses : w.responses = []
  moves : w.moves = []

/-- The safe form of one user's id is no other user's id. -/
def Apart : Prop := ∀ i j, (requests i).caller.userId digest = (requests j).caller.actsFor →
  (requests i).caller.actsFor = (requests j).caller.actsFor

/-- Threads are private. -/
structure World.Private (w : World I) : Prop where
  /-- A response tells only what was written for the user for whom the caller acts. -/
  responses : ∀ p ∈ w.responses, ∀ item ∈ p.2, item.author = (requests p.1).caller.actsFor
  /-- No request moves the row of another user. -/
  moves : ∀ p ∈ w.moves, p.2.userId = some (requests p.1).caller.actsFor

end Steps

end AfterFlow.Threads.Access
