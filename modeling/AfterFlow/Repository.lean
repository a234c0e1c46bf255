import AfterFlow.Coop.System
import AfterFlow.Model

/-!
# The repository

`AfterSalesRepository` and the reservation reaper of `repository.py`, as coroutines over the shared
world. A statement and the commit that follows it are one awaited operation, because nothing of a
transaction is visible before its commit. The exit of a session block is awaited on its own: between
the statement and the code after the block, others may run.

## History

`World.history` is proof-only: no code reads it. It records every move of reserved money, every
signature and the decision every action was created from.
-/

namespace AfterFlow

open Coop

/-- The awaited operations: the statements of the repository, the exit of a session block, and
`asyncio.sleep`. -/
inductive Op where
  | insertCase (row : ServiceCase)
  | refreshCase (id : Uuid)
  | updateCase (id : Uuid) (userId : String) (expectedVersion : ℕ) (values : CaseValues)
  | getCase (id : Uuid) (userId : Option String)
  | caseExists (id : Uuid) (userId : String)
  | activeAction (caseId : Uuid)
  | insertAction (row : ActionRequest)
  | refreshAction (id : Uuid)
  | getAction (id : Uuid) (userId : Option String)
  | listActionsWithCases (status : Option ActionStatus)
  | listCaseActions (caseId : Uuid) (userId : String)
  | listExpiredReservedActions (now : Instant)
  | updateAction (action : ActionRequest) (userId : Option String) (expectedVersion : ℕ)
  | lastEvent (caseId : Uuid)
  | insertEvent (row : CaseEvent)
  | refreshEvent (row : CaseEvent)
  | listEvents (caseId : Uuid) (userId : String)
  | close
  | sleep

/-- What an operation replies. An update replies its row count. -/
@[reducible] def Op.Reply : Op → Type
  | .insertCase _ => Unit
  | .refreshCase _ => ServiceCase
  | .updateCase .. => ℕ
  | .getCase .. => Option ServiceCase
  | .caseExists .. => Bool
  | .activeAction _ => Bool
  | .insertAction _ => Unit
  | .refreshAction _ => ActionRequest
  | .getAction .. => Option ActionRequest
  | .listActionsWithCases _ => List (ActionRequest × ServiceCase)
  | .listCaseActions .. => List ActionRequest
  | .listExpiredReservedActions _ => List (ActionRequest × OrderId)
  | .updateAction .. => ℕ
  | .lastEvent _ => Option CaseEvent
  | .insertEvent _ => Unit
  | .refreshEvent _ => CaseEvent
  | .listEvents .. => List CaseEvent
  | .close => Unit
  | .sleep => Unit

/-! ### History -/

inductive MoveKind where
  | reserve
  | release
  deriving DecidableEq

/-- Reserved money taken from or returned to an order on behalf of an action. -/
structure Move where
  kind : MoveKind
  action : ActionRequest
  orderId : OrderId
  amount : ℕ
  deriving DecidableEq

/-- Somebody with a role approved an action. -/
structure Signature where
  actionId : Uuid
  approver : String
  role : SystemRole
  time : Instant
  deriving DecidableEq

/-- What an action was created from. -/
structure Origin where
  action : ActionRequest
  caseVersion : ℕ
  decision : CaseDecision
  deriving DecidableEq

structure History where
  moves : List Move
  signatures : List Signature
  origins : List Origin

/-- Everything the calls share. -/
structure World where
  db : Database
  refunds : RefundExecutor
  reverse : ReverseExecutor
  now : Instant
  /-- The next unused uuid. -/
  uuids : Uuid
  history : History

/-- The code of a call. -/
abbrev Proc (α : Type) := Coro World Op Op.Reply Exn α

/-- Await one operation. -/
abbrev await (op : Op) : Proc op.Reply := Coro.call op

/-- An operation that only reads the database. -/
def World.query {α : Type} (w : World) (f : Database → Except Exn α) : Except Exn α × World :=
  (f w.db, w)

/-- An operation that writes the database. -/
def World.exec {α : Type} (w : World) (f : Database → Except Exn α × Database) :
    Except Exn α × World :=
  ((f w.db).1, { w with db := (f w.db).2 })

/-- `session.refresh(row)`, which fails if the row is gone. -/
def refreshed {α : Type} : Option α → Except Exn α
  | some a => .ok a
  | none => .error .database

@[grind =] def Op.perform : (op : Op) → World → Except Exn op.Reply × World
  | .insertCase row, w => w.exec fun db => db.insertCase row
  | .refreshCase id, w => w.query fun db => refreshed (db.getCase id none)
  | .updateCase id userId expectedVersion values, w =>
    w.exec fun db => db.updateCase id userId expectedVersion values
  | .getCase id userId, w => w.query fun db => .ok (db.getCase id userId)
  | .caseExists id userId, w => w.query fun db => .ok (db.getCase id (some userId)).isSome
  | .activeAction caseId, w => w.query fun db =>
    .ok (db.actions.rows.any fun a => a.caseId = caseId ∧ a.isActive)
  | .insertAction row, w => w.exec fun db => db.insertAction row
  | .refreshAction id, w => w.query fun db => refreshed (db.getAction id none)
  | .getAction id userId, w => w.query fun db => .ok (db.getAction id userId)
  | .listActionsWithCases status, w => w.query fun db => .ok (db.actionsWithCases status)
  | .listCaseActions caseId userId, w => w.query fun db => .ok (db.caseActions caseId userId)
  | .listExpiredReservedActions now, w => w.query fun db => .ok (db.expiredReserved now)
  | .updateAction action userId expectedVersion, w =>
    w.exec fun db => db.updateAction action userId expectedVersion
  | .lastEvent caseId, w => w.query fun db => .ok (db.events.last caseId)
  | .insertEvent row, w => w.exec fun db => db.insertEvent row
  | .refreshEvent row, w => w.query fun _ => .ok row
  | .listEvents caseId userId, w => w.query fun db => .ok
    (if (db.getCase caseId (some userId)).isSome then db.events.chain caseId else [])
  | .close, w => (.ok (), w)
  | .sleep, w => (.ok (), w)

/-- The database as the calls see it. Any operation may instead fail without effect. -/
def database : Backend World Op Op.Reply Exn where
  perform := Op.perform
  fault := .database

/-! ### Synchronous accesses -/

/-- `uuid.uuid4()`. -/
def uuid4 : Proc Uuid := Coro.update fun w => (w.uuids, { w with uuids := w.uuids + 1 })

/-- `datetime.now(UTC)`. -/
def utcNow : Proc Instant := .read fun w => .pure w.now

/-- `executor.reserve(order_id, amount)` on behalf of an action. -/
def World.reserve (w : World) (action : ActionRequest) (orderId : OrderId) (amount : ℕ) :
    Bool × World :=
  let (reserved, refunds) := w.refunds.reserve orderId amount
  let moves := if reserved then w.history.moves ++ [⟨.reserve, action, orderId, amount⟩]
    else w.history.moves
  (reserved, { w with refunds, history := { w.history with moves } })

/-- `executor.release(order_id, amount)` on behalf of an action. -/
def World.release (w : World) (action : ActionRequest) (orderId : OrderId) (amount : ℕ) : World :=
  { w with
    refunds := w.refunds.release orderId amount
    history := { w.history with
      moves := w.history.moves ++ [⟨.release, action, orderId, amount⟩] } }

def reserve (action : ActionRequest) (orderId : OrderId) (amount : ℕ) : Proc Bool :=
  Coro.update fun w => w.reserve action orderId amount

def release (action : ActionRequest) (orderId : OrderId) (amount : ℕ) : Proc Unit :=
  Coro.modify fun w => w.release action orderId amount

/-! ### The repository -/

/-- `async with self._sf() as session: body`: the session is closed whether or not the body
raises. -/
def session {α : Type} (body : Proc α) : Proc α := do
  let a ← body.tryCatch fun e => do
    await .close
    .raise e
  await .close
  return a

def createCase (row : Uuid → ServiceCase) : Proc ServiceCase := do
  let id ← uuid4
  session do
    await (.insertCase (row id))
    await (.refreshCase id)

def getCase (caseId : Uuid) (userId : Option String) : Proc (Option ServiceCase) :=
  session (await (.getCase caseId userId))

@[grind =] def updateCase (caseId : Uuid) (userId : String) (expectedVersion : ℕ) (values : CaseValues) :
    Proc ServiceCase := do
  session do
    let rowcount ← await (.updateCase caseId userId expectedVersion values)
    if rowcount ≠ 1 then .raise (.concurrentAction "case version conflict")
  match ← getCase caseId (some userId) with
  | some saved => return saved
  | none => .raise (.concurrentAction "case disappeared after update")

def createAction (action : ActionRequest) (userId : String) : Proc ActionRequest :=
  session do
    let caseExists ← await (.caseExists action.caseId userId)
    if ¬ caseExists then .raise (.keyError "case not found")
    else
      let active ← await (.activeAction action.caseId)
      if active then .raise (.concurrentAction "case already has an active action")
      else
        -- either UNIQUE constraint ends up in this one message
        (await (.insertAction action)).tryCatch fun
          | .integrityError => .raise (.concurrentAction "case already has an active action")
          | e => .raise e
        await (.refreshAction action.id)

def getAction (actionId : Uuid) (userId : Option String) : Proc (Option ActionRequest) :=
  session (await (.getAction actionId userId))

def listActionsWithCases (status : Option ActionStatus) :
    Proc (List (ActionRequest × ServiceCase)) :=
  session (await (.listActionsWithCases status))

def listCaseActions (caseId : Uuid) (userId : String) : Proc (List ActionRequest) :=
  session (await (.listCaseActions caseId userId))

def listExpiredReservedActions (now : Instant) : Proc (List (ActionRequest × OrderId)) :=
  session (await (.listExpiredReservedActions now))

def saveAction (action : ActionRequest) (userId : Option String) (expectedVersion : ℕ) :
    Proc ActionRequest := do
  session do
    let rowcount ← await (.updateAction action userId expectedVersion)
    if rowcount ≠ 1 then .raise (.concurrentAction "action version conflict")
  match ← getAction action.id userId with
  | some saved => return saved
  | none => .raise (.concurrentAction "action disappeared after update")

/-- The loop of `invalidate_active_actions`. -/
def invalidateLoop (userId reason : String) : List ActionRequest → Proc (List ActionRequest)
  | [] => .pure []
  | action :: actions =>
    if action.isActive then do
      let saved ← saveAction
        { action with status := .rejected, comment := some reason, version := action.version + 1 }
        (some userId) action.version
      let invalidated ← invalidateLoop userId reason actions
      return saved :: invalidated
    else invalidateLoop userId reason actions

def invalidateActiveActions (caseId : Uuid) (userId reason : String) :
    Proc (List ActionRequest) := do
  let actions ← listCaseActions caseId userId
  invalidateLoop userId reason actions

def listEvents (caseId : Uuid) (userId : String) : Proc (List CaseEvent) :=
  session (await (.listEvents caseId userId))

/-! ### The audit chain -/

/-- The arguments of `append_event`. -/
structure NewEvent where
  caseId : Uuid
  userId : String
  actor : String
  eventType : String
  runId : Option String := none
  traceId : Option String := none
  metadata : Json := .obj []

def maxAppendAttempts : ℕ := 8

/-- The text an event's hash is taken of. -/
def NewEvent.hashed (e : NewEvent) (prevHash : String) : String :=
  prevHash ++ ":" ++ toString e.caseId ++ ":" ++ e.eventType ++ ":" ++ e.actor ++ ":" ++
    e.runId.getD "" ++ ":" ++ e.traceId.getD "" ++ ":" ++ e.metadata.dumps

/-- One attempt of `append_event`; `none` asks for another one. -/
def appendAttempt (rt : Runtime) (e : NewEvent) (last : Bool) : Proc (Option CaseEvent) :=
  session do
    let caseExists ← await (.caseExists e.caseId e.userId)
    if ¬ caseExists then .raise (.keyError "case not found")
    else
      let previous ← await (.lastEvent e.caseId)
      let prevHash := (previous.map CaseEvent.eventHash).getD ""
      let seq := (previous.map fun p => p.seq + 1).getD 1
      let now ← utcNow
      let id ← uuid4
      let row : CaseEvent :=
        { id, caseId := e.caseId, eventType := e.eventType, actor := e.actor, runId := e.runId,
          traceId := e.traceId, metadata := e.metadata, prevHash
          eventHash := rt.sha256 (e.hashed prevHash), createdAt := now, seq }
      let inserted ← (do
        await (.insertEvent row)
        return true : Proc Bool).tryCatch fun
        | .integrityError =>
          if last then
            .raise (.concurrentAction ("case_event seq collision persisted across " ++
              toString maxAppendAttempts ++ " append_event attempts"))
          else do
            await .sleep
            return false
        | error => .raise error
      if inserted then
        let saved ← await (.refreshEvent row)
        return some saved
      else return none

/-- The retry loop, with the attempts left. -/
def appendAttempts (rt : Runtime) (e : NewEvent) : ℕ → Proc CaseEvent
  | 0 => .raise (.concurrentAction "append_event exhausted retry loop without committing")
  | left + 1 => do
    match ← appendAttempt rt e (left = 0) with
    | some saved => return saved
    | none => appendAttempts rt e left

def appendEvent (rt : Runtime) (e : NewEvent) : Proc CaseEvent :=
  appendAttempts rt e maxAppendAttempts

/-! ### The reaper -/

/-- `release_expired_reservations`; it returns how many it released. -/
def releaseExpiredReservations : Proc ℕ := do
  let now ← utcNow
  let expired ← listExpiredReservedActions now
  Coro.forEach expired fun (action, orderId) => do
    let amount ← Coro.ofExcept action.payload.amount
    release action orderId amount
    let _ ← saveAction { action with reserved := false } none action.version
  return expired.length

end AfterFlow
