import AfterFlow.Operations

/-!
# The HTTP handlers

`gateway/routers/after_sales.py`: the bodies of the endpoints, for requests without an
`Idempotency-Key`, and the system in which any number of them run at once. Metrics counters are left
out.

The operations shared with the agent tools are requests of their own: a tool reads the case and
calls the operation, and nothing between the two awaits.
-/

namespace AfterFlow

open Coop

/-- The authenticated user of a request. -/
structure Actor where
  id : String
  role : SystemRole
  deriving DecidableEq

/-- What the middleware knows about a request. -/
structure Caller where
  user : Option Actor
  traceId : Option String := none
  deriving DecidableEq

structure ApprovalRequest where
  expectedVersion : ℕ
  comment : Option String := none
  deriving DecidableEq

structure RejectionRequest where
  expectedVersion : ℕ
  comment : String
  deriving DecidableEq

structure ExecutionRequest where
  expectedVersion : ℕ
  payload : Json

structure CaseCreateRequest where
  orderId : String
  issueType : IssueType
  visualEvidenceConfirmed : Bool := false
  threadId : Option String := none

structure CaseIntakeRequest where
  complaintText : String
  threadId : Option String := none
  orderId : Option String := none
  issueType : Option IssueType := none
  customerExpectation : Option CustomerPreference := none

/-- A supplement's body. The three fields that can be cleared tell an absent field (`none`) from an
explicit null (`some none`). -/
structure CaseSupplementRequest where
  complaintText : Option String := none
  orderId : Option (Option String) := none
  issueType : Option (Option IssueType) := none
  customerExpectation : Option (Option CustomerPreference) := none
  visualEvidenceConfirmed : Option Bool := none
  damageLevel : Option DamageLevel := none
  serialMatches : Option Bool := none
  note : String

/-- How a refund that was just submitted is reported. -/
structure RefundReport where
  refundStatus : String := "processing"
  refundChannel : String := "original_payment"
  refundEtaHours : ℕ := 24
  deriving DecidableEq

/-- What a call returns. -/
inductive Response where
  | case (case : ServiceCase)
  | aggregate (case : ServiceCase) (actions : List ActionRequest) (events : List CaseEvent)
  | action (action : ActionRequest)
  | executed (action : ActionRequest) (report : Option RefundReport)
  | actions (rows : List (ActionRequest × ServiceCase))
  | released (count : ℕ)

/-! ### Guards and errors -/

/-- `_actor`. -/
def actorOf (caller : Caller) : Except Exn Actor :=
  match caller.user with
  | none => .error (.http 401 "Authentication required")
  | some actor => .ok actor

/-- `_require_admin`. -/
def requireAdmin (caller : Caller) : Except Exn Actor := do
  let actor ← actorOf caller
  if actor.role ≠ .admin then .error (.http 403 "After-sales supervisor role required")
  else .ok actor

/-- `_raise_action_error`. What it does not translate it raises again. -/
def raiseActionError {α : Type} : Exn → Proc α
  | .actionForbidden detail => .raise (.http 403 detail)
  | .actionConflict detail => .raise (.http 409 detail)
  | .concurrentAction detail => .raise (.http 409 detail)
  | .dispositionConflict detail => .raise (.http 422 detail)
  | .valueError detail => .raise (.http 422 detail)
  | error => .raise error

/-- A row, or 404. -/
def orNotFound {α : Type} (what : String) : Option α → Proc α
  | some a => .pure a
  | none => .raise (.http 404 (what ++ " not found"))

/-- `_admin_action`. -/
def adminAction (caller : Caller) (actionId : Uuid) : Proc (Actor × ActionRequest × ServiceCase) := do
  let actor ← Coro.ofExcept (requireAdmin caller)
  let action ← orNotFound "Action" (← getAction actionId none)
  let case ← orNotFound "Case" (← getCase action.caseId none)
  return (actor, action, case)

/-- `_aggregate_case`. -/
def aggregateCase (case : ServiceCase) (userId : String) : Proc Response := do
  let actions ← listCaseActions case.id userId
  let events ← listEvents case.id userId
  return .aggregate case actions events

/-- An audit event about an action. -/
def actionEvent (caseId : Uuid) (userId actor eventType : String) (caller : Caller)
    (metadata : List (String × Json)) : NewEvent :=
  { caseId, userId, actor, eventType, traceId := caller.traceId, metadata := .obj metadata }

/-! ### Cases -/

def intakeCase (cfg : Config) (caller : Caller) (body : CaseIntakeRequest) : Proc Response := do
  let actor ← Coro.ofExcept (actorOf caller)
  let case ← createIntakeCase cfg
    { userId := actor.id
      userRole := some actor.role
      complaintText := body.complaintText
      threadId := body.threadId
      orderId := body.orderId
      issueType := body.issueType.map IssueType.value
      customerExpectation := body.customerExpectation.map CustomerPreference.value
      traceId := caller.traceId }
  return .case case

/-- `POST /cases`: `evaluate_mock_case` and a case without intake record. -/
def createCaseHandler (cfg : Config) (caller : Caller) (body : CaseCreateRequest) :
    Proc Response := do
  let actor ← Coro.ofExcept (actorOf caller)
  let evaluated ← Coro.ofExcept (runCaseEvaluation cfg.rt cfg.providers
    { orderId := body.orderId
      issueType := body.issueType.value
      operatorRefundLimit := resolveOperatorRefundLimit (some actor.role)
      visualEvidenceConfirmed := body.visualEvidenceConfirmed })
  match evaluated with
  | .error _ | .reverse .. => .raise (.http 404 "evaluation failed")
  | .refund evidence decision =>
    let case ← createCase fun id =>
      { id
        userId := actor.id
        threadId := body.threadId
        orderId := some body.orderId
        issueType := some body.issueType.value
        status := .decided
        complaintText := ""
        customerExpectation := none
        nextStep := .reviewDecision
        replyDraft := ""
        evidenceJson := { context := some evidence }
        decisionJson := .refund decision }
    let _ ← appendEvent cfg.rt (actionEvent case.id actor.id actor.id "decision_generated" caller
      [("policy_refs", .arr (decision.policyRefs.map .str))])
    return .case case

/-- The structured fields that a body sets to null. -/
def CaseSupplementRequest.clearFields (body : CaseSupplementRequest) : List CaseField :=
  (if body.orderId = some none then [.orderId] else []) ++
  (if body.issueType = some none then [.issueType] else []) ++
  (if body.customerExpectation = some none then [.customerExpectation] else [])

/-- The arguments a supplement request passes on. -/
def CaseSupplementRequest.supplement (body : CaseSupplementRequest) (actor : Actor)
    (caller : Caller) : Supplement :=
  { actorId := actor.id
    userRole := some actor.role
    note := body.note
    complaintText := body.complaintText
    orderId := body.orderId.join
    issueType := body.issueType.join.map IssueType.value
    customerExpectation := body.customerExpectation.join.map CustomerPreference.value
    visualEvidenceConfirmed := body.visualEvidenceConfirmed
    damageLevel := body.damageLevel
    serialMatches := body.serialMatches
    traceId := caller.traceId
    clearFields := body.clearFields }

def supplementCase (cfg : Config) (caller : Caller) (caseId : Uuid) (body : CaseSupplementRequest) :
    Proc Response := do
  let actor ← Coro.ofExcept (actorOf caller)
  let case ← orNotFound "Case" (← getCase caseId (some actor.id))
  let case ← continueIntakeCase cfg (body.supplement actor caller) case
  aggregateCase case actor.id

/-! ### Actions -/

def createActionHandler (cfg : Config) (caller : Caller) (caseId : Uuid) : Proc Response := do
  let actor ← Coro.ofExcept (actorOf caller)
  let case ← orNotFound "Case" (← getCase caseId (some actor.id))
  let action ← (createCaseAction cfg case actor.id).tryCatch fun
    | .actionForbidden detail => .raise (.actionForbidden detail)
    | error => raiseActionError error
  let _ ← appendEvent cfg.rt (actionEvent caseId actor.id actor.id
    (if action.status = .pendingApproval then "approval_requested" else "action_approved") caller
    [("action_id", .int action.id)])
  return .action action

/-- Record a signature. -/
def recordSignature (actionId : Uuid) (actor : Actor) (now : Instant) : Proc Unit :=
  Coro.modify fun w =>
    { w with history := { w.history with
        signatures := w.history.signatures ++ [⟨actionId, actor.id, actor.role, now⟩] } }

/-- Fail fast when the order cannot fund the refund. -/
def checkFunds (action : ActionRequest) : Proc Unit := do
  if action.actionType = .refund ∧ ¬ action.reserved then
    let amount ← Coro.ofExcept action.payload.amount
    let w ← Coro.get
    Coro.ofExcept (checkBalanceBeforeApprove w.refunds action.payload.orderId amount)

/-- Freeze the funds of an approval unless the action has them frozen already. -/
def authorize (action updated : ActionRequest) (orderId : OrderId) : Proc ActionRequest := do
  if action.actionType = .refund ∧ ¬ action.reserved then
    let amount ← Coro.ofExcept updated.payload.amount
    if ← reserve updated orderId amount then return { updated with reserved := true }
    else .raise (.http 409 "Insufficient available balance to fund this refund")
  else return updated

/-- Save an approval; if that fails, release whatever the saved copy calls reserved. -/
def saveApproval (action updated : ActionRequest) (orderId : OrderId) (expectedVersion : ℕ) :
    Proc ActionRequest :=
  (saveAction updated none expectedVersion).tryCatch fun error => do
    if action.actionType = .refund ∧ updated.reserved then
      let amount ← Coro.ofExcept updated.payload.amount
      release updated orderId amount
    .raise error

def grantedValues (updated : ActionRequest) : CaseValues :=
  { status := some (.ofAction updated.status)
    nextStep := some (if updated.status = .approved then .executeAction
      else .additionalApproval) }

def approve (cfg : Config) (caller : Caller) (actionId : Uuid) (body : ApprovalRequest) :
    Proc Response := do
  let (actor, action, case) ← adminAction caller actionId
  let updated ← (do
    checkFunds action
    let now ← utcNow
    let updated ← Coro.ofExcept
      (approveAction action actor.id [actor.role] body.expectedVersion now body.comment)
    recordSignature actionId actor now
    let updated ← authorize action updated case.orderId
    saveApproval action updated case.orderId body.expectedVersion : Proc ActionRequest).tryCatch
      raiseActionError
  let _ ← appendEvent cfg.rt (actionEvent case.id case.userId actor.id "approval_granted" caller
    [("action_id", .int actionId)])
  let _ ← updateCase case.id case.userId case.version (grantedValues updated)
  return .action updated

/-- Release the reservation of a rejected action, if it has one, and clear the flag. -/
def unauthorize (action updated : ActionRequest) (orderId : OrderId) : Proc ActionRequest := do
  if action.actionType = .refund ∧ action.reserved then
    let amount ← Coro.ofExcept updated.payload.amount
    release updated orderId amount
    return { updated with reserved := false }
  else return updated

def rejectedValues : CaseValues :=
  { status := some .rejected
    nextStep := some .operatorReview
    replyDraft := some "处理方案未获批准，客服将根据审批意见继续处理。" }

def reject (cfg : Config) (caller : Caller) (actionId : Uuid) (body : RejectionRequest) :
    Proc Response := do
  let (actor, action, case) ← adminAction caller actionId
  let updated ← (do
    let now ← utcNow
    let updated ← Coro.ofExcept
      (rejectAction cfg.rt action actor.id [actor.role] body.expectedVersion body.comment now)
    let updated ← unauthorize action updated case.orderId
    saveAction updated none body.expectedVersion : Proc ActionRequest).tryCatch raiseActionError
  let _ ← appendEvent cfg.rt (actionEvent case.id case.userId actor.id "approval_rejected" caller
    [("action_id", .int actionId), ("comment", .str body.comment)])
  let _ ← updateCase case.id case.userId case.version rejectedValues
  return .action updated

def execute (cfg : Config) (caller : Caller) (actionId : Uuid) (body : ExecutionRequest) :
    Proc Response := do
  let (actor, action, case) ← adminAction caller actionId
  let updated ← (executeCaseAction cfg action case body.payload body.expectedVersion).tryCatch
    raiseActionError
  let _ ← appendEvent cfg.rt (actionEvent case.id case.userId actor.id "execution_succeeded" caller
    [("action_id", .int actionId), ("transaction_id", optionJson updated.externalTransactionId)])
  return .executed updated (if action.actionType = .refund then some {} else none)

/-- The approval desk: reap, then list. -/
def listActions (caller : Caller) (actionStatus : Option ActionStatus) : Proc Response := do
  let _ ← Coro.ofExcept (requireAdmin caller)
  let _ ← releaseExpiredReservations
  let rows ← listActionsWithCases actionStatus
  return .actions rows

/-! ### The system -/

/-- The calls that can be in flight. -/
inductive Request where
  | intakeCase (caller : Caller) (body : CaseIntakeRequest)
  | createCase (caller : Caller) (body : CaseCreateRequest)
  | supplementCase (caller : Caller) (caseId : Uuid) (body : CaseSupplementRequest)
  | createAction (caller : Caller) (caseId : Uuid)
  | approve (caller : Caller) (actionId : Uuid) (body : ApprovalRequest)
  | reject (caller : Caller) (actionId : Uuid) (body : RejectionRequest)
  | execute (caller : Caller) (actionId : Uuid) (body : ExecutionRequest)
  | listActions (caller : Caller) (actionStatus : Option ActionStatus)
  | createIntakeCase (intake : NewIntake)
  | continueIntakeCase (caseId : Uuid) (supplement : Supplement)
  | createCaseAction (caseId : Uuid) (actorId : String)
  | releaseExpiredReservations

/-- A tool's call of `continue_intake_case`. -/
def continueIntakeCaseTool (cfg : Config) (caseId : Uuid) (s : Supplement) : Proc Response := do
  let case ← orNotFound "Case" (← getCase caseId (some s.actorId))
  return .case (← continueIntakeCase cfg s case)

/-- A tool's call of `create_case_action`. -/
def createCaseActionTool (cfg : Config) (caseId : Uuid) (actorId : String) : Proc Response := do
  let case ← orNotFound "Case" (← getCase caseId (some actorId))
  return .action (← createCaseAction cfg case actorId)

@[grind =] def handler (cfg : Config) : Request → Proc Response
  | .intakeCase caller body => intakeCase cfg caller body
  | .createCase caller body => createCaseHandler cfg caller body
  | .supplementCase caller caseId body => supplementCase cfg caller caseId body
  | .createAction caller caseId => createActionHandler cfg caller caseId
  | .approve caller actionId body => approve cfg caller actionId body
  | .reject caller actionId body => reject cfg caller actionId body
  | .execute caller actionId body => execute cfg caller actionId body
  | .listActions caller actionStatus => listActions caller actionStatus
  | .createIntakeCase intake => do return .case (← createIntakeCase cfg intake)
  | .continueIntakeCase caseId supplement => continueIntakeCaseTool cfg caseId supplement
  | .createCaseAction caseId actorId => createCaseActionTool cfg caseId actorId
  | .releaseExpiredReservations => do return .released (← releaseExpiredReservations)

/-- A world before the first call, with any rows, balances, stock and time. -/
def World.start (db : Database) (refunds : RefundExecutor) (reverse : ReverseExecutor)
    (now : Instant) (uuids : Uuid) : World :=
  ⟨db, refunds, reverse, now, uuids, ⟨[], [], []⟩⟩

/-- Time passes. -/
structure Tick where
  microseconds : ℕ
  deriving DecidableEq

/-- The after-sales system: any calls, any interleaving at awaits, failing operations, a clock. -/
def program (cfg : Config) : Program World Op Op.Reply Exn Response Request Tick where
  toBackend := database
  handler := handler cfg
  tick := fun d w => { w with now := w.now + d.microseconds }

/-- A state of the system. -/
abbrev State := Sys World Op Op.Reply Exn Response Request

/-- A call of the system. -/
abbrev Call := Task World Op Op.Reply Exn Response Request

/-- A finished step of a call. -/
abbrev Segment := Event World Op Op.Reply Exn

end AfterFlow
