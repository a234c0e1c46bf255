import AfterFlow.PyStr
import AfterFlow.Repository

/-!
# Case operations

`operations.py`: what the HTTP handlers and the agent tools share. Every function is a coroutine
over the repository; the refund executor is touched between awaits, outside any transaction.
-/

namespace AfterFlow

open Coop

/-- What every operation is configured with. -/
structure Config where
  rt : Runtime
  providers : Providers

/-! ### Intake -/

inductive StructuredSource where
  | trustedUi
  | model
  deriving DecidableEq

def StructuredSource.value : StructuredSource → String
  | trustedUi => "trusted_ui"
  | model => "model"

/-- The arguments of `create_intake_case`. -/
structure NewIntake where
  userId : String
  userRole : Option SystemRole
  complaintText : String
  threadId : Option String := none
  orderId : Option String := none
  issueType : Option String := none
  customerExpectation : Option String := none
  runId : Option String := none
  traceId : Option String := none
  structuredSource : StructuredSource := .trustedUi

def optionJson : Option String → Json
  | some s => .str s
  | none => .null

/-- The structured fields of an intake: a model's own are ignored, a trusted form's come first. -/
def NewIntake.resolve (rt : Runtime) (n : NewIntake) : Extracted :=
  let extracted := extractIntake rt n.complaintText
  match n.structuredSource with
  | .model => extracted
  | .trustedUi =>
    { orderId := pyOr n.orderId extracted.orderId
      issueType := pyOr (normalizeIssueType rt n.issueType) extracted.issueType
      customerExpectation :=
        if n.customerExpectation ∈ [some "refund", some "replacement"] then n.customerExpectation
        else extracted.customerExpectation }

def createIntakeCase (cfg : Config) (n : NewIntake) : Proc ServiceCase := do
  let fields := n.resolve cfg.rt
  let now ← utcNow
  let evaluated ← Coro.ofExcept (evaluateIntake cfg.rt cfg.providers now
    { complaintText := n.complaintText
      orderId := fields.orderId
      issueType := fields.issueType
      customerExpectation := fields.customerExpectation
      operatorRefundLimit := resolveOperatorRefundLimit n.userRole })
  let intake := evaluated.evidence.intake.map fun i =>
    { i with structuredSource := some n.structuredSource.value }
  let case ← createCase fun id =>
    { id
      userId := n.userId
      threadId := n.threadId
      orderId := fields.orderId
      issueType := fields.issueType
      status := evaluated.status
      complaintText := n.complaintText
      customerExpectation := fields.customerExpectation
      nextStep := evaluated.nextStep
      replyDraft := evaluated.replyDraft
      evidenceJson := { evaluated.evidence with intake }
      decisionJson := evaluated.decision }
  let _ ← appendEvent cfg.rt
    { caseId := case.id
      userId := n.userId
      actor := n.userId
      eventType := "intake_created"
      runId := n.runId
      traceId := n.traceId
      metadata := .obj [("thread_id", optionJson n.threadId),
        ("missing", .arr (evaluated.evidence.missing.map .str))] }
  if evaluated.decision ≠ .empty then
    let _ ← appendEvent cfg.rt
      { caseId := case.id
        userId := n.userId
        actor := n.userId
        eventType := "decision_generated"
        runId := n.runId
        traceId := n.traceId
        metadata := .obj [("evidence_revision", .int evaluated.evidence.revision)] }
  return case

/-! ### Supplement -/

/-- The optional structured fields a supplement can clear. -/
inductive CaseField where
  | orderId
  | issueType
  | customerExpectation
  deriving DecidableEq

/-- The arguments of `continue_intake_case` besides the case. -/
structure Supplement where
  actorId : String
  userRole : Option SystemRole
  note : String
  complaintText : Option String := none
  orderId : Option String := none
  issueType : Option String := none
  customerExpectation : Option String := none
  visualEvidenceConfirmed : Option Bool := none
  damageLevel : Option DamageLevel := none
  serialMatches : Option Bool := none
  runId : Option String := none
  traceId : Option String := none
  clearFields : List CaseField := []

/-- A supplemented text field: cleared, replaced or kept. -/
def Supplement.field (s : Supplement) (name : CaseField) (new old : Option String) :
    Option String :=
  if name ∈ s.clearFields then none else pyOr new old

/-- The facts a supplemented case is evaluated on. -/
def Supplement.input (s : Supplement) (case : ServiceCase) : IntakeInput :=
  let intake := case.evidenceJson.intake
  { complaintText := (pyOr s.complaintText (some case.complaintText)).getD ""
    orderId := s.field .orderId s.orderId case.orderId
    issueType := s.field .issueType s.issueType case.issueType
    customerExpectation :=
      s.field .customerExpectation s.customerExpectation case.customerExpectation
    operatorRefundLimit := resolveOperatorRefundLimit s.userRole
    visualEvidenceConfirmed := s.visualEvidenceConfirmed.getD
      ((intake.map IntakeRecord.visualEvidenceConfirmed).getD false)
    damageLevel := s.damageLevel.orElse fun _ => intake.bind IntakeRecord.damageLevel
    serialMatches := s.serialMatches.orElse fun _ => intake.bind IntakeRecord.serialMatches
    revision := case.evidenceJson.revision + 1 }

/-- The case columns a supplement sets. -/
def supplementValues (input : IntakeInput) (evaluated : Evaluation) : CaseValues :=
  { complaintText := some input.complaintText
    orderId := some input.orderId
    issueType := some input.issueType
    customerExpectation := some input.customerExpectation
    status := some evaluated.status
    nextStep := some evaluated.nextStep
    evidenceJson := some evaluated.evidence
    decisionJson := some evaluated.decision
    replyDraft := some evaluated.replyDraft }

/-- Return the reservation of an invalidated action and clear its flag. -/
def releaseInvalidated (orderId : OrderId) (actorId : String) (action : ActionRequest) :
    Proc Unit := do
  if action.actionType = .refund ∧ action.reserved then
    let amount ← Coro.ofExcept action.payload.amount
    release action orderId amount
    let _ ← saveAction { action with reserved := false, version := action.version + 1 }
      (some actorId) action.version

def continueIntakeCase (cfg : Config) (s : Supplement) (case : ServiceCase) :
    Proc ServiceCase := do
  let input := s.input case
  let now ← utcNow
  let evaluated ← Coro.ofExcept (evaluateIntake cfg.rt cfg.providers now input)
  let invalidated ← invalidateActiveActions case.id s.actorId "案件信息已更新，原方案失效"
  Coro.forEach invalidated (releaseInvalidated case.orderId s.actorId)
  let case ← updateCase case.id s.actorId case.version (supplementValues input evaluated)
  let _ ← appendEvent cfg.rt
    { caseId := case.id
      userId := s.actorId
      actor := s.actorId
      eventType := "evidence_supplemented"
      runId := s.runId
      traceId := s.traceId
      metadata := .obj [("note", .str s.note),
        ("evidence_revision", .int evaluated.evidence.revision)] }
  let _ ← appendEvent cfg.rt
    { caseId := case.id
      userId := s.actorId
      actor := s.actorId
      eventType := "case_reassessed"
      runId := s.runId
      traceId := s.traceId
      metadata := .obj [("status", .str evaluated.status.value),
        ("invalidated_actions", .arr (invalidated.map fun a => .int a.id))] }
  return case

/-! ### Creating an action -/

/-- The action a decided case asks for. -/
@[grind =] def buildCaseAction (cfg : Config) (case : ServiceCase) (actorId : String) (id : Uuid)
    (now : Instant) : Except Exn ActionRequest :=
  if case.status ≠ .decided then .error (.actionConflict "case is not ready for an action")
  else match case.decisionJson with
    | .empty => .error (.actionConflict "case is not ready for an action")
    | .reverse reverse =>
      if reverse.action ≠ .resendWithoutReturn then
        .error (.valueError "this reverse plan requires manual fulfillment")
      else match case.orderId.bind fun id => cfg.providers.orders.lookup id with
        | none => .error (.valueError "order is unavailable")
        | some order => .ok (createResendAction cfg.rt id case.id case.orderId order.sku actorId
            reverse.estimatedResolutionCost now)
    | .refund decision => createRefundAction cfg.rt id case.id case.orderId actorId decision now

/-- The status a case takes from its new action. -/
def CaseStatus.ofAction : ActionStatus → CaseStatus
  | .pendingApproval => .pendingApproval
  | .approved => .approved
  | .rejected => .rejected
  | .completed => .completed

def createdValues (saved : ActionRequest) : CaseValues :=
  { status := some (.ofAction saved.status)
    nextStep := some (if saved.status = .pendingApproval then .supervisorReview
      else .executeAction) }

/-- Record what an action was created from. -/
def recordOrigin (action : ActionRequest) (case : ServiceCase) : Proc Unit :=
  Coro.modify fun w =>
    { w with history := { w.history with
        origins := w.history.origins ++ [⟨action, case.version, case.decisionJson⟩] } }

/-- Freeze the funds of an action that policy approved. -/
def fundAction (action : ActionRequest) (orderId : OrderId) : Proc ActionRequest := do
  if action.actionType = .refund ∧ action.status = .approved then
    let amount ← Coro.ofExcept action.payload.amount
    if ← reserve action orderId amount then return { action with reserved := true }
    else .raise (.actionConflict "insufficient available balance to fund this refund")
  else return action

/-- Insert an action; if that fails, release what it has reserved. -/
def storeAction (action : ActionRequest) (orderId : OrderId) (actorId : String) :
    Proc ActionRequest :=
  (createAction action actorId).tryCatch fun error => do
    if action.actionType = .refund ∧ action.reserved then
      let amount ← Coro.ofExcept action.payload.amount
      release action orderId amount
    .raise error

def createCaseAction (cfg : Config) (case : ServiceCase) (actorId : String) :
    Proc ActionRequest := do
  let id ← uuid4
  let now ← utcNow
  let action ← Coro.ofExcept (buildCaseAction cfg case actorId id now)
  recordOrigin action case
  let action ← fundAction action case.orderId
  let saved ← storeAction action case.orderId actorId
  let _ ← updateCase case.id actorId case.version (createdValues saved)
  return saved

/-! ### Executing an action -/

/-- The case columns an execution sets. -/
def executedValues (action saved : ActionRequest) : CaseValues :=
  let reference := saved.externalTransactionId.getD "None"
  match action.actionType with
  | .resend =>
    { status := some .completed
      nextStep := some .done
      replyDraft := some ("补发已安排，出库凭证：" ++ reference ++ "。") }
  | .refund =>
    { status := some .executionProcessing
      nextStep := some .awaitPaymentConfirmation
      replyDraft := some ("退款已提交至原支付渠道，当前处理中，凭证：" ++ reference ++ "。") }

/-- Dispatch or capture, synchronously. -/
def performAction (cfg : Config) (action : ActionRequest) (orderId : OrderId) (payload : Json)
    (expectedVersion : ℕ) : Proc ActionRequest :=
  match action.actionType with
  | .resend => do
    let result ← Coro.update fun w =>
      let (result, reverse) := executeApprovedResend cfg.rt action payload expectedVersion w.reverse
        w.now
      (result, { w with reverse })
    Coro.ofExcept result
  | .refund => do
    let result ← Coro.update fun w =>
      let (result, refunds) := executeApprovedAction cfg.rt action payload expectedVersion
        (w.refunds.reservedOf orderId) w.refunds w.now
      (result, { w with refunds })
    let updated ← Coro.ofExcept result
    return { updated with reserved := false }

def executeCaseAction (cfg : Config) (action : ActionRequest) (case : ServiceCase) (payload : Json)
    (expectedVersion : ℕ) : Proc ActionRequest := do
  let updated ← performAction cfg action case.orderId payload expectedVersion
  let saved ← saveAction updated none expectedVersion
  let _ ← updateCase case.id case.userId case.version (executedValues action saved)
  return saved

end AfterFlow
