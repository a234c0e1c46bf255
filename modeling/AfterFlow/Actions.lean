import AfterFlow.Errors
import AfterFlow.Json
import AfterFlow.MockData

/-!
# Action requests and the refund executor

`actions.py`: the pure functions that create, approve, reject and execute an action request, and the
in-memory payment adapter with its authorize-then-capture ledger.

The type of an action and the shape of its payload are one datum here, so an action whose payload
does not fit its type cannot be written down.
-/

namespace AfterFlow

open Function

inductive ActionStatus where
  | pendingApproval
  | approved
  | rejected
  | completed
  deriving DecidableEq

/-- The partial unique index counts these. -/
@[grind =] def ActionStatus.isActive : ActionStatus → Bool
  | .pendingApproval | .approved => true
  | .rejected | .completed => false

inductive ActionType where
  | refund
  | resend
  deriving DecidableEq

inductive Payload where
  | refund (orderId : OrderId) (amount : ℕ) (requiresReturn : Bool)
  | resend (orderId : OrderId) (sku : String) (estimatedCost : ℕ)
  deriving DecidableEq

namespace Payload

@[grind =] def actionType : Payload → ActionType
  | refund .. => .refund
  | resend .. => .resend

/-- `payload["order_id"]`. -/
def orderId : Payload → OrderId
  | refund orderId _ _ => orderId
  | resend orderId _ _ => orderId

/-- `payload["amount"]`, which a resend does not have. -/
def amount : Payload → Except Exn ℕ
  | refund _ amount _ => .ok amount
  | resend .. => .error (.keyError "amount")

/-- The money a payload moves. -/
def money : Payload → ℕ
  | refund _ amount _ => amount
  | resend .. => 0

def orderIdJson : OrderId → Json
  | some s => .str s
  | none => .null

def toJson : Payload → Json
  | refund orderId amount requiresReturn =>
    .obj ([("order_id", orderIdJson orderId), ("amount", .int amount)] ++
      if requiresReturn then [("requires_return", .bool true)] else [])
  | resend orderId sku estimatedCost =>
    .obj [("order_id", orderIdJson orderId), ("sku", .str sku), ("kind", .str "resend"),
      ("estimated_cost", .int estimatedCost)]

end Payload

structure ActionRequest where
  id : Uuid
  caseId : Uuid
  payload : Payload
  payloadHash : String
  status : ActionStatus
  riskLevel : RiskLevel
  requestedBy : String
  requiredRole : SystemRole := .admin
  idempotencyKey : String
  approvedBy : Option String := none
  comment : Option String := none
  approvedAt : Option Instant := none
  expiresAt : Instant
  externalTransactionId : Option String := none
  version : ℕ := 1
  approversRequired : ℕ := 1
  approverIds : List String := []
  reserved : Bool := false
  deriving DecidableEq

/-- The column `action_type`. -/
def ActionRequest.actionType (a : ActionRequest) : ActionType := a.payload.actionType

/-- `status IN ('pending_approval', 'approved')`. -/
def ActionRequest.isActive (a : ActionRequest) : Bool := a.status.isActive

/-- `payload_hash`. -/
def payloadHash (rt : Runtime) (payload : Json) : String := rt.sha256 payload.dumps

/-- The deterministic business key: case, kind of action and payload. -/
def idempotencyKey (rt : Runtime) (caseId : Uuid) (payload : Payload) : String :=
  let kind := match payload.actionType with
    | .refund => "refund"
    | .resend => "resend"
  rt.sha256 (toString caseId ++ ":" ++ kind ++ ":" ++ payloadHash rt payload.toJson)

/-- `timedelta(hours=24)`. -/
def actionTtl : ℕ := 24 * 60 * 60 * 1000000

/-- Policy approves on its own only what needs no approval and is not high risk. -/
def autoApproved (decision : DecisionResult) : Bool :=
  ¬ decision.approvalRequired ∧ decision.riskLevel ≠ .high

/-- The payload a refund decision asks for. -/
def refundPayload (orderId : OrderId) (decision : DecisionResult) : Payload :=
  .refund orderId decision.refundAmount (decision.action = .returnAndRefund)

/-- The decision contains a refund that can be executed. -/
def executableRefund (decision : DecisionResult) : Bool :=
  decision.eligibility ∈ [Eligibility.eligible, .eligibleWithApproval] ∧
    decision.action ∈ [ResolutionAction.refundOriginalPayment, .returnAndRefund] ∧
    decision.refundAmount > 0

def createRefundAction (rt : Runtime) (id caseId : Uuid) (orderId : OrderId) (requestedBy : String)
    (decision : DecisionResult) (now : Instant) : Except Exn ActionRequest :=
  if decision.eligibility ∉ [Eligibility.eligible, .eligibleWithApproval] then
    .error (.valueError "decision is not eligible for an action")
  else if decision.action ∉ [ResolutionAction.refundOriginalPayment, .returnAndRefund] ∨
      decision.refundAmount = 0 then
    .error (.valueError "decision does not contain an executable refund")
  else
    let payload := refundPayload orderId decision
    let auto := autoApproved decision
    .ok
      { id, caseId, payload
        payloadHash := payloadHash rt payload.toJson
        status := if auto then .approved else .pendingApproval
        riskLevel := decision.riskLevel
        requestedBy
        idempotencyKey := idempotencyKey rt caseId payload
        approvedBy := if auto then some "system-policy" else none
        approvedAt := if auto then some now else none
        expiresAt := now + actionTtl
        approversRequired := if decision.riskTier = .fourEyes then 2 else 1 }

def createResendAction (rt : Runtime) (id caseId : Uuid) (orderId : OrderId)
    (sku requestedBy : String) (estimatedCost : ℕ) (now : Instant) : ActionRequest :=
  let payload : Payload := .resend orderId sku estimatedCost
  { id, caseId, payload
    payloadHash := payloadHash rt payload.toJson
    status := .pendingApproval
    riskLevel := .medium
    requestedBy
    idempotencyKey := idempotencyKey rt caseId payload
    expiresAt := now + actionTtl }

/-- `_check_decision`. -/
def checkDecision (action : ActionRequest) (approverId : String) (approverRoles : List SystemRole)
    (expectedVersion : ℕ) (now : Instant) : Except Exn Unit :=
  if action.status ≠ .pendingApproval then .error (.actionConflict "action is not pending approval")
  else if action.version ≠ expectedVersion then .error (.actionConflict "action version conflict")
  else if now ≥ action.expiresAt then .error (.actionConflict "action expired")
  else if action.requiredRole ∉ approverRoles then
    .error (.actionForbidden "approver lacks required role")
  else if action.requestedBy = approverId then
    .error (.actionForbidden "requester cannot approve own action")
  else .ok ()

/-- The optional `balance_check` is left out: no caller in the application passes one. -/
def approveAction (action : ActionRequest) (approverId : String) (approverRoles : List SystemRole)
    (expectedVersion : ℕ) (now : Instant) (comment : Option String) : Except Exn ActionRequest := do
  checkDecision action approverId approverRoles expectedVersion now
  if approverId ∈ action.approverIds then
    .error (.actionForbidden "approver already approved this action")
  else
    let approverIds := action.approverIds ++ [approverId]
    .ok { action with
      status := if approverIds.length ≥ action.approversRequired then .approved
        else .pendingApproval
      approvedBy := some approverId
      approvedAt := some now
      comment
      approverIds
      version := action.version + 1 }

def rejectAction (rt : Runtime) (action : ActionRequest) (approverId : String)
    (approverRoles : List SystemRole) (expectedVersion : ℕ) (comment : String) (now : Instant) :
    Except Exn ActionRequest :=
  if rt.strip comment = "" then .error (.valueError "rejection comment is required")
  else do
    checkDecision action approverId approverRoles expectedVersion now
    .ok { action with
      status := .rejected
      approvedBy := some approverId
      approvedAt := some now
      comment := some (rt.strip comment)
      version := action.version + 1 }

/-! ### The refund executor -/

/-- `MockRefundExecutor`: `dict.get(order_id, 0)` makes the balances total functions. -/
structure RefundExecutor where
  transactions : String → Option String
  available : OrderId → ℕ
  reserved : OrderId → ℕ
  settled : String → Bool

namespace RefundExecutor

/-- `MockRefundExecutor(initial_balances=...)`. -/
def init (balances : OrderId → ℕ) : RefundExecutor :=
  { transactions := fun _ => none, available := balances, reserved := fun _ => 0,
    settled := fun _ => false }

def balanceOf (e : RefundExecutor) (orderId : OrderId) : ℕ := e.available orderId

def reservedOf (e : RefundExecutor) (orderId : OrderId) : ℕ := e.reserved orderId

/-- Move an amount from available to reserved, if there is enough. -/
def reserve (e : RefundExecutor) (orderId : OrderId) (amount : ℕ) : Bool × RefundExecutor :=
  if e.available orderId < amount then (false, e)
  else (true, { e with
    available := update e.available orderId (e.available orderId - amount)
    reserved := update e.reserved orderId (e.reserved orderId + amount) })

/-- Return a reservation; what is not reserved is silently not returned. -/
def release (e : RefundExecutor) (orderId : OrderId) (amount : ℕ) : RefundExecutor :=
  let released := min (e.reserved orderId) amount
  { e with
    reserved := update e.reserved orderId (e.reserved orderId - released)
    available := update e.available orderId (e.available orderId + released) }

/-- Flip a processing refund to succeeded. -/
def settle (e : RefundExecutor) (key : String) : RefundExecutor :=
  if (e.transactions key).isSome then { e with settled := update e.settled key true }
  else e

/-- The text of a provider's transaction id. -/
def transactionId (rt : Runtime) (orderId : OrderId) (amount : ℕ) (key : String) : String :=
  let order := match orderId with
    | some s => s
    | none => "None"
  let digest := rt.sha256 (order ++ ":" ++ toString amount ++ ":" ++ key)
  "MOCK-REFUND-" ++ String.ofList (digest.toList.take 16)

/-- Capture from the reservation, once per key. -/
@[grind =] def refund (rt : Runtime) (e : RefundExecutor) (orderId : OrderId) (amount : ℕ) (key : String) :
    Except Exn String × RefundExecutor :=
  match e.transactions key with
  | some transactionId => (.ok transactionId, e)
  | none =>
    if e.reserved orderId < amount then
      (.error (.actionConflict "insufficient reserved refund balance"), e)
    else
      let transactionId := transactionId rt orderId amount key
      (.ok transactionId, { e with
        transactions := update e.transactions key (some transactionId)
        reserved := update e.reserved orderId (e.reserved orderId - amount) })

end RefundExecutor

/-- `check_balance_before_approve` of `balance_check.py`. -/
def checkBalanceBeforeApprove (e : RefundExecutor) (orderId : OrderId) (amount : ℕ) :
    Except Exn Unit :=
  let available := e.balanceOf orderId
  if available < amount then
    .error (.actionConflict ("insufficient available balance: have " ++ toString available ++
      ", need " ++ toString amount))
  else .ok ()

/-- The checks of `execute_approved_action` before money moves. -/
def checkExecution (rt : Runtime) (action : ActionRequest) (payload : Json) (expectedVersion : ℕ)
    (currentRefundableBalance : ℕ) (executor : RefundExecutor) (now : Instant) :
    Except Exn (OrderId × ℕ) :=
  if action.status ≠ .approved then .error (.actionForbidden "action is not approved")
  else if action.version ≠ expectedVersion then .error (.actionConflict "action version conflict")
  else if now ≥ action.expiresAt then .error (.actionConflict "action expired")
  else if payloadHash rt payload ≠ action.payloadHash then
    .error (.actionConflict "payload hash mismatch")
  else match action.payload with
    | .resend .. => .error (.keyError "amount")
    | .refund orderId amount requiresReturn =>
      if requiresReturn then
        .error (.actionConflict "return receipt and inspection required before refund execution")
      else if executor.transactions action.idempotencyKey = none ∧
          currentRefundableBalance < amount then
        .error (.actionConflict "refundable balance changed")
      else .ok (orderId, amount)

@[grind =] def executeApprovedAction (rt : Runtime) (action : ActionRequest) (payload : Json)
    (expectedVersion : ℕ) (currentRefundableBalance : ℕ) (executor : RefundExecutor)
    (now : Instant) : Except Exn ActionRequest × RefundExecutor :=
  match checkExecution rt action payload expectedVersion currentRefundableBalance executor now with
  | .error e => (.error e, executor)
  | .ok (orderId, amount) =>
    let (captured, executor) := executor.refund rt orderId amount action.idempotencyKey
    (captured.map fun transactionId => { action with
      status := .completed
      externalTransactionId := some transactionId
      version := action.version + 1 }, executor)

end AfterFlow

/-! ### Outbound dispatch -/

namespace AfterFlow

/-- `MockReverseExecutor`; without an inventory it does not check stock. -/
structure ReverseExecutor where
  outbound : String → Option String
  inventory : Option (String → ℕ)

namespace ReverseExecutor

def available (e : ReverseExecutor) (sku : String) : Option ℕ := e.inventory.map fun stock => stock sku

/-- Dispatch once per key; a resend takes one unit from stock. -/
def dispatch (rt : Runtime) (e : ReverseExecutor) (orderId : OrderId) (sku kind key : String) :
    Except Exn String × ReverseExecutor :=
  match e.outbound key with
  | some reference => (.ok reference, e)
  | none =>
    let order := match orderId with
      | some s => s
      | none => "None"
    let digest := rt.sha256 (order ++ ":" ++ sku ++ ":" ++ kind ++ ":" ++ key)
    let reference := "MOCK-" ++ rt.upper kind ++ "-" ++ String.ofList (digest.toList.take 16)
    let send (e : ReverseExecutor) : Except Exn String × ReverseExecutor :=
      (.ok reference, { e with outbound := Function.update e.outbound key (some reference) })
    match e.inventory with
    | none => send e
    | some stock =>
      if kind ≠ "resend" then send e
      else if stock sku < 1 then
        (.error (.dispositionConflict "replacement inventory unavailable"), e)
      else send { e with inventory := some (Function.update stock sku (stock sku - 1)) }

end ReverseExecutor

/-- The checks of `execute_approved_resend` before anything is sent. -/
def checkResend (rt : Runtime) (action : ActionRequest) (payload : Json) (expectedVersion : ℕ)
    (now : Instant) : Except Exn (OrderId × String) :=
  match action.payload with
  | .refund .. => .error (.actionConflict "action is not a resend")
  | .resend orderId sku _ =>
    if action.status ≠ .approved then .error (.actionForbidden "action is not approved")
    else if action.version ≠ expectedVersion then
      .error (.actionConflict "action version conflict")
    else if now ≥ action.expiresAt then .error (.actionConflict "action expired")
    else if payloadHash rt payload ≠ action.payloadHash then
      .error (.actionConflict "payload hash mismatch")
    else .ok (orderId, sku)

def executeApprovedResend (rt : Runtime) (action : ActionRequest) (payload : Json)
    (expectedVersion : ℕ) (executor : ReverseExecutor) (now : Instant) :
    Except Exn ActionRequest × ReverseExecutor :=
  match checkResend rt action payload expectedVersion now with
  | .error e => (.error e, executor)
  | .ok (orderId, sku) =>
    let (sent, executor) := executor.dispatch rt orderId sku "resend" action.idempotencyKey
    (sent.map fun reference => { action with
      status := .completed
      externalTransactionId := some reference
      version := action.version + 1 }, executor)

end AfterFlow
