import AfterFlow.Workflow
import Mathlib.Data.List.Sort

/-!
# Complaint intake and re-evaluation

`intake.py`: what is read from a complaint, and the deterministic evaluation every new or
supplemented case goes through.
-/

namespace AfterFlow

inductive CaseStatus where
  | decided
  | awaitingClarification
  | awaitingEvidence
  | pendingApproval
  | approved
  | rejected
  | completed
  | executionProcessing
  deriving DecidableEq

def CaseStatus.value : CaseStatus → String
  | decided => "decided"
  | awaitingClarification => "awaiting_clarification"
  | awaitingEvidence => "awaiting_evidence"
  | pendingApproval => "pending_approval"
  | approved => "approved"
  | rejected => "rejected"
  | completed => "completed"
  | executionProcessing => "execution_processing"

inductive NextStep where
  | reviewDecision
  | clarify (field : String)
  | verifyOrder
  | confirmVisualEvidence
  | createAction
  | supplementEvidence
  | supervisorReview
  | executeAction
  | additionalApproval
  | operatorReview
  | awaitPaymentConfirmation
  | done
  deriving DecidableEq

/-- The decision document of a case: empty, a refund decision, or the reverse route. -/
inductive CaseDecision where
  | empty
  | refund (decision : DecisionResult)
  | reverse (decision : ReverseDecision)
  deriving DecidableEq

/-- The `intake` entry of the evidence document. -/
structure IntakeRecord where
  complaintText : String
  customerExpectation : Option String
  visualEvidenceConfirmed : Bool
  damageLevel : Option DamageLevel
  serialMatches : Option Bool
  structuredSource : Option String := none
  deriving DecidableEq

/-- The evidence document. A fact is named by its source; its value is the entry of that name in
`context`. -/
structure Evidence where
  context : Option ProviderContext := none
  intake : Option IntakeRecord := none
  claims : List String := []
  facts : List (String × Instant) := []
  sources : List String := []
  missing : List String := []
  conflicts : List String := []
  snapshotAt : Option Instant := none
  revision : ℕ := 1
  deriving DecidableEq

structure Evaluation where
  status : CaseStatus
  nextStep : NextStep
  decision : CaseDecision
  evidence : Evidence
  replyDraft : String

/-! ### Python truth values of optional texts -/

@[grind =] def truthy : Option String → Bool
  | some s => s ≠ ""
  | none => false

/-- `a or b`. -/
def pyOr (a b : Option String) : Option String := if truthy a then a else b

/-! ### Reading a complaint -/

/-- `term in text`. -/
def containsTerm (text term : String) : Bool :=
  text.toList.tails.any fun suffix => term.toList.isPrefixOf suffix

def issueTerms : List (IssueType × List String) := [
  (.deliveryNotReceived, ["没收到", "未收到", "没有收到", "not received"]),
  (.wrongItem, ["错发", "发错", "wrong item"]),
  (.damagedItem, ["破损", "损坏", "碎了", "坏了", "damaged"]),
  (.qualityIssue, ["没声音", "故障", "质量", "不能用", "quality"]),
  (.refundAmountDispute, ["退款金额", "少退", "金额争议"])]

def issueAliases : List (String × IssueType) := [
  ("not_received", .deliveryNotReceived), ("delivery_issue", .deliveryNotReceived),
  ("damaged", .damagedItem), ("wrong", .wrongItem), ("quality", .qualityIssue),
  ("refund_dispute", .refundAmountDispute)]

def normalizeIssueType (rt : Runtime) : Option String → Option String
  | none => none
  | some value =>
    let value := rt.lower (rt.strip value)
    if (IssueType.ofValue? value).isSome then some value
    else (issueAliases.lookup value).map IssueType.value

/-- A match of `\bORDER-\d+\b`, ignoring case, at the start of `text`, which follows the character
`prev`. Digits are word characters, so only the maximal digit run can end at a boundary. -/
def orderIdAt (rt : Runtime) (prev : Option Char) (text : List Char) : Option (List Char) :=
  let digits := (text.drop 6).takeWhile rt.isDecimal
  let rest := (text.drop 6).dropWhile rt.isDecimal
  if (text.take 6).map Char.toUpper = "ORDER-".toList ∧ digits ≠ [] ∧
      (prev.map rt.isWord).getD false = false ∧ (rest.head?.map rt.isWord).getD false = false then
    some (text.take 6 ++ digits)
  else none

/-- `findall`: after a match the next `skip` characters belong to it. -/
@[grind =] def findOrderIds (rt : Runtime) : ℕ → Option Char → List Char → List String
  | _, _, [] => []
  | skip + 1, _, c :: text => findOrderIds rt skip (some c) text
  | 0, prev, c :: text =>
    match orderIdAt rt prev (c :: text) with
    | some found => String.ofList found :: findOrderIds rt (found.length - 1) (some c) text
    | none => findOrderIds rt 0 (some c) text

structure Extracted where
  orderId : Option String
  issueType : Option String
  customerExpectation : Option String
  deriving DecidableEq

def extractIntake (rt : Runtime) (complaintText : String) : Extracted :=
  let text := rt.strip complaintText
  let lowered := rt.lower text
  let orderIds := ((findOrderIds rt 0 none text.toList).map rt.upper).eraseDups
  let issue := issueTerms.find? fun entry => entry.2.any fun term => containsTerm lowered term
  let expectation : Option CustomerPreference :=
    if ["换一个", "换货", "补发", "replacement", "replace"].any (containsTerm lowered) then
      some .replacement
    else if ["退款", "退钱", "refund"].any (containsTerm lowered) then some .refund
    else none
  { orderId := match orderIds with
      | [orderId] => some orderId
      | _ => none
    issueType := normalizeIssueType rt (issue.map fun entry => entry.1.value)
    customerExpectation := expectation.map CustomerPreference.value }

/-! ### Evaluation -/

structure IntakeInput where
  complaintText : String
  orderId : Option String
  issueType : Option String
  customerExpectation : Option String
  operatorRefundLimit : ℕ
  visualEvidenceConfirmed : Bool := false
  damageLevel : Option DamageLevel := none
  serialMatches : Option Bool := none
  revision : ℕ := 1

def IntakeInput.record (i : IntakeInput) : IntakeRecord :=
  { complaintText := i.complaintText
    customerExpectation := i.customerExpectation
    visualEvidenceConfirmed := i.visualEvidenceConfirmed
    damageLevel := i.damageLevel
    serialMatches := i.serialMatches }

/-- The answer to a case without a usable order or issue. -/
def clarification (i : IntakeInput) (nextStep : NextStep) (missing : List String)
    (replyDraft : String) : Evaluation :=
  { status := .awaitingClarification
    nextStep
    decision := .empty
    evidence :=
      { intake := some i.record
        claims := [i.complaintText]
        missing := missing
        revision := i.revision }
    replyDraft }

/-- The evidence of an evaluated case. -/
def evaluatedEvidence (i : IntakeInput) (now : Instant) (raw : ProviderContext)
    (missing conflicts : List String) : Evidence :=
  { context := some raw
    intake := some i.record
    claims := [i.complaintText]
    facts := raw.sources.map fun source => (source, now)
    sources := raw.sources.insertionSort (· ≤ ·)
    missing
    conflicts
    snapshotAt := some now
    revision := i.revision }

/-- The carrier's proof against a claim of non-delivery. A missing logistics record raises here:
`raw.get("logistics", {})` is `None`, which has no `get`. -/
def deliveryConflicts (issueType : String) (raw : ProviderContext) : Except Exn (List String) :=
  if issueType = IssueType.deliveryNotReceived.value then
    match raw.logistics with
    | none => .error (.attributeError "'NoneType' object has no attribute 'get'")
    | some logistics => .ok (if logistics.proofOfDelivery then
        ["customer_reports_not_received_but_carrier_has_proof_of_delivery"] else [])
  else .ok []

@[grind =] def evaluateIntake (rt : Runtime) (providers : Providers) (now : Instant) (i : IntakeInput) :
    Except Exn Evaluation :=
  let missing := (if truthy i.orderId then [] else ["order_id"]) ++
    (if truthy i.issueType then [] else ["issue_type"])
  match missing with
  | first :: rest =>
    .ok (clarification i (.clarify first) (first :: rest)
      (if rest ≠ [] then "请补充订单号和具体问题后，我会继续处理。"
      else "请补充" ++ (if first = "order_id" then "订单号" else "具体问题") ++ "后，我会继续处理。"))
  | [] => do
    let issueType := i.issueType.getD ""
    let state ← runCaseEvaluation rt providers
      { orderId := i.orderId.getD ""
        issueType
        operatorRefundLimit := i.operatorRefundLimit
        visualEvidenceConfirmed := i.visualEvidenceConfirmed
        customerPreference :=
          if i.customerExpectation = some CustomerPreference.replacement.value then
            some .replacement else none
        damageLevel := i.damageLevel
        humanConfirmed := some i.visualEvidenceConfirmed
        serialMatches := i.serialMatches }
    match state with
    | .error _ => .ok (clarification i .verifyOrder ["valid_order"] "未找到该订单，请核对订单号。")
    | .reverse raw reverse => do
      let conflicts ← deliveryConflicts issueType raw
      let missingEvidence := reverse.missingEvidence
      .ok
        { status := if missingEvidence ≠ [] then .awaitingEvidence else .decided
          nextStep := if missingEvidence ≠ [] then .confirmVisualEvidence else .createAction
          decision := .reverse reverse
          evidence := evaluatedEvidence i now raw missingEvidence conflicts
          replyDraft := if missingEvidence ≠ [] then "需要客服人工确认图片证据后再继续。"
            else "已根据库存、残值与履约成本形成处理方案，待提交审批。" }
    | .refund raw refund => do
      let conflicts ← deliveryConflicts issueType raw
      let missingEvidence := refund.missingEvidence
      let awaiting := missingEvidence ≠ [] ∨ conflicts ≠ []
      .ok
        { status := if awaiting then .awaitingEvidence else .decided
          nextStep := if awaiting then .supplementEvidence else .createAction
          decision := .refund refund
          evidence := evaluatedEvidence i now raw missingEvidence conflicts
          replyDraft := if awaiting then "还需要补充证据或核对签收差异，当前不会执行退款。"
            else "已完成规则评估，处理方案待提交审批。" }

end AfterFlow
