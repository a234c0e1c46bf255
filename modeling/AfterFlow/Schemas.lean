import Mathlib.Data.Rat.Defs

/-!
# Business contracts

The enumerations and records of `schemas.py`. Amounts are minor currency units. What Python's
standard library computes on texts and floats is collected in `Runtime`, so that nothing here
depends on how SHA-256 or Unicode tables are written down.
-/

namespace AfterFlow

/-- `uuid4()` as a counter: fresh numbers instead of random texts. -/
abbrev Uuid := ℕ

/-- `datetime` in microseconds. -/
abbrev Instant := ℕ

/-- A case may have no order yet, and such a missing id is used as a dictionary key like any
other. -/
abbrev OrderId := Option String

inductive IssueType where
  | deliveryNotReceived
  | damagedItem
  | wrongItem
  | qualityIssue
  | refundAmountDispute
  deriving DecidableEq

namespace IssueType

def value : IssueType → String
  | deliveryNotReceived => "delivery_not_received"
  | damagedItem => "damaged_item"
  | wrongItem => "wrong_item"
  | qualityIssue => "quality_issue"
  | refundAmountDispute => "refund_amount_dispute"

def all : List IssueType :=
  [deliveryNotReceived, damagedItem, wrongItem, qualityIssue, refundAmountDispute]

/-- `IssueType(value)`, which raises on anything else. -/
def ofValue? (s : String) : Option IssueType := all.find? fun i => i.value = s

end IssueType

inductive Eligibility where
  | eligible
  | eligibleWithApproval
  | ineligible
  | needsEvidence
  deriving DecidableEq

inductive RiskLevel where
  | low
  | medium
  | high
  deriving DecidableEq

/-- How many humans must sign: none, one reviewer, a supervisor, two distinct approvers. -/
inductive RiskTier where
  | auto
  | review
  | supervisor
  | fourEyes
  deriving DecidableEq

inductive ResolutionAction where
  | refundOriginalPayment
  | returnAndRefund
  | manualReview
  deriving DecidableEq

inductive DamageLevel where
  | none
  | minor
  | major
  | destroyed
  deriving DecidableEq

/-- What is taken from Python's standard library. -/
structure Runtime where
  /-- `hashlib.sha256(text.encode()).hexdigest()`. -/
  sha256 : String → String
  /-- `str.strip`. -/
  strip : String → String
  /-- `str.lower`. -/
  lower : String → String
  /-- `str.upper`. -/
  upper : String → String
  /-- Whether `re` counts a character as `\w`. -/
  isWord : Char → Bool
  /-- Whether `re` counts a character as `\d`. -/
  isDecimal : Char → Bool
  /-- `round(expected_recovery_value * RECOVERY_FACTOR[damage_level])`, a float product. -/
  discount : ℕ → DamageLevel → ℕ

structure OrderContext where
  orderId : String
  itemPaid : ℕ
  shippingPaid : ℕ
  deriving DecidableEq

structure PaymentContext where
  refundableBalance : ℕ
  deriving DecidableEq

structure LogisticsEvidence where
  status : String
  proofOfDelivery : Bool
  deriving DecidableEq

structure CustomerRiskContext where
  notReceivedClaims180d : ℕ := 0
  refundCases180d : ℕ := 0
  deriving DecidableEq

structure PolicySnapshot where
  policyId : String
  version : String
  coveredIssues : List IssueType
  refundShippingIssues : List IssueType := []
  returnRequiredIssues : List IssueType := []
  manualReviewAmount : ℕ
  highValueAmount : ℕ
  deriving DecidableEq

structure DecisionInput where
  issueType : IssueType
  order : OrderContext
  payment : PaymentContext
  logistics : Option LogisticsEvidence := none
  customerRisk : CustomerRiskContext := {}
  policy : PolicySnapshot
  operatorRefundLimit : ℕ
  visualEvidenceConfirmed : Bool := false
  signReceiptHours : Option ℤ := none
  accountAgeDays : Option ℤ := none
  historicalRefundRate : Option ℚ := none
  addressChanges30d : ℤ := 0
  deviceReuse : Bool := false

structure RiskContribution where
  signal : String
  points : ℕ
  reason : String
  deriving DecidableEq

structure DecisionResult where
  eligibility : Eligibility
  action : ResolutionAction
  refundAmount : ℕ
  riskLevel : RiskLevel
  reasonCode : String
  approvalRequired : Bool
  approvalReasons : List String := []
  signals : List String := []
  missingEvidence : List String := []
  policyRefs : List String := []
  riskScore : ℕ := 0
  riskTier : RiskTier := .auto
  riskSignals : List RiskContribution := []
  deriving DecidableEq

end AfterFlow
