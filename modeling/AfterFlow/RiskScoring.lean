import AfterFlow.Schemas
import Mathlib.Algebra.GroupWithZero.Nat

/-!
# The refund risk scorecard

`risk_scoring.py`: weighted signals add up to a score of at most 100, the score and two decisive
signals give a level, and level and amount give the tier of intervention.
-/

namespace AfterFlow

structure RiskSignals where
  notReceivedClaims180d : ℤ := 0
  refundCases180d : ℤ := 0
  carrierHasProofOfDelivery : Bool := false
  isDeliveryNotReceived : Bool := false
  highValueRefund : Bool := false
  signReceiptHours : Option ℤ := none
  accountAgeDays : Option ℤ := none
  historicalRefundRate : Option ℚ := none
  addressChanges30d : ℤ := 0
  deviceReuse : Bool := false

structure RiskAssessment where
  score : ℕ
  level : RiskLevel
  tier : RiskTier
  contributions : List RiskContribution := []
  ruleOverride : Option String := none
  deriving DecidableEq

def defaultDualApprovalThreshold : ℤ := 500000
def immediateSignReceiptHours : ℤ := 2
def lateSignReceiptHours : ℤ := 30 * 24

/-- The contributions and the score so far. -/
structure Tally where
  contributions : List RiskContribution := []
  score : ℕ := 0

/-- `score += _add(contributions, signal, points, reason)`. -/
def Tally.add (t : Tally) (signal : String) (points : ℕ) (reason : String) : Tally where
  contributions :=
    if points ≠ 0 then t.contributions ++ [⟨signal, points, reason⟩] else t.contributions
  score := t.score + points

namespace RiskSignals

variable (s : RiskSignals)

def tallyClaims (t : Tally) : Tally :=
  if s.notReceivedClaims180d ≥ 3 then
    t.add "repeat_not_received_claims" 40 "≥3 未收到货索赔，疑似重复薅羊毛"
  else if s.notReceivedClaims180d = 2 then
    t.add "elevated_not_received_claims" 20 "2 次未收到货索赔"
  else t

def tallyProof (t : Tally) : Tally :=
  if s.isDeliveryNotReceived ∧ s.carrierHasProofOfDelivery then
    t.add "carrier_proof_of_delivery_conflict" 30 "承运商有签收凭证但用户称未收到"
  else t

def tallyValue (t : Tally) : Tally :=
  if s.highValueRefund then t.add "high_value_refund" 15 "退款金额达高价值线" else t

def tallyVolume (t : Tally) : Tally :=
  if s.refundCases180d ≥ 5 then t.add "high_refund_volume" 10 "180 天退款次数偏高"
  else if s.refundCases180d ≥ 3 then t.add "elevated_refund_volume" 5 "180 天退款次数略高"
  else t

/-- Both extremes of the time since delivery are suspicious. -/
def tallyTime (t : Tally) : Tally :=
  match s.signReceiptHours with
  | none => t
  | some hours =>
    if hours ≤ immediateSignReceiptHours then
      t.add "immediate_claim_after_receipt" 15 "签收后极短时间即投诉"
    else if hours ≥ lateSignReceiptHours then
      t.add "late_claim_after_delivery" 15 "签收后很久才投诉"
    else t

def tallyAge (t : Tally) : Tally :=
  match s.accountAgeDays with
  | none => t
  | some days => if days < 30 then t.add "young_account" 8 "新账号" else t

def tallyRate (t : Tally) : Tally :=
  match s.historicalRefundRate with
  | none => t
  | some rate =>
    if rate ≥ 3 / 10 then t.add "high_refund_rate" 15 "历史退款率≥30%"
    else if rate ≥ 3 / 20 then t.add "elevated_refund_rate" 8 "历史退款率偏高"
    else t

def tallyAddress (t : Tally) : Tally :=
  if s.addressChanges30d ≥ 2 then
    t.add "frequent_address_change" 10 "近 30 天地址变更频繁"
  else t

def tallyDevice (t : Tally) : Tally :=
  if s.deviceReuse then t.add "device_reuse" 20 "设备关联多个账号" else t

/-- The scorecard, signal by signal in the order of the source. -/
def tally : Tally :=
  s.tallyDevice (s.tallyAddress (s.tallyRate (s.tallyAge (s.tallyTime (s.tallyVolume
    (s.tallyValue (s.tallyProof (s.tallyClaims {}))))))))

end RiskSignals

/-- A repeat claimant, or a claim of non-delivery against the carrier's proof. -/
def RiskSignals.decisiveHigh (s : RiskSignals) : Bool :=
  s.notReceivedClaims180d ≥ 3 ∨ (s.isDeliveryNotReceived ∧ s.carrierHasProofOfDelivery)

def assessRisk (signals : RiskSignals) (refundAmount dualApprovalThreshold : ℤ) :
    RiskAssessment :=
  let tally := signals.tally
  let score := min 100 tally.score
  let level : RiskLevel :=
    if signals.decisiveHigh ∨ score ≥ 60 then .high
    else if signals.notReceivedClaims180d = 2 ∨ signals.highValueRefund ∨ score ≥ 30 then .medium
    else .low
  let tier : RiskTier :=
    if level = .high ∧ refundAmount ≥ dualApprovalThreshold then .fourEyes
    else if level = .high then .supervisor
    else if level = .medium then .review
    else .auto
  { score, level, tier
    contributions := tally.contributions
    ruleOverride := if signals.decisiveHigh then some "repeat_claims_or_pod_conflict" else none }

end AfterFlow
