import AfterFlow.Actions
import AfterFlow.Decision

/-!
# What policy approves on its own

A refund that policy covers is approved without a human exactly if it stays within every limit: the
operator's, the two amounts of the policy, and those of the risk scorecard. The decision, the
scorecard and the action each know some of the limits only, so first it is said what each of them
decides.

## Main results

* `refund_bounded` — what is approved by itself is within every limit
-/

namespace AfterFlow

/-! ### The scorecard -/

section AssessRisk

variable {signals : RiskSignals} {amount threshold : ℤ}

theorem assessRisk_tier : (assessRisk signals amount threshold).tier = .auto ↔
    (assessRisk signals amount threshold).level = .low := by
  have htier : (assessRisk signals amount threshold).tier =
      if (assessRisk signals amount threshold).level = .high ∧ amount ≥ threshold then .fourEyes
      else if (assessRisk signals amount threshold).level = .high then .supervisor
      else if (assessRisk signals amount threshold).level = .medium then .review
      else .auto := rfl
  rw [htier]
  cases (assessRisk signals amount threshold).level with
  | low | medium => simp
  | high => by_cases h : amount ≥ threshold <;> simp [h]

/-- Nothing decisive, no elevated claims, no high amount, and a low score. -/
theorem assessRisk_level : (assessRisk signals amount threshold).level = .low ↔
    signals.notReceivedClaims180d < 2 ∧
      ¬ (signals.isDeliveryNotReceived ∧ signals.carrierHasProofOfDelivery) ∧
      signals.highValueRefund = false ∧ (assessRisk signals amount threshold).score < 30 := by
  generalize hscore : (assessRisk signals amount threshold).score = score
  have hlevel : (assessRisk signals amount threshold).level =
      if signals.decisiveHigh ∨ score ≥ 60 then .high
      else if signals.notReceivedClaims180d = 2 ∨ signals.highValueRefund ∨ score ≥ 30 then .medium
      else .low := by
    rw [← hscore]
    rfl
  have hlow : (assessRisk signals amount threshold).level = .low ↔
      ¬ (signals.decisiveHigh ∨ score ≥ 60) ∧
        ¬ (signals.notReceivedClaims180d = 2 ∨ signals.highValueRefund ∨ score ≥ 30) := by
    rw [hlevel]
    split
    · simp [*]
    · split <;> simp [*]
  rw [hlow, RiskSignals.decisiveHigh, decide_eq_true_eq]
  cases signals.highValueRefund <;> grind

end AssessRisk

/-! ### The decision -/

/-- What was paid and policy gives back. -/
def DecisionInput.requested (case : DecisionInput) : ℕ :=
  case.order.itemPaid +
    if case.issueType ∈ case.policy.refundShippingIssues then case.order.shippingPaid else 0

/-- What there is money for. -/
def DecisionInput.payable (case : DecisionInput) : ℕ :=
  min case.requested case.payment.refundableBalance

/-- What the scorecard is told. -/
def DecisionInput.riskSignals (case : DecisionInput) : RiskSignals where
  notReceivedClaims180d := case.customerRisk.notReceivedClaims180d
  refundCases180d := case.customerRisk.refundCases180d
  carrierHasProofOfDelivery := (case.logistics.map LogisticsEvidence.proofOfDelivery).getD false
  isDeliveryNotReceived := case.issueType = .deliveryNotReceived
  highValueRefund := case.payable ≥ case.policy.highValueAmount
  signReceiptHours := case.signReceiptHours
  accountAgeDays := case.accountAgeDays
  historicalRefundRate := case.historicalRefundRate
  addressChanges30d := case.addressChanges30d
  deviceReuse := case.deviceReuse

/-- The score. -/
def DecisionInput.riskScore (case : DecisionInput) : ℕ :=
  (assessRisk case.riskSignals case.payable defaultDualApprovalThreshold).score

/-- The carrier says that it has delivered what the customer says has not come. -/
def DecisionInput.conflict (case : DecisionInput) : Bool :=
  case.issueType = .deliveryNotReceived ∧
    (case.logistics.map LogisticsEvidence.proofOfDelivery).getD false

/-- The issue is covered, nothing is missing, and there is money. -/
structure DecisionInput.Covered (case : DecisionInput) : Prop where
  issue : case.issueType ∈ case.policy.coveredIssues
  evidence : missingEvidence case = []
  balance : case.payment.refundableBalance ≠ 0

/-- What a decision says to a covered case. -/
structure Granted (case : DecisionInput) (d : DecisionResult) : Prop where
  amount : d.refundAmount = case.payable
  eligibility : d.eligibility ∈ [Eligibility.eligible, .eligibleWithApproval]
  score : d.riskScore = case.riskScore
  level : d.riskLevel = .low ↔ case.customerRisk.notReceivedClaims180d < 2 ∧
    case.conflict = false ∧ case.payable < case.policy.highValueAmount ∧ case.riskScore < 30
  approval : d.approvalRequired = false ↔ case.payable ≤ case.operatorRefundLimit ∧
    case.payable < case.policy.manualReviewAmount ∧ d.riskLevel = .low

theorem decideResolution_covered {case : DecisionInput} (h : case.Covered) :
    Granted case (decideResolution case) := by
  rw [decideResolution, if_neg (not_not_intro h.issue), if_neg (not_not_intro h.evidence),
    if_neg h.balance]
  refine ⟨rfl, ?_, rfl, ?_, ?_⟩
  · rw [List.mem_cons, List.mem_singleton]
    exact (ite_eq_or_eq _ _ _).symm
  · dsimp only
    rw [assessRisk_level]
    have hclaims : (case.customerRisk.notReceivedClaims180d : ℤ) < 2 ↔
        case.customerRisk.notReceivedClaims180d < 2 := by omega
    simp only [DecisionInput.conflict, decide_eq_false_iff_not, decide_eq_true_eq, not_le,
      ge_iff_le, hclaims]
    exact Iff.rfl
  · dsimp only
    simp only [decide_eq_false_iff_not, not_not, List.append_eq_nil_iff, ite_eq_right_iff,
      List.cons_ne_nil, imp_false, not_lt, not_le, ge_iff_le, gt_iff_lt, assessRisk_tier]
    refine ⟨fun hnone => ⟨hnone.1.1.1, hnone.1.1.2, hnone.2⟩,
      fun hlow => ⟨⟨⟨hlow.1, hlow.2.1⟩, ?_⟩, hlow.2.2⟩⟩
    rw [hlow.2.2]
    exact RiskLevel.noConfusion

theorem decideResolution_not_covered {case : DecisionInput} (h : ¬ case.Covered) :
    (decideResolution case).refundAmount = 0 ∧
      (decideResolution case).eligibility ∉ [Eligibility.eligible, .eligibleWithApproval] := by
  rw [decideResolution]
  dsimp only
  split
  · exact ⟨rfl, by simp [manualDecision]⟩
  split
  · exact ⟨rfl, by simp [manualDecision]⟩
  split
  · exact ⟨rfl, by simp [manualDecision]⟩
  · exact absurd ⟨not_not.mp ‹_›, not_not.mp ‹_›, ‹_›⟩ h

/-! ### The action -/

/-- All limits at once, for a payment of `amount` with a risk score of `score`. -/
structure WithinLimits (case : DecisionInput) (amount score : ℕ) : Prop where
  operator : amount ≤ case.operatorRefundLimit
  manualReview : amount < case.policy.manualReviewAmount
  highValue : amount < case.policy.highValueAmount
  claims : case.customerRisk.notReceivedClaims180d < 2
  noConflict : case.conflict = false
  score : score < 30

/-- **Policy approves a covered refund on its own exactly within the limits.** -/
theorem autoApproved_iff {case : DecisionInput} (h : case.Covered) :
    autoApproved (decideResolution case) = true ↔
      WithinLimits case case.payable case.riskScore := by
  have hgranted := decideResolution_covered h
  have hauto : autoApproved (decideResolution case) = true ↔
      (decideResolution case).approvalRequired = false ∧
        (decideResolution case).riskLevel ≠ .high := by
    simp [autoApproved]
  rw [hauto, hgranted.approval]
  constructor
  · rintro ⟨⟨hoperator, hmanual, hlow⟩, -⟩
    obtain ⟨hclaims, hconflict, hhigh, hscore⟩ := hgranted.level.mp hlow
    exact ⟨hoperator, hmanual, hhigh, hclaims, hconflict, hscore⟩
  · intro hwithin
    have hlow := hgranted.level.mpr
      ⟨hwithin.claims, hwithin.noConflict, hwithin.highValue, hwithin.score⟩
    refine ⟨⟨hwithin.operator, hwithin.manualReview, hlow⟩, ?_⟩
    rw [hlow]
    exact RiskLevel.noConfusion

theorem createRefundAction_amount {rt : Runtime} {id caseId : Uuid} {orderId : OrderId}
    {requestedBy : String} {d : DecisionResult} {now : Instant} {action : ActionRequest}
    (h : createRefundAction rt id caseId orderId requestedBy d now = .ok action) :
    d.refundAmount ≠ 0 ∧ action.payload.money = d.refundAmount ∧
      (action.status = .approved ↔ autoApproved d = true) := by
  rw [createRefundAction] at h
  split at h
  · cases h
  split at h
  · cases h
  · rename_i hexecutable
    cases h
    refine ⟨fun hzero => hexecutable (.inr hzero), rfl, ?_⟩
    dsimp only
    split <;> simp [*]

/-- The same case with lower limits. -/
def DecisionInput.lowered (case : DecisionInput) (operatorRefundLimit manualReviewAmount : ℕ) :
    DecisionInput :=
  { case with operatorRefundLimit, policy := { case.policy with manualReviewAmount } }

theorem WithinLimits.of_lowered {case : DecisionInput} {limit manual amount score : ℕ}
    (hlimit : limit ≤ case.operatorRefundLimit) (hmanual : manual ≤ case.policy.manualReviewAmount)
    (h : WithinLimits (case.lowered limit manual) amount score) :
    WithinLimits case amount score where
  operator := h.operator.trans hlimit
  manualReview := h.manualReview.trans_le hmanual
  highValue := h.highValue
  claims := h.claims
  noConflict := h.noConflict
  score := h.score

/-- **Automatic approval is bounded by every limit.** -/
theorem refund_bounded (rt : Runtime) (case : DecisionInput) :
    (decideResolution case).refundAmount ≤ case.payment.refundableBalance ∧
      (decideResolution case).refundAmount ≤ case.requested ∧
      ((decideResolution case).refundAmount ≠ 0 →
        (decideResolution case).eligibility ∈ [Eligibility.eligible, .eligibleWithApproval]) ∧
      (∀ id caseId orderId requestedBy now action,
        createRefundAction rt id caseId orderId requestedBy (decideResolution case) now =
          .ok action →
        action.status = .approved →
        WithinLimits case action.payload.money (decideResolution case).riskScore) ∧
      ∀ limit ≤ case.operatorRefundLimit, ∀ manual ≤ case.policy.manualReviewAmount,
        ∀ id caseId orderId requestedBy now action id' caseId' orderId' requestedBy' now' action',
          createRefundAction rt id caseId orderId requestedBy (decideResolution case) now =
            .ok action →
          action.status = .pendingApproval →
          createRefundAction rt id' caseId' orderId' requestedBy'
            (decideResolution (case.lowered limit manual)) now' = .ok action' →
          action'.status ≠ .approved := by
  by_cases hcovered : case.Covered
  · have hgranted := decideResolution_covered hcovered
    refine ⟨?_, ?_, fun _ => hgranted.eligibility, ?_, ?_⟩
    · rw [hgranted.amount]
      exact min_le_right _ _
    · rw [hgranted.amount]
      exact min_le_left _ _
    · intro id caseId orderId requestedBy now action hcreate happroved
      obtain ⟨-, hmoney, hstatus⟩ := createRefundAction_amount hcreate
      rw [hmoney, hgranted.amount, hgranted.score]
      exact (autoApproved_iff hcovered).mp (hstatus.mp happroved)
    · intro limit hlimit manual hmanual id caseId orderId requestedBy now action id' caseId'
        orderId' requestedBy' now' action' hcreate hpending hcreate' happroved
      have hcovered' : (case.lowered limit manual).Covered :=
        ⟨hcovered.issue, hcovered.evidence, hcovered.balance⟩
      obtain ⟨-, -, hstatus⟩ := createRefundAction_amount hcreate
      obtain ⟨-, -, hstatus'⟩ := createRefundAction_amount hcreate'
      have hwithin := (autoApproved_iff hcovered').mp (hstatus'.mp happroved)
      have hauto := (autoApproved_iff hcovered).mpr (hwithin.of_lowered hlimit hmanual)
      rw [hstatus.mpr hauto] at hpending
      cases hpending
  · obtain ⟨hzero, -⟩ := decideResolution_not_covered hcovered
    have hnone : ∀ id caseId orderId requestedBy now action,
        createRefundAction rt id caseId orderId requestedBy (decideResolution case) now ≠
          .ok action :=
      fun _ _ _ _ _ _ hcreate => (createRefundAction_amount hcreate).1 hzero
    refine ⟨by rw [hzero]; exact Nat.zero_le _, by rw [hzero]; exact Nat.zero_le _,
      fun hne => absurd hzero hne,
      fun _ _ _ _ _ _ hcreate => absurd hcreate (hnone _ _ _ _ _ _), ?_⟩
    exact fun _ _ _ _ _ _ _ _ _ _ _ _ _ _ _ _ hcreate => absurd hcreate (hnone _ _ _ _ _ _)

/-- A small refund that policy approves. -/
def smallRefund : DecisionInput where
  issueType := .qualityIssue
  order := ⟨"o-1", 900, 100⟩
  payment := ⟨1000⟩
  policy :=
    { policyId := "p"
      version := "1"
      coveredIssues := [.qualityIssue]
      manualReviewAmount := 5000
      highValueAmount := 8000 }
  operatorRefundLimit := 2000

example (rt : Runtime) :
    (createRefundAction rt 1 1 (some "o-1") "ada" (decideResolution smallRefund) 0).map
      ActionRequest.status = .ok .approved := rfl

end AfterFlow
