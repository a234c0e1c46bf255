import AfterFlow.RiskScoring

/-!
# Eligibility and refund amounts

`decision.py`: the deterministic refund decision of a case.
-/

namespace AfterFlow

/-- `_missing_evidence`. -/
def missingEvidence (case : DecisionInput) : List String :=
  if case.issueType = .deliveryNotReceived ∧ case.logistics.isNone then ["logistics_evidence"]
  else if case.issueType ∈ [IssueType.damagedItem, .wrongItem] ∧ ¬ case.visualEvidenceConfirmed then
    ["visual_evidence"]
  else []

/-- A decision without a refund: nothing to approve, left to a human. -/
def manualDecision (eligibility : Eligibility) (reasonCode policyRef : String)
    (signals missing : List String) : DecisionResult :=
  { eligibility, action := .manualReview, refundAmount := 0, riskLevel := .low, reasonCode,
    approvalRequired := false, signals, missingEvidence := missing, policyRefs := [policyRef] }

def decideResolution (case : DecisionInput) : DecisionResult :=
  let policyRef := case.policy.policyId ++ "@" ++ case.policy.version
  let missing := missingEvidence case
  if case.issueType ∉ case.policy.coveredIssues then
    manualDecision .ineligible "ISSUE_NOT_COVERED" policyRef [] []
  else if missing ≠ [] then
    manualDecision .needsEvidence "REQUIRED_EVIDENCE_MISSING" policyRef [] missing
  else if case.payment.refundableBalance = 0 then
    manualDecision .ineligible "NO_REFUNDABLE_BALANCE" policyRef ["payment_balance_exhausted"] []
  else
    let requestedAmount := case.order.itemPaid +
      if case.issueType ∈ case.policy.refundShippingIssues then case.order.shippingPaid else 0
    let refundAmount := min requestedAmount case.payment.refundableBalance
    let proof := (case.logistics.map LogisticsEvidence.proofOfDelivery).getD false
    let highValue := refundAmount ≥ case.policy.highValueAmount
    let signals :=
      (if refundAmount < requestedAmount then ["refund_capped_by_payment_balance"] else []) ++
      (if case.customerRisk.notReceivedClaims180d ≥ 3 then ["repeat_not_received_claims"]
      else if case.customerRisk.notReceivedClaims180d = 2 then ["elevated_not_received_claims"]
      else []) ++
      (if case.issueType = .deliveryNotReceived ∧ case.logistics.isSome then
        [if proof then "carrier_has_proof_of_delivery" else "carrier_no_proof_of_delivery"]
      else []) ++
      (if highValue then ["high_value_refund"] else [])
    let assessment := assessRisk
      { notReceivedClaims180d := case.customerRisk.notReceivedClaims180d
        refundCases180d := case.customerRisk.refundCases180d
        carrierHasProofOfDelivery := proof
        isDeliveryNotReceived := case.issueType = .deliveryNotReceived
        highValueRefund := highValue
        signReceiptHours := case.signReceiptHours
        accountAgeDays := case.accountAgeDays
        historicalRefundRate := case.historicalRefundRate
        addressChanges30d := case.addressChanges30d
        deviceReuse := case.deviceReuse } refundAmount defaultDualApprovalThreshold
    let approvalReasons :=
      (if refundAmount > case.operatorRefundLimit then ["exceeds_operator_limit"] else []) ++
      (if refundAmount ≥ case.policy.manualReviewAmount then ["policy_manual_review_threshold"]
      else []) ++
      (if assessment.level = .high then ["high_risk_case"] else []) ++
      (if assessment.tier ≠ .auto then ["risk_score_requires_review"] else [])
    let approvalRequired := approvalReasons ≠ []
    { eligibility := if approvalRequired then .eligibleWithApproval else .eligible
      action := if case.issueType ∈ case.policy.returnRequiredIssues then .returnAndRefund
        else .refundOriginalPayment
      refundAmount
      riskLevel := assessment.level
      reasonCode := "POLICY_MATCHED"
      approvalRequired
      approvalReasons
      signals
      policyRefs := [policyRef]
      riskScore := assessment.score
      riskTier := assessment.tier
      riskSignals := assessment.contributions }

end AfterFlow
