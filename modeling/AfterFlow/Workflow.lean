import AfterFlow.Decision
import AfterFlow.Errors
import AfterFlow.MockData
import AfterFlow.Reverse

/-!
# The case evaluation graph

`workflow.py`, the case graph: build the context of an order from the provider tables, then route
to the refund decision or, for a reverse issue with a customer preference, to reverse fulfilment.
-/

namespace AfterFlow

/-- The evidence dictionary `_build_context` collects. -/
structure ProviderContext where
  order : OrderRecord
  payment : PaymentRecord
  logistics : Option LogisticsRecord
  customerRisk : Option CustomerRiskContext
  policy : PolicySnapshot
  inventory : Option InventoryRecord
  reverseCosts : Option ReverseCostRecord
  visualEvidenceConfirmed : Bool
  deriving DecidableEq

/-- The names of the entries of the evidence dictionary that are not `None`, in its order. -/
def ProviderContext.sources (c : ProviderContext) : List String :=
  ["order", "payment"] ++ (if c.logistics.isSome then ["logistics"] else []) ++
    ["customer_risk", "policy"] ++ (if c.inventory.isSome then ["inventory"] else []) ++
    (if c.reverseCosts.isSome then ["reverse_costs"] else [])

inductive EvalError where
  | orderNotFound (orderId : String)
  | paymentNotFound (orderId : String)
  | policyNotFound (region : String)
  | reverseContextNotFound (sku : String)
  deriving DecidableEq

/-- The terminal state of the graph. -/
inductive CaseEvaluation where
  | error (e : EvalError)
  | refund (evidence : ProviderContext) (decision : DecisionResult)
  | reverse (evidence : ProviderContext) (decision : ReverseDecision)
  deriving DecidableEq

structure CaseEvalInput where
  orderId : String
  issueType : String
  operatorRefundLimit : ℕ
  visualEvidenceConfirmed : Bool := false
  customerPreference : Option CustomerPreference := none
  damageLevel : Option DamageLevel := none
  humanConfirmed : Option Bool := none
  serialMatches : Option Bool := none

def reverseIssues : List IssueType := [.damagedItem, .wrongItem, .qualityIssue]

/-- `IssueType(issue_type)`. -/
def parseIssueType (s : String) : Except Exn IssueType :=
  match IssueType.ofValue? s with
  | some issue => .ok issue
  | none => .error (.valueError ("'" ++ s ++ "' is not a valid IssueType"))

/-- `_build_context`. -/
@[grind =] def buildContext (providers : Providers) (state : CaseEvalInput) :
    Except Exn (EvalError ⊕ DecisionInput × ProviderContext) :=
  match providers.orders.lookup state.orderId, providers.payments.lookup state.orderId with
  | none, _ => .ok (.inl (.orderNotFound state.orderId))
  | some _, none => .ok (.inl (.paymentNotFound state.orderId))
  | some order, some payment =>
    match providers.policies.lookup order.region with
    | none => .ok (.inl (.policyNotFound order.region))
    | some policy => do
      let logistics := providers.logistics.lookup state.orderId
      let risk := providers.customerRisk.lookup order.customerId
      let profile := (providers.customerProfiles.lookup order.customerId).getD {}
      let issueType ← parseIssueType state.issueType
      let case : DecisionInput :=
        { issueType
          order := ⟨order.orderId, order.itemPaid, order.shippingPaid⟩
          payment := ⟨payment.refundableBalance⟩
          logistics := logistics.map fun l => ⟨l.status, l.proofOfDelivery⟩
          customerRisk := risk.getD {}
          policy
          operatorRefundLimit := state.operatorRefundLimit
          visualEvidenceConfirmed := state.visualEvidenceConfirmed
          signReceiptHours := (providers.signReceiptHours.lookup state.orderId).join
          accountAgeDays := profile.accountAgeDays
          historicalRefundRate := profile.historicalRefundRate
          addressChanges30d := profile.addressChanges30d
          deviceReuse := profile.deviceReuse }
      let evidence : ProviderContext :=
        { order, payment, logistics, customerRisk := risk, policy
          inventory := providers.inventory.lookup order.sku
          reverseCosts := providers.reverseCosts.lookup order.sku
          visualEvidenceConfirmed := state.visualEvidenceConfirmed }
      .ok (.inr (case, evidence))

/-- `_decide_reverse`. -/
def decideReverse (rt : Runtime) (state : CaseEvalInput) (issueType : IssueType)
    (preference : CustomerPreference) (evidence : ProviderContext) : CaseEvaluation :=
  match evidence.inventory, evidence.reverseCosts with
  | some inventory, some costs =>
    .reverse evidence <| decideReverseFulfillment rt
      { issueType
        itemValue := evidence.order.itemPaid
        refundAmount := min evidence.order.itemPaid evidence.payment.refundableBalance
        returnShippingCost := costs.returnShippingCost
        handlingCost := costs.handlingCost
        expectedRecoveryValue := costs.expectedRecoveryValue
        replacementUnitCost := inventory.replacementUnitCost
        replacementShippingCost := costs.replacementShippingCost
        replacementInventory := inventory.available
        customerPreference := preference
        visualEvidence := some
          { damageLevel := state.damageLevel.getD .none
            serialMatches := state.serialMatches
            humanConfirmed := state.humanConfirmed.getD false } }
  | _, _ => .error (.reverseContextNotFound evidence.order.sku)

/-- The graph: `_build_context`, then the route `_route_case` picks. -/
@[grind =] def runCaseEvaluation (rt : Runtime) (providers : Providers) (state : CaseEvalInput) :
    Except Exn CaseEvaluation := do
  match ← buildContext providers state with
  | .inl e => .ok (.error e)
  | .inr (case, evidence) =>
    match state.customerPreference with
    | some preference =>
      if case.issueType ∈ reverseIssues then
        .ok (decideReverse rt state case.issueType preference evidence)
      else .ok (.refund evidence (decideResolution case))
    | none => .ok (.refund evidence (decideResolution case))

end AfterFlow
