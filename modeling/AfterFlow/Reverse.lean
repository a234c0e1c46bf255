import AfterFlow.Schemas

/-!
# Reverse fulfilment

`reverse.py`: return, replacement or refund without return, by deterministic economics.
-/

namespace AfterFlow

inductive CustomerPreference where
  | refund
  | replacement
  deriving DecidableEq

def CustomerPreference.value : CustomerPreference → String
  | refund => "refund"
  | replacement => "replacement"

inductive ReverseAction where
  | refundWithoutReturn
  | returnAndRefund
  | replaceAfterReturn
  | resendWithoutReturn
  | manualReview
  deriving DecidableEq

inductive ReverseOutcome where
  | decided
  | needsEvidence
  | unsupported
  deriving DecidableEq

structure VisualEvidence where
  damageLevel : DamageLevel
  serialMatches : Option Bool := none
  humanConfirmed : Bool := false
  deriving DecidableEq

structure ReverseInput where
  issueType : IssueType
  itemValue : ℕ
  refundAmount : ℕ
  returnShippingCost : ℕ
  handlingCost : ℕ
  expectedRecoveryValue : ℕ
  replacementUnitCost : ℕ
  replacementShippingCost : ℕ
  replacementInventory : ℕ
  customerPreference : CustomerPreference
  visualEvidence : Option VisualEvidence := none
  deriving DecidableEq

/-- Like new, refurbishable, damaged, destroyed. -/
inductive ReturnGrade where
  | a
  | b
  | c
  | d
  deriving DecidableEq

structure ReverseDecision where
  outcome : ReverseOutcome
  action : ReverseAction
  estimatedResolutionCost : ℕ
  requiresReturn : Bool
  signals : List String := []
  missingEvidence : List String := []
  grade : Option ReturnGrade := none
  disposition : Option String := none
  deriving DecidableEq

/-- `_grade`. -/
def grade : DamageLevel → ReturnGrade × String
  | .none => (.a, "restock")
  | .minor => (.b, "refurbish")
  | .major => (.c, "liquidate")
  | .destroyed => (.d, "dispose")

/-- `max(0, a + b - c)` on non-negative numbers is the truncated subtraction of `ℕ`. -/
def decideReverseFulfillment (rt : Runtime) (case : ReverseInput) : ReverseDecision :=
  if case.issueType ∉ [IssueType.damagedItem, .wrongItem, .qualityIssue] then
    { outcome := .unsupported, action := .manualReview, estimatedResolutionCost := 0,
      requiresReturn := false, signals := ["issue_not_supported_for_reverse_fulfillment"] }
  else match case.visualEvidence with
  | none =>
    { outcome := .needsEvidence, action := .manualReview, estimatedResolutionCost := 0,
      requiresReturn := false, missingEvidence := ["human_confirmed_visual_evidence"] }
  | some visual =>
    if ¬ visual.humanConfirmed then
      { outcome := .needsEvidence, action := .manualReview, estimatedResolutionCost := 0,
        requiresReturn := false, missingEvidence := ["human_confirmed_visual_evidence"] }
    else if visual.serialMatches = some false ∧ case.issueType ≠ .wrongItem then
      -- A foreign serial number is expected for a wrong item and a fraud signal otherwise.
      { outcome := .decided, action := .manualReview, estimatedResolutionCost := 0,
        requiresReturn := true, signals := ["serial_mismatch_hold"] }
    else
      let (grade, disposition) := grade visual.damageLevel
      let recovery := rt.discount case.expectedRecoveryValue visual.damageLevel
      let reverseCost := case.returnShippingCost + case.handlingCost
      let returnRefundCost := case.refundAmount + reverseCost - recovery
      let wantsReplacement := case.customerPreference = .replacement
      if wantsReplacement ∧ case.replacementInventory > 0 then
        if recovery < reverseCost then
          { outcome := .decided, action := .resendWithoutReturn,
            estimatedResolutionCost := case.replacementUnitCost + case.replacementShippingCost,
            requiresReturn := false,
            signals := ["replacement_inventory_available", "return_cost_exceeds_recovery"],
            grade := some grade, disposition := some disposition }
        else
          { outcome := .decided, action := .replaceAfterReturn,
            estimatedResolutionCost :=
              case.replacementUnitCost + case.replacementShippingCost + reverseCost - recovery,
            requiresReturn := true, signals := ["replacement_inventory_available"],
            grade := some grade, disposition := some disposition }
      else
        let signals := if wantsReplacement then ["replacement_out_of_stock"] else []
        if recovery ≥ reverseCost then
          { outcome := .decided, action := .returnAndRefund,
            estimatedResolutionCost := returnRefundCost, requiresReturn := true,
            signals := signals ++ ["recovery_covers_reverse_cost"],
            grade := some grade, disposition := some disposition }
        else
          { outcome := .decided, action := .refundWithoutReturn,
            estimatedResolutionCost := case.refundAmount, requiresReturn := false,
            signals := signals ++ ["return_cost_exceeds_recovery"],
            grade := some grade, disposition := some disposition }

end AfterFlow
