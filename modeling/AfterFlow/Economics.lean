import AfterFlow.Disposition
import Mathlib.Algebra.Order.Group.Unbundled.Int

/-!
# The cheapest plan

A case can be settled in several ways, and each has a cost: the money or the goods the customer is
given, and what it takes to bring the old goods back less what they are still worth. The rule of
`reverse.py` never compares two costs. It compares the recovery with the cost of the return, and
that comparison decides between the costs whatever the rest of them is.

## Main results

* `decide_cheapest` — a case with plans gets the cheapest
-/

namespace AfterFlow

namespace ReverseInput

variable (case : ReverseInput)

/-- What it costs to bring the goods back. -/
def reverseCost : ℕ := case.returnShippingCost + case.handlingCost

/-- What the goods are still worth, in the state the pictures show. -/
def recovery (rt : Runtime) : ℕ :=
  (case.visualEvidence.map fun visual =>
    rt.discount case.expectedRecoveryValue visual.damageLevel).getD 0

/-- The plans for a customer: replacements only on request, and while there is stock. -/
def plans : List ReverseAction :=
  if case.customerPreference = .replacement ∧ case.replacementInventory > 0 then
    [.resendWithoutReturn, .replaceAfterReturn]
  else [.refundWithoutReturn, .returnAndRefund]

/-- What a plan costs, when the goods are worth `recovery`. No plan earns money. -/
def planCost (recovery : ℕ) : ReverseAction → ℤ
  | .refundWithoutReturn => case.refundAmount
  | .returnAndRefund => max 0 ((case.refundAmount : ℤ) + case.reverseCost - recovery)
  | .resendWithoutReturn => (case.replacementUnitCost : ℤ) + case.replacementShippingCost
  | .replaceAfterReturn =>
    max 0 ((case.replacementUnitCost : ℤ) + case.replacementShippingCost + case.reverseCost -
      recovery)
  | .manualReview => 0

end ReverseInput

/-- The decision is for one of the plans, at its cost, and no plan costs less. Goods come back
exactly if they are worth their return. -/
structure Cheapest (rt : Runtime) (case : ReverseInput) (d : ReverseDecision) : Prop where
  plan : d.action ∈ case.plans
  cost : (d.estimatedResolutionCost : ℤ) = case.planCost (case.recovery rt) d.action
  least : ∀ plan ∈ case.plans,
    (d.estimatedResolutionCost : ℤ) ≤ case.planCost (case.recovery rt) plan
  return_iff : d.requiresReturn = true ↔ case.reverseCost ≤ case.recovery rt

/-! ### Two plans that differ by a return -/

section Return

variable {given reverseCost recovery : ℕ}

theorem cast_clamp (given reverseCost recovery : ℕ) :
    ((given + reverseCost - recovery : ℕ) : ℤ) = max 0 ((given : ℤ) + reverseCost - recovery) := by
  omega

theorem le_with_return (h : recovery < reverseCost) :
    (given : ℤ) ≤ max 0 ((given : ℤ) + reverseCost - recovery) := by
  omega

theorem with_return_le (h : reverseCost ≤ recovery) :
    max 0 ((given : ℤ) + reverseCost - recovery) ≤ given := by
  omega

end Return

variable {rt : Runtime} {case : ReverseInput} {d : ReverseDecision}

/-- The plans of a case are two: what the customer is given, and the same with a return. -/
structure PlanPair (case : ReverseInput) (recovery given : ℕ) (direct withReturn : ReverseAction) :
    Prop where
  plans : case.plans = [direct, withReturn]
  direct : case.planCost recovery direct = given
  withReturn : case.planCost recovery withReturn =
    max 0 ((given : ℤ) + case.reverseCost - recovery)

/-- The decision takes the return if the recovery covers it. -/
structure Compares (case : ReverseInput) (recovery given : ℕ) (direct withReturn : ReverseAction)
    (d : ReverseDecision) : Prop where
  less : recovery < case.reverseCost → d.action = direct ∧ d.requiresReturn = false ∧
    d.estimatedResolutionCost = given
  covers : case.reverseCost ≤ recovery → d.action = withReturn ∧ d.requiresReturn = true ∧
    d.estimatedResolutionCost = given + case.reverseCost - recovery

/-- The comparison with the recovery is the comparison of the costs. -/
theorem Compares.cheapest {given : ℕ} {direct withReturn : ReverseAction}
    (hd : Compares case (case.recovery rt) given direct withReturn d)
    (hpair : PlanPair case (case.recovery rt) given direct withReturn) : Cheapest rt case d := by
  rcases lt_or_ge (case.recovery rt) case.reverseCost with hless | hcovers
  · obtain ⟨haction, hreturn, hcost⟩ := hd.less hless
    refine ⟨?_, ?_, fun plan hplan => ?_, ?_⟩
    · rw [haction, hpair.plans]
      exact List.mem_cons_self
    · rw [haction, hcost, hpair.direct]
    · rw [hpair.plans, List.mem_pair] at hplan
      rw [hcost]
      rcases hplan with rfl | rfl
      · exact hpair.direct.ge
      · rw [hpair.withReturn]
        exact le_with_return hless
    · rw [hreturn]
      exact iff_of_false Bool.false_ne_true (not_le.mpr hless)
  · obtain ⟨haction, hreturn, hcost⟩ := hd.covers hcovers
    refine ⟨?_, ?_, fun plan hplan => ?_, ?_⟩
    · rw [haction, hpair.plans]
      exact List.mem_cons_of_mem _ (List.mem_singleton_self _)
    · rw [haction, hcost, hpair.withReturn, cast_clamp]
    · rw [hpair.plans, List.mem_pair] at hplan
      rw [hcost, cast_clamp]
      rcases hplan with rfl | rfl
      · rw [hpair.direct]
        exact with_return_le hcovers
      · exact hpair.withReturn.ge
    · exact iff_of_true hreturn hcovers

/-- The customer gets a replacement. -/
def ReverseInput.Replaces (case : ReverseInput) : Prop :=
  case.customerPreference = .replacement ∧ case.replacementInventory > 0

/-- Behind the guards there is one comparison for each of the two preferences. -/
theorem decide_compares (h : case.HasPlan) :
    (case.Replaces → Compares case (case.recovery rt)
      (case.replacementUnitCost + case.replacementShippingCost) .resendWithoutReturn
      .replaceAfterReturn (decideReverseFulfillment rt case)) ∧
    (¬ case.Replaces → Compares case (case.recovery rt) case.refundAmount .refundWithoutReturn
      .returnAndRefund (decideReverseFulfillment rt case)) := by
  obtain ⟨hissue, visual, hvisual, hconfirmed, hserial⟩ := h
  have hvisual : case.visualEvidence = some visual := hvisual
  have hrecovery : case.recovery rt =
      rt.discount case.expectedRecoveryValue visual.damageLevel := by
    rw [ReverseInput.recovery, hvisual]
    rfl
  rw [decideReverseFulfillment, if_neg (not_not_intro hissue), hvisual]
  dsimp only
  rw [if_neg (not_not_intro hconfirmed), if_neg hserial, ← hrecovery]
  constructor
  · intro hwants
    rw [if_pos (show _ ∧ _ from hwants)]
    constructor
    · intro hless
      rw [if_pos (show _ < case.returnShippingCost + case.handlingCost from hless)]
      exact ⟨rfl, rfl, rfl⟩
    · intro hcovers
      rw [if_neg (not_lt.mpr (show case.returnShippingCost + case.handlingCost ≤ _ from hcovers))]
      exact ⟨rfl, rfl, rfl⟩
  · intro hwants
    rw [if_neg (show ¬ (_ ∧ _) from hwants)]
    constructor
    · intro hless
      rw [if_neg (not_le.mpr (show _ < case.returnShippingCost + case.handlingCost from hless))]
      exact ⟨rfl, rfl, rfl⟩
    · intro hcovers
      rw [if_pos (show case.returnShippingCost + case.handlingCost ≤ _ from hcovers)]
      exact ⟨rfl, rfl, rfl⟩

theorem pair_of_replaces (h : case.Replaces) (recovery : ℕ) : PlanPair case recovery
    (case.replacementUnitCost + case.replacementShippingCost) .resendWithoutReturn
    .replaceAfterReturn where
  plans := if_pos h
  direct := (Int.natCast_add _ _).symm
  withReturn := by
    rw [Int.natCast_add]
    rfl

theorem pair_of_not_replaces (h : ¬ case.Replaces) (recovery : ℕ) :
    PlanPair case recovery case.refundAmount .refundWithoutReturn .returnAndRefund where
  plans := if_neg h
  direct := rfl
  withReturn := rfl

/-- A replacement is sent out at once exactly if there is one and the return is not worth it. -/
theorem decide_resend_iff (h : case.HasPlan) :
    (decideReverseFulfillment rt case).action = .resendWithoutReturn ↔
      case.Replaces ∧ case.recovery rt < case.reverseCost := by
  rcases lt_or_ge (case.recovery rt) case.reverseCost with hless | hcovers
  · by_cases hr : case.Replaces
    · exact iff_of_true (((decide_compares h).1 hr).less hless).1 ⟨hr, hless⟩
    · refine iff_of_false ?_ fun hand => hr hand.1
      rw [(((decide_compares h).2 hr).less hless).1]
      exact ReverseAction.noConfusion
  · refine iff_of_false ?_ fun hand => absurd hand.2 (not_lt.mpr hcovers)
    by_cases hr : case.Replaces
    · rw [(((decide_compares h).1 hr).covers hcovers).1]
      exact ReverseAction.noConfusion
    · rw [(((decide_compares h).2 hr).covers hcovers).1]
      exact ReverseAction.noConfusion

/-- Evidence is missing for an issue that goods are returned for, as long as no human has confirmed
the pictures. -/
theorem decide_missing (rt : Runtime) (case : ReverseInput) :
    (decideReverseFulfillment rt case).missingEvidence =
      if case.issueType ∈ [IssueType.damagedItem, .wrongItem, .qualityIssue] ∧
        case.visualEvidence.any VisualEvidence.humanConfirmed = false
      then ["human_confirmed_visual_evidence"] else [] := by
  by_cases hissue : case.issueType ∈ [IssueType.damagedItem, .wrongItem, .qualityIssue]
  · rw [decideReverseFulfillment, if_neg (not_not_intro hissue)]
    cases hvisual : case.visualEvidence with
    | none => exact (if_pos ⟨hissue, rfl⟩).symm
    | some visual =>
      dsimp only
      cases hconfirmed : visual.humanConfirmed with
      | false => exact (if_pos ⟨hissue, hconfirmed⟩).symm
      | true =>
        refine Eq.trans ?_ (if_neg fun h => Bool.false_ne_true (h.2.symm.trans hconfirmed)).symm
        rw [if_neg (not_not_intro rfl)]
        split
        · rfl
        · split <;> split <;> rfl
  · rw [decideReverseFulfillment, if_pos hissue, if_neg fun h => hissue h.1]

/-- **The cheapest plan.** A case with plans gets the cheapest of them, and any other case is left
to a human, at no cost. -/
theorem decide_cheapest (rt : Runtime) (case : ReverseInput) :
    (case.HasPlan → Cheapest rt case (decideReverseFulfillment rt case)) ∧
      (¬ case.HasPlan → (decideReverseFulfillment rt case).action = .manualReview ∧
        (decideReverseFulfillment rt case).estimatedResolutionCost = 0) := by
  refine ⟨fun h => ?_, fun h => ⟨(decide_no_plan h).1, (decide_no_plan h).2.2⟩⟩
  by_cases hr : case.Replaces
  · exact ((decide_compares h).1 hr).cheapest (pair_of_replaces hr _)
  · exact ((decide_compares h).2 hr).cheapest (pair_of_not_replaces hr _)

end AfterFlow
