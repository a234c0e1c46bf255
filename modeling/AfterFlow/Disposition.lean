import AfterFlow.Demo

/-!
# The disposition lifecycle

`reverse_execution.py` and the disposition graph of `workflow.py`: a reverse decision opens a
disposition, which is received, inspected and settled, or is settled at once if nothing comes back.

The graph looks at `requires_return` and at the grade, never at the outcome or the action of the
decision. So a decision that freezes the case goes the way of the others.

## History

`ReverseDisposition.trail` is proof-only: the statuses a disposition has had.

## Main results

* `lifecycle_follows_iff` — the lifecycle follows the decision iff there is a plan
-/

namespace AfterFlow

open Option

inductive DispositionStatus where
  | pending
  | returnLabelIssued
  | warehouseReceived
  | inspected
  | settled
  | cancelled
  deriving DecidableEq

def DispositionStatus.value : DispositionStatus → String
  | pending => "pending"
  | returnLabelIssued => "return_label_issued"
  | warehouseReceived => "warehouse_received"
  | inspected => "inspected"
  | settled => "settled"
  | cancelled => "cancelled"

/-- `_ALLOWED_TRANSITIONS`. -/
def allowedTransitions : DispositionStatus → List DispositionStatus
  | .pending => [.returnLabelIssued, .settled, .cancelled]
  | .returnLabelIssued => [.warehouseReceived, .cancelled]
  | .warehouseReceived => [.inspected]
  | .inspected => [.settled]
  | .settled => []
  | .cancelled => []

def advanceDisposition (current target : DispositionStatus) : Except Exn DispositionStatus :=
  if target ∉ allowedTransitions current then
    .error (.dispositionConflict
      ("illegal disposition transition: " ++ current.value ++ " -> " ++ target.value))
  else .ok target

def ReverseAction.value : ReverseAction → String
  | refundWithoutReturn => "refund_without_return"
  | returnAndRefund => "return_and_refund"
  | replaceAfterReturn => "replace_after_return"
  | resendWithoutReturn => "resend_without_return"
  | manualReview => "manual_review"

structure ReverseDisposition where
  id : Uuid
  caseId : Uuid
  orderId : String
  sku : String
  action : String
  status : DispositionStatus
  requiresReturn : Bool
  grade : Option ReturnGrade := none
  dispatchReference : Option String := none
  receivedAt : Option Instant := none
  slaDeadline : Option Instant := none
  trail : List DispositionStatus := [status]
  deriving DecidableEq

namespace ReverseDisposition

/-- `model_copy(update={"status": advance_disposition(status, target)})`. -/
def advance (d : ReverseDisposition) (target : DispositionStatus) :
    Except Exn ReverseDisposition := do
  let status ← advanceDisposition d.status target
  return { d with status, trail := d.trail ++ [status] }

end ReverseDisposition

/-- A decision without a return is settled at once. -/
def buildDisposition (id caseId : Uuid) (orderId sku : String) (decision : ReverseDecision) :
    ReverseDisposition :=
  if ¬ decision.requiresReturn then
    { id, caseId, orderId, sku, action := decision.action.value, status := .settled,
      requiresReturn := false, grade := decision.grade }
  else
    { id, caseId, orderId, sku, action := decision.action.value, status := .pending,
      requiresReturn := true, grade := decision.grade }

/-- `timedelta(hours=1)`. -/
def oneHour : ℕ := 60 * 60 * 1000000

def markReceived (d : ReverseDisposition) (receivedAt : Instant) (slaHours : ℕ) :
    Except Exn ReverseDisposition := do
  let d ← d.advance .returnLabelIssued
  let d ← d.advance .warehouseReceived
  return { d with
    receivedAt := some receivedAt
    slaDeadline := some (receivedAt + slaHours * oneHour) }

/-! ### The graph -/

/-- The time of receipt: a `datetime`, or a text to parse. -/
inductive ReceivedAt where
  | datetime (t : Instant)
  | text (s : String)

/-- `DispositionState`. The disposition is there from the first node on. -/
structure DispositionState where
  decision : ReverseDecision
  caseId : Uuid
  orderId : String
  sku : String
  receivedAt : ReceivedAt
  slaHours : ℕ := 48
  disposition : ReverseDisposition
  route : Option String := none

section Graph

-- `datetime.fromisoformat`.
variable (fromIsoformat : String → Option Instant)

/-- The time of receipt as `_disposition_receive` reads it. -/
def ReceivedAt.read : ReceivedAt → Except Exn Instant
  | datetime t => .ok t
  | text s => match fromIsoformat s with
    | some t => .ok t
    | none => .error (.valueError ("Invalid isoformat string: '" ++ s ++ "'"))

/-- `_disposition_receive`. -/
def dispositionReceive (state : DispositionState) : Except Exn DispositionState := do
  let receivedAt ← state.receivedAt.read fromIsoformat
  let disposition ← markReceived state.disposition receivedAt state.slaHours
  return { state with disposition }

/-- `_disposition_inspect`. -/
def dispositionInspect (state : DispositionState) : Except Exn DispositionState := do
  let disposition ← state.disposition.advance .inspected
  return { state with disposition }

/-- Settle what is not settled. -/
def settleDisposition (d : ReverseDisposition) : Except Exn ReverseDisposition :=
  if d.status ≠ .settled then d.advance .settled else .ok d

/-- `_disposition_settle`. An empty route is no route. -/
def dispositionSettle (state : DispositionState) : Except Exn DispositionState := do
  let disposition ← settleDisposition state.disposition
  let route := (state.decision.disposition.filter (· ≠ "")).getD "restock"
  return { state with disposition, route := some route }

/-- `_disposition_dispose`. -/
def dispositionDispose (state : DispositionState) : Except Exn DispositionState := do
  let disposition ← settleDisposition state.disposition
  return { state with disposition, route := some "dispose" }

/-- The edges out of `start`. -/
inductive StartRoute where
  | receive
  | settle
  deriving DecidableEq

/-- The edges out of `inspect`. -/
inductive InspectRoute where
  | settle
  | dispose
  deriving DecidableEq

/-- `_route_from_start`. -/
def routeFromStart (state : DispositionState) : StartRoute :=
  if ¬ state.disposition.requiresReturn then .settle else .receive

/-- `_route_after_inspect`. -/
def routeAfterInspect (state : DispositionState) : InspectRoute :=
  if state.disposition.grade = some .d then .dispose else .settle

/-- The disposition graph. `_disposition_start` makes the first state. -/
def runDispositionLifecycle (id caseId : Uuid) (orderId sku : String) (decision : ReverseDecision)
    (receivedAt : ReceivedAt) (slaHours : ℕ) : Except Exn DispositionState :=
  let state : DispositionState :=
    { decision, caseId, orderId, sku, receivedAt, slaHours
      disposition := buildDisposition id caseId orderId sku decision }
  match routeFromStart state with
  | .settle => dispositionSettle state
  | .receive => do
    let state ← dispositionReceive fromIsoformat state
    let state ← dispositionInspect state
    match routeAfterInspect state with
    | .settle => dispositionSettle state
    | .dispose => dispositionDispose state

/-! ### The two ways through the graph -/

variable {fromIsoformat} {id caseId : Uuid} {orderId sku : String} {decision : ReverseDecision}
  {receivedAt : ReceivedAt} {slaHours : ℕ}

/-- The route `_disposition_settle` gives. -/
def ReverseDecision.route (d : ReverseDecision) : String :=
  (d.disposition.filter (· ≠ "")).getD "restock"

theorem lifecycle_of_no_return (h : decision.requiresReturn = false) :
    ∃ s, runDispositionLifecycle fromIsoformat id caseId orderId sku decision receivedAt slaHours =
      .ok s ∧ s.disposition.status = .settled ∧ s.disposition.trail = [.settled] ∧
      s.route = some decision.route := by
  rw [runDispositionLifecycle, buildDisposition]
  rw [h]
  exact ⟨_, rfl, rfl, rfl, rfl⟩

theorem lifecycle_of_return (h : decision.requiresReturn = true) {t : Instant}
    (ht : receivedAt.read fromIsoformat = .ok t) :
    ∃ s, runDispositionLifecycle fromIsoformat id caseId orderId sku decision receivedAt slaHours =
      .ok s ∧ s.disposition.status = .settled ∧
      s.disposition.trail =
        [.pending, .returnLabelIssued, .warehouseReceived, .inspected, .settled] ∧
      s.route = some (if decision.grade = some .d then "dispose" else decision.route) := by
  obtain ⟨outcome, action, cost, requiresReturn, signals, missing, grade, disposition⟩ := decision
  cases h
  rw [runDispositionLifecycle, dispositionReceive]
  dsimp only [buildDisposition, routeFromStart]
  rw [if_neg (not_not_intro rfl), if_neg (not_not_intro rfl)]
  dsimp only
  rw [ht]
  cases grade with
  | none => exact ⟨_, rfl, rfl, rfl, rfl⟩
  | some grade => cases grade <;> exact ⟨_, rfl, rfl, rfl, rfl⟩

theorem lifecycle_of_error (h : decision.requiresReturn = true) {e : Exn}
    (he : receivedAt.read fromIsoformat = .error e) :
    runDispositionLifecycle fromIsoformat id caseId orderId sku decision receivedAt slaHours =
      .error e := by
  rw [runDispositionLifecycle, dispositionReceive, buildDisposition]
  rw [h]
  dsimp only [routeFromStart]
  rw [if_neg (not_not_intro rfl), if_neg (not_not_intro rfl)]
  dsimp only
  rw [he]
  rfl

end Graph

/-! ### What the decision says -/

/-- The decision is a plan for the goods: the issue is one that goods are returned for, a human has
confirmed the pictures, and no foreign serial number holds the case. -/
def ReverseInput.HasPlan (case : ReverseInput) : Prop :=
  case.issueType ∈ [IssueType.damagedItem, .wrongItem, .qualityIssue] ∧
    ∃ visual ∈ case.visualEvidence, visual.humanConfirmed = true ∧
      ¬ (visual.serialMatches = some false ∧ case.issueType ≠ .wrongItem)

theorem decide_plan {rt : Runtime} {case : ReverseInput} (h : case.HasPlan) :
    (decideReverseFulfillment rt case).outcome = .decided ∧
      (decideReverseFulfillment rt case).action ≠ .manualReview ∧
      ∃ level, (decideReverseFulfillment rt case).grade = some (grade level).1 ∧
        (decideReverseFulfillment rt case).disposition = some (grade level).2 := by
  obtain ⟨hissue, visual, hvisual, hconfirmed, hserial⟩ := h
  rw [decideReverseFulfillment, if_neg (not_not_intro hissue), mem_def.mp hvisual]
  dsimp only
  rw [if_neg (not_not_intro hconfirmed), if_neg hserial]
  split
  · split <;> exact ⟨rfl, ReverseAction.noConfusion, visual.damageLevel, rfl, rfl⟩
  · split <;> exact ⟨rfl, ReverseAction.noConfusion, visual.damageLevel, rfl, rfl⟩

theorem decide_no_plan {rt : Runtime} {case : ReverseInput} (h : ¬ case.HasPlan) :
    (decideReverseFulfillment rt case).action = .manualReview ∧
      (decideReverseFulfillment rt case).disposition = none ∧
      (decideReverseFulfillment rt case).estimatedResolutionCost = 0 := by
  rw [decideReverseFulfillment]
  split
  · exact ⟨rfl, rfl, rfl⟩
  · rename_i hissue
    split
    · exact ⟨rfl, rfl, rfl⟩
    · rename_i visual hvisual
      split
      · exact ⟨rfl, rfl, rfl⟩
      · rename_i hconfirmed
        split
        · exact ⟨rfl, rfl, rfl⟩
        · rename_i hserial
          exact absurd ⟨not_not.mp hissue, visual, hvisual, not_not.mp hconfirmed, hserial⟩ h

/-- What a disposition has gone through is what the decision says. -/
structure FollowsDecision (decision : ReverseDecision) (s : DispositionState) : Prop where
  allowed : s.disposition.trail.IsChain fun a b => b ∈ allowedTransitions a
  last : s.disposition.trail.getLast? = some s.disposition.status
  settled : s.disposition.status = .settled →
    decision.outcome = .decided ∧ decision.action ≠ .manualReview
  received : .warehouseReceived ∈ s.disposition.trail ↔ decision.requiresReturn = true
  inspected : .inspected ∈ s.disposition.trail ↔ decision.requiresReturn = true
  route : s.route = decision.disposition
  dispose : s.route = some "dispose" ↔ decision.grade = some .d

/-- Every run of the lifecycle on the decision follows it. A run fails only over a time of receipt
that cannot be read. -/
def LifecycleFollows (decision : ReverseDecision) : Prop :=
  ∀ fromIsoformat id caseId orderId sku receivedAt slaHours,
    match runDispositionLifecycle fromIsoformat id caseId orderId sku decision receivedAt
        slaHours with
    | .ok s => FollowsDecision decision s
    | .error e => decision.requiresReturn = true ∧ receivedAt.read fromIsoformat = .error e

theorem grade_dispose (level : DamageLevel) :
    (grade level).2 = "dispose" ↔ (grade level).1 = .d := by
  cases level <;> decide

theorem route_of_grade {decision : ReverseDecision} {level : DamageLevel}
    (h : decision.disposition = some (grade level).2) : decision.route = (grade level).2 := by
  rw [ReverseDecision.route, h]
  cases level <;> rfl

/-- A plan is followed. -/
theorem follows_plan {decision : ReverseDecision} {level : DamageLevel}
    (houtcome : decision.outcome = .decided) (haction : decision.action ≠ .manualReview)
    (hgrade : decision.grade = some (grade level).1)
    (hdisposition : decision.disposition = some (grade level).2) : LifecycleFollows decision := by
  intro fromIsoformat id caseId orderId sku receivedAt slaHours
  have hroute := route_of_grade hdisposition
  cases hreturn : decision.requiresReturn with
  | false =>
    obtain ⟨s, hs, hstatus, htrail, hs'⟩ := lifecycle_of_no_return hreturn
    rw [hs]
    rw [hroute] at hs'
    refine ⟨?_, ?_, fun _ => ⟨houtcome, haction⟩, ?_, ?_, hs'.trans hdisposition.symm, ?_⟩
    · rw [htrail]
      exact List.IsChain.singleton _
    · rw [htrail, hstatus]
      rfl
    · rw [htrail, hreturn]
      decide
    · rw [htrail, hreturn]
      decide
    · rw [hs', hgrade, some_inj, some_inj]
      exact grade_dispose level
  | true =>
    cases hread : receivedAt.read fromIsoformat with
    | error e =>
      rw [lifecycle_of_error hreturn hread]
      exact ⟨rfl, rfl⟩
    | ok t =>
      obtain ⟨s, hs, hstatus, htrail, hs'⟩ := lifecycle_of_return hreturn hread
      rw [hs]
      have hsame : s.route = some (grade level).2 := by
        rw [hs', hroute, hgrade, some_inj]
        cases level <;> rfl
      refine ⟨?_, ?_, fun _ => ⟨houtcome, haction⟩, ?_, ?_, hsame.trans hdisposition.symm, ?_⟩
      · rw [htrail]
        decide
      · rw [htrail, hstatus]
        rfl
      · rw [htrail, hreturn]
        decide
      · rw [htrail, hreturn]
        decide
      · rw [hsame, hgrade, some_inj, some_inj]
        exact grade_dispose level

theorem not_follows_review {decision : ReverseDecision} (h : decision.action = .manualReview) :
    ¬ LifecycleFollows decision := by
  intro hfollows
  have hrun := hfollows (fun _ => none) 0 0 "" "" (.datetime 0) 48
  cases hreturn : decision.requiresReturn with
  | false =>
    obtain ⟨s, hs, hstatus, -, -⟩ := lifecycle_of_no_return hreturn
    rw [hs] at hrun
    exact (hrun.settled hstatus).2 h
  | true =>
    have hread : ReceivedAt.read (fun _ => none) (.datetime 0) = .ok 0 := rfl
    obtain ⟨s, hs, hstatus, -, -⟩ := lifecycle_of_return hreturn hread
    rw [hs] at hrun
    exact (hrun.settled hstatus).2 h

/-- **The lifecycle does what the decision says exactly if there is a plan.** -/
theorem lifecycle_follows_iff (rt : Runtime) (case : ReverseInput) :
    LifecycleFollows (decideReverseFulfillment rt case) ↔ case.HasPlan := by
  constructor
  · intro hfollows
    by_contra hplan
    exact not_follows_review (decide_no_plan hplan).1 hfollows
  · intro hplan
    obtain ⟨houtcome, haction, level, hgrade, hdisposition⟩ := decide_plan hplan
    exact follows_plan houtcome haction hgrade hdisposition

/-- A damaged item that comes back with another serial number. -/
def swappedItem : ReverseInput where
  issueType := .damagedItem
  itemValue := 1000
  refundAmount := 1000
  returnShippingCost := 100
  handlingCost := 50
  expectedRecoveryValue := 500
  replacementUnitCost := 600
  replacementShippingCost := 80
  replacementInventory := 1
  customerPreference := .refund
  visualEvidence :=
    some { damageLevel := .minor, serialMatches := some false, humanConfirmed := true }

/-- The hold is received, inspected, settled and restocked. -/
theorem held_item_settled :
    ¬ LifecycleFollows (decideReverseFulfillment demoRuntime swappedItem) := by
  intro hfollows
  have hrun := hfollows (fun _ => none) 0 0 "o-1" "sku-1" (.datetime 0) 48
  exact (hrun.settled rfl).2 rfl

end AfterFlow
