import AfterFlow.Economics
import AfterFlow.Openings

/-!
# What an evaluation reads

`evaluate_intake` is a graph over five tables and what it makes of the graph's answer. Told table by
table: without the records of the order, its payment and the policy of its region there is no
evaluation, and every such lack is reported as an unknown order. With them there are two routes. A
replacement for goods that can come back needs the stock and the costs of the goods as well, and
anything else is a refund.
-/

namespace AfterFlow

/-- The order, its payment, and the policy of its region. -/
structure Providers.Known (providers : Providers) (orderId : String) (order : OrderRecord)
    (payment : PaymentRecord) (policy : PolicySnapshot) : Prop where
  ordered : providers.orders.lookup orderId = some order
  paid : providers.payments.lookup orderId = some payment
  governed : providers.policies.lookup order.region = some policy

namespace IntakeInput

variable (i : IntakeInput)

/-- A replacement is asked for, for goods that can come back. -/
def reverses (issue : IssueType) : Bool :=
  issue ∈ reverseIssues ∧ i.customerExpectation = some CustomerPreference.replacement.value

/-- The question that is put to the graph. -/
def question (orderId issueType : String) : CaseEvalInput where
  orderId := orderId
  issueType := issueType
  operatorRefundLimit := i.operatorRefundLimit
  visualEvidenceConfirmed := i.visualEvidenceConfirmed
  customerPreference :=
    if i.customerExpectation = some CustomerPreference.replacement.value then some .replacement
    else none
  damageLevel := i.damageLevel
  humanConfirmed := some i.visualEvidenceConfirmed
  serialMatches := i.serialMatches

/-- A claim names an order and an issue. -/
structure Names (i : IntakeInput) (orderId issueType : String) : Prop where
  order : i.orderId = some orderId
  issue : i.issueType = some issueType
  order_ne : orderId ≠ ""
  issue_ne : issueType ≠ ""

/-- The answer to a claim whose records are not all there. -/
def unknown : Evaluation := clarification i .verifyOrder ["valid_order"] "未找到该订单，请核对订单号。"

end IntakeInput

/-- What the graph's answer becomes. -/
@[grind =] def concludes (now : Instant) (i : IntakeInput) (issueType : String) :
    CaseEvaluation → Except Exn Evaluation
  | .error _ => .ok i.unknown
  | .reverse raw reverse => do
    let conflicts ← deliveryConflicts issueType raw
    .ok
      { status := if reverse.missingEvidence ≠ [] then .awaitingEvidence else .decided
        nextStep := if reverse.missingEvidence ≠ [] then .confirmVisualEvidence else .createAction
        decision := .reverse reverse
        evidence := evaluatedEvidence i now raw reverse.missingEvidence conflicts
        replyDraft := if reverse.missingEvidence ≠ [] then "需要客服人工确认图片证据后再继续。"
          else "已根据库存、残值与履约成本形成处理方案，待提交审批。" }
  | .refund raw refund => do
    let conflicts ← deliveryConflicts issueType raw
    let awaiting := refund.missingEvidence ≠ [] ∨ conflicts ≠ []
    .ok
      { status := if awaiting then .awaitingEvidence else .decided
        nextStep := if awaiting then .supplementEvidence else .createAction
        decision := .refund refund
        evidence := evaluatedEvidence i now raw refund.missingEvidence conflicts
        replyDraft := if awaiting then "还需要补充证据或核对签收差异，当前不会执行退款。"
          else "已完成规则评估，处理方案待提交审批。" }

variable {rt : Runtime} {providers : Providers} {now : Instant} {i : IntakeInput}
  {orderId issueType : String} {issue : IssueType}

theorem evaluateIntake_names (h : i.Names orderId issueType) :
    evaluateIntake rt providers now i =
      (runCaseEvaluation rt providers (i.question orderId issueType)).bind
        (concludes now i issueType) := by
  have horder : truthy i.orderId = true := by rw [h.order]; exact decide_eq_true h.order_ne
  have hissue : truthy i.issueType = true := by rw [h.issue]; exact decide_eq_true h.issue_ne
  rw [evaluateIntake, horder, hissue, h.order, h.issue]
  exact bind_congr fun state => by cases state <;> rfl

theorem truthy_iff {a : Option String} : truthy a = true ↔ ∃ s, a = some s ∧ s ≠ "" := by
  cases a with
  | none | some => simp [truthy]

theorem names_or_clarifies (rt : Runtime) (providers : Providers) (now : Instant)
    (i : IntakeInput) : (∃ orderId issueType, i.Names orderId issueType) ∨
      (∀ orderId issueType, ¬ i.Names orderId issueType) ∧ ∃ nextStep missing replyDraft,
        evaluateIntake rt providers now i = .ok (clarification i nextStep missing replyDraft) := by
  by_cases h : truthy i.orderId = true ∧ truthy i.issueType = true
  · obtain ⟨orderId, horder, horder_ne⟩ := truthy_iff.1 h.1
    obtain ⟨issueType, hissue, hissue_ne⟩ := truthy_iff.1 h.2
    exact .inl ⟨orderId, issueType, horder, hissue, horder_ne, hissue_ne⟩
  · refine .inr ⟨fun orderId issueType hnames => h ?_, ?_⟩
    · exact ⟨truthy_iff.2 ⟨_, hnames.order, hnames.order_ne⟩,
        truthy_iff.2 ⟨_, hnames.issue, hnames.issue_ne⟩⟩
    · rw [evaluateIntake]
      cases horder : truthy i.orderId with
      | false => cases truthy i.issueType <;> exact ⟨_, _, _, rfl⟩
      | true =>
        cases hissue : truthy i.issueType with
        | false => exact ⟨_, _, _, rfl⟩
        | true => exact absurd ⟨horder, hissue⟩ h

/-! ### The graph -/

/-- What the graph reads about an order that it knows. -/
structure ReadsOrder (providers : Providers) (order : OrderRecord) (payment : PaymentRecord)
    (policy : PolicySnapshot) (state : CaseEvalInput) (issue : IssueType) (case : DecisionInput)
    (raw : ProviderContext) : Prop where
  issue : case.issueType = issue
  policy : case.policy = policy
  balance : case.payment.refundableBalance = payment.refundableBalance
  itemPaid : case.order.itemPaid = order.itemPaid
  shippingPaid : case.order.shippingPaid = order.shippingPaid
  confirmed : case.visualEvidenceConfirmed = state.visualEvidenceConfirmed
  ordered : raw.order = order
  paid : raw.payment = payment
  logistics : raw.logistics = providers.logistics.lookup state.orderId
  delivery : case.logistics.isSome = raw.logistics.isSome
  inventory : raw.inventory = providers.inventory.lookup order.sku
  reverseCosts : raw.reverseCosts = providers.reverseCosts.lookup order.sku

variable {order : OrderRecord} {payment : PaymentRecord} {policy : PolicySnapshot}
  {state : CaseEvalInput}

theorem buildContext_known (h : providers.Known state.orderId order payment policy)
    (hissue : state.issueType = issue.value) :
    ∃ case raw, buildContext providers state = .ok (.inr (case, raw)) ∧
      ReadsOrder providers order payment policy state issue case raw := by
  rw [buildContext, h.ordered, h.paid]
  dsimp only
  rw [h.governed, hissue, parseIssueType, ofValue?_value]
  exact ⟨_, _, rfl, rfl, rfl, rfl, rfl, rfl, rfl, rfl, rfl, rfl, Option.isSome_map, rfl, rfl⟩

theorem buildContext_unknown
    (h : ∀ order payment policy, ¬ providers.Known state.orderId order payment policy) :
    ∃ error, buildContext providers state = .ok (.inl error) := by
  rw [buildContext]
  split
  · exact ⟨_, rfl⟩
  · exact ⟨_, rfl⟩
  · rename_i order payment hordered hpaid
    split
    · exact ⟨_, rfl⟩
    · rename_i policy hgoverned
      exact absurd ⟨hordered, hpaid, hgoverned⟩ (h order payment policy)

theorem buildContext_unsupported (h : providers.Known state.orderId order payment policy)
    (hissue : IssueType.ofValue? state.issueType = none) :
    ∃ e, buildContext providers state = .error e := by
  rw [buildContext, h.ordered, h.paid]
  dsimp only
  rw [h.governed, parseIssueType, hissue]
  exact ⟨_, rfl⟩

/-! ### The claims -/

theorem evaluate_unknown (rt : Runtime) (now : Instant) (h : i.Names orderId issueType)
    (hunknown : ∀ order payment policy, ¬ providers.Known orderId order payment policy) :
    evaluateIntake rt providers now i = .ok i.unknown := by
  obtain ⟨error, hcontext⟩ :=
    @buildContext_unknown _ (i.question orderId issueType) hunknown
  rw [evaluateIntake_names h, runCaseEvaluation, hcontext]
  rfl

theorem evaluate_unsupported (rt : Runtime) (now : Instant) (h : i.Names orderId issueType)
    (hknown : providers.Known orderId order payment policy)
    (hissue : IssueType.ofValue? issueType = none) :
    ∃ e, evaluateIntake rt providers now i = .error e := by
  obtain ⟨e, hcontext⟩ :=
    @buildContext_unsupported _ _ _ _ (i.question orderId issueType) hknown hissue
  rw [evaluateIntake_names h, runCaseEvaluation, hcontext]
  exact ⟨e, rfl⟩

/-! ### The reverse route -/

/-- What the reverse rules are asked. -/
def IntakeInput.reverseInput (i : IntakeInput) (issue : IssueType) (order : OrderRecord)
    (payment : PaymentRecord) (inventory : InventoryRecord) (costs : ReverseCostRecord) :
    ReverseInput where
  issueType := issue
  itemValue := order.itemPaid
  refundAmount := min order.itemPaid payment.refundableBalance
  returnShippingCost := costs.returnShippingCost
  handlingCost := costs.handlingCost
  expectedRecoveryValue := costs.expectedRecoveryValue
  replacementUnitCost := inventory.replacementUnitCost
  replacementShippingCost := costs.replacementShippingCost
  replacementInventory := inventory.available
  customerPreference := .replacement
  visualEvidence := some
    { damageLevel := i.damageLevel.getD .none
      serialMatches := i.serialMatches
      humanConfirmed := i.visualEvidenceConfirmed }

theorem reverses_iff : i.reverses issue = true ↔
    issue ∈ reverseIssues ∧ i.customerExpectation = some CustomerPreference.replacement.value := by
  rw [IntakeInput.reverses, decide_eq_true_eq]

theorem run_reverse (rt : Runtime) (hknown : providers.Known orderId order payment policy)
    (hreverses : i.reverses issue = true) :
    ∃ case raw, ReadsOrder providers order payment policy (i.question orderId issue.value) issue
        case raw ∧
      runCaseEvaluation rt providers (i.question orderId issue.value) =
        .ok (decideReverse rt (i.question orderId issue.value) issue .replacement raw) := by
  obtain ⟨case, raw, hcontext, hreads⟩ :=
    @buildContext_known _ _ _ _ _ (i.question orderId issue.value) hknown rfl
  obtain ⟨hissue, hexpects⟩ := reverses_iff.1 hreverses
  have hpreference : (i.question orderId issue.value).customerPreference = some .replacement :=
    if_pos hexpects
  refine ⟨case, raw, hreads, ?_⟩
  rw [runCaseEvaluation, hcontext, hpreference]
  show (if case.issueType ∈ reverseIssues then _ else _) = _
  rw [hreads.issue, if_pos hissue]

theorem evaluate_reverse_unknown (rt : Runtime) (now : Instant)
    (h : i.Names orderId issue.value)
    (hknown : providers.Known orderId order payment policy) (hreverses : i.reverses issue = true)
    (hgoods : providers.inventory.lookup order.sku = none ∨
      providers.reverseCosts.lookup order.sku = none) :
    evaluateIntake rt providers now i = .ok i.unknown := by
  obtain ⟨case, raw, hreads, hrun⟩ := run_reverse rt hknown hreverses
  rw [evaluateIntake_names h, hrun, decideReverse, hreads.inventory, hreads.reverseCosts]
  rcases hgoods with hgoods | hgoods
  · rw [hgoods]
    rfl
  · rw [hgoods]
    cases providers.inventory.lookup order.sku <;> rfl

theorem evaluate_reverse (rt : Runtime) (now : Instant) (h : i.Names orderId issue.value)
    (hknown : providers.Known orderId order payment policy) (hreverses : i.reverses issue = true)
    {inventory : InventoryRecord} {costs : ReverseCostRecord}
    (hinventory : providers.inventory.lookup order.sku = some inventory)
    (hcosts : providers.reverseCosts.lookup order.sku = some costs) :
    ∃ raw, evaluateIntake rt providers now i = concludes now i issue.value (.reverse raw
      (decideReverseFulfillment rt (i.reverseInput issue order payment inventory costs))) := by
  obtain ⟨case, raw, hreads, hrun⟩ := run_reverse rt hknown hreverses
  refine ⟨raw, ?_⟩
  rw [evaluateIntake_names h, hrun, decideReverse, hreads.inventory, hreads.reverseCosts,
    hinventory, hcosts, hreads.ordered, hreads.paid]
  rfl

/-! ### The refund route -/

theorem evaluate_refund (rt : Runtime) (now : Instant) (h : i.Names orderId issue.value)
    (hknown : providers.Known orderId order payment policy)
    (hreverses : i.reverses issue = false) :
    ∃ case raw, ReadsOrder providers order payment policy (i.question orderId issue.value) issue
        case raw ∧
      evaluateIntake rt providers now i =
        concludes now i issue.value (.refund raw (decideResolution case)) := by
  obtain ⟨case, raw, hcontext, hreads⟩ :=
    @buildContext_known _ _ _ _ _ (i.question orderId issue.value) hknown rfl
  refine ⟨case, raw, hreads, ?_⟩
  rw [evaluateIntake_names h, runCaseEvaluation, hcontext]
  by_cases hexpects : i.customerExpectation = some CustomerPreference.replacement.value
  · have hissue : issue ∉ reverseIssues := fun hissue =>
      Bool.false_ne_true (hreverses.symm.trans (reverses_iff.2 ⟨hissue, hexpects⟩))
    have hpreference : (i.question orderId issue.value).customerPreference = some .replacement :=
      if_pos hexpects
    rw [hpreference]
    show Except.bind (if case.issueType ∈ reverseIssues then _ else _) _ = _
    rw [hreads.issue, if_neg hissue]
    rfl
  · have hpreference : (i.question orderId issue.value).customerPreference = none :=
      if_neg hexpects
    rw [hpreference]
    rfl

end AfterFlow
