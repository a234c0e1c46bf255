import AfterFlow.Incomplete

/-!
# Promised actions

A decided case tells the agent to create an action. Whether `create_case_action` takes the decision
depends on more than the evidence, which is all that the evaluation looks at: the refund must be
covered and worth something, and of the reverse plans only the replacement without a return can be
executed.

## Main results

* `promise_kept_iff` — the promise is kept iff a plan can be executed
-/

namespace AfterFlow

open Option

/-- The case is told to create an action. -/
structure Promises (e : Evaluation) : Prop where
  status : e.status = .decided
  nextStep : e.nextStep = .createAction

/-- The case holds what the evaluation of its claim says. -/
structure Holds (case : ServiceCase) (i : IntakeInput) (e : Evaluation) : Prop where
  orderId : case.orderId = i.orderId
  status : case.status = e.status
  decision : case.decisionJson = e.decision

/-- `create_case_action` constructs an action for every case that holds the evaluation. -/
def PromiseKept (cfg : Config) (i : IntakeInput) (e : Evaluation) : Prop :=
  ∀ case actorId id now, Holds case i e → ∃ a, buildCaseAction cfg case actorId id now = .ok a

/-- The goods are in stock, no foreign serial number holds the case, and the return costs more than
the goods are worth. -/
def resendable (cfg : Config) (i : IntakeInput) (orderId : String) (issue : IssueType) : Bool :=
  (cfg.providers.orders.lookup orderId).any fun order =>
    (cfg.providers.inventory.lookup order.sku).any fun inventory =>
      (cfg.providers.reverseCosts.lookup order.sku).any fun costs =>
        inventory.available > 0 ∧ ¬ (i.serialMatches = some false ∧ issue ≠ .wrongItem) ∧
          cfg.rt.discount costs.expectedRecoveryValue (i.damageLevel.getD .none) <
            costs.returnShippingCost + costs.handlingCost

/-- The claim has a plan that can be executed. -/
def executable (cfg : Config) (i : IntakeInput) (orderId : String) (issue : IssueType) : Bool :=
  if i.reverses issue then resendable cfg i orderId issue else payable cfg.providers orderId issue

variable {cfg : Config} {i : IntakeInput} {e : Evaluation} {orderId : String} {issue : IssueType}

/-! ### What `create_case_action` takes -/

theorem build_refund_iff {case : ServiceCase} {d : DecisionResult} {actorId : String} {id : Uuid}
    {now : Instant} (hstatus : case.status = .decided) (hd : case.decisionJson = .refund d) :
    (∃ a, buildCaseAction cfg case actorId id now = .ok a) ↔ executableRefund d = true := by
  rw [buildCaseAction, if_neg (not_not_intro hstatus), hd, executableRefund, decide_eq_true_eq]
  dsimp only
  rw [createRefundAction]
  split
  · rename_i helig
    refine iff_of_false ?_ fun h => helig h.1
    rintro ⟨_, ha⟩
    cases ha
  · rename_i helig
    split
    · rename_i hnone
      refine iff_of_false ?_ fun h => ?_
      · rintro ⟨_, ha⟩
        cases ha
      · exact hnone.elim (fun haction => haction h.2.1) fun hzero => absurd h.2.2 (by omega)
    · rename_i hsome
      rw [not_or, not_not] at hsome
      exact iff_of_true ⟨_, rfl⟩ ⟨not_not.mp helig, hsome.1, Nat.pos_of_ne_zero hsome.2⟩

theorem build_reverse_iff {case : ServiceCase} {r : ReverseDecision} {actorId : String} {id : Uuid}
    {now : Instant} {order : OrderRecord} (hstatus : case.status = .decided)
    (hr : case.decisionJson = .reverse r) (horder : case.orderId = some orderId)
    (hordered : cfg.providers.orders.lookup orderId = some order) :
    (∃ a, buildCaseAction cfg case actorId id now = .ok a) ↔ r.action = .resendWithoutReturn := by
  rw [buildCaseAction, if_neg (not_not_intro hstatus), hr, horder, bind_some, hordered]
  dsimp only
  split
  · rename_i haction
    refine iff_of_false ?_ haction
    rintro ⟨_, ha⟩
    cases ha
  · rename_i haction
    exact iff_of_true ⟨_, rfl⟩ (not_not.mp haction)

/-- A case that holds the evaluation. -/
def holder (i : IntakeInput) (e : Evaluation) : ServiceCase where
  id := 0
  userId := ""
  threadId := none
  orderId := i.orderId
  issueType := i.issueType
  status := e.status
  complaintText := i.complaintText
  customerExpectation := i.customerExpectation
  nextStep := e.nextStep
  replyDraft := e.replyDraft
  evidenceJson := e.evidence
  decisionJson := e.decision

theorem holds_holder (i : IntakeInput) (e : Evaluation) : Holds (holder i e) i e := ⟨rfl, rfl, rfl⟩

/-! ### Decided claims -/

/-- What the evaluation of a decided claim is made of, on either route. -/
inductive DecidedClaim (cfg : Config) (i : IntakeInput) (e : Evaluation) (orderId : String)
    (issue : IssueType) : Prop
  | reverse (order : OrderRecord) (payment : PaymentRecord) (inventory : InventoryRecord)
      (costs : ReverseCostRecord) (reverses : i.reverses issue = true)
      (ordered : cfg.providers.orders.lookup orderId = some order)
      (stocked : cfg.providers.inventory.lookup order.sku = some inventory)
      (costed : cfg.providers.reverseCosts.lookup order.sku = some costs)
      (decision : e.decision = .reverse
        (decideReverseFulfillment cfg.rt (i.reverseInput issue order payment inventory costs)))
      (complete : (decideReverseFulfillment cfg.rt
        (i.reverseInput issue order payment inventory costs)).missingEvidence = [])
  | refund (order : OrderRecord) (payment : PaymentRecord) (policy : PolicySnapshot)
      (case : DecisionInput) (raw : ProviderContext) (reverses : i.reverses issue = false)
      (known : cfg.providers.Known orderId order payment policy)
      (reads : ReadsOrder cfg.providers order payment policy (i.question orderId issue.value) issue
        case raw)
      (decision : e.decision = .refund (decideResolution case))
      (complete : (decideResolution case).missingEvidence = [])

variable {now : Instant}

theorem decidedClaim_of_reverse (hnames : i.Names orderId issue.value) {order : OrderRecord}
    {payment : PaymentRecord} {policy : PolicySnapshot}
    (hknown : cfg.providers.Known orderId order payment policy)
    (hreverses : i.reverses issue = true) (h : evaluateIntake cfg.rt cfg.providers now i = .ok e)
    (hst : e.status = .decided) : DecidedClaim cfg i e orderId issue := by
  have hknows : e ≠ i.unknown := by
    rintro rfl
    cases hst
  cases hinventory : cfg.providers.inventory.lookup order.sku with
  | none =>
    rw [evaluate_reverse_unknown cfg.rt now hnames hknown hreverses (.inl hinventory)] at h
    exact absurd (Except.ok.inj h).symm hknows
  | some inventory =>
    cases hcosts : cfg.providers.reverseCosts.lookup order.sku with
    | none =>
      rw [evaluate_reverse_unknown cfg.rt now hnames hknown hreverses (.inr hcosts)] at h
      exact absurd (Except.ok.inj h).symm hknows
    | some costs =>
      obtain ⟨raw, heval⟩ := evaluate_reverse cfg.rt now hnames hknown hreverses hinventory hcosts
      obtain ⟨e', he', hdecision, -, hstatus⟩ := concludes_reverse now i raw
        (not_delivery_of_reverses hreverses) (decideReverseFulfillment cfg.rt
          (i.reverseInput issue order payment inventory costs))
      rw [heval, he', Except.ok.injEq] at h
      subst h
      exact .reverse order payment inventory costs hreverses hknown.ordered hinventory hcosts
        hdecision (hstatus.1 hst)

theorem decidedClaim_of_refund (hnames : i.Names orderId issue.value) {order : OrderRecord}
    {payment : PaymentRecord} {policy : PolicySnapshot}
    (hknown : cfg.providers.Known orderId order payment policy)
    (hreverses : i.reverses issue = false) (h : evaluateIntake cfg.rt cfg.providers now i = .ok e)
    (hst : e.status = .decided) : DecidedClaim cfg i e orderId issue := by
  obtain ⟨case, raw, hreads, heval⟩ := evaluate_refund cfg.rt now hnames hknown hreverses
  rw [heval] at h
  have hlogistics : issue = .deliveryNotReceived → raw.logistics.isSome := by
    rintro rfl
    by_contra hnone
    rw [not_isSome_iff_eq_none] at hnone
    obtain ⟨error, herror⟩ := concludes_refund_raises now i hnone (decideResolution case)
    rw [herror] at h
    cases h
  obtain ⟨e', he', hdecision, -, hcomplete⟩ := concludes_refund now i hlogistics
    (decideResolution case)
  rw [he', Except.ok.injEq] at h
  subst h
  exact .refund order payment policy case raw hreverses hknown hreads hdecision (hcomplete hst)

theorem decidedClaim (h : evaluateIntake cfg.rt cfg.providers now i = .ok e)
    (hst : e.status = .decided) :
    ∃ orderId issue, i.Names orderId issue.value ∧ DecidedClaim cfg i e orderId issue := by
  rcases names_or_clarifies cfg.rt cfg.providers now i with ⟨orderId, issueType, hnames⟩ |
    ⟨-, _, _, _, heval⟩
  · by_cases hknown : ∃ order payment policy, cfg.providers.Known orderId order payment policy
    · obtain ⟨order, payment, policy, hknown⟩ := hknown
      cases hissue : IssueType.ofValue? issueType with
      | none =>
        obtain ⟨error, herror⟩ := evaluate_unsupported cfg.rt now hnames hknown hissue
        rw [herror] at h
        cases h
      | some issue =>
        have hvalue : issue.value = issueType := by simpa using List.find?_some hissue
        subst hvalue
        refine ⟨orderId, issue, hnames, ?_⟩
        cases hreverses : i.reverses issue with
        | true => exact decidedClaim_of_reverse hnames hknown hreverses h hst
        | false => exact decidedClaim_of_refund hnames hknown hreverses h hst
    · rw [evaluate_unknown cfg.rt now hnames fun order payment policy hknown' =>
        hknown ⟨order, payment, policy, hknown'⟩, Except.ok.injEq] at h
      subst h
      cases hst
  · rw [heval, Except.ok.injEq] at h
    subst h
    cases hst

/-! ### Kept promises -/

theorem kept_refund_iff {d : DecisionResult} (hst : e.status = .decided)
    (hd : e.decision = .refund d) : PromiseKept cfg i e ↔ executableRefund d = true := by
  constructor
  · intro h
    exact (build_refund_iff hst hd).1 (h (holder i e) "" 0 0 (holds_holder i e))
  · intro h case actorId id now hholds
    exact (build_refund_iff (hholds.status.trans hst) (hholds.decision.trans hd)).2 h

theorem kept_reverse_iff {r : ReverseDecision} {order : OrderRecord} (hst : e.status = .decided)
    (hr : e.decision = .reverse r) (hid : i.orderId = some orderId)
    (hordered : cfg.providers.orders.lookup orderId = some order) :
    PromiseKept cfg i e ↔ r.action = .resendWithoutReturn := by
  constructor
  · intro h
    exact (build_reverse_iff hst hr hid hordered).1 (h (holder i e) "" 0 0 (holds_holder i e))
  · intro h case actorId id now hholds
    exact (build_reverse_iff (hholds.status.trans hst) (hholds.decision.trans hr)
      (hholds.orderId.trans hid) hordered).2 h

/-- A reverse claim that lacks no evidence is sent out at once exactly if the tables say so. -/
theorem resend_iff {order : OrderRecord} {payment : PaymentRecord} {inventory : InventoryRecord}
    {costs : ReverseCostRecord} (hreverses : i.reverses issue = true)
    (hordered : cfg.providers.orders.lookup orderId = some order)
    (hinventory : cfg.providers.inventory.lookup order.sku = some inventory)
    (hcosts : cfg.providers.reverseCosts.lookup order.sku = some costs)
    (hcomplete : (decideReverseFulfillment cfg.rt
      (i.reverseInput issue order payment inventory costs)).missingEvidence = []) :
    (decideReverseFulfillment cfg.rt (i.reverseInput issue order payment inventory costs)).action =
      .resendWithoutReturn ↔ resendable cfg i orderId issue = true := by
  have hissue : issue ∈ [IssueType.damagedItem, .wrongItem, .qualityIssue] :=
    (reverses_iff.1 hreverses).1
  have hconfirmed : i.visualEvidenceConfirmed = true := by
    by_contra hconfirmed
    rw [decide_missing, if_pos ⟨hissue, Bool.eq_false_iff.2 hconfirmed⟩] at hcomplete
    cases hcomplete
  have htable : resendable cfg i orderId issue = true ↔ inventory.available > 0 ∧
      ¬ (i.serialMatches = some false ∧ issue ≠ .wrongItem) ∧
      cfg.rt.discount costs.expectedRecoveryValue (i.damageLevel.getD .none) <
        costs.returnShippingCost + costs.handlingCost := by
    rw [resendable, hordered, any_some, hinventory, any_some, hcosts,
      any_some, decide_eq_true_eq]
  rw [htable]
  by_cases hserial : i.serialMatches = some false ∧ issue ≠ .wrongItem
  · have hplan : ¬ (i.reverseInput issue order payment inventory costs).HasPlan := by
      rintro ⟨-, visual, hvisual, -, hmatches⟩
      cases hvisual
      exact hmatches hserial
    refine iff_of_false ?_ fun h => h.2.1 hserial
    rw [(decide_no_plan hplan).1]
    exact ReverseAction.noConfusion
  · have hplan : (i.reverseInput issue order payment inventory costs).HasPlan :=
      ⟨hissue, _, rfl, hconfirmed, hserial⟩
    rw [decide_resend_iff hplan]
    exact ⟨fun h => ⟨h.1.2, hserial, h.2⟩, fun h => ⟨⟨rfl, h.1⟩, h.2.2⟩⟩

/-- A refund claim that lacks no evidence can be executed exactly if the tables say that it is
payable. -/
theorem refund_iff {order : OrderRecord} {payment : PaymentRecord} {policy : PolicySnapshot}
    {case : DecisionInput} {raw : ProviderContext}
    (hknown : cfg.providers.Known orderId order payment policy)
    (hreads : ReadsOrder cfg.providers order payment policy (i.question orderId issue.value) issue
      case raw) (hcomplete : (decideResolution case).missingEvidence = []) :
    executableRefund (decideResolution case) = true ↔
      payable cfg.providers orderId issue = true := by
  have hmissing : issue ∈ policy.coveredIssues → missingEvidence case = [] := by
    intro hcovered
    by_contra hmissing
    rw [decideResolution, if_neg (not_not_intro (hreads.issue ▸ hreads.policy ▸ hcovered)),
      if_pos hmissing] at hcomplete
    exact hmissing hcomplete
  have htable : payable cfg.providers orderId issue = true ↔ issue ∈ policy.coveredIssues ∧
      0 < requestedAmount order policy issue ∧ 0 < payment.refundableBalance := by
    rw [payable, hknown.ordered, hknown.paid]
    dsimp only
    rw [hknown.governed, any_some, decide_eq_true_eq]
  rw [executableRefund_iff, htable, hreads.issue, hreads.policy, hreads.balance, hreads.itemPaid,
    hreads.shippingPaid, requestedAmount]
  exact ⟨fun h => ⟨h.1, h.2.2.2, h.2.2.1⟩, fun h => ⟨h.1, hmissing h.1, h.2.2, h.2.1⟩⟩

/-- **Promised actions.** The promise of an action is kept exactly if the claim has a plan that can
be executed. -/
theorem promise_kept_iff (cfg : Config) (now : Instant) (i : IntakeInput) (e : Evaluation)
    (h : evaluateIntake cfg.rt cfg.providers now i = .ok e) (hpromise : Promises e) :
    PromiseKept cfg i e ↔ ∃ orderId issue, i.orderId = some orderId ∧
      i.issueType = some issue.value ∧ executable cfg i orderId issue = true := by
  obtain ⟨orderId, issue, hnames, hclaim⟩ := decidedClaim h hpromise.status
  have hexecutable : PromiseKept cfg i e ↔ executable cfg i orderId issue = true := by
    cases hclaim with
    | reverse order payment inventory costs hreverses hordered hinventory hcosts hd hcomplete =>
      rw [kept_reverse_iff hpromise.status hd hnames.order hordered, executable, if_pos hreverses]
      exact resend_iff hreverses hordered hinventory hcosts hcomplete
    | refund order payment policy case raw hreverses hknown hreads hd hcomplete =>
      rw [kept_refund_iff hpromise.status hd, executable,
        if_neg (Bool.eq_false_iff.1 hreverses)]
      exact refund_iff hknown hreads hcomplete
  rw [hexecutable]
  refine ⟨fun hex => ⟨orderId, issue, hnames.order, hnames.issue, hex⟩, ?_⟩
  rintro ⟨orderId', issue', horder, hissue, hex⟩
  obtain rfl : orderId = orderId' := some.inj (hnames.order.symm.trans horder)
  obtain rfl : issue = issue' := value_inj.1 (some.inj (hnames.issue.symm.trans hissue))
  exact hex

theorem promise_kept_lateParcel :
    ∃ e, evaluateIntake demo.rt demo.providers 0 lateParcel = .ok e ∧
      PromiseKept demo lateParcel e :=
  ⟨_, rfl, (promise_kept_iff demo 0 lateParcel _ rfl ⟨rfl, rfl⟩).2
    ⟨"ORDER-1001", .deliveryNotReceived, rfl, rfl, by decide⟩⟩

/-- A scratched phone that is worth more than its way back. -/
def scratchedPhone : IntakeInput where
  complaintText := "ORDER-1001 的手机坏了，我想换一个"
  orderId := some "ORDER-1001"
  issueType := some IssueType.damagedItem.value
  customerExpectation := some CustomerPreference.replacement.value
  operatorRefundLimit := 20000
  visualEvidenceConfirmed := true
  damageLevel := some .minor

/-- The phone is to be replaced after its return, the case is decided and told to create an action,
and there is none for it. -/
theorem return_promised : ∃ e, evaluateIntake demo.rt demo.providers 0 scratchedPhone = .ok e ∧
    Promises e ∧ ¬ PromiseKept demo scratchedPhone e := by
  refine ⟨_, rfl, ⟨rfl, rfl⟩, fun h => ?_⟩
  obtain ⟨a, ha⟩ := h (holder scratchedPhone _) "" 0 0 (holds_holder _ _)
  cases ha

end AfterFlow
