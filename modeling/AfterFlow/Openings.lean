import AfterFlow.Actionable

/-!
# Two ways of opening a case

`POST /cases` and `POST /cases/intake` evaluate the same order with the same rules, so the two cases
carry the same decision. What becomes of the decision differs: the intake derives the status from
the missing evidence and from the conflicts of the evidence, the other handler stores the
repository's default, `decided`. A missing piece of evidence makes the decision itself unusable. A
conflict does not, so the status is all that stands between a carrier's proof of delivery and a
refund.

## Main results

* `openings_agree_iff` — they agree iff the carrier does not contradict a payable claim
-/

namespace AfterFlow

open Coop List Option

/-- The call, run alone in some world, opens this case. -/
def Opens (p : Proc Response) (case : ServiceCase) : Prop :=
  ∃ w w', runAlone database p w = (.ok (.case case), w')

/-- In some world `create_case_action` turns the case into an action for its owner. -/
def Accepts (cfg : Config) (case : ServiceCase) : Prop :=
  ∃ w action w', runAlone database (createCaseAction cfg case case.userId) w = (.ok action, w')

/-! ### What the tables say -/

/-- The customer reports non-delivery, the carrier has proof of delivery. -/
def contradicted (providers : Providers) (orderId : String) (issue : IssueType) : Bool :=
  issue = .deliveryNotReceived ∧
    (providers.logistics.lookup orderId).any LogisticsRecord.proofOfDelivery

/-- A claim of non-delivery without a carrier record, or a claim that a picture has to confirm. -/
def lacksEvidence (providers : Providers) (orderId : String) (issue : IssueType) : Bool :=
  issue = .deliveryNotReceived ∧ (providers.logistics.lookup orderId).isNone ∨
    issue ∈ [IssueType.damagedItem, .wrongItem]

/-- The money a claim asks for. -/
def requestedAmount (order : OrderRecord) (policy : PolicySnapshot) (issue : IssueType) : ℕ :=
  order.itemPaid + if issue ∈ policy.refundShippingIssues then order.shippingPaid else 0

/-- Policy covers the claim, and there is money to ask for and money left to pay it with. -/
def payable (providers : Providers) (orderId : String) (issue : IssueType) : Bool :=
  match providers.orders.lookup orderId, providers.payments.lookup orderId with
  | some order, some payment =>
    (providers.policies.lookup order.region).any fun policy =>
      issue ∈ policy.coveredIssues ∧ 0 < requestedAmount order policy issue ∧
        0 < payment.refundableBalance
  | _, _ => false

/-! ### The decision -/

@[simp] theorem ofValue?_value (issue : IssueType) : IssueType.ofValue? issue.value = some issue := by
  cases issue <;> decide

@[simp] theorem value_ne_empty (issue : IssueType) : issue.value ≠ "" := by
  cases issue <;> decide

theorem value_inj {a b : IssueType} : a.value = b.value ↔ a = b := by
  refine ⟨fun h => ?_, congrArg _⟩
  have h' := congrArg IssueType.ofValue? h
  rwa [ofValue?_value, ofValue?_value, some.injEq] at h'

private theorem ite_mem_pair {α : Type} (p : Prop) [Decidable p] (a b : α) :
    (if p then a else b) ∈ [b, a] := by
  split <;> simp

/-- A refund can be executed iff policy covers the claim, no evidence is missing and there is
money. -/
theorem executableRefund_iff (case : DecisionInput) :
    executableRefund (decideResolution case) = true ↔ case.issueType ∈ case.policy.coveredIssues ∧
      missingEvidence case = [] ∧ 0 < case.payment.refundableBalance ∧
      0 < case.order.itemPaid +
        if case.issueType ∈ case.policy.refundShippingIssues then case.order.shippingPaid else 0 := by
  by_cases hcov : case.issueType ∈ case.policy.coveredIssues
  · by_cases hmiss : missingEvidence case = []
    · by_cases hbal : case.payment.refundableBalance = 0
      · simp [decideResolution, executableRefund, manualDecision, hcov, hmiss, hbal]
      · have hamount : 0 < case.payment.refundableBalance := Nat.pos_of_ne_zero hbal
        simp only [decideResolution, hcov, hmiss, hbal, executableRefund, not_true_eq_false, if_false,
          ne_eq, decide_eq_true_eq, true_and, gt_iff_lt, Nat.lt_min]
        exact ⟨fun h => ⟨hamount, h.2.2.1⟩,
          fun h => ⟨ite_mem_pair _ _ _, ite_mem_pair _ _ _, h.2, hamount⟩⟩
    · simp [decideResolution, executableRefund, manualDecision, hcov, hmiss]
  · simp [decideResolution, executableRefund, manualDecision, hcov]

theorem missing_of_executable {case : DecisionInput}
    (h : executableRefund (decideResolution case) = true) :
    (decideResolution case).missingEvidence = [] := by
  obtain ⟨hcov, hmiss, hbal, -⟩ := (executableRefund_iff case).mp h
  simp [decideResolution, hcov, hmiss, Nat.pos_iff_ne_zero.mp hbal]

/-- What a refund evaluation is made of. -/
structure Evaluated (rt : Runtime) (providers : Providers) (state : CaseEvalInput) (issue : IssueType)
    (raw : ProviderContext) (d : DecisionResult) where
  order : OrderRecord
  payment : PaymentRecord
  policy : PolicySnapshot
  ordered : providers.orders.lookup state.orderId = some order
  paid : providers.payments.lookup state.orderId = some payment
  governed : providers.policies.lookup order.region = some policy
  logistics : raw.logistics = providers.logistics.lookup state.orderId
  executable : executableRefund d = true ↔ payable providers state.orderId issue = true ∧
    (issue = .deliveryNotReceived → raw.logistics.isSome) ∧
    (issue ∈ [IssueType.damagedItem, .wrongItem] → state.visualEvidenceConfirmed = true)
  complete : executableRefund d = true → d.missingEvidence = []

theorem evaluated_of_refund {rt : Runtime} {providers : Providers} {state : CaseEvalInput}
    {issue : IssueType} {raw : ProviderContext} {d : DecisionResult}
    (hissue : state.issueType = issue.value) (hpref : state.customerPreference = none)
    (h : runCaseEvaluation rt providers state = .ok (.refund raw d)) :
    Nonempty (Evaluated rt providers state issue raw d) := by
  rw [runCaseEvaluation, buildContext, parseIssueType] at h
  rw [hissue, ofValue?_value, hpref] at h
  split at h
  · cases h
  · cases h
  · rename_i order payment horder hpayment
    split at h
    · cases h
    · rename_i policy hpolicy
      obtain ⟨rfl, rfl⟩ : _ ∧ _ := by
        simpa only [bind, Except.bind, Except.ok.injEq, CaseEvaluation.refund.injEq] using h
      refine ⟨⟨order, payment, policy, horder, hpayment, hpolicy, rfl, ?_, missing_of_executable⟩⟩
      rw [executableRefund_iff]
      simp only [payable, horder, hpayment, hpolicy, any_some, requestedAmount, missingEvidence]
      cases issue <;> simp <;> grind

/-! ### Turning a case into an action -/

/-- The world that knows nothing but one case, and can pay `amount` on every order. -/
def onlyWorld (case : ServiceCase) (amount : ℕ) : World :=
  { db := ⟨Keyed.Table.empty.insert case rfl, .empty, .empty⟩
    refunds := .init fun _ => amount
    reverse := ⟨fun _ => none, none⟩
    now := 0
    uuids := 0
    history := ⟨[], [], []⟩ }

/-- A case with a refund decision is accepted iff it is decided and the refund can be executed. -/
theorem accepts_iff {cfg : Config} {case : ServiceCase} {d : DecisionResult}
    (hd : case.decisionJson = .refund d) :
    Accepts cfg case ↔ case.status = .decided ∧ executableRefund d = true := by
  constructor
  · rintro ⟨w, action, w', h⟩
    obtain ⟨a, ha⟩ : ∃ a, buildCaseAction cfg case case.userId w.uuids w.now = .ok a := by
      cases ha : buildCaseAction cfg case case.userId w.uuids w.now with
      | ok a => exact ⟨a, rfl⟩
      | error e =>
        simp only [createCaseAction, Coro.bind_def, runAlone_bind, uuid4, runAlone_update, thenAlone_ok,
          utcNow, runAlone_read, runAlone_pure, ha, runAlone_ofExcept, thenAlone_error] at h
        cases h
    simp only [buildCaseAction, createRefundAction] at ha
    rw [hd] at ha
    by_cases hst : case.status = .decided
    · refine ⟨hst, ?_⟩
      simp only [hst, ne_eq, not_true_eq_false, if_false] at ha
      simp only [executableRefund, decide_eq_true_eq]
      split at ha
      · cases ha
      · rename_i hel
        split at ha
        · cases ha
        · rename_i hact
          rw [not_or, not_not] at hact
          exact ⟨not_not.mp hel, hact.1, Nat.pos_of_ne_zero hact.2⟩
    · rw [if_pos hst] at ha
      cases ha
  · rintro ⟨hst, hex⟩
    have hdecided : Decided (onlyWorld case d.refundAmount) case d :=
      { stored := mem_singleton.mpr rfl
        status := hst
        decision := hd
        executable := hex
        idle := fun _ hb => (not_mem_nil hb).elim
        unpaid := fun _ hb => (not_mem_nil hb).elim
        funded := fun _ => Nat.le_refl _ }
    obtain ⟨saved, w', hrun, -⟩ := (createCaseAction_alone cfg hdecided
      fun _ hb => (not_mem_nil hb).elim).1 fun _ hb => (not_mem_nil hb).elim
    exact ⟨_, saved, w', hrun⟩

/-! ### The two handlers -/

theorem createCase_alone {w w' : World} {row : Uuid → ServiceCase} {case : ServiceCase}
    (hrow : ∀ id, (row id).id = id) (h : runAlone database (createCase row) w = (.ok case, w')) :
    ∃ id, case = row id := by
  refine ⟨w.uuids, ?_⟩
  simp only [createCase, Coro.bind_def, runAlone_bind, uuid4, runAlone_update, thenAlone_ok,
    runAlone_session, runAlone_call, perform_database, Op.perform, World.exec] at h
  rw [Database.insertCase] at h
  split at h
  · rename_i hid
    have hread : (w.db.cases.insert (row w.uuids) hid).find? w.uuids = some (row w.uuids) := by
      rw [Keyed.Table.find?_insert, hrow, if_pos rfl]
    rw [thenAlone_ok, runAlone_call, perform_database, Op.perform] at h
    simp only [World.query, Database.getCase, hread, Prod.mk.injEq] at h
    cases h.1
    rfl
  · cases h

/-- `POST /cases` stores the decision under the repository's default status. -/
theorem createCaseHandler_alone {cfg : Config} {caller : Caller} {actor : Actor}
    {body : CaseCreateRequest} {case : ServiceCase} (hu : caller.user = some actor)
    (h : Opens (createCaseHandler cfg caller body) case) :
    ∃ raw d, runCaseEvaluation cfg.rt cfg.providers
        { orderId := body.orderId
          issueType := body.issueType.value
          operatorRefundLimit := resolveOperatorRefundLimit (some actor.role)
          visualEvidenceConfirmed := body.visualEvidenceConfirmed } = .ok (.refund raw d) ∧
      case.status = .decided ∧ case.decisionJson = .refund d := by
  obtain ⟨w, w', h⟩ := h
  obtain ⟨a, w₁, ha, h⟩ := runAlone_bind_ok _ h
  rw [actorOf, hu] at ha
  cases ha
  obtain ⟨evaluated, w₂, he, h⟩ := runAlone_bind_ok _ h
  rw [runAlone_ofExcept, Prod.mk.injEq] at he
  rw [he.1]
  match evaluated, h with
  | .error _, h => cases h
  | .reverse .., h => cases h
  | .refund raw d, h =>
    obtain ⟨c, w₃, hc, h⟩ := runAlone_bind_ok _ h
    obtain ⟨_, w₄, -, h⟩ := runAlone_bind_ok _ h
    obtain ⟨id, rfl⟩ := createCase_alone (fun _ => rfl) hc
    cases h
    exact ⟨raw, d, rfl, rfl, rfl⟩

/-- `POST /cases/intake` stores what the evaluation says. -/
theorem intakeCase_alone {cfg : Config} {caller : Caller} {body : CaseIntakeRequest}
    {case : ServiceCase} (h : Opens (intakeCase cfg caller body) case) :
    ∃ actor now evaluated, caller.user = some actor ∧
      let fields := NewIntake.resolve cfg.rt
        { userId := actor.id
          userRole := some actor.role
          complaintText := body.complaintText
          threadId := body.threadId
          orderId := body.orderId
          issueType := body.issueType.map IssueType.value
          customerExpectation := body.customerExpectation.map CustomerPreference.value
          traceId := caller.traceId }
      evaluateIntake cfg.rt cfg.providers now
        { complaintText := body.complaintText
          orderId := fields.orderId
          issueType := fields.issueType
          customerExpectation := fields.customerExpectation
          operatorRefundLimit := resolveOperatorRefundLimit (some actor.role) } = .ok evaluated ∧
      case.status = evaluated.status ∧ case.decisionJson = evaluated.decision := by
  obtain ⟨w, w', h⟩ := h
  obtain ⟨actor, w₁, ha, h⟩ := runAlone_bind_ok _ h
  have hu : caller.user = some actor := by
    rw [actorOf] at ha
    split at ha
    · cases ha
    · rename_i hu
      cases ha
      exact hu
  obtain ⟨c, w₂, hc, h⟩ := runAlone_bind_ok _ h
  cases h
  obtain ⟨now, w₃, -, hc⟩ := runAlone_bind_ok _ hc
  obtain ⟨evaluated, w₄, he, hc⟩ := runAlone_bind_ok _ hc
  rw [runAlone_ofExcept, Prod.mk.injEq] at he
  refine ⟨actor, now, evaluated, hu, he.1, ?_⟩
  obtain ⟨c', w₅, hc', hc⟩ := runAlone_bind_ok _ hc
  obtain ⟨id, rfl⟩ := createCase_alone (fun _ => rfl) hc'
  obtain ⟨_, w₆, -, hc⟩ := runAlone_bind_ok _ hc
  dsimp only at hc
  split at hc
  · obtain ⟨_, w₇, -, hc⟩ := runAlone_bind_ok _ hc
    cases hc
    exact ⟨rfl, rfl⟩
  · cases hc
    exact ⟨rfl, rfl⟩

/-! ### Agreement -/

/-- `strip` and `lower` leave the names of the issues alone. -/
def PlainIssues (rt : Runtime) : Prop := ∀ issue : IssueType, rt.lower (rt.strip issue.value) = issue.value

/-- The intake of an order and an issue, without an expectation, is evaluated like `POST /cases`. -/
theorem evaluateIntake_refund {rt : Runtime} {providers : Providers} {now : Instant} {i : IntakeInput}
    (orderId : String) (issue : IssueType) {evaluated : Evaluation} {raw : ProviderContext}
    {d : DecisionResult} (hne : orderId ≠ "") (ho : i.orderId = some orderId)
    (hi : i.issueType = some issue.value) (he : i.customerExpectation = none)
    (hraw : runCaseEvaluation rt providers
      { orderId
        issueType := issue.value
        operatorRefundLimit := i.operatorRefundLimit
        visualEvidenceConfirmed := i.visualEvidenceConfirmed } = .ok (.refund raw d))
    (h : evaluateIntake rt providers now i = .ok evaluated) :
    evaluated.decision = .refund d ∧ (issue = .deliveryNotReceived → raw.logistics.isSome) ∧
      (evaluated.status = .decided ↔ d.missingEvidence = [] ∧
        ¬ (issue = .deliveryNotReceived ∧ raw.logistics.any LogisticsRecord.proofOfDelivery = true)) := by
  have hstate : runCaseEvaluation rt providers
      { orderId
        issueType := issue.value
        operatorRefundLimit := i.operatorRefundLimit
        visualEvidenceConfirmed := i.visualEvidenceConfirmed
        damageLevel := i.damageLevel
        humanConfirmed := some i.visualEvidenceConfirmed
        serialMatches := i.serialMatches } = .ok (.refund raw d) := hraw
  rw [evaluateIntake] at h
  simp only [ho, hi, he, truthy, hne, value_ne_empty, ne_eq, not_false_eq_true, decide_true, if_true,
    append_nil, getD_some, reduceCtorEq, if_false, hstate, bind, Except.bind] at h
  rw [deliveryConflicts] at h
  by_cases hdnr : issue = .deliveryNotReceived
  · subst hdnr
    cases hlog : raw.logistics with
    | none => simp [hlog] at h
    | some l =>
      simp only [hlog, if_true, Except.ok.injEq] at h
      subst h
      cases hp : l.proofOfDelivery <;> simp [hp]
  · have hv : ¬ issue.value = IssueType.deliveryNotReceived.value := fun hv => hdnr (value_inj.mp hv)
    simp only [if_neg hv, Except.ok.injEq] at h
    subst h
    simp [hdnr]

/-- The two cases carry the same decision, are accepted alike, and are not accepted on a claim that
the evidence contradicts or does not support. -/
def OpeningsAgree (cfg : Config) (orderId : String) (issue : IssueType) (c₁ c₂ : ServiceCase) : Prop :=
  c₁.decisionJson = c₂.decisionJson ∧ (Accepts cfg c₁ ↔ Accepts cfg c₂) ∧
    (contradicted cfg.providers orderId issue = true ∨ lacksEvidence cfg.providers orderId issue = true →
      ¬ Accepts cfg c₁ ∧ ¬ Accepts cfg c₂)

/-- **The two ways of opening a case agree iff the carrier does not contradict a payable claim.** -/
theorem openings_agree_iff (cfg : Config) (hrt : PlainIssues cfg.rt) (role : SystemRole)
    (u₁ u₂ : String) (t₁ t₂ : Option String) (post : CaseCreateRequest) (intake : CaseIntakeRequest)
    (hne : post.orderId ≠ "") (hv : post.visualEvidenceConfirmed = false)
    (ho : intake.orderId = some post.orderId) (hi : intake.issueType = some post.issueType)
    (he : intake.customerExpectation = none)
    (htext : (extractIntake cfg.rt intake.complaintText).customerExpectation = none)
    (c₁ c₂ : ServiceCase) (h₁ : Opens (createCaseHandler cfg ⟨some ⟨u₁, role⟩, t₁⟩ post) c₁)
    (h₂ : Opens (intakeCase cfg ⟨some ⟨u₂, role⟩, t₂⟩ intake) c₂) :
    OpeningsAgree cfg post.orderId post.issueType c₁ c₂ ↔
      ¬ (contradicted cfg.providers post.orderId post.issueType = true ∧
        payable cfg.providers post.orderId post.issueType = true) := by
  obtain ⟨raw, d, hrun, hst₁, hd₁⟩ := createCaseHandler_alone rfl h₁
  obtain ⟨actor, now, evaluated, hu, heval, hst₂, hd₂⟩ := intakeCase_alone h₂
  cases hu
  obtain ⟨E⟩ := evaluated_of_refund rfl rfl hrun
  rw [hv] at hrun
  obtain ⟨hd, hlog, hstatus⟩ := evaluateIntake_refund post.orderId post.issueType hne
    (by simp [NewIntake.resolve, ho, pyOr, truthy, hne])
    (by simp [NewIntake.resolve, hi, normalizeIssueType, hrt post.issueType, pyOr, truthy])
    (by simp [NewIntake.resolve, he, htext]) hrun heval
  have hA₁ : Accepts cfg c₁ ↔ executableRefund d = true := by
    rw [accepts_iff hd₁, hst₁, eq_self_iff_true, true_and]
  have hA₂ : Accepts cfg c₂ ↔ evaluated.status = .decided ∧ executableRefund d = true := by
    rw [accepts_iff (hd₂.trans hd), hst₂]
  have hC : contradicted cfg.providers post.orderId post.issueType = true ↔
      post.issueType = .deliveryNotReceived ∧
        raw.logistics.any LogisticsRecord.proofOfDelivery = true := by
    rw [contradicted, E.logistics, decide_eq_true_eq]
  have hproof : raw.logistics.any LogisticsRecord.proofOfDelivery = true → raw.logistics.isSome := by
    cases raw.logistics <;> simp
  have hex : executableRefund d = true →
      lacksEvidence cfg.providers post.orderId post.issueType = false := by
    intro hex
    obtain ⟨-, hsome, hpicture⟩ := E.executable.mp hex
    simp only [hv, Bool.false_eq_true, imp_false] at hpicture
    simp only [lacksEvidence, ← E.logistics, decide_eq_false_iff_not, not_or, not_and]
    refine ⟨fun h hnone => ?_, hpicture⟩
    rw [isNone_iff_eq_none.mp hnone] at hsome
    exact Bool.false_ne_true (hsome h)
  have hpay : contradicted cfg.providers post.orderId post.issueType = true →
      (executableRefund d = true ↔ payable cfg.providers post.orderId post.issueType = true) := by
    intro hc
    obtain ⟨hdnr, hany⟩ := hC.mp hc
    rw [E.executable, hdnr]
    simp [hproof hany]
  rw [OpeningsAgree, hA₁, hA₂, hstatus, ← hC, hd₁, hd₂, hd]
  constructor
  · rintro ⟨-, hiff, -⟩ ⟨hc, hp⟩
    exact (hiff.mp ((hpay hc).mpr hp)).1.2 hc
  · intro hn
    have hclean : executableRefund d = true →
        ¬ contradicted cfg.providers post.orderId post.issueType = true :=
      fun h hc => hn ⟨hc, (hpay hc).mp h⟩
    refine ⟨rfl, ⟨fun h => ⟨⟨E.complete h, hclean h⟩, h⟩, fun h => h.2⟩, fun hbad => ?_⟩
    have hno : ¬ executableRefund d = true := by
      intro h
      rcases hbad with hc | hl
      · exact hclean h hc
      · rw [hex h] at hl
        cases hl
    exact ⟨hno, fun h => hno h.2⟩

/-- A case of the demo, opened by `POST /cases` for a customer. -/
def postedCase (orderId : String) (issue : IssueType) : Except Exn Response × World :=
  runAlone database (createCaseHandler demo customer ⟨orderId, issue, false, none⟩) demoWorld

/-- The same case, opened by the intake. -/
def takenCase (orderId : String) (issue : IssueType) : Except Exn Response × World :=
  runAlone database (intakeCase demo customer
    { complaintText := "where is it", orderId := some orderId, issueType := some issue }) demoWorld

/-- The case of a response, if it is one. -/
def openedCase : Except Exn Response × World → Option ServiceCase
  | (.ok (.case case), _) => some case
  | _ => none

theorem opens_of_openedCase {p : Proc Response} {w : World} {case : ServiceCase}
    (h : openedCase (runAlone database p w) = some case) : Opens p case := by
  rcases hr : runAlone database p w with ⟨_ | r, w'⟩
  · rw [hr] at h
    cases h
  · cases r <;> rw [hr] at h <;> cases h
    exact ⟨w, w', hr⟩

theorem demo_plainIssues : PlainIssues demo.rt := by
  intro issue
  cases issue <;> decide +kernel

/-- On a parcel that is still under way the two ways agree. -/
theorem openings_agree_demo : ∃ c₁ c₂,
    OpeningsAgree demo "ORDER-1001" .deliveryNotReceived c₁ c₂ ∧ c₁.status = .decided := by
  obtain ⟨c₁, h₁, hst⟩ : ∃ c, openedCase (postedCase "ORDER-1001" .deliveryNotReceived) = some c ∧
      c.status = .decided :=
    ⟨(openedCase (postedCase "ORDER-1001" .deliveryNotReceived)).get (by decide +kernel),
      (some_get _).symm, by decide +kernel⟩
  obtain ⟨c₂, h₂⟩ : ∃ c, openedCase (takenCase "ORDER-1001" .deliveryNotReceived) = some c :=
    isSome_iff_exists.mp (by decide +kernel)
  refine ⟨c₁, c₂, ?_, hst⟩
  exact (openings_agree_iff demo demo_plainIssues .user "customer" "customer" none none
    ⟨"ORDER-1001", .deliveryNotReceived, false, none⟩
    { complaintText := "where is it"
      orderId := some "ORDER-1001"
      issueType := some .deliveryNotReceived }
    (by decide) rfl rfl rfl rfl (by decide +kernel) c₁ c₂ (opens_of_openedCase h₁)
    (opens_of_openedCase h₂)).mpr (by decide +kernel)

/-- The two cases of an order that the carrier has proof of delivery for. -/
def contradictedPost : ServiceCase :=
  (openedCase (postedCase "ORDER-1002" .deliveryNotReceived)).get (by decide +kernel)

def contradictedIntake : ServiceCase :=
  (openedCase (takenCase "ORDER-1002" .deliveryNotReceived)).get (by decide +kernel)

/-- `POST /cases` opens a case that `create_case_action` accepts; the case of the intake waits for
evidence and is refused. -/
theorem contradicted_accepted :
    Opens (createCaseHandler demo customer ⟨"ORDER-1002", .deliveryNotReceived, false, none⟩)
      contradictedPost ∧
    Opens (intakeCase demo customer
      { complaintText := "where is it"
        orderId := some "ORDER-1002"
        issueType := some .deliveryNotReceived }) contradictedIntake ∧
    contradicted demo.providers "ORDER-1002" .deliveryNotReceived = true ∧
    Accepts demo contradictedPost ∧ ¬ Accepts demo contradictedIntake ∧
    ¬ OpeningsAgree demo "ORDER-1002" .deliveryNotReceived contradictedPost contradictedIntake := by
  have hd₁ : contradictedPost.decisionJson =
      .refund ((refundDecision contradictedPost).get (by decide +kernel)) := by decide +kernel
  have hd₂ : contradictedIntake.decisionJson =
      .refund ((refundDecision contradictedIntake).get (by decide +kernel)) := by decide +kernel
  have haccepted : Accepts demo contradictedPost := (accepts_iff hd₁).mpr (by decide +kernel)
  have hrefused : ¬ Accepts demo contradictedIntake := by
    rw [accepts_iff hd₂]
    decide +kernel
  exact ⟨opens_of_openedCase (some_get _).symm,
    opens_of_openedCase (some_get _).symm, by decide +kernel, haccepted, hrefused,
    fun h => hrefused (h.2.1.mp haccepted)⟩

end AfterFlow
