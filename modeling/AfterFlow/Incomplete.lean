import AfterFlow.Evaluation

/-!
# Incomplete records

Any record of an order may be missing. The evaluation asks for a carrier record with a default that
is never used, for the entry is there and is `None`; and it reports every lack that the graph finds
as an unknown order.

## Main results

* `copes_iff` — the evaluation copes iff the order is unknown or complete
-/

namespace AfterFlow

open Option

/-- The evaluation returns, asks for a missing carrier record, and calls only an unknown order
unknown. -/
structure Copes (rt : Runtime) (providers : Providers) (now : Instant) (i : IntakeInput)
    (issue : IssueType) : Prop where
  returns : ∃ e, evaluateIntake rt providers now i = .ok e
  asks : ∀ e orderId, evaluateIntake rt providers now i = .ok e → i.Names orderId issue.value →
    issue = .deliveryNotReceived → providers.orders.lookup orderId ≠ none →
    providers.logistics.lookup orderId = none →
    e.status = .awaitingEvidence ∧ "logistics_evidence" ∈ e.evidence.missing
  blames : ∀ e orderId, evaluateIntake rt providers now i = .ok e → i.Names orderId issue.value →
    "valid_order" ∈ e.evidence.missing → providers.orders.lookup orderId = none

/-- The records that a claim about this order needs. -/
structure Complete (providers : Providers) (i : IntakeInput) (issue : IssueType) (orderId : String)
    (order : OrderRecord) : Prop where
  payment : (providers.payments.lookup orderId).isSome
  policy : (providers.policies.lookup order.region).isSome
  logistics : issue = .deliveryNotReceived → (providers.logistics.lookup orderId).isSome
  inventory : i.reverses issue = true → (providers.inventory.lookup order.sku).isSome
  reverseCosts : i.reverses issue = true → (providers.reverseCosts.lookup order.sku).isSome

/-! ### Evidence that is asked for -/

theorem missingEvidence_sub (case : DecisionInput) :
    ∀ name ∈ (decideResolution case).missingEvidence,
      name ∈ ["logistics_evidence", "visual_evidence"] := by
  have hmissing : ∀ name ∈ missingEvidence case,
      name ∈ ["logistics_evidence", "visual_evidence"] := by
    rw [missingEvidence]
    split
    · simp
    · split <;> simp
  rw [decideResolution]
  dsimp only
  split
  · simp [manualDecision]
  · split
    · exact hmissing
    · split <;> simp [manualDecision]

theorem reverse_missing_sub (rt : Runtime) (case : ReverseInput) :
    ∀ name ∈ (decideReverseFulfillment rt case).missingEvidence,
      name ∈ ["human_confirmed_visual_evidence"] := by
  rw [decide_missing]
  split
  · exact fun _ h => h
  · exact fun _ h => absurd h List.not_mem_nil

/-! ### What becomes of a decision -/

variable {rt : Runtime} {providers : Providers} {now : Instant} {i : IntakeInput}
  {issue : IssueType} {raw : ProviderContext} {orderId : String}

theorem concludes_reverse (now : Instant) (i : IntakeInput) (raw : ProviderContext)
    (hissue : issue ≠ .deliveryNotReceived) (r : ReverseDecision) :
    ∃ e, concludes now i issue.value (.reverse raw r) = .ok e ∧ e.decision = .reverse r ∧
      e.evidence.missing = r.missingEvidence ∧
      (e.status = .decided ↔ r.missingEvidence = []) := by
  have hvalue : ¬ issue.value = IssueType.deliveryNotReceived.value := fun h =>
    hissue (value_inj.1 h)
  rw [concludes, deliveryConflicts, if_neg hvalue]
  refine ⟨_, rfl, rfl, rfl, ?_⟩
  by_cases h : r.missingEvidence = []
  · simp [h]
  · simp [h]

theorem concludes_refund (now : Instant) (i : IntakeInput)
    (hlogistics : issue = .deliveryNotReceived → raw.logistics.isSome)
    (d : DecisionResult) :
    ∃ e, concludes now i issue.value (.refund raw d) = .ok e ∧ e.decision = .refund d ∧
      e.evidence.missing = d.missingEvidence ∧
      (e.status = .decided → d.missingEvidence = []) := by
  obtain ⟨conflicts, hconflicts⟩ :
      ∃ conflicts, deliveryConflicts issue.value raw = .ok conflicts := by
    rw [deliveryConflicts]
    split
    · rename_i hvalue
      obtain ⟨record, hrecord⟩ := isSome_iff_exists.1 (hlogistics (value_inj.1 hvalue))
      rw [hrecord]
      exact ⟨_, rfl⟩
    · exact ⟨[], rfl⟩
  rw [concludes, hconflicts]
  refine ⟨_, rfl, rfl, rfl, fun h => ?_⟩
  by_contra hne
  simp [hne] at h

theorem concludes_refund_raises (now : Instant) (i : IntakeInput)
    (hlogistics : raw.logistics = none) (d : DecisionResult) :
    ∃ e, concludes now i IssueType.deliveryNotReceived.value (.refund raw d) = .error e := by
  rw [concludes, deliveryConflicts, if_pos rfl, hlogistics]
  exact ⟨_, rfl⟩

theorem not_delivery_of_reverses (h : i.reverses issue = true) : issue ≠ .deliveryNotReceived := by
  rintro rfl
  exact absurd (reverses_iff.1 h).1 (by decide)

/-! ### Coping -/

variable {order : OrderRecord}

/-- An order whose records are complete is evaluated. -/
theorem evaluates_of_complete (rt : Runtime) (now : Instant)
    (hnames : i.Names orderId issue.value)
    (hordered : providers.orders.lookup orderId = some order)
    (h : Complete providers i issue orderId order) :
    ∃ e, evaluateIntake rt providers now i = .ok e ∧ "valid_order" ∉ e.evidence.missing := by
  obtain ⟨payment, hpaid⟩ := isSome_iff_exists.1 h.payment
  obtain ⟨policy, hgoverned⟩ := isSome_iff_exists.1 h.policy
  have hknown : providers.Known orderId order payment policy := ⟨hordered, hpaid, hgoverned⟩
  cases hreverses : i.reverses issue with
  | true =>
    obtain ⟨inventory, hinventory⟩ := isSome_iff_exists.1 (h.inventory hreverses)
    obtain ⟨costs, hcosts⟩ := isSome_iff_exists.1 (h.reverseCosts hreverses)
    obtain ⟨raw, heval⟩ := evaluate_reverse rt now hnames hknown hreverses
      hinventory hcosts
    obtain ⟨e, he, -, hmissing, -⟩ := concludes_reverse now i raw
      (not_delivery_of_reverses hreverses)
      (decideReverseFulfillment rt (i.reverseInput issue order payment inventory costs))
    refine ⟨e, heval.trans he, fun hvalid => ?_⟩
    rw [hmissing] at hvalid
    exact absurd (reverse_missing_sub _ _ _ hvalid) (by decide)
  | false =>
    obtain ⟨case, raw, hreads, heval⟩ := evaluate_refund rt now hnames hknown
      hreverses
    obtain ⟨e, he, -, hmissing, -⟩ := concludes_refund now i
      (fun hdelivery => hreads.logistics ▸ h.logistics hdelivery) (decideResolution case)
    refine ⟨e, heval.trans he, fun hvalid => ?_⟩
    rw [hmissing] at hvalid
    exact absurd (missingEvidence_sub case _ hvalid) (by decide)

/-- An evaluation that copes had all it needed. -/
theorem complete_of_copes (h : Copes rt providers now i issue)
    (hnames : i.Names orderId issue.value)
    (hordered : providers.orders.lookup orderId = some order) :
    Complete providers i issue orderId order := by
  have hknows : evaluateIntake rt providers now i ≠ .ok i.unknown := fun heval =>
    absurd ((h.blames _ _ heval hnames (List.mem_singleton_self _)).symm.trans hordered) (by simp)
  obtain ⟨payment, policy, hknown⟩ : ∃ payment policy,
      providers.Known orderId order payment policy := by
    by_contra hnone
    refine hknows (evaluate_unknown rt now hnames fun order' payment policy hknown => hnone ?_)
    obtain rfl : order' = order := some.inj (hknown.ordered.symm.trans hordered)
    exact ⟨payment, policy, hknown⟩
  refine ⟨?_, ?_, fun hdelivery => ?_, fun hreverses => ?_, fun hreverses => ?_⟩
  · rw [hknown.paid]
    rfl
  · rw [hknown.governed]
    rfl
  · subst hdelivery
    by_contra hlogistics
    rw [not_isSome_iff_eq_none] at hlogistics
    have hreverses : i.reverses .deliveryNotReceived = false := Bool.eq_false_iff.2 fun hr =>
      not_delivery_of_reverses hr rfl
    obtain ⟨case, raw, hreads, heval⟩ := evaluate_refund rt now hnames hknown
      hreverses
    obtain ⟨e, he⟩ := concludes_refund_raises now i
      (hreads.logistics.trans hlogistics) (decideResolution case)
    obtain ⟨e', he'⟩ := h.returns
    rw [heval, he] at he'
    cases he'
  · by_contra hinventory
    rw [not_isSome_iff_eq_none] at hinventory
    exact hknows (evaluate_reverse_unknown rt now hnames hknown hreverses (.inl hinventory))
  · by_contra hcosts
    rw [not_isSome_iff_eq_none] at hcosts
    exact hknows (evaluate_reverse_unknown rt now hnames hknown hreverses (.inr hcosts))

/-- **Incomplete records.** The evaluation copes exactly if the order is unknown or its records are
complete. -/
theorem copes_iff (rt : Runtime) (providers : Providers) (now : Instant) (i : IntakeInput)
    (issue : IssueType) (hissue : i.issueType = some issue.value) :
    Copes rt providers now i issue ↔ ∀ orderId order, i.Names orderId issue.value →
      providers.orders.lookup orderId = some order → Complete providers i issue orderId order := by
  refine ⟨fun h orderId order hnames hordered => complete_of_copes h hnames hordered, fun h => ?_⟩
  rcases names_or_clarifies rt providers now i with ⟨orderId, issueType, hnames⟩ |
    ⟨hnone, _, _, _, heval⟩
  · obtain rfl : issueType = issue.value := some.inj (hnames.issue.symm.trans hissue)
    have hid : ∀ orderId', i.Names orderId' issue.value → orderId' = orderId := fun orderId' h' =>
      some.inj (h'.order.symm.trans hnames.order)
    cases hordered : providers.orders.lookup orderId with
    | none =>
      refine ⟨⟨_, evaluate_unknown rt now hnames fun order payment policy hknown => ?_⟩, ?_, ?_⟩
      · exact absurd (hknown.ordered.symm.trans hordered) (by simp)
      · intro e orderId' _ h' _ hne
        exact absurd (hid orderId' h' ▸ hordered) hne
      · intro e orderId' _ h' _
        exact hid orderId' h' ▸ hordered
    | some order =>
      have hcomplete := h orderId order hnames hordered
      obtain ⟨e, heval, hvalid⟩ := evaluates_of_complete rt now hnames hordered hcomplete
      refine ⟨⟨e, heval⟩, fun e' orderId' _ h' hdelivery _ hlogistics => ?_,
        fun e' orderId' heval' _ hvalid' => ?_⟩
      · have hsome := hcomplete.logistics hdelivery
        rw [← hid orderId' h', hlogistics] at hsome
        cases hsome
      · rw [heval, Except.ok.injEq] at heval'
        exact absurd (heval' ▸ hvalid') hvalid
  · exact ⟨⟨_, heval⟩, fun _ orderId _ hnames => absurd hnames (hnone orderId _),
      fun _ orderId _ hnames => absurd hnames (hnone orderId _)⟩

/-- A parcel that has not come. -/
def lateParcel : IntakeInput where
  complaintText := "ORDER-1001 没收到"
  orderId := some "ORDER-1001"
  issueType := some IssueType.deliveryNotReceived.value
  customerExpectation := none
  operatorRefundLimit := 20000

theorem copes_lateParcel : Copes demoRuntime mockData 0 lateParcel .deliveryNotReceived :=
  (copes_iff demoRuntime mockData 0 lateParcel .deliveryNotReceived rfl).2 fun orderId order hnames
      hordered => by
    obtain rfl : "ORDER-1001" = orderId := some.inj hnames.order
    obtain rfl : _ = order := some.inj hordered
    exact ⟨by decide, by decide, fun _ => by decide, fun h => absurd h (by decide),
      fun h => absurd h (by decide)⟩

/-- The same parcel without a carrier record. -/
theorem logistics_missing_raises :
    ¬ Copes demoRuntime { mockData with logistics := [] } 0 lateParcel .deliveryNotReceived := by
  intro h
  have hcomplete := complete_of_copes h ⟨rfl, rfl, by decide, by decide⟩
    (show _ = some (⟨"ORDER-1001", "CUSTOMER-001", "CN", "PHONE-X-256", 89900, 1000, "shipped"⟩ :
      OrderRecord) from rfl)
  exact absurd (hcomplete.logistics rfl) (by decide)

end AfterFlow
