import AfterFlow.Operations

/-!
# The life of an action

An action row is written by five kinds of save, each from a copy that some call read earlier:
`Transition` lists them. The version compare of the save makes the copy as good as the row, except
that the reaper clears the `reserved` flag without a new version. `ActionRequest.Evolves` is what
remains true of a row across any number of saves, and `Vouched` is the maker-checker rule as an
invariant of one row: who signed, with which role, when, and on which decision the action rests.
-/

namespace AfterFlow

open List

/-! ### Rows over time -/

/-- `b` is a later state of the row that was `a`. -/
structure ActionRequest.Evolves (a b : ActionRequest) : Prop where
  id : b.id = a.id
  caseId : b.caseId = a.caseId
  payload : b.payload = a.payload
  payloadHash : b.payloadHash = a.payloadHash
  requestedBy : b.requestedBy = a.requestedBy
  requiredRole : b.requiredRole = a.requiredRole
  idempotencyKey : b.idempotencyKey = a.idempotencyKey
  expiresAt : b.expiresAt = a.expiresAt
  approversRequired : b.approversRequired = a.approversRequired
  version_le : a.version ≤ b.version
  /-- Without a new version only the reaper wrote. -/
  same : b.version = a.version → b = { a with reserved := b.reserved } ∧ (b.reserved → a.reserved)
  /-- A rejected or completed action stays what it is. -/
  final : a.isActive = false → b.status = a.status
  /-- Nothing waits for approval again. -/
  pending : b.status = .pendingApproval → a.status = .pendingApproval

namespace ActionRequest.Evolves

variable {a b c : ActionRequest}

theorem refl (a : ActionRequest) : a.Evolves a where
  id := rfl
  caseId := rfl
  payload := rfl
  payloadHash := rfl
  requestedBy := rfl
  requiredRole := rfl
  idempotencyKey := rfl
  expiresAt := rfl
  approversRequired := rfl
  version_le := Nat.le_refl _
  same _ := ⟨rfl, fun h => h⟩
  final _ := rfl
  pending h := h

theorem trans (h₁ : a.Evolves b) (h₂ : b.Evolves c) : a.Evolves c where
  id := h₂.id.trans h₁.id
  caseId := h₂.caseId.trans h₁.caseId
  payload := h₂.payload.trans h₁.payload
  payloadHash := h₂.payloadHash.trans h₁.payloadHash
  requestedBy := h₂.requestedBy.trans h₁.requestedBy
  requiredRole := h₂.requiredRole.trans h₁.requiredRole
  idempotencyKey := h₂.idempotencyKey.trans h₁.idempotencyKey
  expiresAt := h₂.expiresAt.trans h₁.expiresAt
  approversRequired := h₂.approversRequired.trans h₁.approversRequired
  version_le := h₁.version_le.trans h₂.version_le
  same hv := by
    have hle₁ := h₁.version_le
    have hle₂ := h₂.version_le
    obtain ⟨hb, hbr⟩ := h₁.same (by omega)
    obtain ⟨hc, hcr⟩ := h₂.same (by omega)
    refine ⟨?_, fun h => hbr (hcr h)⟩
    rw [hc, hb]
  final ha := by
    have hb : b.status = a.status := h₁.final ha
    have hbf : b.isActive = false := by rw [ActionRequest.isActive, hb]; exact ha
    exact (h₂.final hbf).trans hb
  pending h := h₁.pending (h₂.pending h)

theorem active (h : a.Evolves b) (hb : b.isActive) : a.isActive := by
  cases ha : a.isActive with
  | true => rfl
  | false =>
    rw [ActionRequest.isActive, h.final ha] at hb
    exact absurd hb (by simpa [ActionRequest.isActive] using ha)

theorem eq_copy (h : a.Evolves b) (hv : b.version = a.version) :
    b = { a with reserved := b.reserved } := (h.same hv).1

theorem actionType (h : a.Evolves b) : b.actionType = a.actionType := by
  rw [ActionRequest.actionType, h.payload, ActionRequest.actionType]

end ActionRequest.Evolves

/-- `d` is a later state of the case row that was `c`. -/
structure ServiceCase.Evolves (c d : ServiceCase) : Prop where
  id : d.id = c.id
  userId : d.userId = c.userId
  version_le : c.version ≤ d.version
  same : d.version = c.version → d = c

namespace ServiceCase.Evolves

variable {c d e : ServiceCase}

theorem refl (c : ServiceCase) : c.Evolves c := ⟨rfl, rfl, Nat.le_refl _, fun _ => rfl⟩

theorem trans (h₁ : c.Evolves d) (h₂ : d.Evolves e) : c.Evolves e where
  id := h₂.id.trans h₁.id
  userId := h₂.userId.trans h₁.userId
  version_le := h₁.version_le.trans h₂.version_le
  same hv := by
    have hle₁ := h₁.version_le
    have hle₂ := h₂.version_le
    rw [h₂.same (by omega), h₁.same (by omega)]

theorem apply (values : CaseValues) (c : ServiceCase) {n : ℕ} (h : c.version < n) :
    c.Evolves (values.apply c n) where
  id := rfl
  userId := rfl
  version_le := Nat.le_of_lt h
  same hv := absurd hv (Nat.ne_of_gt h)

end ServiceCase.Evolves

/-! ### Saves -/

/-- `a` is what a call may save from the copy `c`, given the signatures so far. -/
inductive Transition (h : History) (c : ActionRequest) : ActionRequest → Prop
  | sign (approver : String) (time : Instant) (comment : Option String) (reserved : Bool)
      (hpending : c.status = .pendingApproval) (hnew : approver ∉ c.approverIds)
      (hmaker : approver ≠ c.requestedBy) (htime : time < c.expiresAt)
      (hsigned : (⟨c.id, approver, c.requiredRole, time⟩ : Signature) ∈ h.signatures) :
      Transition h c
        { c with
          status := if (c.approverIds ++ [approver]).length ≥ c.approversRequired then .approved
            else .pendingApproval
          approvedBy := some approver
          approvedAt := some time
          comment
          approverIds := c.approverIds ++ [approver]
          version := c.version + 1
          reserved }
  | reject (approvedBy : Option String) (approvedAt : Option Instant) (comment : Option String)
      (reserved : Bool) (hstatus : c.isActive ∨ c.status = .rejected) :
      Transition h c
        { c with status := .rejected, approvedBy, approvedAt, comment, reserved,
                 version := c.version + 1 }
  | complete (transactionId : String) (reserved : Bool) (hstatus : c.status = .approved) :
      Transition h c
        { c with status := .completed, externalTransactionId := some transactionId, reserved,
                 version := c.version + 1 }
  | reap : Transition h c { c with reserved := false }

namespace Transition

variable {h h' : History} {a c row : ActionRequest}

/-- A save of a copy whose version the row still has. -/
theorem evolves (ht : Transition h c a) (hs : c.Evolves row) (hv : row.version = c.version) :
    row.Evolves a := by
  have hrow := hs.eq_copy hv
  generalize row.reserved = flag at hrow
  subst hrow
  cases ht with
  | sign approver time comment reserved hpending =>
    exact ⟨rfl, rfl, rfl, rfl, rfl, rfl, rfl, rfl, rfl, Nat.le_succ _,
      fun h => absurd h (Nat.succ_ne_self _),
      fun hf => by simp [ActionRequest.isActive, hpending, ActionStatus.isActive] at hf,
      fun _ => hpending⟩
  | reject approvedBy approvedAt comment reserved hstatus =>
    refine ⟨rfl, rfl, rfl, rfl, rfl, rfl, rfl, rfl, rfl, Nat.le_succ _,
      fun h => absurd h (Nat.succ_ne_self _), fun hf => ?_, fun h => by cases h⟩
    rcases hstatus with hact | hrej
    · exact absurd hact (by simpa [ActionRequest.isActive] using hf)
    · exact hrej.symm
  | complete transactionId reserved hstatus =>
    exact ⟨rfl, rfl, rfl, rfl, rfl, rfl, rfl, rfl, rfl, Nat.le_succ _,
      fun h => absurd h (Nat.succ_ne_self _),
      fun hf => by simp [ActionRequest.isActive, hstatus, ActionStatus.isActive] at hf,
      fun h => by cases h⟩
  | reap =>
    exact ⟨rfl, rfl, rfl, rfl, rfl, rfl, rfl, rfl, rfl, Nat.le_refl _,
      fun _ => ⟨rfl, fun h => (Bool.false_ne_true h).elim⟩, fun _ => rfl, fun h => h⟩

theorem id_eq (ht : Transition h c a) : a.id = c.id := by cases ht <;> rfl

theorem caseId_eq (ht : Transition h c a) : a.caseId = c.caseId := by cases ht <;> rfl

end Transition

/-! ### Maker and checker -/

/-- Everybody on the approver list signed with the required role, in time, and is not the
requester. -/
def Signed (h : History) (a : ActionRequest) : Prop :=
  ∀ p ∈ a.approverIds, p ≠ a.requestedBy ∧
    ∃ time, time < a.expiresAt ∧ (⟨a.id, p, a.requiredRole, time⟩ : Signature) ∈ h.signatures

/-- The action was created approved by policy, or enough people approved it. -/
def Approved (a : ActionRequest) (o : Origin) (d : DecisionResult) : Prop :=
  (o.action.status = .approved ∧ autoApproved d) ∨ a.approversRequired ≤ a.approverIds.length

/-- The maker-checker rule for one row. -/
structure Vouched (h : History) (a : ActionRequest) : Prop where
  nodup : a.approverIds.Nodup
  signed : Signed h a
  /-- A refund rests on the decision it was created from. -/
  decided : a.actionType = .refund → ∃ o ∈ h.origins, ∃ d, o.action.id = a.id ∧
    o.decision = .refund d ∧ (a.approversRequired = 2 ↔ d.riskTier = .fourEyes) ∧
      (a.status = .approved ∨ a.status = .completed → Approved a o d)

/-- Histories only grow. -/
structure History.Extends (h h' : History) : Prop where
  moves : h.moves <+: h'.moves
  signatures : h.signatures <+: h'.signatures
  origins : h.origins <+: h'.origins

namespace History.Extends

variable {h h' h'' : History}

theorem refl (h : History) : h.Extends h :=
  ⟨prefix_refl _, prefix_refl _, prefix_refl _⟩

theorem trans (h₁ : h.Extends h') (h₂ : h'.Extends h'') : h.Extends h'' :=
  ⟨h₁.moves.trans h₂.moves, h₁.signatures.trans h₂.signatures, h₁.origins.trans h₂.origins⟩

end History.Extends

namespace Vouched

variable {h h' : History} {a c row : ActionRequest}

theorem mono (hv : Vouched h a) (hh : h.Extends h') : Vouched h' a where
  nodup := hv.nodup
  signed p hp := by
    obtain ⟨hne, time, ht, hs⟩ := hv.signed p hp
    exact ⟨hne, time, ht, hh.signatures.subset hs⟩
  decided hr := by
    obtain ⟨o, ho, rest⟩ := hv.decided hr
    exact ⟨o, hh.origins.subset ho, rest⟩

theorem flag (hv : Vouched h a) (reserved : Bool) : Vouched h { a with reserved } :=
  ⟨hv.nodup, hv.signed, hv.decided⟩

end Vouched

/-- **A save keeps the maker-checker rule.** -/
theorem Transition.vouched {h : History} {a c : ActionRequest} (ht : Transition h c a)
    (hv : Vouched h c) : Vouched h a := by
  cases ht with
  | sign approver time comment reserved hpending hnew hmaker htime hsigned =>
    refine ⟨?_, ?_, ?_⟩
    · refine nodup_append.mpr ⟨hv.nodup, nodup_singleton _, fun p hp q hq hpq => ?_⟩
      rw [mem_singleton] at hq
      exact hnew (hq ▸ hpq ▸ hp)
    · intro p hp
      rcases mem_append.mp hp with hp | hp
      · exact hv.signed p hp
      · rw [mem_singleton] at hp
        subst hp
        exact ⟨hmaker, time, htime, hsigned⟩
    · intro hr
      obtain ⟨o, ho, d, hid, hd, htier, -⟩ := hv.decided hr
      refine ⟨o, ho, d, hid, hd, htier, fun hs => .inr ?_⟩
      by_contra hlt
      simp only [ge_iff_le, if_neg hlt] at hs
      rcases hs with hs | hs <;> cases hs
  | reject =>
    refine ⟨hv.nodup, hv.signed, fun hr => ?_⟩
    obtain ⟨o, ho, d, hid, hd, htier, -⟩ := hv.decided hr
    refine ⟨o, ho, d, hid, hd, htier, fun hs => ?_⟩
    rcases hs with hs | hs <;> cases hs
  | complete transactionId reserved hstatus =>
    refine ⟨hv.nodup, hv.signed, fun hr => ?_⟩
    obtain ⟨o, ho, d, hid, hd, htier, happ⟩ := hv.decided hr
    exact ⟨o, ho, d, hid, hd, htier, fun _ => happ (.inl hstatus)⟩
  | reap => exact hv.flag false

/-! ### The pure functions as transitions -/

theorem checkDecision_ok {c : ActionRequest} {approver : String} {roles : List SystemRole}
    {expectedVersion : ℕ} {now : Instant} {u : Unit}
    (h : checkDecision c approver roles expectedVersion now = .ok u) :
    c.status = .pendingApproval ∧ c.version = expectedVersion ∧ now < c.expiresAt ∧
      c.requiredRole ∈ roles ∧ c.requestedBy ≠ approver := by
  rw [checkDecision] at h
  split at h
  · cases h
  split at h
  · cases h
  split at h
  · cases h
  split at h
  · cases h
  split at h
  · cases h
  · rename_i h₁ h₂ h₃ h₄ h₅
    exact ⟨not_not.mp h₁, not_not.mp h₂, not_le.mp h₃, not_not.mp h₄, h₅⟩

theorem approveAction_ok {c a : ActionRequest} {approver : String} {roles : List SystemRole}
    {expectedVersion : ℕ} {now : Instant} {comment : Option String}
    (h : approveAction c approver roles expectedVersion now comment = .ok a) :
    c.status = .pendingApproval ∧ c.version = expectedVersion ∧ now < c.expiresAt ∧
      c.requiredRole ∈ roles ∧ approver ≠ c.requestedBy ∧ approver ∉ c.approverIds ∧
      a = { c with
        status := if (c.approverIds ++ [approver]).length ≥ c.approversRequired then .approved
          else .pendingApproval
        approvedBy := some approver
        approvedAt := some now
        comment
        approverIds := c.approverIds ++ [approver]
        version := c.version + 1 } := by
  cases hc : checkDecision c approver roles expectedVersion now with
  | error e =>
    rw [approveAction, hc] at h
    cases h
  | ok u =>
    obtain ⟨hpending, hv, htime, hrole, hmaker⟩ := checkDecision_ok hc
    rw [approveAction, hc] at h
    by_cases hnew : approver ∈ c.approverIds
    · exact absurd ((if_pos hnew).symm.trans h) (by simp)
    · exact ⟨hpending, hv, htime, hrole, hmaker.symm, hnew,
        (Except.ok.inj ((if_neg hnew).symm.trans h)).symm⟩

theorem rejectAction_ok {rt : Runtime} {c a : ActionRequest} {approver : String}
    {roles : List SystemRole} {expectedVersion : ℕ} {now : Instant} {comment : String}
    (h : rejectAction rt c approver roles expectedVersion comment now = .ok a) :
    c.status = .pendingApproval ∧ c.version = expectedVersion ∧ now < c.expiresAt ∧
      a = { c with
        status := .rejected
        approvedBy := some approver
        approvedAt := some now
        comment := some (rt.strip comment)
        version := c.version + 1 } := by
  rw [rejectAction] at h
  split at h
  · cases h
  · cases hc : checkDecision c approver roles expectedVersion now with
    | error e =>
      rw [hc] at h
      cases h
    | ok u =>
      obtain ⟨hpending, hv, htime, -, -⟩ := checkDecision_ok hc
      rw [hc] at h
      exact ⟨hpending, hv, htime, (Except.ok.inj h).symm⟩

theorem checkExecution_ok {rt : Runtime} {c : ActionRequest} {payload : Json}
    {expectedVersion balance : ℕ} {e : RefundExecutor} {now : Instant} {orderId : OrderId}
    {amount : ℕ}
    (h : checkExecution rt c payload expectedVersion balance e now = .ok (orderId, amount)) :
    c.status = .approved ∧ c.version = expectedVersion ∧ now < c.expiresAt ∧
      payloadHash rt payload = c.payloadHash ∧ c.payload = .refund orderId amount false := by
  rw [checkExecution] at h
  split at h
  · cases h
  split at h
  · cases h
  split at h
  · cases h
  split at h
  · cases h
  rename_i h₁ h₂ h₃ h₄
  split at h
  · cases h
  · rename_i orderId' amount' requiresReturn hp
    split at h
    · cases h
    split at h
    · cases h
    · rename_i h₅ _
      cases h
      cases requiresReturn
      · exact ⟨not_not.mp h₁, not_not.mp h₂, not_le.mp h₃, not_not.mp h₄, hp⟩
      · exact absurd rfl h₅

/-- What `execute_approved_action` returns: the copy, completed with the captured transaction. -/
theorem executeApprovedAction_ok {rt : Runtime} {c a : ActionRequest} {payload : Json}
    {expectedVersion balance : ℕ} {e e' : RefundExecutor} {now : Instant}
    (h : executeApprovedAction rt c payload expectedVersion balance e now = (.ok a, e')) :
    ∃ orderId amount transactionId,
      checkExecution rt c payload expectedVersion balance e now = .ok (orderId, amount) ∧
      e.refund rt orderId amount c.idempotencyKey = (.ok transactionId, e') ∧
      a = { c with status := .completed, externalTransactionId := some transactionId,
                   version := c.version + 1 } := by
  rw [executeApprovedAction] at h
  cases hc : checkExecution rt c payload expectedVersion balance e now with
  | error err => simp [hc] at h
  | ok pair =>
    obtain ⟨orderId, amount⟩ := pair
    cases hr : e.refund rt orderId amount c.idempotencyKey with
    | mk captured e₁ =>
      cases captured with
      | error err => simp [hc, hr, Except.map] at h
      | ok transactionId =>
        simp only [hc, hr, Except.map, Prod.mk.injEq, Except.ok.injEq] at h
        obtain ⟨ha, he⟩ := h
        exact ⟨orderId, amount, transactionId, rfl, by rw [hr, he], ha.symm⟩

theorem checkResend_ok {rt : Runtime} {c : ActionRequest} {payload : Json} {expectedVersion : ℕ}
    {now : Instant} {orderId : OrderId} {sku : String}
    (h : checkResend rt c payload expectedVersion now = .ok (orderId, sku)) :
    c.status = .approved ∧ c.version = expectedVersion ∧ now < c.expiresAt := by
  rw [checkResend] at h
  split at h
  · cases h
  split at h
  · cases h
  split at h
  · cases h
  split at h
  · cases h
  split at h
  · cases h
  · rename_i h₁ h₂ h₃ _
    exact ⟨not_not.mp h₁, not_not.mp h₂, not_le.mp h₃⟩

/-- What `execute_approved_resend` returns: the copy, completed with the outbound reference. -/
theorem executeApprovedResend_ok {rt : Runtime} {c a : ActionRequest} {payload : Json}
    {expectedVersion : ℕ} {e e' : ReverseExecutor} {now : Instant}
    (h : executeApprovedResend rt c payload expectedVersion e now = (.ok a, e')) :
    c.status = .approved ∧ c.version = expectedVersion ∧ now < c.expiresAt ∧ ∃ reference,
      a = { c with status := .completed, externalTransactionId := some reference,
                   version := c.version + 1 } := by
  rw [executeApprovedResend] at h
  cases hc : checkResend rt c payload expectedVersion now with
  | error err => simp [hc] at h
  | ok pair =>
    obtain ⟨orderId, sku⟩ := pair
    obtain ⟨hs, hv, ht⟩ := checkResend_ok hc
    cases hr : e.dispatch rt orderId sku "resend" c.idempotencyKey with
    | mk sent e₁ =>
      cases sent with
      | error err => simp [hc, hr, Except.map] at h
      | ok reference =>
        simp only [hc, hr, Except.map, Prod.mk.injEq, Except.ok.injEq] at h
        exact ⟨hs, hv, ht, reference, h.1.symm⟩

/-! ### New actions -/

/-- A refund action as it is created: unsigned, on a decision. -/
theorem createRefundAction_ok {rt : Runtime} {id caseId : Uuid} {orderId : OrderId}
    {requestedBy : String} {d : DecisionResult} {now : Instant} {a : ActionRequest}
    (h : createRefundAction rt id caseId orderId requestedBy d now = .ok a) :
    executableRefund d ∧ a =
      { id, caseId
        payload := refundPayload orderId d
        payloadHash := payloadHash rt (refundPayload orderId d).toJson
        status := if autoApproved d then .approved else .pendingApproval
        riskLevel := d.riskLevel
        requestedBy
        idempotencyKey := idempotencyKey rt caseId (refundPayload orderId d)
        approvedBy := if autoApproved d then some "system-policy" else none
        approvedAt := if autoApproved d then some now else none
        expiresAt := now + actionTtl
        approversRequired := if d.riskTier = .fourEyes then 2 else 1 } := by
  rw [createRefundAction] at h
  split at h
  · cases h
  split at h
  · cases h
  · rename_i h₁ h₂
    rw [not_or, not_not] at h₂
    refine ⟨?_, (Except.ok.inj h).symm⟩
    simp only [executableRefund, decide_eq_true_eq]
    exact ⟨not_not.mp h₁, h₂.1, Nat.pos_of_ne_zero h₂.2⟩

/-- What a new action of a case is, whatever the case asks for. -/
structure BuiltFrom (cfg : Config) (case : ServiceCase) (actorId : String) (id : Uuid)
    (a : ActionRequest) : Prop where
  ready : case.status = .decided
  id : a.id = id
  caseId : a.caseId = case.id
  orderId : a.payload.orderId = case.orderId
  requestedBy : a.requestedBy = actorId
  reserved : a.reserved = false
  approverIds : a.approverIds = []
  version : a.version = 1
  active : a.isActive
  key : a.idempotencyKey = idempotencyKey cfg.rt a.caseId a.payload
  decided : a.actionType = .refund → ∃ d, case.decisionJson = .refund d ∧
    a.payload = refundPayload case.orderId d ∧
    (a.approversRequired = 2 ↔ d.riskTier = .fourEyes) ∧ (a.status = .approved → autoApproved d)

theorem buildCaseAction_ok {cfg : Config} {case : ServiceCase} {actorId : String} {id : Uuid}
    {now : Instant} {a : ActionRequest} (h : buildCaseAction cfg case actorId id now = .ok a) :
    BuiltFrom cfg case actorId id a := by
  rw [buildCaseAction] at h
  split at h
  · cases h
  rename_i hready
  rw [not_not] at hready
  split at h
  · cases h
  · split at h
    · cases h
    split at h
    · cases h
    · cases h
      exact ⟨hready, rfl, rfl, rfl, rfl, rfl, rfl, rfl, rfl, rfl, fun h => by cases h⟩
  · rename_i d hd
    obtain ⟨-, rfl⟩ := createRefundAction_ok h
    refine ⟨hready, rfl, rfl, rfl, rfl, rfl, rfl, rfl, ?_, rfl, fun _ => ⟨d, hd, rfl, ?_, ?_⟩⟩
    · by_cases hauto : autoApproved d <;>
        simp [ActionRequest.isActive, hauto, ActionStatus.isActive]
    · by_cases htier : d.riskTier = .fourEyes <;> simp [htier]
    · by_cases hauto : autoApproved d <;> simp [hauto]

theorem BuiltFrom.vouched {cfg : Config} {case : ServiceCase} {actorId : String} {id : Uuid}
    {a : ActionRequest} (hb : BuiltFrom cfg case actorId id a) {h : History}
    (ho : (⟨a, case.version, case.decisionJson⟩ : Origin) ∈ h.origins) : Vouched h a where
  nodup := hb.approverIds ▸ nodup_nil
  signed p hp := by
    rw [hb.approverIds] at hp
    exact (not_mem_nil hp).elim
  decided hr := by
    obtain ⟨d, hdec, -, htier, happ⟩ := hb.decided hr
    refine ⟨_, ho, d, rfl, hdec, htier, fun hs => .inl ?_⟩
    rcases hs with hs | hs
    · exact ⟨hs, happ hs⟩
    · exact absurd hb.active (by simp [ActionRequest.isActive, hs, ActionStatus.isActive])

end AfterFlow
