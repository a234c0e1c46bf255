import AfterFlow.MakerChecker

/-!
# Acting on a decided case

When does `create_case_action` succeed on a decided case that has no active action? The business key
of an action is derived from the case, the kind of action and the payload, and `UNIQUE` over all
actions whatever their status. So a case can be acted on exactly as long as no earlier action of it
asked for the same payload; after that the insert fails, and the failure is reported as an active
action that does not exist.

## Main results

* `decided_case_actionable_iff` — a decided case can be acted on iff its business key is unused
-/

namespace AfterFlow

open Coop

/-! ### The repository, run alone -/

@[simp] theorem runAlone_session {α : Type} (body : Proc α) (w : World) :
    runAlone database (session body) w = runAlone database body w := by
  simp only [session, Coro.bind_def, Coro.pure_def, runAlone_bind, runAlone_tryCatch]
  obtain ⟨res, w'⟩ := runAlone database body w
  cases res <;> rfl

@[simp] theorem perform_database (op : Op) (w : World) : database.perform op w = op.perform w := rfl

theorem updateCase_alone {w : World} {case : ServiceCase} (values : CaseValues)
    (h : w.db.cases.find? case.id = some case) :
    runAlone database (updateCase case.id case.userId case.version values) w =
      (.ok (values.apply case (case.version + 1)), { w with db := { w.db with
        cases := w.db.cases.put (values.apply case (case.version + 1)) } }) := by
  have hget : w.db.getCase case.id (some case.userId) = some case := by
    simp [Database.getCase, h]
  have hput : (w.db.cases.put (values.apply case (case.version + 1))).find? case.id =
      some (values.apply case (case.version + 1)) :=
    Keyed.Table.find?_put_self (r := values.apply case (case.version + 1)) h
  have hupdate : w.db.updateCase case.id case.userId case.version values =
      (.ok 1, { w.db with cases := w.db.cases.put (values.apply case (case.version + 1)) }) := by
    simp [Database.updateCase, hget]
  have hread : ({ w.db with cases := w.db.cases.put (values.apply case (case.version + 1)) } :
      Database).getCase case.id (some case.userId) =
        some (values.apply case (case.version + 1)) :=
    Option.filter_eq_some_iff.mpr ⟨hput, by simp [CaseValues.apply]⟩
  simp [updateCase, getCase, Op.perform, World.exec, World.query, hupdate, hread]

/-- The case can take a new action: it is stored, nothing of it is active, and the id is new. -/
structure Ready (w : World) (case : ServiceCase) (id : Uuid) : Prop where
  stored : w.db.cases.find? case.id = some case
  idle : ∀ b ∈ w.db.actions.rows, b.caseId = case.id → b.isActive = false
  fresh : ∀ b ∈ w.db.actions.rows, b.id ≠ id

theorem Ready.fits_iff {w : World} {case : ServiceCase} {a : ActionRequest}
    (h : Ready w case a.id) (hcase : a.caseId = case.id) :
    w.db.actions.Fits a ↔ ∀ b ∈ w.db.actions.rows, b.idempotencyKey ≠ a.idempotencyKey := by
  refine ⟨fun hf b hb => (hf b hb (h.fresh b hb)).1, fun hk b hb _ => ⟨hk b hb, ?_⟩⟩
  rintro ⟨-, hact, hc⟩
  rw [h.idle b hb (hc.symm.trans hcase)] at hact
  exact Bool.false_ne_true hact

/-- `create_action`, run alone: the row if its key is unused, else the error of an active action. -/
theorem createAction_alone {w : World} {case : ServiceCase} {a : ActionRequest}
    (h : Ready w case a.id) (hcase : a.caseId = case.id) :
    ((∀ b ∈ w.db.actions.rows, b.idempotencyKey ≠ a.idempotencyKey) →
      ∃ db', runAlone database (createAction a case.userId) w = (.ok a, { w with db := db' }) ∧
        db'.cases = w.db.cases ∧ ∀ b, b ∈ db'.actions.rows ↔ b ∈ w.db.actions.rows ∨ b = a) ∧
    (¬ (∀ b ∈ w.db.actions.rows, b.idempotencyKey ≠ a.idempotencyKey) →
      runAlone database (createAction a case.userId) w =
        (.error (.concurrentAction "case already has an active action"), w)) := by
  have hid : w.db.actions.find? a.id = none := Keyed.Table.find?_eq_none.mpr h.fresh
  have hget : w.db.getCase a.caseId (some case.userId) = some case := by
    simp [Database.getCase, hcase, h.stored]
  have hidle : ¬ ∃ b ∈ w.db.actions.rows, b.caseId = a.caseId ∧ b.isActive = true := by
    rintro ⟨b, hb, hc, hact⟩
    rw [h.idle b hb (hc.trans hcase)] at hact
    exact Bool.false_ne_true hact
  constructor
  · intro hk
    have hfits : w.db.actions.Fits a := (h.fits_iff hcase).mpr hk
    have hinsert : w.db.insertAction a =
        (.ok (), { w.db with actions := w.db.actions.insert a hid hfits }) := dif_pos ⟨hid, hfits⟩
    have hread : ({ w.db with actions := w.db.actions.insert a hid hfits } :
        Database).getAction a.id none = some a :=
      Option.filter_eq_some_iff.mpr
        ⟨(Keyed.Table.find?_insert (h := hid)).trans (if_pos rfl), rfl⟩
    refine ⟨{ w.db with actions := w.db.actions.insert a hid hfits }, ?_, rfl, fun b =>
      Keyed.Table.mem_insert (h := hid)⟩
    simp [createAction, Op.perform, World.exec, World.query, hget, hidle, hinsert, hread, refreshed]
  · intro hk
    have hfits : ¬ w.db.actions.Fits a := fun hf => hk ((h.fits_iff hcase).mp hf)
    have hinsert : w.db.insertAction a = (.error .integrityError, w.db) :=
      dif_neg fun hc => hfits hc.2
    simp [createAction, Op.perform, World.exec, World.query, hget, hidle, hinsert]

/-- A decided case with a refund that could be executed, on which nothing is going on, which was
never paid, and whose order covers what policy would approve on its own. -/
structure Decided (w : World) (case : ServiceCase) (d : DecisionResult) : Prop where
  stored : case ∈ w.db.cases.rows
  status : case.status = .decided
  decision : case.decisionJson = .refund d
  executable : executableRefund d
  idle : ∀ b ∈ w.db.actions.rows, b.caseId = case.id → b.isActive = false
  unpaid : ∀ b ∈ w.db.actions.rows, b.caseId = case.id → b.status ≠ .completed
  funded : autoApproved d → d.refundAmount ≤ w.refunds.balanceOf case.orderId

/-- `create_case_action`, run alone by the owner, returns a new stored action for the decision. -/
def Creates (cfg : Config) (w : World) (case : ServiceCase) (d : DecisionResult) : Prop :=
  ∃ saved w', runAlone database (createCaseAction cfg case case.userId) w = (.ok saved, w') ∧
    saved ∈ w'.db.actions.rows ∧ saved.id ∉ w.db.actions.rows.map ActionRequest.id ∧
    saved.caseId = case.id ∧ saved.payload = refundPayload case.orderId d

/-- The business key of the action a refund decision asks for. -/
def businessKey (cfg : Config) (case : ServiceCase) (d : DecisionResult) : String :=
  idempotencyKey cfg.rt case.id (refundPayload case.orderId d)

theorem Decided.build {w : World} {case : ServiceCase} {d : DecisionResult}
    (h : Decided w case d) (cfg : Config) (id : Uuid) (now : Instant) :
    ∃ a, buildCaseAction cfg case case.userId id now = .ok a ∧
      BuiltFrom cfg case case.userId id a ∧ a.payload = refundPayload case.orderId d ∧
      a.idempotencyKey = businessKey cfg case d ∧ (a.status = .approved → autoApproved d) := by
  have hex := h.executable
  simp only [executableRefund, decide_eq_true_eq] at hex
  obtain ⟨a, ha⟩ : ∃ a, buildCaseAction cfg case case.userId id now = .ok a := by
    simp only [buildCaseAction, h.status, ne_eq, not_true_eq_false, if_false, h.decision,
      createRefundAction, hex.1, hex.2.1, false_or, (Nat.pos_iff_ne_zero.mp hex.2.2)]
    exact ⟨_, rfl⟩
  have hb := buildCaseAction_ok ha
  have htype : a.actionType = .refund := by
    obtain ⟨-, rfl⟩ := createRefundAction_ok (by
      simpa only [buildCaseAction, h.status, ne_eq, not_true_eq_false, if_false, h.decision]
        using ha)
    rfl
  obtain ⟨d', hd', hpay, -, happ⟩ := hb.decided htype
  rw [h.decision, CaseDecision.refund.injEq] at hd'
  subst hd'
  exact ⟨a, ha, hb, hpay, by rw [hb.key, hb.caseId, hpay, businessKey], happ⟩

theorem fundAction_alone {w : World} {a : ActionRequest} {orderId : OrderId} {amount : ℕ}
    {requiresReturn : Bool} (hpay : a.payload = .refund orderId amount requiresReturn)
    (hfunds : a.status = .approved → amount ≤ w.refunds.balanceOf orderId) :
    ∃ flag w', runAlone database (fundAction a orderId) w = (.ok { a with reserved := flag }, w') ∧
      w'.db = w.db := by
  by_cases happ : a.status = .approved
  · have hreserve : (w.reserve a orderId amount).1 = true := by
      simp only [World.reserve, RefundExecutor.reserve, if_neg (not_lt.mpr (hfunds happ) :
        ¬ w.refunds.available orderId < amount)]
    simp only [fundAction, ActionRequest.actionType, hpay, Payload.actionType, happ, and_self,
      if_true, Payload.amount, Coro.bind_def, runAlone_bind, runAlone_ofExcept, thenAlone_ok, reserve,
      runAlone_update, hreserve]
    exact ⟨true, _, rfl, rfl⟩
  · exact ⟨a.reserved, w, by simp [fundAction, happ], rfl⟩

theorem storeAction_alone {w : World} {case : ServiceCase} {a : ActionRequest}
    (orderId : OrderId) (h : Ready w case a.id) (hcase : a.caseId = case.id) :
    ((∀ b ∈ w.db.actions.rows, b.idempotencyKey ≠ a.idempotencyKey) →
      ∃ db', runAlone database (storeAction a orderId case.userId) w = (.ok a, { w with db := db' }) ∧
        db'.cases = w.db.cases ∧ ∀ b, b ∈ db'.actions.rows ↔ b ∈ w.db.actions.rows ∨ b = a) ∧
    (¬ (∀ b ∈ w.db.actions.rows, b.idempotencyKey ≠ a.idempotencyKey) →
      ∃ e w', runAlone database (storeAction a orderId case.userId) w = (.error e, w')) := by
  obtain ⟨hunused, hused⟩ := createAction_alone h hcase
  constructor
  · intro hk
    obtain ⟨db', hrun, hdb⟩ := hunused hk
    exact ⟨db', by rw [storeAction, runAlone_tryCatch, hrun, catchAlone_ok], hdb⟩
  · intro hk
    rw [storeAction, runAlone_tryCatch, hused hk, catchAlone_error]
    dsimp only
    split
    · rw [Coro.bind_def, runAlone_bind, runAlone_ofExcept]
      cases a.payload.amount with
      | ok | error => exact ⟨_, _, rfl⟩
    · exact ⟨_, _, rfl⟩

/-- The operation, run alone on a decided case: it creates the action if the key is unused, and
raises otherwise. -/
theorem createCaseAction_alone (cfg : Config) {w : World} {case : ServiceCase} {d : DecisionResult}
    (h : Decided w case d) (hfresh : ∀ b ∈ w.db.actions.rows, b.id ≠ w.uuids) :
    ((∀ b ∈ w.db.actions.rows, b.idempotencyKey ≠ businessKey cfg case d) → Creates cfg w case d) ∧
    (¬ (∀ b ∈ w.db.actions.rows, b.idempotencyKey ≠ businessKey cfg case d) →
      ∃ e w', runAlone database (createCaseAction cfg case case.userId) w = (.error e, w')) := by
  have hstored := Keyed.Table.mem_iff_find?.mp h.stored
  obtain ⟨a, ha, hb, hpay, hkey, happ⟩ := h.build cfg w.uuids w.now
  -- the world in which the action is built, and the one in which it is funded
  let w₁ : World := { w with
    uuids := w.uuids + 1
    history := { w.history with
      origins := w.history.origins ++ [⟨a, case.version, case.decisionJson⟩] } }
  obtain ⟨flag, w₂, hfund, hdb⟩ := fundAction_alone (w := w₁) hpay fun hst => h.funded (happ hst)
  have hdb' : w₂.db = w.db := hdb
  have hready : Ready w₂ case ({ a with reserved := flag } : ActionRequest).id := by
    refine ⟨hdb' ▸ hstored, hdb' ▸ h.idle, fun b hbm hid => hfresh b (hdb' ▸ hbm) ?_⟩
    rw [hid, hb.id]
  have hrun : runAlone database (createCaseAction cfg case case.userId) w =
      thenAlone database (fun saved => (updateCase case.id case.userId case.version
          (createdValues saved)).bind fun _ => .pure saved)
        (runAlone database (storeAction { a with reserved := flag } case.orderId case.userId) w₂) := by
    simp only [createCaseAction, Coro.bind_def, Coro.pure_def, runAlone_bind, uuid4, runAlone_update,
      thenAlone_ok, utcNow, runAlone_read, runAlone_pure, ha, runAlone_ofExcept, recordOrigin,
      runAlone_modify]
    erw [hfund]
    rw [thenAlone_ok, runAlone_bind]
  obtain ⟨hunused, hused⟩ := storeAction_alone case.orderId hready hb.caseId
  rw [hdb'] at hunused hused
  rw [← hkey]
  constructor
  · intro hk
    obtain ⟨db', hstore, hcases, hrows⟩ := hunused hk
    have hupdate := updateCase_alone (createdValues { a with reserved := flag })
      (show ({ w₂ with db := db' } : World).db.cases.find? case.id = some case by
        rw [← hstored, hcases])
    rw [hstore, thenAlone_ok, runAlone_bind, hupdate, thenAlone_ok, runAlone_pure] at hrun
    refine ⟨_, _, hrun, (hrows _).mpr (.inr rfl), ?_, hb.caseId, hpay⟩
    intro hmem
    obtain ⟨b, hbm, hid⟩ := List.mem_map.mp hmem
    exact hready.fresh b (hdb' ▸ hbm) hid
  · intro hk
    obtain ⟨e, w₃, herr⟩ := hused hk
    exact ⟨e, w₃, by rw [hrun, herr, thenAlone_error]⟩

/-- **A decided case can be acted on iff its business key is unused.** -/
theorem decided_case_actionable_iff (cfg : Config) (balances : OrderId → ℕ)
    (inventory : Option (String → ℕ)) (now : Instant) (s : State)
    (hs : Reachable cfg (World.init balances inventory now) s) (case : ServiceCase)
    (d : DecisionResult) (h : Decided s.world case d) :
    Creates cfg s.world case d ↔
      ∀ b ∈ s.world.db.actions.rows, b.idempotencyKey ≠ businessKey cfg case d := by
  have hsound := sound_of_steps (sound_init cfg (fun _ => False) balances inventory now) hs
  have hfresh : ∀ b ∈ s.world.db.actions.rows, b.id ≠ s.world.uuids := fun b hb hid =>
    lt_irrefl _ (hid ▸ hsound.actionIds b hb id)
  obtain ⟨hunused, hused⟩ := createCaseAction_alone cfg h hfresh
  refine ⟨?_, hunused⟩
  rintro ⟨saved, w', hcreate, -⟩
  by_contra hk
  obtain ⟨e, w₃, herr⟩ := hused hk
  rw [herr] at hcreate
  cases hcreate

/-- A complaint with a decision. -/
def decidedSchedule : List (Label Request Tick) :=
  uninterrupted 0 (.createCase customer ⟨"ORDER-1001", .deliveryNotReceived, false, none⟩) 9

def decidedState : State :=
  (run (program demo) ⟨demoWorld, []⟩ decidedSchedule).get (by decide +kernel)

/-- The case of a state with one case. -/
def onlyCase (s : State) : Option ServiceCase := s.world.db.cases.rows.head?

/-- The refund decision of a case. -/
def refundDecision (case : ServiceCase) : Option DecisionResult :=
  match case.decisionJson with
  | .refund d => some d
  | _ => none

def decidedCase : ServiceCase := (onlyCase decidedState).get (by decide +kernel)

def decidedRefund : DecisionResult := (refundDecision decidedCase).get (by decide +kernel)

theorem decidedCase_decided : Decided decidedState.world decidedCase decidedRefund where
  stored := by decide +kernel
  status := by decide +kernel
  decision := by decide +kernel
  executable := by decide +kernel
  idle := by decide +kernel
  unpaid := by decide +kernel
  funded := by decide +kernel

/-- The new case of the demo can be acted on. -/
theorem decided_case_actionable_demo : Creates demo decidedState.world decidedCase decidedRefund :=
  (decided_case_actionable_iff demo _ _ _ decidedState (Steps.of_run_get _) decidedCase
    decidedRefund decidedCase_decided).mpr (by decide +kernel)

/-- The action of the case is rejected, and a supplement without news leads to the same decision. -/
def blockedSchedule : List (Label Request Tick) :=
  decidedSchedule ++
  uninterrupted 1 (.createAction customer 0) 17 ++
  uninterrupted 2 (.reject alice 2 ⟨1, "not plausible"⟩) 18 ++
  uninterrupted 3 (.supplementCase customer 0 { note := "please look again" }) 23

def blockedState : State :=
  (run (program demo) ⟨demoWorld, []⟩ blockedSchedule).get (by decide +kernel)

def blockedCase : ServiceCase := (onlyCase blockedState).get (by decide +kernel)

def blockedRefund : DecisionResult := (refundDecision blockedCase).get (by decide +kernel)

/-- The case is decided again, but no action can be created: the insert fails on the key of the
rejected action, and the error speaks of an active one. -/
theorem rejected_case_blocked :
    Reachable demo demoWorld blockedState ∧
    Decided blockedState.world blockedCase blockedRefund ∧
    ¬ Creates demo blockedState.world blockedCase blockedRefund ∧
    (runAlone database (createCaseAction demo blockedCase blockedCase.userId)
      blockedState.world).1 = .error (.concurrentAction "case already has an active action") := by
  have hrun : (runAlone database (createCaseAction demo blockedCase blockedCase.userId)
      blockedState.world).1 = .error (.concurrentAction "case already has an active action") := by
    decide +kernel
  refine ⟨Steps.of_run_get _, ⟨by decide +kernel, by decide +kernel, by decide +kernel,
    by decide +kernel, by decide +kernel, by decide +kernel, by decide +kernel⟩, ?_, hrun⟩
  rintro ⟨saved, w', hcreate, -⟩
  rw [hcreate] at hrun
  cases hrun

end AfterFlow
