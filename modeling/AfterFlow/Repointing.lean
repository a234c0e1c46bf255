import AfterFlow.Demo
import AfterFlow.Routines

/-!
# Reservations return to the order they came from

Money is reserved and released on the order the case points to, as some call read it. A supplement
can point the case to another order. `Homed` is what makes the two orders one: every active refund
is on the order its case points to. It breaks when a case is re-pointed under an active action, and
a call goes wrong when the case is re-pointed between two of its reads. `KeepsPointing` excludes
exactly these moments.

## Main results

* `reservations_return_home` — reservations return on the runs that keep cases pointing
-/

namespace AfterFlow

open Coop Coop.Logic List

/-! ### The ledger as a replay -/

/-- What a move does to the ledger. -/
def Move.apply (m : Move) (e : RefundExecutor) : RefundExecutor :=
  match m.kind with
  | .reserve => (e.reserve m.orderId m.amount).2
  | .release => e.release m.orderId m.amount

/-- The ledger after some moves. -/
def replay (e : RefundExecutor) (moves : List Move) : RefundExecutor :=
  moves.foldl (fun e m => m.apply e) e

theorem Move.apply_other (m : Move) (e : RefundExecutor) {orderId : OrderId}
    (h : m.orderId ≠ orderId) :
    (m.apply e).available orderId = e.available orderId ∧
      (m.apply e).reserved orderId = e.reserved orderId := by
  rw [Move.apply]
  split
  · rw [RefundExecutor.reserve]
    split
    · exact ⟨rfl, rfl⟩
    · simp [Function.update_of_ne h.symm]
  · simp [RefundExecutor.release, Function.update_of_ne h.symm]

theorem replay_other (e : RefundExecutor) (moves : List Move) {orderId : OrderId}
    (h : ∀ m ∈ moves, m.orderId ≠ orderId) :
    (replay e moves).available orderId = e.available orderId ∧
      (replay e moves).reserved orderId = e.reserved orderId := by
  induction moves generalizing e with
  | nil => exact ⟨rfl, rfl⟩
  | cons m moves ih =>
    obtain ⟨ha, hr⟩ := ih (m.apply e) fun m' hm' => h m' (mem_cons_of_mem _ hm')
    obtain ⟨ha', hr'⟩ := m.apply_other e (h m mem_cons_self)
    exact ⟨ha.trans ha', hr.trans hr'⟩

/-! ### The invariant -/

/-- The order a case points to. -/
def orderOf (w : World) (caseId : Uuid) : Option OrderId :=
  (w.db.cases.find? caseId).map ServiceCase.orderId

theorem orderOf_getCase {w : World} {id : Uuid} {u : Option String} {case : ServiceCase}
    (h : w.db.getCase id u = some case) : orderOf w id = some case.orderId := by
  rw [orderOf, (getCase_some h).1, Option.map_some]

/-- Every active refund is on the order its case points to. -/
def OnOrder (w : World) : Prop :=
  ∀ a ∈ w.db.actions.rows, a.actionType = .refund → a.isActive →
    ∀ orderId ∈ orderOf w a.caseId, a.payload.orderId = orderId

/-- All money moved on the order of its action, and the ledger is made of these moves. -/
structure Homed (start : RefundExecutor) (w : World) : Prop where
  moves : ∀ m ∈ w.history.moves, m.orderId = m.action.payload.orderId
  ledger : w.refunds = replay start w.history.moves

/-- The invariant. -/
structure Pointed (start : RefundExecutor) (w : World) : Prop extends Homed start w where
  onOrder : OnOrder w

instance (w : World) : Decidable (OnOrder w) :=
  inferInstanceAs (Decidable (∀ a ∈ w.db.actions.rows, _ → _ → ∀ orderId ∈ orderOf w a.caseId, _))

/-! ### The condition -/

/-- The calls that create, decide, supplement or reap. -/
def Request.Reserves : Request → Bool
  | .createAction .. | .createCaseAction .. | .approve .. | .reject .. | .supplementCase .. |
    .continueIntakeCase .. | .listActions .. | .releaseExpiredReservations => true
  | _ => false

/-- The case still points to the order it pointed to when the call read it. -/
def Unmoved (case : ServiceCase) (w : World) : Prop := orderOf w case.id = some case.orderId

/-- A case update re-points no case that has an active refund. -/
def PointsFreely (id : Uuid) (u : String) (v : ℕ) (values : CaseValues) (w : World) : Prop :=
  ∀ case ∈ w.db.getCase id (some u), case.version = v →
    ∀ orderId ∈ values.orderId, orderId ≠ case.orderId →
      ∀ a ∈ w.db.actions.rows, a.caseId = case.id → a.actionType = .refund → ¬ a.isActive

/-- The next step of a call does not find the case re-pointed since the call read it, and re-points
no case under an active refund. -/
def KeepsPointing : Guard := fun _ trace waits out w =>
  out = .ok → match waits, answersOf trace with
    -- a create call inserts its action
    | some (.insertAction _), ⟨.getCase _ _, .ok (some case)⟩ :: _ => Unmoved case w
    -- a supplement lists the actions to invalidate
    | some (.listCaseActions _ _), [⟨.getCase _ _, .ok (some case)⟩, _] => Unmoved case w
    -- a supervisor call has read the action and reads the case
    | some (.getCase _ _), [⟨.getAction _ _, .ok (some a)⟩, _] =>
      a.status = .pendingApproval → ∀ e ∈ trace, e.answer.isSome →
        orderOf w a.caseId = orderOf e.after a.caseId
    | some (.updateCase id u v values), _ => PointsFreely id u v values w
    | _, _ => True

instance (case : ServiceCase) (w : World) : Decidable (Unmoved case w) :=
  inferInstanceAs (Decidable (_ = _))

instance (id : Uuid) (u : String) (v : ℕ) (values : CaseValues) (w : World) :
    Decidable (PointsFreely id u v values w) :=
  inferInstanceAs (Decidable (∀ case ∈ w.db.getCase id (some u), _ →
    ∀ orderId ∈ values.orderId, _ → ∀ a ∈ w.db.actions.rows, _ → _ → _))

instance (r : Request) (trace : List Segment) (waits : Option Op) (out : Outcome) (w : World) :
    Decidable (KeepsPointing r trace waits out w) := by
  simp only [KeepsPointing]
  split <;> infer_instance

/-! ### The writes -/

variable {start : RefundExecutor}

namespace Pointed

variable {w : World}

theorem release (h : Pointed start w) {a : ActionRequest} {orderId : OrderId} (amount : ℕ)
    (ha : a.payload.orderId = orderId) : Pointed start (w.release a orderId amount) := by
  refine ⟨⟨fun m hm => ?_, ?_⟩, h.onOrder⟩
  · rcases mem_append.mp hm with hm | hm
    · exact h.moves m hm
    · rw [mem_singleton.mp hm]
      exact ha.symm
  · rw [World.release, replay, foldl_append, foldl_cons, foldl_nil, ← replay,
      ← h.ledger]
    rfl

theorem reserve (h : Pointed start w) {a : ActionRequest} {orderId : OrderId} (amount : ℕ)
    (ha : a.payload.orderId = orderId) : Pointed start (w.reserve a orderId amount).2 := by
  by_cases hr : (w.refunds.reserve orderId amount).1 = true
  · refine ⟨⟨fun m hm => ?_, ?_⟩, h.onOrder⟩
    · have hm' : m ∈ w.history.moves ++ [⟨.reserve, a, orderId, amount⟩] := by
        simpa [World.reserve, hr] using hm
      rcases mem_append.mp hm' with hm | hm
      · exact h.moves m hm
      · rw [mem_singleton.mp hm]
        exact ha.symm
    · simp only [World.reserve, hr, if_true]
      rw [replay, foldl_append, foldl_cons, foldl_nil, ← replay, ← h.ledger]
      rfl
  · have hsame : (w.refunds.reserve orderId amount).2 = w.refunds := by
      revert hr
      rw [RefundExecutor.reserve]
      split
      · exact fun _ => rfl
      · exact fun hr => absurd rfl hr
    refine ⟨⟨fun m hm => h.moves m ?_, ?_⟩, h.onOrder⟩
    · simpa [World.reserve, hr] using hm
    · simp only [World.reserve, hr, hsame]
      exact h.ledger

/-- A save keeps an action on its case and its payload, and makes nothing active. -/
theorem save {copy a : ActionRequest} {u : Option String} {hist : History} (h : Pointed start w)
    (hseen : Seen copy w) (ht : Transition hist copy a)
    (hok : (w.db.updateAction a u copy.version).1 = .ok 1) :
    Pointed start { w with db := (w.db.updateAction a u copy.version).2 } := by
  obtain ⟨row, hv, hev, hsaved⟩ := saved_of_seen hseen ht hok
  generalize (w.db.updateAction a u copy.version).2 = db' at hsaved
  have hnext := ht.evolves hev hv
  refine ⟨⟨h.moves, h.ledger⟩, fun b hb hrefund hact orderId ho => ?_⟩
  rw [orderOf] at ho
  change orderId ∈ (db'.cases.find? b.caseId).map ServiceCase.orderId at ho
  rw [hsaved.cases] at ho
  rcases hsaved.rows hb with ⟨hb, -⟩ | rfl
  · exact h.onOrder b hb hrefund hact orderId ho
  · rw [hnext.payload]
    exact h.onOrder row hsaved.mem (hnext.actionType ▸ hrefund) (hnext.active hact) orderId
      (hnext.caseId ▸ ho)

theorem insert {a : ActionRequest} (h : Pointed start w)
    (ha : ∀ orderId ∈ orderOf w a.caseId, a.payload.orderId = orderId)
    (hok : (w.db.insertAction a).1 = .ok ()) :
    Pointed start { w with db := (w.db.insertAction a).2 } := by
  obtain ⟨hid, htable, hcases⟩ := insertAction_ok hok
  generalize (w.db.insertAction a).2 = db' at htable hcases
  refine ⟨⟨h.moves, h.ledger⟩, fun b hb hrefund hact orderId ho => ?_⟩
  rw [orderOf] at ho
  change orderId ∈ (db'.cases.find? b.caseId).map ServiceCase.orderId at ho
  rw [hcases] at ho
  have hb' : b ∈ db'.actions.toTable := hb
  rw [htable] at hb'
  rcases Keyed.Table.mem_insert.mp hb' with hb | rfl
  · exact h.onOrder b hb hrefund hact orderId ho
  · exact ha orderId ho

/-- A case without active refunds may be re-pointed. -/
theorem update {id : Uuid} {u : String} {values : CaseValues} {case : ServiceCase}
    (h : Pointed start w) (hcase : w.db.getCase id (some u) = some case)
    (hfree : PointsFreely id u case.version values w) (n : ℕ) :
    Pointed start { w with db := { w.db with cases := w.db.cases.put (values.apply case n) } } := by
  refine ⟨⟨h.moves, h.ledger⟩, fun a ha hrefund hact orderId ho => ?_⟩
  have hfound : w.db.cases.find? case.id = some case :=
    (getCase_some hcase).2.1.symm ▸ (getCase_some hcase).1
  have ho' : orderId ∈ ((w.db.cases.put (values.apply case n)).find? a.caseId).map
    ServiceCase.orderId := ho
  by_cases hid : a.caseId = case.id
  · have hput : (w.db.cases.put (values.apply case n)).find? case.id = some (values.apply case n) :=
      Keyed.Table.find?_put_self (x := case) (r := values.apply case n) hfound
    rw [hid, hput, Option.map_some, Option.mem_some_iff] at ho'
    have hold : a.payload.orderId = case.orderId :=
      h.onOrder a ha hrefund hact case.orderId (by rw [orderOf, hid, hfound]; rfl)
    rw [← ho', hold]
    show case.orderId = values.orderId.getD case.orderId
    cases hvalues : values.orderId with
    | none => rfl
    | some new =>
      -- re-pointed for real only if the action were not active
      by_contra hne
      exact hfree case hcase rfl new hvalues (fun hc => hne hc.symm) a ha hid hrefund hact
  · rw [Keyed.Table.find?_put_of_ne (by exact hid)] at ho'
    exact h.onOrder a ha hrefund hact orderId ho'

end Pointed

/-! ### The handlers -/

section Handlers

variable {cfg : Config} {r : Request}

theorem pointed_writable : Writable (Pointed start) KeepsPointing r where
  events _ _ h := ⟨⟨h.moves, h.ledger⟩, h.onOrder⟩
  uuids _ _ h := ⟨⟨h.moves, h.ledger⟩, h.onOrder⟩
  records _ _ _ h := ⟨⟨h.moves, h.ledger⟩, h.onOrder⟩
  save _ _ hi hs ht _ hok := hi.save hs ht hok
  update _ _ hi ha hcase := hi.update hcase (ha rfl) _

theorem refund_of_amount {a : ActionRequest} {amount : ℕ} (h : a.payload.amount = .ok amount) :
    a.actionType = .refund := by
  rw [ActionRequest.actionType]
  cases hp : a.payload with
  | refund => rfl
  | resend => rw [hp] at h; cases h

theorem pointed_reaper : Triple (Pointed start) KeepsPointing (fun _ _ _ => True) r
    (fun _ => True) releaseExpiredReservations fun _ _ => True :=
  .releaseExpiredReservations pointed_writable fun w₀ w p amount h₀ hex h hamount => by
    obtain ⟨case, hcase, hp⟩ := hex.case
    refine h.release amount (h₀.onOrder p.1 hex.mem (refund_of_amount hamount) hex.active _ ?_)
    rw [hp]
    exact orderOf_getCase hcase

/-- Where the case did not move since it was read, its active refunds are on the order read. -/
theorem pointed_listed {s : World} {case : ServiceCase} {u : String} {actions : List ActionRequest}
    {id : Uuid} {v : Option String}
    (h : Triple.Asked (Pointed start) KeepsPointing r
      (fun c => c.answers = [⟨.getCase id v, .ok (some case)⟩, ⟨.close, .ok ()⟩])
      (.listCaseActions case.id u) actions s) :
    ∀ a ∈ actions, a.isActive → a.actionType = .refund → a.payload.orderId = case.orderId := by
  obtain ⟨hi, hrep, c, hc, -, ha⟩ := h
  have hunmoved : Unmoved case s := by
    have hguard := ha rfl
    rw [Ctx.answersOf_close, hc.facts] at hguard
    exact hguard
  intro a hmem hact hrefund
  have hlist : s.db.caseActions case.id u = actions := Except.ok.inj hrep
  obtain ⟨hrow, hid⟩ := mem_caseActions (hlist ▸ hmem)
  exact hi.onOrder a hrow hrefund hact _ (by rw [hid, hunmoved]; rfl)

/-- A pending refund that a supervisor reads is on the order of the case read after it. -/
theorem Admitted.orderId {caller : Caller} {actionId : Uuid} {actor : Actor} {a : ActionRequest}
    {case : ServiceCase} {c : Context Unit}
    (h : Admitted (Pointed start) KeepsPointing r caller actionId actor a case c)
    (hpending : a.status = .pendingApproval) (hrefund : a.actionType = .refund) :
    a.payload.orderId = case.orderId := by
  obtain ⟨c₁, s, -, -, hanswers, ⟨e, he, hans, hi, hrep⟩, hguard, hcase⟩ := h.between
  have hsame : orderOf s a.caseId = orderOf e.after a.caseId := by
    have hg := hguard rfl
    rw [Ctx.answersOf_close, hanswers] at hg
    exact hg hpending e (Ctx.mem_close he) (by rw [hans]; rfl)
  have hget : e.after.db.getAction actionId none = some a := Except.ok.inj hrep
  have hact : a.isActive := by simp [ActionRequest.isActive, hpending, ActionStatus.isActive]
  refine hi.onOrder a (Keyed.Table.mem_of_find? (getAction_some hget).1) hrefund hact _ ?_
  rw [← hsame, orderOf_getCase hcase]
  rfl

theorem pointed_supplement {id : Uuid} {u : Option String} (s : Supplement) (case : ServiceCase) :
    Triple (Pointed start) KeepsPointing (fun _ _ _ => True) r
      (fun c => c.answers = [⟨.getCase id u, .ok (some case)⟩, ⟨.close, .ok ()⟩])
      (continueIntakeCase cfg s case) fun _ _ => True :=
  .continueIntakeCase pointed_writable s case
    (N := fun a => a.actionType = .refund → a.payload.orderId = case.orderId)
    (fun _ _ h => pointed_listed h) fun _ _ _ amount hi hN hev hamount =>
      hi.release amount (hev.payload.symm ▸ hN (hev.actionType ▸ refund_of_amount hamount))

theorem pointed_create {id : Uuid} {u : Option String} (case : ServiceCase) (actorId : String) :
    Triple (Pointed start) KeepsPointing (fun _ _ _ => True) r
      (Headed [⟨.getCase id u, .ok (some case)⟩]) (createCaseAction cfg case actorId)
      fun _ _ => True := by
  refine .createCaseAction pointed_writable case actorId (fun _ _ amount hi ha => hi.reserve amount ha)
    (fun _ _ amount hi ha => hi.release amount ha) fun c s a hc hi hid ha hguard hok =>
      hi.insert (fun orderId ho => ?_) hok
  obtain ⟨rest, hrest⟩ := hc
  have hunmoved : Unmoved case s := by
    have hg := hguard rfl
    rw [Ctx.answersOf_close, Ctx.answers, ← hrest] at hg
    exact hg
  rw [hid, hunmoved, Option.mem_some_iff] at ho
  exact ha.trans ho

theorem pointed_handler (hr : r.Reserves) :
    SafeHandler (keeping (Pointed start) KeepsPointing fun _ _ _ => True) database r
      (handler cfg r) := by
  refine Triple.handler (Q := fun _ _ => True) (fun _ _ => trivial) ?_
  have hI : Writable (Pointed start) KeepsPointing r := pointed_writable
  cases r with
  | createAction caller caseId =>
    refine .bind (Q := fun _ c => c.answers = []) (.ofExcept fun _ _ _ h => h) fun actor =>
      .fromCase hI.toUnnoticed fun case => .bind (Q := fun _ _ => True) (.tryCatch
        ((pointed_create case actor.id).pre fun _ h => h.2.1) fun e => ?_) fun action =>
          .bind (.appendEvent hI.toUnnoticed _) fun _ => .pure fun _ h => h
    cases e <;> exact .raise
  | createCaseAction caseId actorId =>
    exact .fromCase hI.toUnnoticed fun case => .bind ((pointed_create case actorId).pre
      fun _ h => h.2.1) fun _ => .pure fun _ h => h
  | approve caller actionId body =>
    exact .approve hI body (N := fun a case => a.payload.orderId = case.orderId)
      (fun _ _ _ _ h hp hr => h.orderId hp hr)
      (fun _ _ _ _ amount hi hN hpay => hi.reserve amount (hpay ▸ hN))
      fun _ _ _ _ amount hi hN hpay => hi.release amount (hpay ▸ hN)
  | reject caller actionId body =>
    exact .reject hI body (N := fun a case => a.payload.orderId = case.orderId)
      (fun _ _ _ _ h hp hr => h.orderId hp hr)
      fun _ _ _ _ amount hi hN hpay => hi.release amount (hpay ▸ hN)
  | supplementCase caller caseId body =>
    refine .bind (Q := fun _ c => c.answers = []) (.ofExcept fun _ _ _ h => h) fun actor =>
      .fromCase hI.toUnnoticed fun case => .bind ((pointed_supplement _ case).pre fun _ h => h.1)
        fun case' => ?_
    exact .quiet hI.toUnnoticed .true (aggregateCase_quiet case' actor.id)
  | continueIntakeCase caseId s =>
    exact .fromCase hI.toUnnoticed fun case => .bind ((pointed_supplement s case).pre fun _ h => h.1)
      fun _ => .pure fun _ h => h
  | listActions caller actionStatus =>
    exact .bind (Q := fun _ _ => True) (.ofExcept fun _ _ _ _ => trivial) fun _ =>
      .bind pointed_reaper fun _ => .bind (.quiet hI.toUnnoticed .true
        (query_quiet (.listActionsWithCases actionStatus) trivial)) fun _ => .pure fun _ h => h
  | releaseExpiredReservations =>
    exact .bind (pointed_reaper.pre fun _ _ => trivial) fun _ => .pure fun _ h => h
  | _ => cases hr

end Handlers

/-! ### Runs -/

theorem Homed.others {w : World} (h : Homed start w) {orderId : OrderId}
    (ho : ∀ m ∈ w.history.moves, m.action.payload.orderId ≠ orderId) :
    w.refunds.available orderId = start.available orderId ∧
      w.refunds.reserved orderId = start.reserved orderId := by
  rw [h.ledger]
  exact replay_other start _ fun m hm hc => ho m hm ((h.moves m hm).symm.trans hc)

/-- **Reservations return home** on the runs that keep cases pointing, and no action changes the
balances of another order. -/
theorem reservations_return_home (cfg : Config) (db : Database) (refunds : RefundExecutor)
    (reverse : ReverseExecutor) (now : Instant) (uuids : Uuid)
    (hw : OnOrder (.start db refunds reverse now uuids)) (s : State)
    (hs : Steps (program cfg) (CallsWith Request.Reserves KeepsPointing)
      ⟨.start db refunds reverse now uuids, []⟩ s) :
    Homed refunds s.world ∧ ∀ orderId, (∀ m ∈ s.world.history.moves,
        m.action.payload.orderId ≠ orderId) →
      s.world.refunds.available orderId = refunds.available orderId ∧
        s.world.refunds.reserved orderId = refunds.reserved orderId := by
  have hpointed : Pointed refunds s.world :=
    Upholds.inv (.of_calls (fun _ hr => pointed_handler hr) fun _ _ h => ⟨⟨h.moves, h.ledger⟩, h.onOrder⟩)
      (sound_start cfg db refunds reverse now uuids)
      (⟨⟨fun _ hm => (not_mem_nil hm).elim, rfl⟩, hw⟩ : Pointed refunds _) hs
  exact ⟨hpointed.toHomed, fun _ => hpointed.toHomed.others⟩

/-! ### Two runs -/

/-- A supplement that points the case elsewhere. -/
def repoint : Request := .supplementCase alice 0
  { note := "wrong order", orderId := some (some "ORDER-1001") }

/-- An action is created and reserves ¥328; the supplement invalidates it before it re-points. -/
def homedSchedule : List (Label Request Tick) :=
  uninterrupted 0 (.createAction alice 0) 17 ++ uninterrupted 1 repoint 31

def homedState : State :=
  (runWith (program demo) (CallsWith Request.Reserves KeepsPointing) ⟨autoDecided, []⟩
    homedSchedule).get (by decide +kernel)

theorem reservations_return_home_demo :
    Homed autoDecided.refunds homedState.world ∧
    homedState.world.history.moves.map (fun m => (m.kind, m.orderId, m.amount)) =
      [(.reserve, some "ORDER-1003", 32800), (.release, some "ORDER-1003", 32800)] :=
  ⟨(reservations_return_home demo _ _ _ _ _ (by decide +kernel) _ (Steps.of_runWith_get _)).1,
    by decide +kernel⟩

/-- The supplement has found nothing to invalidate when the action is inserted, and re-points the
case under it. A day later the reaper returns the reservation. -/
def strayedSchedule : List (Label Request Tick) :=
  .spawn repoint :: resumes 0 5 ++ .spawn (.createAction alice 0) :: resumes 1 6 ++
  resumes 0 18 ++ resumes 1 4 ++ .env ⟨86400000001⟩ :: uninterrupted 2 .releaseExpiredReservations 7

def strayedState : State :=
  (runWith (program demo) (Calls Request.Reserves) ⟨autoDecided, []⟩ strayedSchedule).get
    (by decide +kernel)

/-- **The money taken from one order is released to another.** -/
theorem released_elsewhere : OnOrder autoDecided ∧
    Steps (program demo) (Calls Request.Reserves) ⟨autoDecided, []⟩ strayedState ∧
    ¬ Homed autoDecided.refunds strayedState.world ∧
    strayedState.world.history.moves.map (fun m => (m.kind, m.orderId, m.amount)) =
      [(.reserve, some "ORDER-1003", 32800), (.release, some "ORDER-1001", 32800)] ∧
    strayedState.world.refunds.reserved (some "ORDER-1003") = 32800 := by
  refine ⟨by decide +kernel, Steps.of_runWith_get _, fun h => ?_, by decide +kernel,
    by decide +kernel⟩
  have hmoves := h.moves
  revert hmoves
  decide +kernel

end AfterFlow
