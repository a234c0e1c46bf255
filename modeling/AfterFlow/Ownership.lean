import AfterFlow.Demo
import AfterFlow.Routines

/-!
# Money moved is never disowned

A capture happens before the save that completes the action, and a supplement rejects what it read
as approved. So captured money can end up without an owner, in two ways: the capture comes when the
row is rejected already, or the row is rejected after the capture and before its save. `KeepsOwned`
is the condition on a step that neither happens; on the runs that keep it, every captured refund is
completed or still approved.

## Main results

* `captured_is_owned` — captured money is owned on the runs that keep it so
-/

namespace AfterFlow

open Coop Coop.Logic

/-- A captured refund is completed, or approved and open to a retry. -/
def Owned (w : World) : Prop :=
  ∀ a ∈ w.db.actions.rows, a.actionType = .refund →
    (w.refunds.transactions a.idempotencyKey).isSome → a.status = .completed ∨ a.status = .approved

instance (w : World) : Decidable (Owned w) :=
  inferInstanceAs (Decidable (∀ a ∈ w.db.actions.rows, _ → _ → _))

/-! ### The condition -/

/-- The calls that execute, supplement, reject or reap. -/
def Request.Disposes : Request → Bool
  | .supplementCase .. | .continueIntakeCase .. | .reject .. | .execute .. | .listActions .. |
    .releaseExpiredReservations => true
  | _ => false

/-- The action whose money a call is about to capture: it has just read the action and its case, and
the checks of the execution pass. -/
def capturing (cfg : Config) (r : Request) (trace : List Segment) (w : World) :
    Option ActionRequest :=
  match r, answersOf trace with
  | .execute _ _ body, [⟨.getAction _ _, .ok (some a)⟩, _, ⟨.getCase _ _, .ok (some case)⟩] =>
    match checkExecution cfg.rt a body.payload body.expectedVersion
        (w.refunds.reservedOf case.orderId) w.refunds w.now with
    | .ok (orderId, amount) =>
      if w.refunds.transactions a.idempotencyKey = none ∧ amount ≤ w.refunds.reservedOf orderId then
        some a
      else none
    | .error _ => none
  | _, _ => none

/-- The row a call is about to reject, if it is approved. -/
def rejecting (waits : Option Op) (w : World) : Option ActionRequest :=
  match waits with
  | some (.updateAction a _ v) =>
    if a.status = .rejected then
      (w.db.actions.find? a.id).filter fun row => row.version = v ∧ row.status = .approved
    else none
  | _ => none

/-- The next step of a call neither captures the money of a rejected action nor rejects an approved
action whose money is captured. -/
def KeepsOwned (cfg : Config) : Guard := fun r trace waits out w =>
  out = .ok →
    (∀ a ∈ capturing cfg r trace w, ∀ row ∈ w.db.actions.find? a.id, row.status ≠ .rejected) ∧
    (∀ row ∈ rejecting waits w, w.refunds.transactions row.idempotencyKey = none)

instance (cfg : Config) (r : Request) (trace : List Segment) (waits : Option Op) (out : Outcome)
    (w : World) : Decidable (KeepsOwned cfg r trace waits out w) :=
  inferInstanceAs (Decidable (_ → (∀ a ∈ capturing cfg r trace w, ∀ row ∈ w.db.actions.find? a.id, _) ∧
    (∀ row ∈ rejecting waits w, _)))

/-- The runs of those calls all of whose steps keep captured money owned. -/
abbrev OwnedRun (cfg : Config) : State → Label Request Tick → Prop :=
  CallsWith Request.Disposes (KeepsOwned cfg)

/-! ### The writes -/

/-- A save that does not disown captured money. -/
theorem Owned.save {w : World} {copy a : ActionRequest} {u : Option String} {h : History}
    (hw : Owned w) (hseen : Seen copy w) (ht : Transition h copy a)
    (hok : (w.db.updateAction a u copy.version).1 = .ok 1)
    (hrej : ∀ row ∈ rejecting (some (.updateAction a u copy.version)) w,
      w.refunds.transactions row.idempotencyKey = none) :
    Owned { w with db := (w.db.updateAction a u copy.version).2 } := by
  obtain ⟨row, hv, hev, hsaved⟩ := saved_of_seen hseen ht hok
  have hnext := ht.evolves hev hv
  have hrow : row = { copy with reserved := row.reserved } := hev.eq_copy hv
  intro b hb hrefund hcaptured
  rcases hsaved.rows hb with ⟨hb, -⟩ | rfl
  · exact hw b hb hrefund hcaptured
  -- the row that was replaced had the same key, so it was completed or approved
  rw [hnext.idempotencyKey] at hcaptured
  have hstatus := hw row hsaved.mem (hnext.actionType ▸ hrefund) hcaptured
  have hcopy : copy.status = row.status := by rw [hrow]
  rw [← hcopy] at hstatus
  cases ht with
  | sign approver time comment reserved hpending => simp [hpending] at hstatus
  | complete transactionId reserved _ => exact .inl rfl
  | reap => exact hstatus
  | reject approvedBy approvedAt comment reserved hactive =>
    exfalso
    have happ : copy.status = .approved := by
      rcases hactive with hactive | hrejected
      · rcases hstatus with hst | hst
        · simp [ActionRequest.isActive, hst, ActionStatus.isActive] at hactive
        · exact hst
      · simp [hrejected] at hstatus
    have hnone := hrej row (by
      simp only [rejecting, if_true, Option.mem_def]
      refine Option.filter_eq_some_iff.mpr ⟨hsaved.found, ?_⟩
      simp [hv, ← hcopy, happ])
    rw [hnone] at hcaptured
    cases hcaptured

theorem refund_keys {rt : Runtime} {e : RefundExecutor} {orderId : OrderId} {amount : ℕ}
    {key k : String} (h : ((e.refund rt orderId amount key).2.transactions k).isSome) :
    (e.transactions k).isSome ∨
      k = key ∧ e.transactions key = none ∧ amount ≤ e.reservedOf orderId := by
  revert h
  rw [RefundExecutor.refund]
  split
  · exact .inl
  · rename_i hnone
    split
    · exact .inl
    · rename_i hle
      intro h
      by_cases hk : k = key
      · exact .inr ⟨hk, hnone, not_lt.mp hle⟩
      · exact .inl (by simpa [Function.update_of_ne hk] using h)

theorem captured_keys {rt : Runtime} {a : ActionRequest} {payload : Json}
    {expectedVersion balance : ℕ} {e : RefundExecutor} {now : Instant} {k : String}
    (h : ((executeApprovedAction rt a payload expectedVersion balance e now).2.transactions k).isSome) :
    (e.transactions k).isSome ∨ k = a.idempotencyKey ∧ e.transactions a.idempotencyKey = none ∧
      ∃ orderId amount, checkExecution rt a payload expectedVersion balance e now
        = .ok (orderId, amount) ∧ amount ≤ e.reservedOf orderId := by
  rw [executeApprovedAction] at h
  split at h
  · exact .inl h
  · rename_i orderId amount hcheck
    rcases refund_keys h with hbefore | ⟨hk, hnone, hle⟩
    · exact .inl hbefore
    · exact .inr ⟨hk, hnone, orderId, amount, hcheck, hle⟩

theorem Seen.not_pending {a row : ActionRequest} {w : World} (h : Seen a w)
    (hrow : w.db.actions.find? a.id = some row) (ha : a.status = .approved) :
    row.status ≠ .pendingApproval := by
  obtain ⟨row', hrow', hev⟩ := h
  rw [hrow, Option.some.injEq] at hrow'
  subst hrow'
  intro hp
  rw [hev.pending hp] at ha
  cases ha

theorem Owned.capture {cfg : Config} {w : World} {a : ActionRequest} (case : ServiceCase)
    {payload : Json} {expectedVersion : ℕ} (hw : Owned w) (hseen : Seen a w)
    (hcapture : ∀ orderId amount, checkExecution cfg.rt a payload expectedVersion
        (w.refunds.reservedOf case.orderId) w.refunds w.now = .ok (orderId, amount) →
      w.refunds.transactions a.idempotencyKey = none → amount ≤ w.refunds.reservedOf orderId →
      ∀ row ∈ w.db.actions.find? a.id, row.status ≠ .rejected) :
    Owned { w with refunds := (executeApprovedAction cfg.rt a payload expectedVersion
      (w.refunds.reservedOf case.orderId) w.refunds w.now).2 } := by
  intro b hb hrefund hcaptured
  rcases captured_keys hcaptured with hbefore | ⟨hk, hnone, orderId, amount, hcheck, hle⟩
  · exact hw b hb hrefund hbefore
  obtain ⟨row, hrow, hev⟩ := hseen
  have hmem : row ∈ w.db.actions.rows := Keyed.Table.mem_of_find? hrow
  have hb' : b = row := Keyed.Table.eq_of_key hb hmem
    (w.db.actions.keys b hb row hmem (hk.trans hev.idempotencyKey.symm))
  subst hb'
  have happ := (checkExecution_ok hcheck).1
  have hnrej := hcapture orderId amount hcheck hnone hle b hrow
  have hnpend := Seen.not_pending ⟨b, hrow, hev⟩ hrow happ
  cases hst : b.status with
  | pendingApproval => exact absurd hst hnpend
  | rejected => exact absurd hst hnrej
  | approved => exact .inr rfl
  | completed => exact .inl rfl

/-! ### The handlers -/

section Handlers

variable {cfg : Config} {r : Request}

theorem owned_writable : Writable Owned (KeepsOwned cfg) r where
  events _ _ h := h
  uuids _ _ h := h
  records _ _ _ h := h
  save _ _ hi hs ht ha hok := hi.save hs ht hok (ha rfl).2
  update _ _ hi _ _ := hi

theorem owned_reaper : Triple Owned (KeepsOwned cfg) (fun _ _ _ => True) r (fun _ => True)
    releaseExpiredReservations fun _ _ => True :=
  .releaseExpiredReservations owned_writable fun _ _ _ _ _ _ hi _ => hi

theorem owned_handler (hr : r.Disposes) :
    SafeHandler (keeping Owned (KeepsOwned cfg) fun _ _ _ => True) database r (handler cfg r) := by
  refine Triple.handler (Q := fun _ _ => True) (fun _ _ => trivial) ?_
  have hI : Writable Owned (KeepsOwned cfg) r := owned_writable
  have hsupplement : ∀ {id : Uuid} {u : Option String} (s : Supplement) (case : ServiceCase),
      Triple Owned (KeepsOwned cfg) (fun _ _ _ => True) r
        (fun c => c.answers = [⟨.getCase id u, .ok (some case)⟩, ⟨.close, .ok ()⟩])
        (continueIntakeCase cfg s case) fun _ _ => True := fun s case =>
    .continueIntakeCase hI s case (N := fun _ => True) (fun _ _ _ _ _ _ => trivial)
      fun _ _ _ _ hi _ _ _ => hi
  cases r with
  | supplementCase caller caseId body =>
    refine .bind (Q := fun _ c => c.answers = []) (.ofExcept fun _ _ _ h => h) fun actor =>
      .fromCase hI.toUnnoticed fun case => .bind ((hsupplement _ case).pre fun _ h => h.1)
        fun case' => ?_
    exact .quiet hI.toUnnoticed .true (aggregateCase_quiet case' actor.id)
  | continueIntakeCase caseId s =>
    exact .fromCase hI.toUnnoticed fun case => .bind ((hsupplement s case).pre fun _ h => h.1)
      fun _ => .pure fun _ h => h
  | reject caller actionId body =>
    exact .reject hI (N := fun _ _ => True) body (fun _ _ _ _ _ _ _ => trivial)
      fun _ _ _ _ _ hi _ _ => hi
  | execute caller actionId body =>
    refine .execute hI body (fun _ _ h => h) fun actor a case c hc _ => ?_
    have hadm := hc.facts
    refine hc.inv.capture case
      (hadm.now ▸ hadm.seen.elim fun e he => he.2.becomes (hc.recalled e he.1))
      fun orderId amount hcheck hnone hle => ?_
    rw [hadm.now] at hcheck hnone hle ⊢
    refine (hadm.guard rfl).1 a ?_
    simp only [capturing, hadm.answers, hcheck, hnone, hle, and_self, if_true, Option.mem_def]
  | listActions caller actionStatus =>
    exact .bind (Q := fun _ _ => True) (.ofExcept fun _ _ _ _ => trivial) fun _ =>
      .bind owned_reaper fun _ => .bind (.quiet hI.toUnnoticed .true
        (query_quiet (.listActionsWithCases actionStatus) trivial)) fun _ => .pure fun _ h => h
  | releaseExpiredReservations =>
    exact .bind (owned_reaper.pre fun _ _ => trivial) fun _ => .pure fun _ h => h
  | _ => cases hr

end Handlers

/-! ### Runs -/

theorem owned_upholds (cfg : Config) :
    Upholds cfg Owned (KeepsOwned cfg) (fun _ _ _ => True) (OwnedRun cfg) :=
  .of_calls (fun _ hr => owned_handler hr) fun _ _ h => h

/-- **Money moved is never disowned** on the runs that keep it owned at every step. -/
theorem captured_is_owned (cfg : Config) (db : Database) (refunds : RefundExecutor)
    (reverse : ReverseExecutor) (now : Instant) (uuids : Uuid)
    (hw : Owned (.start db refunds reverse now uuids)) (s : State)
    (hs : Steps (program cfg) (OwnedRun cfg) ⟨.start db refunds reverse now uuids, []⟩ s) :
    Owned s.world :=
  (owned_upholds cfg).inv (sound_start cfg db refunds reverse now uuids) hw hs

/-! ### Two runs -/

/-- The supplement reads the action as approved while its execution is between capture and save; the
execution saves first. -/
def ownedSchedule : List (Label Request Tick) :=
  .spawn (.execute alice 2 ⟨2, approvedPayload⟩) :: resumes 0 5 ++
  .spawn (.supplementCase customer 0 { note := "not needed" }) :: resumes 1 5 ++
  resumes 0 13 ++ resumes 1 2

def ownedState : State :=
  (runWith (program demo) (OwnedRun demo) ⟨approvedRefund, []⟩ ownedSchedule).get (by decide +kernel)

theorem captured_is_owned_demo : Owned ownedState.world ∧
    ownedState.world.db.actions.rows.map ActionRequest.status = [.completed] :=
  ⟨captured_is_owned demo _ _ _ _ _ (by decide +kernel) _ (Steps.of_runWith_get _),
    by decide +kernel⟩

/-- The same, and the supplement saves first: the execution ends in a conflict. -/
def disownedSchedule : List (Label Request Tick) :=
  .spawn (.execute alice 2 ⟨2, approvedPayload⟩) :: resumes 0 5 ++
  uninterrupted 1 (.supplementCase customer 0 { note := "not needed" }) 31 ++ resumes 0 2

def disownedState : State :=
  (runWith (program demo) (Calls Request.Disposes) ⟨approvedRefund, []⟩ disownedSchedule).get
    (by decide +kernel)

/-- **The money of a rejected refund was captured.** -/
theorem disowned : Owned approvedRefund ∧
    Steps (program demo) (Calls Request.Disposes) ⟨approvedRefund, []⟩ disownedState ∧
    ¬ Owned disownedState.world ∧
    disownedState.world.db.actions.rows.map ActionRequest.status = [.rejected] ∧
    disownedState.tasks.map failed = [true, false] :=
  ⟨by decide +kernel, Steps.of_runWith_get _, by decide +kernel, by decide +kernel,
    by decide +kernel⟩

end AfterFlow
