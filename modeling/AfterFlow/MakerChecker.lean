import AfterFlow.Demo
import AfterFlow.Discipline

/-!
# Maker and checker

Four eyes over whole runs: a refund that is approved or completed was either created approved, on a
decision policy may approve on its own, or carries the signatures it needs. The invariant is
`Sound`, which every handler keeps; here it is read off for the states of a run.

## Main results

* `maker_checker` — every reachable state keeps the four-eyes rule
-/

namespace AfterFlow

open Coop List

/-- The decision an action was created from, and that there is no other. -/
structure CreatedFrom (w : World) (a : ActionRequest) (o : Origin) (d : DecisionResult) : Prop where
  mem : o ∈ w.history.origins
  id : o.action.id = a.id
  unique : ∀ o' ∈ w.history.origins, o'.action.id = a.id → o' = o
  decision : o.decision = .refund d

/-- Created approved, from a decision that needs no approval and is not high risk. -/
def AutoApproved (o : Origin) (d : DecisionResult) : Prop :=
  o.action.status = .approved ∧ d.approvalRequired = false ∧ d.riskLevel ≠ .high

/-- Enough distinct people, none of them the requester, signed with the required role and in
time. -/
structure SignedOff (w : World) (a : ActionRequest) : Prop where
  enough : a.approversRequired ≤ a.approverIds.length
  distinct : a.approverIds.Nodup
  notMaker : a.requestedBy ∉ a.approverIds
  signed : ∀ p ∈ a.approverIds, ∃ time, time < a.expiresAt ∧
    (⟨a.id, p, a.requiredRole, time⟩ : Signature) ∈ w.history.signatures

theorem sound_init (cfg : Config) (old : Uuid → Prop) (balances : OrderId → ℕ)
    (inventory : Option (String → ℕ)) (now : Instant) :
    Sound cfg old (World.init balances inventory now) where
  actionIds _ h := (not_mem_nil h).elim
  vouched _ h := (not_mem_nil h).elim
  keyed _ h := (not_mem_nil h).elim
  originIds _ h := (not_mem_nil h).elim
  originsNodup := nodup_nil

theorem Sound.origin_unique {cfg : Config} {old : Uuid → Prop} {w : World} (h : Sound cfg old w)
    {o o' : Origin} (ho : o ∈ w.history.origins) (ho' : o' ∈ w.history.origins)
    (hid : o'.action.id = o.action.id) : o' = o :=
  inj_on_of_nodup_map h.originsNodup ho' ho hid

theorem Vouched.approved {cfg : Config} {old : Uuid → Prop} {w : World} {a : ActionRequest}
    (h : Vouched w.history a) (hs : Sound cfg old w) (hr : a.actionType = .refund) :
    ∃ o d, CreatedFrom w a o d ∧ (a.approversRequired = 2 ↔ d.riskTier = .fourEyes) ∧
      (a.status = .approved ∨ a.status = .completed → AutoApproved o d ∨ SignedOff w a) := by
  obtain ⟨o, ho, d, hid, hd, htier, happ⟩ := h.decided hr
  refine ⟨o, d, ⟨ho, hid, fun o' ho' hid' => hs.origin_unique ho ho' (hid'.trans hid.symm), hd⟩,
    htier, fun hst => ?_⟩
  rcases happ hst with ⟨hcreated, hauto⟩ | henough
  · simp only [autoApproved, decide_eq_true_eq, Bool.not_eq_true] at hauto
    exact .inl ⟨hcreated, hauto.1, hauto.2⟩
  · exact .inr ⟨henough, h.nodup, fun hm => (h.signed _ hm).1 rfl, fun p hp => (h.signed p hp).2⟩

/-- Four eyes in a state and in everything that can follow it. -/
structure FourEyes (cfg : Config) (s : State) : Prop where
  /-- Two signatures are needed exactly in the four-eyes tier, and an approved or completed refund
  was approved by policy or signed off. -/
  refunds : ∀ a ∈ s.world.db.actions.rows, a.actionType = .refund → ∃ o d,
    CreatedFrom s.world a o d ∧ (a.approversRequired = 2 ↔ d.riskTier = .fourEyes) ∧
      (a.status = .approved ∨ a.status = .completed → AutoApproved o d ∨ SignedOff s.world a)
  /-- Rejected and completed are final. -/
  final : ∀ s', Steps (program cfg) (fun _ _ => True) s s' → ∀ a ∈ s.world.db.actions.rows,
    a.status = .rejected ∨ a.status = .completed →
      ∃ a' ∈ s'.world.db.actions.rows, a'.id = a.id ∧ a'.status = a.status

/-- **Maker and checker.** Every reachable state keeps the four-eyes rule. -/
theorem maker_checker (cfg : Config) (balances : OrderId → ℕ) (inventory : Option (String → ℕ))
    (now : Instant) (s : State) (hs : Reachable cfg (World.init balances inventory now) s) :
    FourEyes cfg s := by
  have hinit := sound_init cfg (fun _ => False) balances inventory now
  have hsound := sound_of_steps hinit hs
  refine ⟨fun a ha hr => (hsound.vouched a ha id).approved hsound hr, fun s' hs' a ha hst => ?_⟩
  -- a state of the run is as good a start as the first one
  have hgood := (Logic.sound (versions_admits fun _ _ => True)
    (Logic.Good.init (L := versions cfg fun _ => False) hinit) hs).1
  have hb : Becomes s.world s'.world := (Logic.sound (versions_admits _) hgood hs').2
  obtain ⟨a', ha', hev⟩ := hb.actions a.id a (Keyed.Table.mem_iff_find?.mp ha)
  have hfinal : a.isActive = false := by
    rcases hst with hst | hst <;> simp [ActionRequest.isActive, hst, ActionStatus.isActive]
  exact ⟨a', Keyed.Table.mem_of_find? ha', hev.id, hev.final hfinal⟩

/-- A four-eyes refund from complaint to capture. -/
def fourEyesSchedule : List (Label Request Tick) :=
  uninterrupted 0 (.createCase customer ⟨"ORDER-1004", .deliveryNotReceived, false, none⟩) 9 ++
  uninterrupted 1 (.createAction customer 0) 17 ++
  uninterrupted 2 (.approve alice 2 ⟨1, none⟩) 18 ++
  uninterrupted 3 (.approve bob 2 ⟨2, none⟩) 18 ++
  uninterrupted 4 (.execute alice 2
    ⟨3, .obj [("order_id", .str "ORDER-1004"), ("amount", .int 800000)]⟩) 18

def fourEyesState : State :=
  (run (program demo) ⟨demoWorld, []⟩ fourEyesSchedule).get (by decide +kernel)

/-- There the refund is completed, with both signatures. -/
theorem maker_checker_demo : FourEyes demo fourEyesState ∧
    fourEyesState.world.db.actions.rows.map (fun a => (a.status, a.approverIds)) =
      [(.completed, ["alice", "bob"])] :=
  ⟨maker_checker demo _ _ _ fourEyesState (Steps.of_run_get _), by decide +kernel⟩

end AfterFlow
