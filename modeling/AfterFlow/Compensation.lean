import AfterFlow.MakerChecker

/-!
# How often a case is compensated

A case is not closed by a compensation: a supplement re-evaluates it whatever its status, and a new
decision can be acted on. What the constraints of the table give is one action at a time, and one
action for each payload ever.

## Main results

* `one_compensation_per_payload` — one active or completed action per payload
-/

namespace AfterFlow

open Coop

/-- At most one action of a case is completed for each payload, and at most one is active. -/
structure CompensatedOnce (w : World) : Prop where
  completed : ∀ a ∈ w.db.actions.rows, ∀ b ∈ w.db.actions.rows, a.caseId = b.caseId →
    a.status = .completed → b.status = .completed → a.payload = b.payload → a = b
  active : ∀ a ∈ w.db.actions.rows, ∀ b ∈ w.db.actions.rows, a.caseId = b.caseId →
    a.isActive → b.isActive → a = b

theorem Sound.payload_unique {cfg : Config} {old : Uuid → Prop} {w : World} (h : Sound cfg old w)
    {a b : ActionRequest} (ha : a ∈ w.db.actions.rows) (hb : b ∈ w.db.actions.rows)
    (hold : ¬ old a.id ∧ ¬ old b.id) (hc : a.caseId = b.caseId) (hp : a.payload = b.payload) :
    a = b := by
  have hkey : a.idempotencyKey = b.idempotencyKey := by
    rw [h.keyed a ha hold.1, h.keyed b hb hold.2, hc, hp]
  exact Keyed.Table.eq_of_key ha hb (w.db.actions.keys a ha b hb hkey)

/-- **One compensation for each payload.** -/
theorem one_compensation_per_payload (cfg : Config) (balances : OrderId → ℕ)
    (inventory : Option (String → ℕ)) (now : Instant) (s : State)
    (hs : Reachable cfg (World.init balances inventory now) s) : CompensatedOnce s.world where
  completed _ ha _ hb hc _ _ hp :=
    (sound_of_steps (sound_init cfg (fun _ => False) balances inventory now) hs).payload_unique
      ha hb ⟨id, id⟩ hc hp
  active a ha b hb hc hacta hactb :=
    Keyed.Table.eq_of_key ha hb (s.world.db.actions.active a ha b hb hacta hactb hc)

/-- A refund is paid, then the case is re-pointed to another order and paid again. -/
def secondRefundSchedule : List (Label Request Tick) :=
  uninterrupted 0 (.createCase customer ⟨"ORDER-1001", .deliveryNotReceived, false, none⟩) 9 ++
  uninterrupted 1 (.createAction customer 0) 17 ++
  uninterrupted 2 (.approve alice 2 ⟨1, none⟩) 18 ++
  uninterrupted 3 (.execute alice 2
    ⟨2, .obj [("order_id", .str "ORDER-1001"), ("amount", .int 90900)]⟩) 18 ++
  uninterrupted 4 (.supplementCase customer 0
    { note := "wrong order", orderId := some (some "ORDER-1002"),
      issueType := some (some .qualityIssue) }) 23 ++
  uninterrupted 5 (.createAction customer 0) 17 ++
  uninterrupted 6 (.approve alice 8 ⟨1, none⟩) 18 ++
  uninterrupted 7 (.execute alice 8
    ⟨2, .obj [("order_id", .str "ORDER-1002"), ("amount", .int 9900)]⟩) 18

def secondRefundState : State :=
  (run (program demo) ⟨demoWorld, []⟩ secondRefundSchedule).get (by decide +kernel)

/-- A refund is paid, then the customer asks for a replacement and gets it. -/
def replacementSchedule : List (Label Request Tick) :=
  uninterrupted 0 (.createCase customer ⟨"ORDER-1003", .qualityIssue, false, none⟩) 9 ++
  uninterrupted 1 (.createAction customer 0) 17 ++
  uninterrupted 2 (.approve alice 2 ⟨1, none⟩) 18 ++
  uninterrupted 3 (.execute alice 2
    ⟨2, .obj [("order_id", .str "ORDER-1003"), ("amount", .int 32800)]⟩) 18 ++
  uninterrupted 4 (.supplementCase customer 0
    { note := "a new one", customerExpectation := some (some .replacement),
      visualEvidenceConfirmed := some true, damageLevel := some .major,
      serialMatches := some true }) 23 ++
  uninterrupted 5 (.createAction customer 0) 17 ++
  uninterrupted 6 (.approve alice 8 ⟨1, none⟩) 18 ++
  uninterrupted 7 (.execute alice 8
    ⟨2, .obj [("order_id", .str "ORDER-1003"), ("sku", .str "KETTLE-SMART"),
      ("kind", .str "resend"), ("estimated_cost", .int 18800)]⟩) 18

def replacementState : State :=
  (run (program demo) ⟨demoWorld, []⟩ replacementSchedule).get (by decide +kernel)

/-- What was completed for which case. -/
def compensations (s : State) : List (Uuid × Payload) :=
  (s.world.db.actions.rows.filter fun a => a.status = .completed).map fun a => (a.caseId, a.payload)

/-- In the first state two refunds are completed, still distinct in their payloads. -/
theorem one_compensation_per_payload_demo : CompensatedOnce secondRefundState.world ∧
    (compensations secondRefundState).length = 2 :=
  ⟨one_compensation_per_payload demo _ _ _ secondRefundState (Steps.of_run_get _),
    by decide +kernel⟩

/-- One case, two refunds; one case, a refund and a replacement. -/
theorem compensated_twice :
    Reachable demo demoWorld secondRefundState ∧
    compensations secondRefundState =
      [(0, .refund (some "ORDER-1001") 90900 false), (0, .refund (some "ORDER-1002") 9900 false)] ∧
    Reachable demo demoWorld replacementState ∧
    compensations replacementState =
      [(0, .refund (some "ORDER-1003") 32800 false),
        (0, .resend (some "ORDER-1003") "KETTLE-SMART" 18800)] :=
  ⟨Steps.of_run_get _, by decide +kernel, Steps.of_run_get _, by decide +kernel⟩

end AfterFlow
