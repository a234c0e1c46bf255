import AfterFlow.Actions
import AfterFlow.Intake
import AfterFlow.Keyed.Table

/-!
# The database

The tables behind `repository.py` with the constraints of the ORM model. The constraints of the
action and event tables are fields of their types: primary key, `UNIQUE(idempotency_key)`, the
partial unique index on active actions, and `UNIQUE(case_id, seq)`. A write that would break one of
them has no resulting table; the database raises an integrity error instead.
-/

namespace AfterFlow

open List

structure ServiceCase where
  id : Uuid
  userId : String
  threadId : Option String
  orderId : OrderId
  issueType : Option String
  status : CaseStatus
  complaintText : String
  customerExpectation : Option String
  nextStep : NextStep
  replyDraft : String
  evidenceJson : Evidence
  decisionJson : CaseDecision
  version : ℕ := 1
  deriving DecidableEq

structure CaseEvent where
  id : Uuid
  caseId : Uuid
  eventType : String
  actor : String
  runId : Option String
  traceId : Option String
  metadata : Json
  prevHash : String
  eventHash : String
  createdAt : Instant
  seq : ℕ

/-- The columns an update of a case sets, besides the version. -/
structure CaseValues where
  complaintText : Option String := none
  orderId : Option OrderId := none
  issueType : Option (Option String) := none
  customerExpectation : Option (Option String) := none
  status : Option CaseStatus := none
  nextStep : Option NextStep := none
  evidenceJson : Option Evidence := none
  decisionJson : Option CaseDecision := none
  replyDraft : Option String := none

def CaseValues.apply (v : CaseValues) (c : ServiceCase) (version : ℕ) : ServiceCase :=
  { c with
    complaintText := v.complaintText.getD c.complaintText
    orderId := v.orderId.getD c.orderId
    issueType := v.issueType.getD c.issueType
    customerExpectation := v.customerExpectation.getD c.customerExpectation
    status := v.status.getD c.status
    nextStep := v.nextStep.getD c.nextStep
    evidenceJson := v.evidenceJson.getD c.evidenceJson
    decisionJson := v.decisionJson.getD c.decisionJson
    replyDraft := v.replyDraft.getD c.replyDraft
    version }

/-- The rows of `action_requests` with their constraints. -/
structure ActionTable extends Keyed.Table Uuid ActionRequest ActionRequest.id where
  /-- `UNIQUE(idempotency_key)`. -/
  keys : ∀ a ∈ rows, ∀ b ∈ rows, a.idempotencyKey = b.idempotencyKey → a.id = b.id
  /-- `uq_action_one_active_per_case`. -/
  active : ∀ a ∈ rows, ∀ b ∈ rows, a.isActive → b.isActive → a.caseId = b.caseId → a.id = b.id

namespace ActionTable

/-- A row of this id breaks no constraint against the other rows. -/
def Fits (t : ActionTable) (a : ActionRequest) : Prop :=
  ∀ b ∈ t.rows, b.id ≠ a.id →
    b.idempotencyKey ≠ a.idempotencyKey ∧ ¬ (a.isActive ∧ b.isActive ∧ a.caseId = b.caseId)

instance (t : ActionTable) (a : ActionRequest) : Decidable (t.Fits a) :=
  inferInstanceAs (Decidable (∀ b ∈ t.rows, _ → _ ∧ _))

def empty : ActionTable :=
  { Keyed.Table.empty with
    keys := fun _ h => (not_mem_nil h).elim
    active := fun _ h => (not_mem_nil h).elim }

private theorem keys_of_fits {t : ActionTable} {a x y : ActionRequest} (h : t.Fits a)
    (hx : x ∈ t.rows ∨ x = a) (hy : y ∈ t.rows ∨ y = a)
    (hk : x.idempotencyKey = y.idempotencyKey) : x.id = y.id := by
  rcases hx with hx | rfl <;> rcases hy with hy | rfl
  · exact t.keys x hx y hy hk
  · by_contra hne
    exact (h x hx hne).1 hk
  · by_contra hne
    exact (h y hy fun hc => hne hc.symm).1 hk.symm
  · rfl

private theorem active_of_fits {t : ActionTable} {a x y : ActionRequest} (h : t.Fits a)
    (hx : x ∈ t.rows ∨ x = a) (hy : y ∈ t.rows ∨ y = a) (hxa : x.isActive) (hya : y.isActive)
    (hc : x.caseId = y.caseId) : x.id = y.id := by
  rcases hx with hx | rfl <;> rcases hy with hy | rfl
  · exact t.active x hx y hy hxa hya hc
  · by_contra hne
    exact (h x hx hne).2 ⟨hya, hxa, hc.symm⟩
  · by_contra hne
    exact (h y hy fun h => hne h.symm).2 ⟨hxa, hya, hc⟩
  · rfl

/-- `INSERT`. -/
def insert (t : ActionTable) (a : ActionRequest) (hid : t.find? a.id = none) (h : t.Fits a) :
    ActionTable :=
  { t.toTable.insert a hid with
    keys := fun _ hx _ hy => keys_of_fits h (Keyed.Table.mem_insert.mp hx)
      (Keyed.Table.mem_insert.mp hy)
    active := fun _ hx _ hy => active_of_fits h (Keyed.Table.mem_insert.mp hx)
      (Keyed.Table.mem_insert.mp hy) }

/-- Replace the row of `a`'s id. -/
def put (t : ActionTable) (a : ActionRequest) (h : t.Fits a) : ActionTable :=
  { t.toTable.put a with
    keys := fun _ hx _ hy => keys_of_fits h ((Keyed.Table.mem_put.mp hx).imp And.left And.left)
      ((Keyed.Table.mem_put.mp hy).imp And.left And.left)
    active := fun _ hx _ hy => active_of_fits h
      ((Keyed.Table.mem_put.mp hx).imp And.left And.left)
      ((Keyed.Table.mem_put.mp hy).imp And.left And.left) }

end ActionTable

/-- The rows of `case_events` with `UNIQUE(case_id, seq)`. -/
structure EventTable where
  rows : List CaseEvent
  seqs : (rows.map fun e => (e.caseId, e.seq)).Nodup

namespace EventTable

def empty : EventTable := ⟨[], nodup_nil⟩

def insert (t : EventTable) (e : CaseEvent) (h : (e.caseId, e.seq) ∉ t.rows.map fun e => (e.caseId, e.seq)) :
    EventTable :=
  ⟨t.rows ++ [e], by
    rw [map_append, map_singleton, nodup_append]
    refine ⟨t.seqs, nodup_singleton _, fun a ha b hb hab => ?_⟩
    rw [mem_singleton.mp hb] at hab
    exact h (hab ▸ ha)⟩

/-- The rows of one case. -/
def ofCase (t : EventTable) (caseId : Uuid) : List CaseEvent :=
  t.rows.filter fun e => e.caseId = caseId

/-- `ORDER BY seq`. -/
def chain (t : EventTable) (caseId : Uuid) : List CaseEvent :=
  (t.ofCase caseId).insertionSort fun a b => a.seq ≤ b.seq

/-- `ORDER BY seq DESC LIMIT 1`. -/
def last (t : EventTable) (caseId : Uuid) : Option CaseEvent :=
  (t.ofCase caseId).foldl (fun best e => match best with
    | none => some e
    | some b => if b.seq < e.seq then some e else some b) none

end EventTable

structure Database where
  cases : Keyed.Table Uuid ServiceCase ServiceCase.id
  actions : ActionTable
  events : EventTable

namespace Database

def empty : Database := ⟨.empty, .empty, .empty⟩

/-- The case, if it belongs to the user; any case when no user is given. -/
def getCase (db : Database) (id : Uuid) (userId : Option String) : Option ServiceCase :=
  (db.cases.find? id).filter fun c => userId.all fun u => c.userId = u

/-- The action, if its case belongs to the user. -/
def getAction (db : Database) (id : Uuid) (userId : Option String) : Option ActionRequest :=
  (db.actions.find? id).filter fun a => userId.all fun u => (db.getCase a.caseId (some u)).isSome

/-- `list_case_actions`. -/
def caseActions (db : Database) (caseId : Uuid) (userId : String) : List ActionRequest :=
  if (db.getCase caseId (some userId)).isSome then
    (db.actions.rows.filter fun a => a.caseId = caseId).insertionSort
      fun a b => a.expiresAt ≥ b.expiresAt
  else []

/-- `list_expired_reserved_actions`: each action with the order its case has now. -/
def expiredReserved (db : Database) (now : Instant) : List (ActionRequest × OrderId) :=
  db.actions.rows.filterMap fun a =>
    if a.reserved ∧ a.isActive ∧ a.expiresAt < now then
      (db.getCase a.caseId none).map fun c => (a, c.orderId)
    else none

/-- `list_actions_with_cases`. -/
def actionsWithCases (db : Database) (status : Option ActionStatus) :
    List (ActionRequest × ServiceCase) :=
  ((db.actions.rows.filterMap fun a =>
    if status.all fun s => a.status = s then (db.getCase a.caseId none).map fun c => (a, c)
    else none).insertionSort fun a b => a.1.expiresAt ≤ b.1.expiresAt).take 100

/-- `INSERT INTO service_cases`. -/
def insertCase (db : Database) (c : ServiceCase) : Except Exn Unit × Database :=
  if h : db.cases.find? c.id = none then (.ok (), { db with cases := db.cases.insert c h })
  else (.error .integrityError, db)

/-- `UPDATE service_cases ... WHERE id AND user_id AND version`, and its row count. -/
@[grind =] def updateCase (db : Database) (id : Uuid) (userId : String) (expectedVersion : ℕ)
    (values : CaseValues) : Except Exn ℕ × Database :=
  match db.getCase id (some userId) with
  | none => (.ok 0, db)
  | some c =>
    if c.version ≠ expectedVersion then (.ok 0, db)
    else (.ok 1, { db with cases := db.cases.put (values.apply c (expectedVersion + 1)) })

/-- `INSERT INTO action_requests`. -/
def insertAction (db : Database) (a : ActionRequest) : Except Exn Unit × Database :=
  if h : db.actions.find? a.id = none ∧ db.actions.Fits a then
    (.ok (), { db with actions := db.actions.insert a h.1 h.2 })
  else (.error .integrityError, db)

/-- `UPDATE action_requests ... WHERE id AND version`, of an action whose case belongs to the user,
and its row count. Every column but `id` and `case_id` is set. -/
@[grind =] def updateAction (db : Database) (a : ActionRequest) (userId : Option String)
    (expectedVersion : ℕ) : Except Exn ℕ × Database :=
  match db.getAction a.id userId with
  | none => (.ok 0, db)
  | some row =>
    if row.version ≠ expectedVersion then (.ok 0, db)
    else if h : db.actions.Fits { a with caseId := row.caseId } then
      (.ok 1, { db with actions := db.actions.put { a with caseId := row.caseId } h })
    else (.error .integrityError, db)

/-- `INSERT INTO case_events`. -/
def insertEvent (db : Database) (e : CaseEvent) : Except Exn Unit × Database :=
  if h : (e.caseId, e.seq) ∉ db.events.rows.map fun e => (e.caseId, e.seq) then
    (.ok (), { db with events := db.events.insert e h })
  else (.error .integrityError, db)

end Database

end AfterFlow
