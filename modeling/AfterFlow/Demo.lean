import AfterFlow.Gateway

/-!
# The demo deployment

The system over the content of `mock_data.py`, on texts in ASCII. Digests are not shortened: a text
is its own digest, so that two digests agree only if the texts do. The schedules of the examples and
witnesses are over this deployment.
-/

namespace AfterFlow

open Coop

/-- `str.strip` on blanks. -/
def stripBlanks (s : String) : String :=
  String.ofList ((s.toList.dropWhile Char.isWhitespace).reverse.dropWhile
    Char.isWhitespace).reverse

/-- `RECOVERY_FACTOR`, in twentieths. -/
def recoveryTwentieths : DamageLevel → ℕ
  | .none => 20
  | .minor => 14
  | .major => 8
  | .destroyed => 0

def demoRuntime : Runtime where
  sha256 := fun s => s
  strip := stripBlanks
  lower := fun s => String.ofList (s.toList.map Char.toLower)
  upper := fun s => String.ofList (s.toList.map Char.toUpper)
  isWord := fun c => c.isAlphanum || c = '_'
  isDecimal := Char.isDigit
  discount := fun value level => (value * recoveryTwentieths level + 10) / 20

def demo : Config := ⟨demoRuntime, mockData⟩

/-- The world before the first call: nothing stored, nothing reserved. -/
def World.init (balances : OrderId → ℕ) (inventory : Option (String → ℕ)) (now : Instant) : World where
  db := .empty
  refunds := .init balances
  reverse := ⟨fun _ => none, inventory⟩
  now := now
  uuids := 0
  history := ⟨[], [], []⟩

/-- The refundable balances of the demo orders. -/
def demoBalances : OrderId → ℕ
  | some id => ((mockData.payments.lookup id).map PaymentRecord.refundableBalance).getD 0
  | none => 0

def demoWorld : World := .init demoBalances (some fun sku =>
  ((mockData.inventory.lookup sku).map InventoryRecord.available).getD 0) 0

/-- The states of the runs from an empty database: any calls, any interleaving, any failures. -/
abbrev Reachable (cfg : Config) (w : World) (s : State) : Prop :=
  Steps (program cfg) (fun _ _ => True) ⟨w, []⟩ s

/-- `n` steps of call `i` in a row, nothing failing. -/
def resumes (i n : ℕ) : List (Label Request Tick) := List.replicate n (.resume i .ok)

/-- The `i`-th call, in `n` steps in a row. -/
def uninterrupted (i : ℕ) (req : Request) (n : ℕ) : List (Label Request Tick) :=
  .spawn req :: resumes i n

/-- The world as it is, taken as the one before the first call. -/
def World.restart (w : World) : World := .start w.db w.refunds w.reverse w.now w.uuids

/-- A call that raised. -/
def failed (t : Call) : Bool :=
  match t.result with
  | some (.error _) => true
  | _ => false

/-- A customer, two supervisors. -/
def customer : Caller := ⟨some ⟨"customer", .user⟩, none⟩

def alice : Caller := ⟨some ⟨"alice", .admin⟩, none⟩

def bob : Caller := ⟨some ⟨"bob", .admin⟩, none⟩

/-- The world after a schedule of the demo, for the runs that begin there. -/
def worldAfter (ls : List (Label Request Tick)) (h : (run (program demo) ⟨demoWorld, []⟩ ls).isSome) :
    World :=
  ((run (program demo) ⟨demoWorld, []⟩ ls).get h).world.restart

/-- A case that policy approves on its own. -/
def autoDecided : World := worldAfter
  (uninterrupted 0 (.createCase alice ⟨"ORDER-1003", .qualityIssue, false, none⟩) 9)
  (by decide +kernel)

/-- One approved refund of ¥909, its money reserved. -/
def approvedRefund : World := worldAfter
  (uninterrupted 0 (.createCase customer ⟨"ORDER-1001", .deliveryNotReceived, false, none⟩) 9 ++
    uninterrupted 1 (.createAction customer 0) 17 ++
    uninterrupted 2 (.approve alice 2 ⟨1, none⟩) 18) (by decide +kernel)

/-- Its payload. -/
def approvedPayload : Json := .obj [("order_id", .str "ORDER-1001"), ("amount", .int 90900)]

end AfterFlow
