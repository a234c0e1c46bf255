import AfterFlow.Demo
import AfterFlow.Keyed.Latest
import Mathlib.Algebra.Ring.Int.Defs

/-!
# Conservation of the providers' ledgers

The payment and the dispatch adapter with whole numbers, in which nothing but the code keeps an
amount or a stock from going below zero. A session is a list of atomic calls, each with its answer;
what has been captured and sent is read off the answers, not off the ledgers.

## Main results

* `ledgers_conserved` — no money and no stock appears or vanishes
-/

namespace AfterFlow

open List Function Option

/-! ### The payment adapter -/

/-- `MockRefundExecutor` over whole numbers. -/
structure RefundLedger where
  transactions : String → Option String
  available : OrderId → ℤ
  reserved : OrderId → ℤ
  settled : String → Bool

namespace RefundLedger

def init (balances : OrderId → ℤ) : RefundLedger :=
  { transactions := fun _ => none, available := balances, reserved := fun _ => 0,
    settled := fun _ => false }

def reserve (e : RefundLedger) (orderId : OrderId) (amount : ℤ) : Bool × RefundLedger :=
  if e.available orderId < amount then (false, e)
  else (true, { e with
    available := update e.available orderId (e.available orderId - amount)
    reserved := update e.reserved orderId (e.reserved orderId + amount) })

def release (e : RefundLedger) (orderId : OrderId) (amount : ℤ) : RefundLedger :=
  let released := min (e.reserved orderId) amount
  { e with
    reserved := update e.reserved orderId (e.reserved orderId - released)
    available := update e.available orderId (e.available orderId + released) }

def settle (e : RefundLedger) (key : String) : RefundLedger :=
  if (e.transactions key).isSome then { e with settled := update e.settled key true }
  else e

def transactionId (rt : Runtime) (orderId : OrderId) (amount : ℤ) (key : String) : String :=
  let order := match orderId with
    | some s => s
    | none => "None"
  let digest := rt.sha256 (order ++ ":" ++ toString amount ++ ":" ++ key)
  "MOCK-REFUND-" ++ String.ofList (digest.toList.take 16)

def refund (rt : Runtime) (e : RefundLedger) (orderId : OrderId) (amount : ℤ) (key : String) :
    Except Exn String × RefundLedger :=
  match e.transactions key with
  | some transactionId => (.ok transactionId, e)
  | none =>
    if e.reserved orderId < amount then
      (.error (.actionConflict "insufficient reserved refund balance"), e)
    else
      let transactionId := transactionId rt orderId amount key
      (.ok transactionId, { e with
        transactions := update e.transactions key (some transactionId)
        reserved := update e.reserved orderId (e.reserved orderId - amount) })

end RefundLedger

/-! ### The dispatch adapter -/

/-- `MockReverseExecutor` over whole numbers. -/
structure ReverseLedger where
  outbound : String → Option String
  inventory : Option (String → ℤ)

namespace ReverseLedger

def init (inventory : Option (String → ℤ)) : ReverseLedger :=
  { outbound := fun _ => none, inventory }

def available (e : ReverseLedger) (sku : String) : Option ℤ :=
  e.inventory.map fun stock => stock sku

def reference (rt : Runtime) (orderId : OrderId) (sku kind key : String) : String :=
  let order := match orderId with
    | some s => s
    | none => "None"
  let digest := rt.sha256 (order ++ ":" ++ sku ++ ":" ++ kind ++ ":" ++ key)
  "MOCK-" ++ rt.upper kind ++ "-" ++ String.ofList (digest.toList.take 16)

/-- The stock after one more dispatch, if there is enough of it. -/
def take (e : ReverseLedger) (sku kind : String) : Except Exn (Option (String → ℤ)) :=
  match e.inventory with
  | none => .ok none
  | some stock =>
    if kind ≠ "resend" then .ok (some stock)
    else if stock sku < 1 then
      .error (.dispositionConflict "replacement inventory unavailable")
    else .ok (some (update stock sku (stock sku - 1)))

def dispatch (rt : Runtime) (e : ReverseLedger) (orderId : OrderId) (sku kind key : String) :
    Except Exn String × ReverseLedger :=
  match e.outbound key with
  | some reference => (.ok reference, e)
  | none =>
    match e.take sku kind with
    | .error error => (.error error, e)
    | .ok inventory =>
      let reference := reference rt orderId sku kind key
      (.ok reference, { outbound := update e.outbound key (some reference), inventory })

end ReverseLedger

/-! ### Sessions -/

/-- A call of one of the adapters' methods. -/
inductive ProviderCall
  | reserve (orderId : OrderId) (amount : ℤ)
  | release (orderId : OrderId) (amount : ℤ)
  | refund (orderId : OrderId) (amount : ℤ) (key : String)
  | settle (key : String)
  | dispatch (orderId : OrderId) (sku kind key : String)

inductive ProviderAnswer
  | reserved (granted : Bool)
  | done
  | reference (r : Except Exn String)

/-- The amount that a call names is not negative. -/
@[grind =] def ProviderCall.NonNeg : ProviderCall → Prop
  | .reserve _ amount | .release _ amount | .refund _ amount _ => 0 ≤ amount
  | .settle _ | .dispatch .. => True

structure Ledgers where
  refunds : RefundLedger
  reverse : ReverseLedger

/-- What a call answers and leaves. -/
def Ledgers.call (rt : Runtime) (l : Ledgers) : ProviderCall → ProviderAnswer × Ledgers
  | .reserve orderId amount =>
    let (granted, refunds) := l.refunds.reserve orderId amount
    (.reserved granted, { l with refunds })
  | .release orderId amount => (.done, { l with refunds := l.refunds.release orderId amount })
  | .refund orderId amount key =>
    let (r, refunds) := l.refunds.refund rt orderId amount key
    (.reference r, { l with refunds })
  | .settle key => (.done, { l with refunds := l.refunds.settle key })
  | .dispatch orderId sku kind key =>
    let (r, reverse) := l.reverse.dispatch rt orderId sku kind key
    (.reference r, { l with reverse })

/-- The calls so far with their answers, and the ledgers after them. -/
structure Session where
  trace : List (ProviderCall × ProviderAnswer)
  ledgers : Ledgers

namespace Session

def init (balances : OrderId → ℤ) (inventory : Option (String → ℤ)) : Session :=
  ⟨[], .init balances, .init inventory⟩

def call (rt : Runtime) (s : Session) (c : ProviderCall) : Session :=
  ⟨s.trace ++ [(c, (s.ledgers.call rt c).1)], (s.ledgers.call rt c).2⟩

def run (rt : Runtime) (s : Session) (calls : List ProviderCall) : Session :=
  calls.foldl (call rt) s

end Session

/-! ### What has been captured and sent -/

structure Capture where
  orderId : OrderId
  amount : ℤ
  reference : String

structure Shipment where
  sku : String
  kind : String
  reference : String

/-- A successful refund, under its key. -/
def captured : ProviderCall × ProviderAnswer → Option (String × Capture)
  | (.refund orderId amount key, .reference (.ok reference)) =>
    some (key, { orderId, amount, reference })
  | _ => none

/-- A successful dispatch, under its key. -/
def shipped : ProviderCall × ProviderAnswer → Option (String × Shipment)
  | (.dispatch _ sku kind key, .reference (.ok reference)) => some (key, { sku, kind, reference })
  | _ => none

/-- The first successful refund under each key. -/
def captures (trace : List (ProviderCall × ProviderAnswer)) : List (String × Capture) :=
  Keyed.firsts (trace.filterMap captured)

/-- The first successful dispatch under each key. -/
def shipments (trace : List (ProviderCall × ProviderAnswer)) : List (String × Shipment) :=
  Keyed.firsts (trace.filterMap shipped)

/-- The amounts captured from an order. -/
def capturedFrom (orderId : OrderId) (l : List (String × Capture)) : ℤ :=
  ((l.filter fun p => p.2.orderId = orderId).map fun p => p.2.amount).sum

/-- The units sent out again. -/
def resent (sku : String) (l : List (String × Shipment)) : ℕ :=
  l.countP fun p => p.2.kind = "resend" ∧ p.2.sku = sku

/-- Nothing is lost, nothing is owed, and no key counts twice. -/
structure Conserved (rt : Runtime) (balances : OrderId → ℤ) (stock : String → ℤ) (s : Session) :
    Prop where
  money : ∀ orderId, s.ledgers.refunds.available orderId + s.ledgers.refunds.reserved orderId +
    capturedFrom orderId (captures s.trace) = balances orderId
  available : ∀ orderId, 0 ≤ s.ledgers.refunds.available orderId
  reserved : ∀ orderId, 0 ≤ s.ledgers.refunds.reserved orderId
  goods : ∀ sku, ∃ remaining, s.ledgers.reverse.available sku = some remaining ∧ 0 ≤ remaining ∧
    remaining + resent sku (shipments s.trace) = stock sku
  refund_again : ∀ key capture, (captures s.trace).lookup key = some capture →
    ∀ orderId amount, s.ledgers.call rt (.refund orderId amount key) =
      (.reference (.ok capture.reference), s.ledgers)
  dispatch_again : ∀ key shipment, (shipments s.trace).lookup key = some shipment →
    ∀ orderId sku kind, s.ledgers.call rt (.dispatch orderId sku kind key) =
      (.reference (.ok shipment.reference), s.ledgers)

theorem capturedFrom_concat {orderId : OrderId} {l : List (String × Capture)} {key : String}
    {c : Capture} : capturedFrom orderId (l ++ [(key, c)]) =
      capturedFrom orderId l + if c.orderId = orderId then c.amount else 0 := by
  rw [capturedFrom, filter_append, map_append, sum_append, capturedFrom]
  by_cases h : c.orderId = orderId <;> simp [h]

theorem resent_concat {sku : String} {l : List (String × Shipment)} {key : String} {c : Shipment} :
    resent sku (l ++ [(key, c)]) =
      resent sku l + if c.kind = "resend" ∧ c.sku = sku then 1 else 0 := by
  rw [resent, countP_append, countP_singleton, resent]
  simp only [decide_eq_true_eq]

/-! ### The payment ledger -/

variable {rt : Runtime} {balances : OrderId → ℤ} {stock : String → ℤ}

/-- The payment ledger after these successful refunds. -/
structure RefundLedger.Kept (balances : OrderId → ℤ) (l : List (String × Capture))
    (e : RefundLedger) : Prop where
  recorded : ∀ key, e.transactions key = (l.lookup key).map Capture.reference
  money : ∀ orderId, e.available orderId + e.reserved orderId +
    capturedFrom orderId (Keyed.firsts l) = balances orderId
  available : ∀ orderId, 0 ≤ e.available orderId
  reserved : ∀ orderId, 0 ≤ e.reserved orderId

namespace RefundLedger.Kept

variable {l : List (String × Capture)} {e : RefundLedger} {orderId : OrderId} {amount : ℤ}
  {key : String}

theorem init (h : ∀ orderId, 0 ≤ balances orderId) : Kept balances [] (.init balances) where
  recorded _ := rfl
  money _ := by simp [RefundLedger.init, capturedFrom, Keyed.firsts, Keyed.latest]
  available := h
  reserved _ := le_refl _

theorem move (h : Kept balances l e) (orderId : OrderId) {amount : ℤ}
    (havailable : amount ≤ e.available orderId) (hreserved : 0 ≤ e.reserved orderId + amount) :
    Kept balances l { e with
      available := update e.available orderId (e.available orderId - amount)
      reserved := update e.reserved orderId (e.reserved orderId + amount) } where
  recorded := h.recorded
  money o := by
    have hmoney := h.money o
    by_cases ho : o = orderId
    · subst ho
      simp only [update_self]
      omega
    · simpa only [update_of_ne ho] using hmoney
  available o := by
    by_cases ho : o = orderId
    · subst ho
      simp only [update_self]
      omega
    · simpa only [update_of_ne ho] using h.available o
  reserved o := by
    by_cases ho : o = orderId
    · subst ho
      simpa only [update_self] using hreserved
    · simpa only [update_of_ne ho] using h.reserved o

theorem reserve (h : Kept balances l e) (hamount : 0 ≤ amount) :
    Kept balances l (e.reserve orderId amount).2 := by
  rw [RefundLedger.reserve]
  split
  · exact h
  · rename_i henough
    have hreserved := h.reserved orderId
    exact h.move orderId (not_lt.1 henough) (by omega)

theorem release (h : Kept balances l e) (hamount : 0 ≤ amount) :
    Kept balances l (e.release orderId amount) := by
  have havailable := h.available orderId
  have hreserved := h.reserved orderId
  have hfits : -min (e.reserved orderId) amount ≤ e.available orderId := by omega
  have hmove := h.move orderId hfits (by omega)
  rwa [Int.sub_neg, ← Int.sub_eq_add_neg] at hmove

theorem settle (h : Kept balances l e) : Kept balances l (e.settle key) := by
  rw [RefundLedger.settle]
  split
  · exact ⟨h.recorded, h.money, h.available, h.reserved⟩
  · exact h

theorem same (h : Kept balances l e) {p : ProviderCall × ProviderAnswer} (hp : captured p = none) :
    Kept balances (l ++ (captured p).toList) e := by
  rwa [hp, toList_none, append_nil]

theorem mem_keys_iff (h : Kept balances l e) :
    key ∈ Keyed.keys l ↔ (e.transactions key).isSome := by
  rw [← Keyed.lookup_isSome, h.recorded, isSome_map]

theorem again (h : Kept balances l e) (hkey : (e.transactions key).isSome) (c : Capture) :
    Kept balances (l ++ [(key, c)]) e where
  recorded k := by rw [h.recorded, Keyed.lookup_concat_known (h.mem_keys_iff.2 hkey)]
  money o := by
    rw [Keyed.firsts_concat, if_pos (h.mem_keys_iff.2 hkey)]
    exact h.money o
  available := h.available
  reserved := h.reserved

/-- An amount is captured from what is reserved. -/
theorem capture (h : Kept balances l e) (hkey : e.transactions key = none)
    (henough : amount ≤ e.reserved orderId) (reference : String) :
    Kept balances (l ++ [(key, ⟨orderId, amount, reference⟩)]) { e with
      transactions := update e.transactions key (some reference)
      reserved := update e.reserved orderId (e.reserved orderId - amount) } := by
  have hnew : key ∉ Keyed.keys l := by
    rw [h.mem_keys_iff, hkey]
    exact Bool.false_ne_true
  refine ⟨Keyed.update_lookup (p := (key, ⟨orderId, amount, reference⟩)) h.recorded hnew,
    fun o => ?_, h.available, fun o => ?_⟩
  · have hmoney := h.money o
    rw [Keyed.firsts_concat, if_neg hnew, capturedFrom_concat]
    dsimp only
    by_cases ho : o = orderId
    · subst ho
      rw [update_self, if_pos rfl]
      omega
    · rw [update_of_ne ho, if_neg (Ne.symm ho)]
      omega
  · dsimp only
    by_cases ho : o = orderId
    · subst ho
      rw [update_self]
      omega
    · rw [update_of_ne ho]
      exact h.reserved o

theorem refund (h : Kept balances l e) :
    Kept balances (l ++ (captured (.refund orderId amount key,
      .reference (e.refund rt orderId amount key).1)).toList)
      (e.refund rt orderId amount key).2 := by
  rw [RefundLedger.refund]
  cases hkey : e.transactions key with
  | some reference => exact h.again (by rw [hkey, isSome_some]) _
  | none =>
    dsimp only
    split
    · exact h.same rfl
    · rename_i henough
      exact h.capture hkey (not_lt.1 henough) _

end RefundLedger.Kept

/-! ### The dispatch ledger -/

/-- The dispatch ledger after these successful dispatches. -/
structure ReverseLedger.Kept (stock : String → ℤ) (l : List (String × Shipment))
    (e : ReverseLedger) : Prop where
  recorded : ∀ key, e.outbound key = (l.lookup key).map Shipment.reference
  goods : ∀ sku, ∃ remaining, e.available sku = some remaining ∧ 0 ≤ remaining ∧
    remaining + resent sku (Keyed.firsts l) = stock sku

namespace ReverseLedger.Kept

variable {l : List (String × Shipment)} {e : ReverseLedger} {orderId : OrderId}
  {sku kind key : String}

theorem init (h : ∀ sku, 0 ≤ stock sku) : Kept stock [] (.init (some stock)) where
  recorded _ := rfl
  goods sku := ⟨stock sku, rfl, h sku, Int.add_zero _⟩

theorem same (h : Kept stock l e) {p : ProviderCall × ProviderAnswer} (hp : shipped p = none) :
    Kept stock (l ++ (shipped p).toList) e := by
  rwa [hp, toList_none, append_nil]

theorem mem_keys_iff (h : Kept stock l e) : key ∈ Keyed.keys l ↔ (e.outbound key).isSome := by
  rw [← Keyed.lookup_isSome, h.recorded, isSome_map]

theorem again (h : Kept stock l e) (hkey : (e.outbound key).isSome) (c : Shipment) :
    Kept stock (l ++ [(key, c)]) e where
  recorded k := by rw [h.recorded, Keyed.lookup_concat_known (h.mem_keys_iff.2 hkey)]
  goods o := by
    rw [Keyed.firsts_concat, if_pos (h.mem_keys_iff.2 hkey)]
    exact h.goods o

/-- A resend takes a unit, and nothing else does. -/
theorem take_ok (h : Kept stock l e) {inventory : Option (String → ℤ)}
    (htake : e.take sku kind = .ok inventory) (o : String) :
    ∃ remaining, inventory.map (fun stock => stock o) = some remaining ∧ 0 ≤ remaining ∧
      remaining + resent o (Keyed.firsts l) + (if kind = "resend" ∧ sku = o then 1 else 0 : ℕ) =
        stock o := by
  obtain ⟨remaining, hremaining, hpos, hgoods⟩ := h.goods o
  rw [ReverseLedger.available] at hremaining
  rw [ReverseLedger.take] at htake
  cases hinventory : e.inventory with
  | none =>
    rw [hinventory] at hremaining
    cases hremaining
  | some left =>
    rw [hinventory] at hremaining htake
    obtain rfl : left o = remaining := some.inj hremaining
    dsimp only at htake
    split at htake
    · rename_i hkind
      obtain rfl := Except.ok.inj htake
      exact ⟨left o, rfl, hpos, by rw [if_neg fun h => hkind h.1]; omega⟩
    · rename_i hkind
      split at htake
      · cases htake
      · rename_i henough
        obtain rfl := Except.ok.inj htake
        refine ⟨update left sku (left sku - 1) o, rfl, ?_⟩
        by_cases ho : sku = o
        · subst ho
          rw [update_self, if_pos ⟨not_not.1 hkind, rfl⟩]
          omega
        · rw [update_of_ne (Ne.symm ho), if_neg fun h => ho h.2]
          omega

theorem dispatch (h : Kept stock l e) :
    Kept stock (l ++ (shipped (.dispatch orderId sku kind key,
      .reference (e.dispatch rt orderId sku kind key).1)).toList)
      (e.dispatch rt orderId sku kind key).2 := by
  rw [ReverseLedger.dispatch]
  cases hkey : e.outbound key with
  | some reference => exact h.again (by rw [hkey, isSome_some]) _
  | none =>
    have hnew : key ∉ Keyed.keys l := by
      rw [h.mem_keys_iff, hkey]
      exact Bool.false_ne_true
    cases htake : e.take sku kind with
    | error error => exact h.same rfl
    | ok inventory =>
      refine ⟨Keyed.update_lookup (p := (key, ⟨sku, kind, _⟩)) h.recorded hnew,
        fun o => ?_⟩
      obtain ⟨remaining, hremaining, hpos, hgoods⟩ := h.take_ok htake o
      refine ⟨remaining, hremaining, hpos, ?_⟩
      rw [shipped, toList_some, Keyed.firsts_concat, if_neg hnew, resent_concat,
        Int.natCast_add, ← Int.add_assoc]
      exact hgoods

end ReverseLedger.Kept

/-! ### Sessions keep the ledgers -/

/-- The ledgers after the successes of the session. -/
structure Session.Kept (balances : OrderId → ℤ) (stock : String → ℤ) (s : Session) : Prop where
  refunds : s.ledgers.refunds.Kept balances (s.trace.filterMap captured)
  reverse : s.ledgers.reverse.Kept stock (s.trace.filterMap shipped)

namespace Session.Kept

variable {s : Session}

theorem filterMap_call {α : Type} (f : ProviderCall × ProviderAnswer → Option α) (s : Session)
    (c : ProviderCall) : (s.call rt c).trace.filterMap f =
      s.trace.filterMap f ++ (f (c, (s.ledgers.call rt c).1)).toList := by
  rw [Session.call, filterMap_append, filterMap_cons, filterMap_nil]
  cases f (c, (s.ledgers.call rt c).1) <;> rfl

theorem call (h : s.Kept balances stock) {c : ProviderCall} (hc : c.NonNeg) :
    (s.call rt c).Kept balances stock := by
  constructor <;> rw [filterMap_call]
  · cases c with
    | reserve orderId amount => exact (h.refunds.reserve hc).same rfl
    | release orderId amount => exact (h.refunds.release hc).same rfl
    | refund orderId amount key => exact h.refunds.refund
    | settle key => exact h.refunds.settle.same rfl
    | dispatch orderId sku kind key => exact h.refunds.same rfl
  · cases c with
    | dispatch orderId sku kind key => exact h.reverse.dispatch
    | _ => exact h.reverse.same rfl

theorem run (h : s.Kept balances stock) {calls : List ProviderCall}
    (hcalls : ∀ c ∈ calls, c.NonNeg) : (s.run rt calls).Kept balances stock := by
  induction calls generalizing s with
  | nil => exact h
  | cons c calls ih =>
    obtain ⟨hc, hcalls⟩ := forall_mem_cons.1 hcalls
    exact ih (h.call hc) hcalls

theorem conserved (h : s.Kept balances stock) : Conserved rt balances stock s where
  money := h.refunds.money
  available := h.refunds.available
  reserved := h.refunds.reserved
  goods := h.reverse.goods
  refund_again key capture hkey orderId amount := by
    have hrecorded := h.refunds.recorded key
    rw [captures, Keyed.lookup_firsts] at hkey
    rw [hkey, map_some] at hrecorded
    rw [Ledgers.call, RefundLedger.refund, hrecorded]
  dispatch_again key shipment hkey orderId sku kind := by
    have hrecorded := h.reverse.recorded key
    rw [shipments, Keyed.lookup_firsts] at hkey
    rw [hkey, map_some] at hrecorded
    rw [Ledgers.call, ReverseLedger.dispatch, hrecorded]

end Session.Kept

/-- **The ledgers are conserved.** Every session of calls that name no negative amount leaves the
money and the goods where they were, sent out or paid out once for each key. -/
theorem ledgers_conserved (rt : Runtime) (hbalances : ∀ orderId, 0 ≤ balances orderId)
    (hstock : ∀ sku, 0 ≤ stock sku) (calls : List ProviderCall)
    (hcalls : ∀ c ∈ calls, c.NonNeg) :
    Conserved rt balances stock ((Session.init balances (some stock)).run rt calls) := by
  have hinit : (Session.init balances (some stock)).Kept balances stock :=
    ⟨.init hbalances, .init hstock⟩
  exact (hinit.run hcalls).conserved

/-- A key that comes again with another order, a release of more than is reserved, and a stock of
one that is asked for twice. -/
theorem ledgers_conserved_repeats :
    Conserved demoRuntime (fun _ => 100) (fun _ => 1)
      ((Session.init (fun _ => 100) (some fun _ => 1)).run demoRuntime
        [.reserve (some "ORDER-1001") 60, .release (some "ORDER-1001") 20,
          .refund (some "ORDER-1001") 30 "refund", .refund (some "ORDER-1002") 90 "refund",
          .release (some "ORDER-1001") 50, .settle "refund",
          .dispatch (some "ORDER-1001") "SKU-1" "resend" "first",
          .dispatch (some "ORDER-1001") "SKU-1" "resend" "first",
          .dispatch (some "ORDER-1001") "SKU-1" "resend" "second"]) :=
  ledgers_conserved demoRuntime (fun _ => by decide) (fun _ => by decide) _
    (by simp [ProviderCall.NonNeg])

end AfterFlow
