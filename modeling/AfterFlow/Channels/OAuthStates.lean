import AfterFlow.Transition.Runs
import Mathlib.Data.List.Nodup
import Mathlib.Order.Lattice

/-!
# Pending OAuth states

A user who connects a channel is given a state, which comes back with the provider's callback or in
a message to the bot, and is consumed. `ChannelConnectionRepository` keeps the states in a table.
Three calls write there, each with a transaction of several statements: one that creates a state
unless the user has too many that are pending, one that consumes a state and one that deletes what
has expired.

All three begin with a DELETE, which takes the write lock, so their transactions come one after the
other. But each call asks for the time before that and may have to wait, so its time can be behind.
What it takes for expired has then expired, and what it counts as pending is at least what is. What
it takes for usable may have expired: the UPDATE that consumes a state does not look at the time.

## Main results

* `World.Guarded.step` — what each statement keeps
* `World.Punctual.step` — what is kept as long as no state expires in the hands of a call
* `states_used_once` — a state is used once, for its provider, and in time if none expires so; few
  are pending
-/

namespace AfterFlow.Channels.OAuthStates

open Transition List Function

/-- What the callback wants to know. -/
structure Request (M : Type) where
  codeVerifierEncrypted : Option String
  nonceHash : Option String
  redirectAfter : Option String
  requestedScopes : List String
  metadata : M
  deriving DecidableEq

/-- `ChannelOAuthStateRow`, with its place among the rows that were ever inserted. -/
structure StateRow (T M : Type) where
  stateHash : String
  ownerUserId : String
  provider : String
  request : Request M
  expiresAt : T
  consumedAt : Option T
  number : ℕ
  deriving DecidableEq

inductive Call (T M : Type) where
  /-- `create_oauth_state_within_cap`. -/
  | create (ownerUserId provider state : String) (expiresAt : T) (request : Request M)
  /-- `consume_oauth_state`. -/
  | consume (provider state : String)
  /-- `delete_expired_oauth_states`. -/
  | deleteExpired

/-- What `consume_oauth_state` returns. -/
structure Grant (M : Type) where
  ownerUserId : String
  provider : String
  requestedScopes : List String
  metadata : M
  redirectAfter : Option String
  deriving DecidableEq

inductive Result (M : Type) where
  | created (ok : Bool)
  | consumed (grant : Option (Grant M))
  | deleted (count : ℕ)
  | failed
  deriving DecidableEq

/-- How far a call is. From `pruned` on it has the write lock, until it is done. -/
inductive Stage (T M : Type) where
  | called
  /-- The call has its `current_time`. -/
  | begun (now : T)
  /-- It has deleted what has expired. -/
  | pruned (now : T) (count : ℕ)
  | counted (now : T) (pending : ℕ)
  | inserted
  | read (now : T) (row : Option (StateRow T M))
  | updated (now : T) (row : StateRow T M) (rowcount : ℕ)
  | done (result : Result M)

def Stage.hasLock {T M : Type} : Stage T M → Bool
  | .called | .begun _ | .done _ => false
  | _ => true

/-- A state that was consumed with success: its number, for which provider, and the time by the
clock, which may be later than the `current_time` of the call. -/
structure Use (T : Type) where
  number : ℕ
  provider : String
  usedAt : T
  deriving DecidableEq

structure World (T M I : Type) where
  clock : T
  /-- The table as it was committed. -/
  rows : List (StateRow T M)
  /-- The table as the transaction with the write lock sees it. -/
  txn : Option (I × List (StateRow T M))
  stage : I → Stage T M
  /-- The rows that were ever inserted, as they were then. -/
  inserted : List (StateRow T M)
  uses : List (Use T)

inductive Act (T I : Type) where
  | tick (now : T)
  /-- `datetime.now(UTC)`. -/
  | begin (i : I)
  /-- The next statement of the call. -/
  | statement (i : I)
  /-- A statement raises, and the transaction is rolled back. -/
  | fail (i : I)

variable {T M I : Type} [LinearOrder T] [DecidableEq I]

def Expired (now : T) (r : StateRow T M) : Bool := r.expiresAt < now

/-- The rows that count against the cap. -/
def IsPending (ownerUserId provider : String) (now : T) (r : StateRow T M) : Bool :=
  r.ownerUserId = ownerUserId && r.provider = provider && r.consumedAt.isNone && now ≤ r.expiresAt

def pending (rows : List (StateRow T M)) (ownerUserId provider : String) (now : T) : ℕ :=
  rows.countP (IsPending ownerUserId provider now)

/-- The rows that the conditional UPDATE is about. -/
def IsOpen (stateHash : String) (r : StateRow T M) : Bool :=
  r.stateHash = stateHash && r.consumedAt.isNone

def consumeRow (stateHash : String) (now : T) (r : StateRow T M) : StateRow T M :=
  if IsOpen stateHash r then { r with consumedAt := some now } else r

def StateRow.grant (r : StateRow T M) : Grant M :=
  ⟨r.ownerUserId, r.provider, r.request.requestedScopes, r.request.metadata, r.request.redirectAfter⟩

/-- The checks of `consume_oauth_state` on the row that it gets. -/
def Usable (provider : String) (now : T) (r : StateRow T M) : Bool :=
  r.provider = provider && r.consumedAt.isNone && !Expired now r

def World.goTo (w : World T M I) (i : I) (stage : Stage T M) : World T M I :=
  { w with stage := update w.stage i stage }

/-- The call has the write lock and sees these rows. -/
def World.inTxn (w : World T M I) (i : I) (rows : List (StateRow T M)) (stage : Stage T M) :
    World T M I :=
  { w.goTo i stage with txn := some (i, rows) }

def World.rollback (w : World T M I) (i : I) (result : Result M) : World T M I :=
  { w.goTo i (.done result) with txn := none }

def World.commit (w : World T M I) (i : I) (rows : List (StateRow T M)) (result : Result M) :
    World T M I :=
  { w.goTo i (.done result) with txn := none, rows := rows }

variable (hashState : String → String) (maxPending : String → String → ℕ) (calls : I → Call T M)

/-- The rows that the leading DELETE of a call deletes. -/
def Call.Prunes (now : T) : Call T M → StateRow T M → Bool
  | .create ownerUserId provider _ _ _, r =>
    r.ownerUserId = ownerUserId && r.provider = provider && Expired now r
  | .consume _ _, r | .deleteExpired, r => Expired now r

/-- The row that `create_oauth_state_within_cap` adds. -/
def World.newRow (w : World T M I) (ownerUserId provider state : String) (expiresAt : T)
    (request : Request M) : StateRow T M :=
  ⟨hashState state, ownerUserId, provider, request, expiresAt, none, w.inserted.length⟩

/-- The statements after the first, for the call that sees `rows`. -/
@[grind =] def World.next (w : World T M I) (i : I) (rows : List (StateRow T M)) : Option (World T M I) :=
  match calls i, w.stage i with
  | .create ownerUserId provider _ _ _, .pruned now _ =>
    some (w.inTxn i rows (.counted now (pending rows ownerUserId provider now)))
  | .create ownerUserId provider state expiresAt request, .counted _ n =>
    let row := w.newRow hashState ownerUserId provider state expiresAt request
    if maxPending ownerUserId provider ≤ n then some (w.rollback i (.created false))
    -- the hash is the primary key
    else if row.stateHash ∈ rows.map StateRow.stateHash then some (w.rollback i .failed)
    else some { w.inTxn i (rows ++ [row]) .inserted with inserted := w.inserted ++ [row] }
  | .create _ _ _ _ _, .inserted => some (w.commit i rows (.created true))
  | .consume _ state, .pruned now _ =>
    some (w.inTxn i rows (.read now (rows.find? fun r => r.stateHash = hashState state)))
  | .consume _ _, .read _ none => some (w.commit i rows (.consumed none))
  | .consume provider state, .read now (some row) =>
    if Usable provider now row then
      some (w.inTxn i (rows.map (consumeRow (hashState state) now))
        (.updated now row (rows.countP (IsOpen (hashState state)))))
    else some (w.commit i rows (.consumed none))
  | .consume provider _, .updated _ row rowcount =>
    if rowcount = 1 then
      some { w.commit i rows (.consumed (some row.grant)) with
        uses := w.uses ++ [⟨row.number, provider, w.clock⟩] }
    else some (w.commit i rows (.consumed none))
  | .deleteExpired, .pruned _ count => some (w.commit i rows (.deleted count))
  | _, _ => none

/-- One act, if it is somebody's turn to do it. -/
@[grind =] def step (w : World T M I) : Act T I → Option (World T M I)
  | .tick now => if w.clock ≤ now then some { w with clock := now } else none
  | .begin i =>
    match w.stage i with
    | .called => some (w.goTo i (.begun w.clock))
    | _ => none
  | .statement i =>
    match w.txn with
    | none =>
      match w.stage i with
      | .begun now =>
        some (w.inTxn i (w.rows.filter fun r => !(calls i).Prunes now r)
          (.pruned now (w.rows.countP ((calls i).Prunes now))))
      | _ => none
    | some (j, rows) => if j = i then w.next hashState maxPending calls i rows else none
  | .fail i =>
    match w.stage i with
    | .called | .done _ => none
    | .begun _ => some (w.goTo i (.done .failed))
    | _ => some (w.rollback i .failed)

/-- An empty table. -/
def World.start (clock : T) : World T M I := ⟨clock, [], none, fun _ => .called, [], []⟩

/-- The use is of a state that was created for the provider. -/
def Use.Proper (inserted : List (StateRow T M)) (u : Use T) : Prop :=
  ∃ r, inserted[u.number]? = some r ∧ u.provider = r.provider

/-- The use is of a state that had not expired. -/
def Use.Timely (inserted : List (StateRow T M)) (u : Use T) : Prop :=
  ∃ r, inserted[u.number]? = some r ∧ u.usedAt ≤ r.expiresAt

/-- A state is used at most once and for its provider, and the pending states of a user are within
the cap. -/
structure World.Sound (w : World T M I) : Prop where
  once : (w.uses.map Use.number).Nodup
  proper : ∀ u ∈ w.uses, u.Proper w.inserted
  capped : ∀ ownerUserId provider,
    pending w.rows ownerUserId provider w.clock ≤ maxPending ownerUserId provider

/-- The state that the SELECT of a call finds, if the call will consume it. -/
def World.finds (w : World T M I) (i : I) : Option (StateRow T M) :=
  match w.txn, calls i, w.stage i with
  | some (_, rows), .consume provider state, .pruned now _ =>
    (rows.find? fun r => r.stateHash = hashState state).filter (Usable provider now)
  | _, _, _ => none

/-- The state that a call has found and will consume. -/
def held : Call T M → Stage T M → Option (StateRow T M)
  | .consume provider _, .read now row => row.filter (Usable provider now)
  | .consume _ _, .updated _ row rowcount => if rowcount = 1 then some row else none
  | _, _ => none

/-- The state that the transaction under way has found and will consume. -/
def World.inHand (w : World T M I) : Option (StateRow T M) :=
  w.txn.bind fun txn => held (calls txn.1) (w.stage txn.1)

/-- No state expires in the hands of a call: by the clock, one that a SELECT finds and that is usable
at the time of the call has not expired, and it does not until the call has committed. -/
def InTime (w : World T M I) : Act T I → Prop
  | .tick now => ∀ row ∈ w.inHand calls, now ≤ row.expiresAt
  | .statement i => ∀ row ∈ w.finds hashState calls i, w.clock ≤ row.expiresAt
  | _ => True

instance (w : World T M I) (a : Act T I) : Decidable (InTime hashState calls w a) := by
  cases a <;> simp only [InTime] <;> infer_instance

/-! ### The rows that a transaction sees -/

variable {hashState maxPending calls} {w w' : World T M I} {i j : I} {now clock : T}
  {r row : StateRow T M} {rows rows' inserted : List (StateRow T M)} {uses : List (Use T)}
  {used : List ℕ} {stateHash ownerUserId provider state : String} {stage : Stage T M}

theorem pending_anti (h : clock ≤ now) :
    pending rows ownerUserId provider now ≤ pending rows ownerUserId provider clock := by
  refine countP_mono_left fun r _ hr => ?_
  simp only [IsPending, Bool.and_eq_true, decide_eq_true_eq] at hr ⊢
  exact ⟨hr.1, h.trans hr.2⟩

theorem pending_sublist (h : List.Sublist rows' rows) :
    pending rows' ownerUserId provider now ≤ pending rows ownerUserId provider now :=
  h.countP_le

section Rows

omit [LinearOrder T]

@[simp] theorem consumeRow_stateHash : (consumeRow stateHash now r).stateHash = r.stateHash := by
  rw [consumeRow]
  split <;> rfl

@[simp] theorem consumeRow_number : (consumeRow stateHash now r).number = r.number := by
  rw [consumeRow]
  split <;> rfl

theorem consumeRow_open (h : (consumeRow stateHash now r).consumedAt = none) :
    consumeRow stateHash now r = r ∧ r.stateHash ≠ stateHash := by
  rw [consumeRow] at h ⊢
  split at h
  · cases h
  · rename_i hopen
    refine ⟨if_neg hopen, fun hhash => hopen ?_⟩
    simp [IsOpen, hhash, h]

end Rows

theorem pending_consume :
    pending (rows.map (consumeRow stateHash now)) ownerUserId provider clock ≤
      pending rows ownerUserId provider clock := by
  rw [pending, countP_map]
  refine countP_mono_left fun r _ hr => ?_
  have hopen : (consumeRow stateHash now r).consumedAt = none := by
    simp only [comp, IsPending, Bool.and_eq_true, Option.isNone_iff_eq_none] at hr
    exact hr.1.2
  rwa [comp, (consumeRow_open hopen).1] at hr

/-- Hashes and numbers are unique, the rows are those that were inserted, an open row has not been
used, and the pending rows are within the cap. -/
structure Table (maxPending : String → String → ℕ) (inserted : List (StateRow T M))
    (used : List ℕ) (clock : T) (rows : List (StateRow T M)) : Prop where
  unique : (rows.map StateRow.stateHash).Nodup
  single : (rows.map StateRow.number).Nodup
  known : ∀ r ∈ rows, ∃ r₀, inserted[r.number]? = some r₀ ∧ r₀.expiresAt = r.expiresAt ∧
    r₀.provider = r.provider
  unused : ∀ r ∈ rows, r.consumedAt = none → r.number ∉ used
  capped : ∀ ownerUserId provider,
    pending rows ownerUserId provider clock ≤ maxPending ownerUserId provider

theorem Table.nil : Table maxPending inserted used clock [] where
  unique := nodup_nil
  single := nodup_nil
  known r hr := by cases hr
  unused r hr := by cases hr
  capped _ _ := Nat.zero_le _

theorem Table.sublist (h : Table maxPending inserted used clock rows) (hsub : List.Sublist rows' rows) :
    Table maxPending inserted used clock rows' where
  unique := h.unique.sublist (hsub.map _)
  single := h.single.sublist (hsub.map _)
  known r hr := h.known r (hsub.subset hr)
  unused r hr := h.unused r (hsub.subset hr)
  capped o p := (pending_sublist hsub).trans (h.capped o p)

theorem Table.tick (h : Table maxPending inserted used clock rows) (hnow : clock ≤ now) :
    Table maxPending inserted used now rows :=
  { h with capped := fun o p => (pending_anti hnow).trans (h.capped o p) }

theorem Table.insertElsewhere (h : Table maxPending inserted used clock rows) (row : StateRow T M) :
    Table maxPending (inserted ++ [row]) used clock rows :=
  { h with
    known := by
      intro r hr
      obtain ⟨r₀, hr₀, hrest⟩ := h.known r hr
      exact ⟨r₀, by rw [List.getElem?_append_left (List.getElem?_eq_some_iff.1 hr₀).1, hr₀], hrest⟩ }

theorem Table.number_lt (h : Table maxPending inserted used clock rows) (hr : r ∈ rows) :
    r.number < inserted.length := by
  obtain ⟨r₀, hr₀, -⟩ := h.known r hr
  exact (List.getElem?_eq_some_iff.1 hr₀).1

/-- One more row, where there are fewer pending ones than the cap. -/
theorem Table.insert (h : Table maxPending inserted used clock rows)
    (hfresh : row.stateHash ∉ rows.map StateRow.stateHash) (hnumber : row.number = inserted.length)
    (hunused : ∀ n ∈ used, n < inserted.length)
    (hroom : pending rows row.ownerUserId row.provider clock <
      maxPending row.ownerUserId row.provider) :
    Table maxPending (inserted ++ [row]) used clock (rows ++ [row]) where
  unique := by
    rw [map_append, nodup_append]
    refine ⟨h.unique, nodup_singleton _, ?_⟩
    rintro a ha b hb rfl
    rw [map_singleton, mem_singleton] at hb
    exact hfresh (hb ▸ ha)
  single := by
    rw [map_append, nodup_append]
    refine ⟨h.single, nodup_singleton _, ?_⟩
    rintro a ha b hb rfl
    rw [map_singleton, mem_singleton] at hb
    obtain ⟨r, hr, rfl⟩ := mem_map.1 ha
    have := h.number_lt hr
    omega
  known r hr := by
    rcases mem_append.1 hr with hr | hr
    · exact (h.insertElsewhere row).known r hr
    · rw [mem_singleton.1 hr]
      exact ⟨row, by simp [hnumber], rfl, rfl⟩
  unused r hr hopen := by
    rcases mem_append.1 hr with hr | hr
    · exact h.unused r hr hopen
    · rw [mem_singleton.1 hr, hnumber]
      exact fun hmem => absurd (hunused _ hmem) (Nat.lt_irrefl _)
  capped o p := by
    rw [pending, countP_append, countP_singleton]
    by_cases hpending : IsPending o p clock row = true
    · have hsame : row.ownerUserId = o ∧ row.provider = p := by
        simp only [IsPending, Bool.and_eq_true, decide_eq_true_eq] at hpending
        exact hpending.1.1
      rw [if_pos hpending, ← hsame.1, ← hsame.2]
      exact hroom
    · rw [if_neg hpending]
      exact h.capped o p

theorem Table.consume (h : Table maxPending inserted used clock rows) (hrow : row ∈ rows)
    (hhash : row.stateHash = stateHash) :
    Table maxPending inserted (used ++ [row.number]) clock
      (rows.map (consumeRow stateHash now)) where
  unique := by simpa [comp_def] using h.unique
  single := by simpa [comp_def] using h.single
  known r hr := by
    obtain ⟨e, he, rfl⟩ := mem_map.1 hr
    obtain ⟨r₀, hr₀, hexpires, hprovider⟩ := h.known e he
    refine ⟨r₀, by simpa using hr₀, ?_, ?_⟩
    · rw [hexpires]
      rw [consumeRow]
      split <;> rfl
    · rw [hprovider]
      rw [consumeRow]
      split <;> rfl
  unused r hr hopen := by
    obtain ⟨e, he, rfl⟩ := mem_map.1 hr
    obtain ⟨hsame, hother⟩ := consumeRow_open hopen
    rw [hsame] at hopen ⊢
    rw [mem_append, mem_singleton, not_or]
    refine ⟨h.unused e he hopen, fun hnumber => hother ?_⟩
    have hrow : e = row := inj_on_of_nodup_map h.single he hrow hnumber
    rw [hrow, hhash]
  capped o p := pending_consume.trans (h.capped o p)

theorem Table.fewer {n : ℕ} (h : Table maxPending inserted (used ++ [n]) clock rows) :
    Table maxPending inserted used clock rows :=
  { h with unused := fun r hr hopen hmem => h.unused r hr hopen (mem_append_left _ hmem) }

/-! ### What each statement keeps -/

/-- The use of a state that a transaction is about to commit. -/
structure Pledge (maxPending : String → String → ℕ) (inserted : List (StateRow T M))
    (used : List ℕ) (clock : T) (rows : List (StateRow T M)) (row : StateRow T M)
    (provider : String) : Prop where
  table : Table maxPending inserted (used ++ [row.number]) clock rows
  new : row.number ∉ used
  origin : ∃ r, inserted[row.number]? = some r ∧ r.expiresAt = row.expiresAt ∧
    provider = r.provider

/-- What a transaction knows at each of its statements. -/
def View (hashState : String → String) (maxPending : String → String → ℕ) (call : Call T M)
    (inserted : List (StateRow T M)) (used : List ℕ) (clock : T) (rows : List (StateRow T M)) :
    Stage T M → Prop
  | .pruned now _ => now ≤ clock ∧ Table maxPending inserted used clock rows
  | .counted now n => now ≤ clock ∧ Table maxPending inserted used clock rows ∧
    ∀ ownerUserId provider state expiresAt request,
      call = .create ownerUserId provider state expiresAt request →
      n = pending rows ownerUserId provider now
  | .inserted => Table maxPending inserted used clock rows
  | .read now row => now ≤ clock ∧ Table maxPending inserted used clock rows ∧
    ∀ r, row = some r → r ∈ rows ∧
      ∀ provider state, call = .consume provider state → r.stateHash = hashState state
  | .updated _ row n => Table maxPending inserted used clock rows ∧
    ∀ provider state, call = .consume provider state → n = 1 →
      Pledge maxPending inserted used clock rows row provider
  | _ => False

/-- The table is one, and the transaction that has the write lock knows what it has read. -/
structure World.Guarded (hashState : String → String) (maxPending : String → String → ℕ)
    (calls : I → Call T M) (w : World T M I) : Prop where
  table : Table maxPending w.inserted (w.uses.map Use.number) w.clock w.rows
  once : (w.uses.map Use.number).Nodup
  proper : ∀ u ∈ w.uses, u.Proper w.inserted
  time : ∀ i now, w.stage i = .begun now → now ≤ w.clock
  lock : ∀ i, (w.stage i).hasLock = true → ∃ rows, w.txn = some (i, rows)
  view : ∀ i rows, w.txn = some (i, rows) →
    View hashState maxPending (calls i) w.inserted (w.uses.map Use.number) w.clock rows (w.stage i)

omit [DecidableEq I] in
theorem World.Guarded.start (clock : T) :
    (World.start clock : World T M I).Guarded hashState maxPending calls where
  table := .nil
  once := nodup_nil
  proper u hu := by cases hu
  time i now h := by cases h
  lock i h := by cases h
  view i rows h := by cases h

theorem View.tick {call : Call T M}
    (h : View hashState maxPending call inserted used clock rows stage) (hnow : clock ≤ now) :
    View hashState maxPending call inserted used now rows stage := by
  cases stage with
  | pruned t n => exact ⟨h.1.trans hnow, h.2.tick hnow⟩
  | counted t n => exact ⟨h.1.trans hnow, h.2.1.tick hnow, h.2.2⟩
  | inserted => exact Table.tick h hnow
  | read t row => exact ⟨h.1.trans hnow, h.2.1.tick hnow, h.2.2⟩
  | updated t row n =>
    refine ⟨h.1.tick hnow, fun provider state hcall hn => ?_⟩
    have hpledge := h.2 provider state hcall hn
    exact ⟨hpledge.table.tick hnow, hpledge.new, hpledge.origin⟩
  | _ => exact h.elim

theorem View.hasLock {call : Call T M}
    (h : View hashState maxPending call inserted used clock rows stage) : stage.hasLock = true := by
  cases stage with
  | called | begun | done => exact h.elim
  | _ => rfl

omit [LinearOrder T] in
theorem goTo_stage (w : World T M I) (i j : I) (stage : Stage T M) :
    (w.goTo i stage).stage j = if j = i then stage else w.stage j := by
  simp [World.goTo, update_apply]

/-- A call whose transaction nobody else is in goes on with it. -/
theorem World.Guarded.inTxn (h : w.Guarded hashState maxPending calls)
    (hfree : ∀ j, (w.stage j).hasLock = true → j = i)
    (htable : Table maxPending inserted (w.uses.map Use.number) w.clock w.rows)
    (hproper : ∀ u ∈ w.uses, u.Proper inserted)
    (hview : View hashState maxPending (calls i) inserted (w.uses.map Use.number) w.clock rows stage) :
    ({ w.inTxn i rows stage with inserted := inserted } : World T M I).Guarded hashState maxPending
      calls where
  table := htable
  once := h.once
  proper := hproper
  time j t hj := by
    simp only [World.inTxn, goTo_stage] at hj
    split at hj
    · have := hview.hasLock
      rw [hj] at this
      cases this
    · exact h.time j t hj
  lock j hj := by
    simp only [World.inTxn, goTo_stage] at hj
    split at hj
    · rename_i hji
      exact ⟨rows, by simp [World.inTxn, hji]⟩
    · rename_i hji
      exact absurd (hfree j hj) hji
  view j rows' hj := by
    obtain ⟨rfl, rfl⟩ : i = j ∧ rows = rows' := by simpa [World.inTxn] using hj
    simp only [World.inTxn, goTo_stage, if_pos]
    exact hview

theorem World.Guarded.finish (h : w.Guarded hashState maxPending calls)
    (hfree : ∀ j, (w.stage j).hasLock = true → j = i)
    (htable : Table maxPending w.inserted (uses.map Use.number) w.clock rows) (honce : (uses.map Use.number).Nodup)
    (hproper : ∀ u ∈ uses, u.Proper w.inserted) (result : Result M) :
    ({ w.goTo i (.done result) with txn := none, rows := rows, uses := uses } :
      World T M I).Guarded hashState maxPending calls where
  table := htable
  once := honce
  proper := hproper
  time j t hj := by
    simp only [goTo_stage] at hj
    split at hj
    · cases hj
    · exact h.time j t hj
  lock j hj := by
    simp only [goTo_stage] at hj
    split at hj
    · cases hj
    · rename_i hji
      exact absurd (hfree j hj) hji
  view j rows' hj := by cases hj

theorem World.Guarded.outside (h : w.Guarded hashState maxPending calls)
    (hi : (w.stage i).hasLock = false) (hnew : stage.hasLock = false)
    (htime : ∀ now, stage = .begun now → now ≤ w.clock) :
    (w.goTo i stage).Guarded hashState maxPending calls where
  table := h.table
  once := h.once
  proper := h.proper
  time j t hj := by
    rw [goTo_stage] at hj
    split at hj
    · exact htime t hj
    · exact h.time j t hj
  lock j hj := by
    rw [goTo_stage] at hj
    split at hj
    · rw [hnew] at hj
      cases hj
    · exact h.lock j hj
  view j rows' hj := by
    have hview := h.view j rows' hj
    rw [goTo_stage, if_neg]
    · exact hview
    · rintro rfl
      simp [hview.hasLock] at hi

omit [DecidableEq I] in
theorem World.Guarded.free (h : w.Guarded hashState maxPending calls)
    (htxn : w.txn = some (i, rows)) (j : I) (hj : (w.stage j).hasLock = true) : j = i := by
  obtain ⟨rows', hrows⟩ := h.lock j hj
  rw [htxn] at hrows
  cases hrows
  rfl

section Uses

variable {T M : Type} {inserted : List (StateRow T M)} {u : Use T}

theorem Use.Proper.insertElsewhere (h : u.Proper inserted) (row : StateRow T M) :
    u.Proper (inserted ++ [row]) := by
  obtain ⟨r, hr, hrest⟩ := h
  exact ⟨r, by rw [List.getElem?_append_left (List.getElem?_eq_some_iff.1 hr).1, hr], hrest⟩

theorem Use.Proper.number_lt (h : u.Proper inserted) : u.number < inserted.length := by
  obtain ⟨r, hr, -⟩ := h
  exact (List.getElem?_eq_some_iff.1 hr).1

end Uses

theorem Table.pledge (h : Table maxPending inserted used clock rows) (hrow : row ∈ rows)
    (hhash : row.stateHash = stateHash) (husable : Usable provider now row = true) :
    Pledge maxPending inserted used clock (rows.map (consumeRow stateHash now)) row provider := by
  simp only [Usable, Bool.and_eq_true, decide_eq_true_eq, Option.isNone_iff_eq_none] at husable
  obtain ⟨⟨hprovider, hopen⟩, -⟩ := husable
  obtain ⟨r₀, hr₀, hexpires, hprov⟩ := h.known row hrow
  exact ⟨h.consume hrow hhash, h.unused row hrow hopen,
    ⟨r₀, hr₀, hexpires, (hprov.trans hprovider).symm⟩⟩

/-- The next statement of the transaction. -/
theorem World.Guarded.next (h : w.Guarded hashState maxPending calls)
    (htxn : w.txn = some (i, rows)) (hnext : w.next hashState maxPending calls i rows = some w') :
    w'.Guarded hashState maxPending calls := by
  have hfree := h.free htxn
  have hview := h.view i rows htxn
  have hrollback : ∀ result, (w.rollback i result).Guarded hashState maxPending calls :=
    fun result => h.finish hfree h.table h.once h.proper result
  have hcommit : Table maxPending w.inserted (w.uses.map Use.number) w.clock rows → ∀ result,
      (w.commit i rows result).Guarded hashState maxPending calls :=
    fun htable result => h.finish hfree htable h.once h.proper result
  rw [World.next] at hnext
  split at hnext
  · rename_i hcall hstage
    rw [hstage] at hview
    cases hnext
    refine h.inTxn hfree h.table h.proper ⟨hview.1, hview.2, ?_⟩
    intro o p st e rq hcreate
    rw [hcall] at hcreate
    cases hcreate
    rfl
  · rename_i o p st e rq now n hcall hstage
    rw [hstage, hcall] at hview
    obtain ⟨hnow, htable, hcount⟩ := hview
    simp only at hnext
    split at hnext
    · cases hnext
      exact hrollback _
    split at hnext
    · cases hnext
      exact hrollback _
    · rename_i hroom hfresh
      cases hnext
      refine h.inTxn hfree (h.table.insertElsewhere _)
        (fun u hu => (h.proper u hu).insertElsewhere _) ?_
      refine htable.insert hfresh rfl (fun n hn => ?_) ?_
      · obtain ⟨u, hu, rfl⟩ := mem_map.1 hn
        exact (h.proper u hu).number_lt
      have hle := @pending_anti _ _ _ _ _ rows o p hnow
      rw [← hcount o p st e rq rfl] at hle
      exact hle.trans_lt (not_le.1 hroom)
  · rename_i hstage
    rw [hstage] at hview
    cases hnext
    exact hcommit hview _
  · rename_i hcall hstage
    rw [hstage] at hview
    cases hnext
    refine h.inTxn hfree h.table h.proper ⟨hview.1, hview.2, ?_⟩
    intro r hr
    refine ⟨mem_of_find?_eq_some hr, fun p st hconsume => ?_⟩
    rw [hcall] at hconsume
    cases hconsume
    simpa using find?_some hr
  · rename_i hstage
    rw [hstage] at hview
    cases hnext
    exact hcommit hview.2.1 _
  · rename_i p st now row hcall hstage
    rw [hstage, hcall] at hview
    obtain ⟨-, htable, hrow⟩ := hview
    obtain ⟨hmem, hhash⟩ := hrow row rfl
    split at hnext
    · rename_i husable
      cases hnext
      have hpledge := htable.pledge hmem (hhash p st rfl) husable
      refine h.inTxn hfree h.table h.proper ⟨hpledge.table.fewer, fun p' st' hcall' _ => ?_⟩
      rw [hcall] at hcall'
      cases hcall'
      exact hpledge
    · cases hnext
      exact hcommit htable _
  · rename_i p st now row rowcount hcall hstage
    rw [hstage, hcall] at hview
    split at hnext
    · rename_i hone
      cases hnext
      have hpledge := hview.2 p st rfl hone
      refine h.finish hfree ?_ ?_ ?_ _
      · rw [map_append, map_singleton]
        exact hpledge.table
      · rw [map_append, map_singleton]
        refine nodup_append.2 ⟨h.once, nodup_singleton _, fun a ha b hb hab => ?_⟩
        have hnumber : a = row.number := hab.trans (mem_singleton.1 hb)
        exact hpledge.new (hnumber ▸ ha)
      · intro u hu
        rcases mem_append.1 hu with hu | hu
        · exact h.proper u hu
        · obtain ⟨r, hr, -, hprovider⟩ := hpledge.origin
          rw [mem_singleton.1 hu]
          exact ⟨r, hr, hprovider⟩
    · cases hnext
      exact hcommit hview.1 _
  · rename_i hstage
    rw [hstage] at hview
    cases hnext
    exact hcommit hview.2 _
  · cases hnext

omit [DecidableEq I] in
theorem World.Guarded.tick (h : w.Guarded hashState maxPending calls) (hnow : w.clock ≤ now) :
    ({ w with clock := now } : World T M I).Guarded hashState maxPending calls where
  table := h.table.tick hnow
  once := h.once
  proper := h.proper
  time i t hi := (h.time i t hi).trans hnow
  lock := h.lock
  view i rows hi := (h.view i rows hi).tick hnow

/-- **Whatever comes next, the table is kept.** -/
theorem World.Guarded.step {a : Act T I} (h : w.Guarded hashState maxPending calls)
    (hstep : step hashState maxPending calls w a = some w') :
    w'.Guarded hashState maxPending calls := by
  cases a with
  | tick now =>
    simp only [OAuthStates.step] at hstep
    split at hstep <;> cases hstep
    exact h.tick ‹_›
  | begin i =>
    simp only [OAuthStates.step] at hstep
    split at hstep <;> cases hstep
    rename_i hcalled
    refine h.outside (by rw [hcalled]; rfl) rfl fun now hnow => ?_
    cases hnow
    exact le_rfl
  | statement i =>
    simp only [OAuthStates.step] at hstep
    split at hstep
    · rename_i htxn
      split at hstep <;> cases hstep
      rename_i now hbegun
      refine h.inTxn (fun j hj => ?_) h.table h.proper
        ⟨h.time i now hbegun, h.table.sublist filter_sublist⟩
      obtain ⟨rows, hrows⟩ := h.lock j hj
      simp [htxn] at hrows
    · rename_i j rows htxn
      split at hstep
      · rename_i hji
        subst hji
        exact h.next htxn hstep
      · cases hstep
  | fail i =>
    simp only [OAuthStates.step] at hstep
    split at hstep
    · cases hstep
    · cases hstep
    · rename_i hbegun
      cases hstep
      exact h.outside (by rw [hbegun]; rfl) rfl fun now hnow => by cases hnow
    · rename_i hcalled hdone hbegun
      cases hstep
      have hlock : (w.stage i).hasLock = true := by
        cases hstage : w.stage i with
        | called => exact absurd hstage hcalled
        | begun now => exact absurd hstage (hbegun now)
        | done result => exact absurd hstage (hdone result)
        | _ => rfl
      obtain ⟨rows, htxn⟩ := h.lock i hlock
      exact h.finish (h.free htxn) h.table h.once h.proper .failed

/-! ### What is kept as long as no state expires in the hands of a call -/

/-- What was used had not expired, and what a call is about to use has not. -/
structure World.Punctual (calls : I → Call T M) (w : World T M I) : Prop where
  timely : ∀ u ∈ w.uses, u.Timely w.inserted
  hand : ∀ row ∈ w.inHand calls, w.clock ≤ row.expiresAt

section Hand

omit [DecidableEq I]

theorem World.Punctual.free (htimely : ∀ u ∈ w.uses, u.Timely w.inserted) (htxn : w.txn = none) :
    w.Punctual calls := by
  refine ⟨htimely, fun row hrow => ?_⟩
  rw [World.inHand, htxn] at hrow
  cases hrow

/-- What the transaction has in hand, by how far its call is. -/
theorem World.Punctual.holding (htimely : ∀ u ∈ w.uses, u.Timely w.inserted)
    (htxn : w.txn = some (i, rows))
    (hheld : ∀ row ∈ held (calls i) (w.stage i), w.clock ≤ row.expiresAt) : w.Punctual calls := by
  refine ⟨htimely, fun row hrow => ?_⟩
  rw [World.inHand, htxn, Option.bind_some] at hrow
  exact hheld row hrow

theorem World.Punctual.held (h : w.Punctual calls) (htxn : w.txn = some (i, rows))
    (hrow : row ∈ held (calls i) (w.stage i)) : w.clock ≤ row.expiresAt := by
  refine h.hand row ?_
  rw [World.inHand, htxn, Option.bind_some]
  exact hrow

theorem held_create {expiresAt : T} {request : Request M} :
    held (.create ownerUserId provider state expiresAt request) stage = none := by
  cases stage <;> rfl

end Hand

/-- The next statement of the transaction. -/
theorem World.Punctual.next (h : w.Punctual calls) (hguarded : w.Guarded hashState maxPending calls)
    (hinTime : InTime hashState calls w (.statement i)) (htxn : w.txn = some (i, rows))
    (hnext : w.next hashState maxPending calls i rows = some w') : w'.Punctual calls := by
  have hview := hguarded.view i rows htxn
  have hmore : ∀ row : StateRow T M, ∀ u ∈ w.uses, u.Timely (w.inserted ++ [row]) :=
    fun row u hu => by
      obtain ⟨r, hr, htime⟩ := h.timely u hu
      exact ⟨r, by rw [List.getElem?_append_left (List.getElem?_eq_some_iff.1 hr).1, hr], htime⟩
  rw [World.next] at hnext
  split at hnext
  · rename_i hcall hstage
    cases hnext
    exact .holding h.timely rfl fun row hrow => by rw [hcall, held_create] at hrow; cases hrow
  · rename_i hcall hstage
    simp only at hnext
    split at hnext
    · cases hnext
      exact .free h.timely rfl
    split at hnext
    · cases hnext
      exact .free h.timely rfl
    · cases hnext
      exact .holding (hmore _) rfl fun row hrow => by rw [hcall, held_create] at hrow; cases hrow
  · cases hnext
    exact .free h.timely rfl
  · rename_i hcall hstage
    cases hnext
    refine .holding h.timely rfl fun row hrow => hinTime row ?_
    rw [World.finds, htxn, hcall, hstage]
    simpa [World.inTxn, World.goTo, hcall, OAuthStates.held] using hrow
  · cases hnext
    exact .free h.timely rfl
  · rename_i p st now found hcall hstage
    split at hnext
    · rename_i husable
      cases hnext
      refine .holding h.timely rfl fun row hrow => h.held htxn ?_
      rw [hcall, hstage]
      simp only [World.inTxn, World.goTo, update_self, hcall, OAuthStates.held] at hrow ⊢
      split at hrow
      · rw [← Option.some.inj hrow]
        exact Option.filter_eq_some_iff.2 ⟨rfl, husable⟩
      · cases hrow
    · cases hnext
      exact .free h.timely rfl
  · rename_i p st now found rowcount hcall hstage
    rw [hstage, hcall] at hview
    split at hnext
    · rename_i hone
      cases hnext
      obtain ⟨r, hr, hexpires, -⟩ := (hview.2 p st rfl hone).origin
      have htime : w.clock ≤ found.expiresAt := by
        refine h.held htxn ?_
        rw [hcall, hstage, OAuthStates.held, if_pos hone]
        rfl
      refine .free (fun u hu => ?_) rfl
      rcases mem_append.1 hu with hu | hu
      · exact h.timely u hu
      · rw [mem_singleton.1 hu]
        exact ⟨r, hr, hexpires ▸ htime⟩
    · cases hnext
      exact .free h.timely rfl
  · cases hnext
    exact .free h.timely rfl
  · cases hnext

/-- **Every step keeps it.** -/
theorem World.Punctual.step {a : Act T I} (h : w.Punctual calls)
    (hguarded : w.Guarded hashState maxPending calls) (hinTime : InTime hashState calls w a)
    (hstep : step hashState maxPending calls w a = some w') : w'.Punctual calls := by
  -- A call that does not have the write lock has nothing in hand.
  have hgoTo : ∀ i stage, (w.stage i).hasLock = false → (w.goTo i stage).Punctual calls := by
    intro i stage hi
    refine ⟨h.timely, fun row hrow => ?_⟩
    cases htxn : w.txn with
    | none =>
      rw [World.inHand, show (w.goTo i stage).txn = none from htxn] at hrow
      cases hrow
    | some txn =>
      obtain ⟨j, rows⟩ := txn
      have hji : j ≠ i := by
        rintro rfl
        rw [(hguarded.view j rows htxn).hasLock] at hi
        cases hi
      rw [World.inHand, show (w.goTo i stage).txn = some (j, rows) from htxn, Option.bind_some,
        goTo_stage, if_neg hji] at hrow
      exact h.held htxn hrow
  cases a with
  | tick now =>
    simp only [OAuthStates.step] at hstep
    split at hstep <;> cases hstep
    exact ⟨h.timely, hinTime⟩
  | begin i =>
    simp only [OAuthStates.step] at hstep
    split at hstep <;> cases hstep
    exact hgoTo i _ (by simp only [*]; rfl)
  | statement i =>
    simp only [OAuthStates.step] at hstep
    split at hstep
    · split at hstep <;> cases hstep
      refine .holding h.timely rfl fun row hrow => ?_
      simp only [World.inTxn, World.goTo, update_self] at hrow
      cases hcall : calls i <;> rw [hcall] at hrow <;> cases hrow
    · rename_i j rows htxn
      split at hstep
      · rename_i hji
        subst hji
        exact h.next hguarded hinTime htxn hstep
      · cases hstep
  | fail i =>
    simp only [OAuthStates.step] at hstep
    split at hstep
    · cases hstep
    · cases hstep
    · cases hstep
      exact hgoTo i _ (by simp only [*]; rfl)
    · cases hstep
      exact .free h.timely rfl

/-- **A state is used at most once and for its provider, and a user has no more pending states than
the cap says**, in every run; **and before it expires**, in every run in which no state expires in
the hands of a call. -/
theorem states_used_once {clock : T} :
    (∀ w, Runs (step hashState maxPending calls) (fun _ _ => True) (.start clock) w →
      w.Sound maxPending) ∧
    ∀ w, Runs (step hashState maxPending calls) (InTime hashState calls) (.start clock) w →
      w.Sound maxPending ∧ ∀ u ∈ w.uses, u.Timely w.inserted := by
  have hsound : ∀ w : World T M I, w.Guarded hashState maxPending calls → w.Sound maxPending :=
    fun w h => ⟨h.once, h.proper, h.table.capped⟩
  refine ⟨fun w hrun => hsound w (hrun.invariant (.start clock) fun _ _ _ h _ hstep => h.step hstep),
    fun w hrun => ?_⟩
  have hstart : (World.start clock : World T M I).Punctual calls := .free (fun u hu => nomatch hu) rfl
  obtain ⟨hguarded, hpunctual⟩ := hrun.invariant
    (I := fun w => w.Guarded hashState maxPending calls ∧ w.Punctual calls) ⟨.start clock, hstart⟩
    fun _ _ _ h hinTime hstep => ⟨h.1.step hstep, h.2.step h.1 hinTime hstep⟩
  exact ⟨hsound w hguarded, hpunctual.timely⟩

/-- Two calls that create, and two that consume. -/
def demoCalls : Fin 4 → Call ℕ Unit
  | 0 => .create "ann" "slack" "s" 10 ⟨none, none, none, [], ()⟩
  | 1 => .create "ann" "slack" "t" 10 ⟨none, none, none, [], ()⟩
  | 2 | 3 => .consume "slack" "s"

/-- The two that create begin together, and so do the two that consume. -/
def demoActs : List (Act ℕ (Fin 4)) :=
  [.begin 0, .begin 1] ++ List.replicate 4 (.statement 0) ++ List.replicate 3 (.statement 1) ++
    [.tick 10, .begin 2, .begin 3] ++ List.replicate 4 (.statement 2) ++
    List.replicate 3 (.statement 3)

theorem states_used_once_demo : ∃ w : World ℕ Unit (Fin 4),
    runWith (step id (fun _ _ => 1) demoCalls) (InTime id demoCalls) (.start 0) demoActs = some w ∧
    w.stage 1 = .done (.created false) ∧ w.stage 3 = .done (.consumed none) ∧
    w.uses = [⟨0, "slack", 10⟩] ∧ w.Sound (fun _ _ => 1) ∧ ∀ u ∈ w.uses, u.Timely w.inserted := by
  obtain ⟨w, hw, hlast, hsecond, huses⟩ : ∃ w,
      runWith (step id (fun _ _ => 1) demoCalls) (InTime id demoCalls) (.start 0) demoActs = some w ∧
      w.stage 1 = .done (.created false) ∧ w.stage 3 = .done (.consumed none) ∧
      w.uses = [⟨0, "slack", 10⟩] :=
    ⟨_, rfl, rfl, rfl, rfl⟩
  exact ⟨w, hw, hlast, hsecond, huses, states_used_once.2 w (runs_of_runWith hw)⟩

/-- A state is created that expires at 10. A call that consumes it asks for the time at 5 and then
waits for the write lock. -/
def waitingActs : List (Act ℕ (Fin 4)) :=
  [.begin 0] ++ List.replicate 4 (.statement 0) ++ [.tick 5, .begin 2, .tick 1000] ++
    List.replicate 4 (.statement 2)

/-- **A state is used after it has expired** by a call that had to wait. -/
theorem expired_state_used : ¬∀ w : World ℕ Unit (Fin 4),
    Runs (step id (fun _ _ => 1) demoCalls) (fun _ _ => True) (.start 0) w →
      w.Sound (fun _ _ => 1) ∧ ∀ u ∈ w.uses, u.Timely w.inserted := by
  intro h
  obtain ⟨w, hw, huses, hinserted⟩ : ∃ w,
      runWith (step id (fun _ _ => 1) demoCalls) (fun _ _ => True) (.start 0) waitingActs = some w ∧
      w.uses = [⟨0, "slack", 1000⟩] ∧ w.inserted.map StateRow.expiresAt = [10] :=
    ⟨_, rfl, rfl, rfl⟩
  obtain ⟨r, hr, htime⟩ := (h w (runs_of_runWith hw)).2 ⟨0, "slack", 1000⟩ (by simp [huses])
  have hexpires : (w.inserted.map StateRow.expiresAt)[0]? = some r.expiresAt := by
    rw [getElem?_map, hr]
    rfl
  rw [hinserted] at hexpires
  have h10 : 10 = r.expiresAt := Option.some.inj hexpires
  rw [← h10] at htime
  exact absurd htime (by decide)

end AfterFlow.Channels.OAuthStates
