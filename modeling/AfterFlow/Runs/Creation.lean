import AfterFlow.Runs.Registry

/-!
# Runs are created or not

A new run is inserted in memory, indexed and put into the store while the lock is held. If the store
fails, or the call is cancelled while it waits for the store, the run is taken out again, and the
others have not been touched yet: they are interrupted after the row is there. So a call that raises
leaves the registry as it was when it got the lock.

The resource of a call is the lock. Its holder relies on the records, apart from their tasks, and on
the index.

## Main results

* `creation_atomic` — the headline
-/

namespace AfterFlow.Runs

open Coop Logic List Option

/-- A call of the manager. -/
inductive RegistryCall where
  | create (info : RunInfo)
  | createOrReject (info : RunInfo)
  | cancel (runId : ℕ) (action : AbortAction)
  | setStatus (runId : ℕ) (status : RunStatus) (error : Option String)
  | setFinalizing (runId : ℕ) (finalizing : Bool)
  | cleanup (runId : ℕ) (delay : ℚ)

def RegistryCall.Creates : RegistryCall → Prop
  | create _ => True
  | createOrReject _ => True
  | _ => False

/-- What changes besides: tasks come and go, time passes, the store fails or recovers, and others
write to it. -/
inductive RegistryTick where
  | task (runId : ℕ) (handle : Option RunTask)
  | clock (now : ℕ)
  | store (failure : Option StoreFailure)
  | row (runId : ℕ) (stored : Option RunRow)

def RegistryTick.apply : RegistryTick → Registry → Registry
  | .task runId handle, w => w.withRuns (w.modify runId fun r => { r with task := handle })
  | .clock now, w => w.withRuns { w.toRunWorld with now }
  | .store failure, w => { w with storeFailure := failure }
  | .row runId stored, w =>
    w.withRuns { w.toRunWorld with rows := Function.update w.rows runId stored }

section Program

variable (policy : RetryPolicy) (hasStore : Bool)

/-- The code of a call. -/
@[grind =] def RegistryCall.proc : RegistryCall → RegistryProc Unit
  | create info => do
    let _ ← Indexed.create policy hasStore info
    return ()
  | createOrReject info => do
    let _ ← Indexed.createOrReject policy hasStore info
    return ()
  | cancel runId action => do
    let _ ← Indexed.cancel policy hasStore runId action
    return ()
  | setStatus runId status error => Indexed.setStatus policy hasStore runId status error
  | setFinalizing runId finalizing => Indexed.setFinalizing runId finalizing
  | cleanup runId delay => Indexed.cleanup runId delay

/-- Calls of the manager at once. A fault is the cancellation of a call. -/
def registryProgram :
    Program Registry RunOp RunOp.Reply ManagerExn Unit RegistryCall RegistryTick where
  perform := Registry.perform
  fault := .cancelled
  handler := RegistryCall.proc policy hasStore
  tick := RegistryTick.apply

end Program

abbrev RegistryState := Sys Registry RunOp RunOp.Reply ManagerExn Unit RegistryCall

abbrev RegistryEvent := Event Registry RunOp RunOp.Reply ManagerExn

namespace Creation

/-! ### What the steps of a call show -/

/-- The lock was given to the call in this step. -/
def took (e : RegistryEvent) : Bool :=
  match e.answer with
  | some ⟨.acquire, .ok _⟩ => true
  | _ => false

/-- A row was put. -/
def wrote : Answer RunOp RunOp.Reply ManagerExn → Bool
  | ⟨.store _ _ (.put _), .ok _⟩ => true
  | _ => false

/-- The call has put a row. -/
def persisted (trace : List RegistryEvent) : Bool := (answersOf trace).any wrote

/-- The lock is given only while it is free. -/
def LockFree (w : Registry) : Option RunOp → Outcome → Prop
  | some .acquire, .ok => w.locked = false
  | _, _ => True

/-- A call may be cancelled at any await, but not `create_or_reject` behind its first put, where it
writes the statuses of the runs it has interrupted. -/
def Cancellable : RegistryCall → List RegistryEvent → Prop
  | .createOrReject _, trace => persisted trace = false
  | _, _ => True

def Due (call : RegistryCall) (trace : List RegistryEvent) (waits : Option RunOp) (out : Outcome)
    (w : Registry) : Prop :=
  LockFree w waits out ∧ (out = .fault → Cancellable call trace)

instance (w : Registry) (waits : Option RunOp) (out : Outcome) : Decidable (LockFree w waits out) :=
  match waits, out with
  | some .acquire, .ok => inferInstanceAs (Decidable (w.locked = false))
  | some .acquire, .fault => .isTrue trivial
  | none, _ => .isTrue trivial
  | some (.store ..), _ => .isTrue trivial
  | some .sleep, _ => .isTrue trivial
  | some (.outside _), _ => .isTrue trivial
  | some .never, _ => .isTrue trivial

instance (call : RegistryCall) (trace : List RegistryEvent) : Decidable (Cancellable call trace) :=
  match call with
  | .createOrReject _ => inferInstanceAs (Decidable (persisted trace = false))
  | .create _ => .isTrue trivial
  | .cancel .. => .isTrue trivial
  | .setStatus .. => .isTrue trivial
  | .setFinalizing .. => .isTrue trivial
  | .cleanup .. => .isTrue trivial

instance (call : RegistryCall) (trace : List RegistryEvent) (waits : Option RunOp) (out : Outcome)
    (w : Registry) : Decidable (Due call trace waits out w) :=
  inferInstanceAs (Decidable (_ ∧ _))

/-- Every call goes on as it may. -/
def EveryDue (s : RegistryState) : Label RegistryCall RegistryTick → Prop
  | .resume i out => ∀ t ∈ s.tasks[i]?, Due t.req t.trace t.pending out s.world
  | _ => True

instance (s : RegistryState) (l : Label RegistryCall RegistryTick) : Decidable (EveryDue s l) :=
  match l with
  | .resume i _ => match h : s.tasks[i]? with
    | none => .isTrue fun t ht => by rw [h] at ht; cases ht
    | some t => decidable_of_iff (Due t.req t.trace t.pending _ s.world)
        ⟨fun hC t' ht => by rw [h] at ht; cases ht; exact hC, fun hC => hC t h⟩
  | .spawn _ => .isTrue trivial
  | .env _ => .isTrue trivial

/-- The call changed nothing before it got the lock, and left the registry as it was then. -/
structure Undone (trace : List RegistryEvent) : Prop where
  waiting : ∀ e ∈ trace.takeWhile (fun e => !took e), e.after.face = e.before.face
  held : ∀ first ∈ trace.find? took, ∀ last ∈ trace.getLast?, last.after.face = first.before.face

/-- When the call got the lock, a run of the thread was pending, running or finalizing. -/
def Conflicted (info : RunInfo) (trace : List RegistryEvent) : Prop :=
  ∃ first ∈ trace.find? took, ∃ r ∈ first.before.runs, r.threadId = info.threadId ∧
    (r.status = .pending ∨ r.status = .running ∨ r.finalizing = true)

/-- What a finished call did. -/
structure Atomic (call : RegistryCall) (res : Except ManagerExn Unit) (trace : List RegistryEvent) :
    Prop where
  undone : call.Creates → ∀ e, res = .error e → Undone trace
  refused : ∀ info, call = .createOrReject info → info.multitaskStrategy = .reject →
    ((∃ detail, res = .error (.conflict detail)) ↔ Conflicted info trace)

/-- Before the lock is given. -/
def Waiting (trace : List RegistryEvent) : Prop :=
  ∀ e ∈ trace, took e = false ∧ e.after.face = e.before.face

/-- The lock was given in the state `w₀`. -/
def Granted (w₀ : Registry) (trace : List RegistryEvent) : Prop :=
  ∃ pre first post, trace = pre ++ first :: post ∧ Waiting pre ∧ took first = true ∧
    first.before = w₀

variable {w₀ : Registry} {trace : List RegistryEvent} {info : RunInfo}

theorem Waiting.find? (h : Waiting trace) : trace.find? took = none :=
  find?_eq_none.2 fun e he => by simp [(h e he).1]

theorem Waiting.undone (h : Waiting trace) : Undone trace where
  waiting := fun e he => (h e ((takeWhile_sublist _).mem he)).2
  held := fun first hfirst => by
    rw [h.find?] at hfirst
    cases hfirst

theorem Waiting.not_conflicted (h : Waiting trace) : ¬ Conflicted info trace := by
  rintro ⟨first, hfirst, -⟩
  rw [h.find?] at hfirst
  cases hfirst

theorem Granted.append (h : Granted w₀ trace) (more : List RegistryEvent) :
    Granted w₀ (trace ++ more) := by
  obtain ⟨pre, first, post, rfl, hrest⟩ := h
  exact ⟨pre, first, post ++ more, by rw [append_assoc, cons_append], hrest⟩

theorem Granted.find? (h : Granted w₀ trace) : ∃ first, trace.find? took = some first ∧
    first.before = w₀ := by
  obtain ⟨pre, first, post, rfl, hpre, hfirst, hbefore⟩ := h
  refine ⟨first, ?_, hbefore⟩
  rw [find?_append, hpre.find?, none_or, find?_cons_of_pos hfirst]

theorem Granted.undone (h : Granted w₀ trace)
    (hlast : ∀ last ∈ trace.getLast?, last.after.face = w₀.face) : Undone trace where
  waiting := by
    obtain ⟨pre, first, post, rfl, hpre, hfirst, -⟩ := h
    intro e he
    rw [takeWhile_append_of_pos (fun e he => by simp [(hpre e he).1]),
      takeWhile_cons_of_neg (by simp [hfirst]), append_nil] at he
    exact (hpre e he).2
  held := fun first hfirst last hmem => by
    obtain ⟨first', hfirst', hbefore⟩ := h.find?
    rw [mem_def, hfirst', some.injEq] at hfirst
    rw [← hfirst, hbefore]
    exact hlast last hmem

theorem Granted.conflicted_iff (h : Granted w₀ trace) :
    Conflicted info trace ↔ w₀.inflight info.threadId ≠ [] := by
  obtain ⟨first, hfirst, rfl⟩ := h.find?
  constructor
  · rintro ⟨other, hother, r, hr, hthread, hstatus⟩ hnil
    rw [mem_def, hfirst, some.injEq] at hother
    subst hother
    rw [RunWorld.inflight, map_eq_nil_iff, filter_eq_nil_iff] at hnil
    exact hnil r (mem_filter.2 ⟨hr, decide_eq_true hthread⟩) (decide_eq_true hstatus)
  · intro hne
    obtain ⟨id, hid⟩ := exists_mem_of_ne_nil _ hne
    obtain ⟨r, hr, -⟩ := mem_map.1 hid
    obtain ⟨hr, hinflight⟩ := mem_filter.1 hr
    obtain ⟨hr, hthread⟩ := mem_filter.1 hr
    exact ⟨first, hfirst, r, hr, of_decide_eq_true hthread, of_decide_eq_true hinflight⟩

/-! ### The logic -/

/-- The resource of a call: the lock, while it holds it. -/
abbrev Token := Multiset Unit

structure Kept (w : Registry) (g : Token) : Prop where
  exact : w.Exact
  lock : Owns g fun _ => w.locked

theorem Kept.withRuns {w : Registry} {g : Token} {runs : RunWorld} (h : Kept w g)
    (hruns : w.toRunWorld.SamePlaces runs) : Kept (w.withRuns runs) g where
  exact := h.exact.withRuns hruns
  lock k := by
    rw [h.lock k, ← hruns.locked]
    rfl

def creation : Logic Registry RunOp RunOp.Reply ManagerExn Unit RegistryCall Token where
  inv := Kept
  rel g w w' := () ∈ g → w'.face = w.face
  link _ _ _ _ := True
  allowed call trace waits out w _ := Due call trace waits out w
  done := Atomic
  rel_refl _ _ := fun _ => rfl
  rel_trans h₁ h₂ := fun hg => (h₂ hg).trans (h₁ hg)
  rel_weaken h := fun hg => h (Multiset.mem_add.2 (.inl hg))

abbrev RegistryCtx := Ctx Registry RunOp RunOp.Reply ManagerExn Token

section Calls

variable {policy : RetryPolicy} {hasStore : Bool} {call : RegistryCall} {α : Type} {c : RegistryCtx}
  {g : Token}

abbrev Sure (policy : RetryPolicy) (hasStore : Bool) (call : RegistryCall) (p : RegistryProc α)
    (Q : Except ManagerExn α → RegistryCtx → Prop) (c : RegistryCtx) : Prop :=
  creation.Safe (registryProgram policy hasStore).toBackend call p Q c

/-- A step has come this far, owning `g`. -/
structure At (g : Token) (c : RegistryCtx) : Prop where
  inv : Kept c.now (g + c.frame)
  rel : () ∈ c.frame → c.now.face = c.start.face

theorem At.yield (h : At g c) (waits : Option RunOp) : creation.Yield call c waits g :=
  ⟨h.inv, h.rel, trivial⟩

/-- The lock was given to the call in the state `w₀`, in this step or before. -/
def Taken (w₀ : Registry) (c : RegistryCtx) : Prop :=
  (Waiting c.trace ∧ c.start = w₀ ∧ c.answer = some ⟨.acquire, .ok ()⟩) ∨ Granted w₀ c.trace

theorem Taken.granted (h : Taken w₀ c) : Granted w₀ c.close := by
  rcases h with ⟨hwaiting, hstart, hanswer⟩ | hgranted
  · refine ⟨c.trace, ⟨c.answer, c.start, c.now⟩, [], rfl, hwaiting, ?_, hstart⟩
    rw [took, hanswer]
  · exact hgranted.append _

/-- The holder of the lock: where it took it, and that nobody else has it. -/
structure Holding (w₀ : Registry) (c : RegistryCtx) : Prop where
  inv : Kept c.now ({()} + c.frame)
  taken : Taken w₀ c

theorem Holding.at (h : Holding w₀ c) : At {()} c :=
  ⟨h.inv, fun hmem => absurd hmem h.inv.lock.disjoint⟩

theorem Kept.released (h : Kept c.now ({()} + c.frame)) :
    At 0 { c with now := c.now.withRuns c.now.release } where
  inv := by
    refine ⟨h.exact.of_places rfl rfl rfl, ?_⟩
    have hlock := h.lock.release
    rw [zero_add]
    intro k
    cases k
    have := hlock ()
    rwa [Function.update_self] at this
  rel := fun hmem => absurd hmem h.lock.disjoint

/-! ### Writing to the store -/

/-- The operations of a write that is tried again. -/
def IsWrite : RunOp → Prop
  | .store .. => True
  | .sleep => True
  | _ => False

theorem isWrite_store (runId attempt : ℕ) (write : StoreCall) :
    IsWrite (.store runId attempt write) := trivial

theorem isWrite_sleep : IsWrite .sleep := trivial

/-- What a write to the store does not touch. -/
structure Beside (w w' : Registry) : Prop where
  runs : w'.runs = w.runs
  index : w'.runsByThread = w.runsByThread
  uuids : w'.uuids = w.uuids
  locked : w'.locked = w.locked

theorem Beside.face {w w' : Registry} (h : Beside w w') : w'.face = w.face := by
  rw [Registry.face, Registry.face, h.runs, h.index]

theorem Beside.kept {w w' : Registry} (h : Beside w w') (hw : Kept w g) : Kept w' g :=
  ⟨hw.exact.of_places (by rw [h.runs]) h.index h.uuids, by rw [h.locked]; exact hw.lock⟩

theorem answer_beside {op : RunOp} (hop : IsWrite op) (out : Outcome) (s : Registry) :
    Beside s ((registryProgram policy hasStore).toBackend.answer op out s).2 := by
  cases out with
  | fault => exact ⟨rfl, rfl, rfl, rfl⟩
  | ok =>
    cases op with
    | store runId attempt write =>
      show Beside s (Registry.perform (.store runId attempt write) s).2
      rw [Registry.perform]
      cases s.storeFailure with
      | some failure => exact ⟨rfl, rfl, rfl, rfl⟩
      | none => cases write <;> exact ⟨rfl, rfl, rfl, rfl⟩
    | sleep => exact ⟨rfl, rfl, rfl, rfl⟩
    | acquire | outside | never => exact hop.elim

/-- The exceptions of the store. A call is cancelled only where it may be. -/
theorem answer_error {op : RunOp} (hop : IsWrite op) {out : Outcome} {s : Registry} {e : ManagerExn}
    (he : ((registryProgram policy hasStore).toBackend.answer op out s).1 = .error e) :
    (∀ detail, e ≠ .conflict detail) ∧ (e = .cancelled → out = .fault) := by
  cases out with
  | fault =>
    cases he
    exact ⟨fun _ => by simp [registryProgram], fun _ => rfl⟩
  | ok =>
    cases op with
    | store runId attempt write =>
      change (Registry.perform (.store runId attempt write) s).1 = _ at he
      rw [Registry.perform] at he
      cases hfailure : s.storeFailure with
      | some failure =>
        rw [hfailure] at he
        cases he
        cases failure <;> simp [StoreFailure.exn]
      | none =>
        rw [hfailure] at he
        cases he
    | sleep => cases he
    | acquire | outside | never => exact hop.elim

/-- What holds all through a number of writes to the store, owning `g`; `X` is what a cancellation
among them says. -/
structure Block (call : RegistryCall) (g : Token) (K : RegistryCtx → Prop) (X : Prop) : Prop where
  here : ∀ c, K c → At g c
  await : ∀ c answer s frame w, K c → creation.rel g c.now s → Kept s (g + frame) → Beside s w →
    K ⟨c.close, answer, s, frame, w⟩
  settled : ∀ c runId status, K c →
    K { c with now := c.now.withRuns (c.now.toRunWorld.settled runId status) }
  cancelled : ∀ c, K c → Cancellable call c.close → X

variable {K : RegistryCtx → Prop} {X : Prop}

theorem Block.safe_call (hB : Block call g K X) {op : RunOp} (hop : IsWrite op)
    {Q : Except ManagerExn op.Reply → RegistryCtx → Prop}
    (hok : ∀ b c, K c → c.answer = some ⟨op, .ok b⟩ → Q (.ok b) c)
    (herror : ∀ e c, K c → (∀ detail, e ≠ .conflict detail) → (e = .cancelled → X) → Q (.error e) c)
    (hK : K c) : Sure policy hasStore call (Coro.call op) Q c := by
  refine Safe.call g ((hB.here c hK).yield _) fun s frame out hr hi ha => ?_
  have hbeside : Beside s ((registryProgram policy hasStore).toBackend.answer op out s).2 :=
    answer_beside hop out s
  have hK' := hB.await c
    (some ⟨op, ((registryProgram policy hasStore).toBackend.answer op out s).1⟩) s frame _ hK hr hi
    hbeside
  cases hreply : ((registryProgram policy hasStore).toBackend.answer op out s).1 with
  | ok b =>
    rw [hreply] at hK'
    exact hok b _ hK' rfl
  | error e =>
    rw [hreply] at hK'
    obtain ⟨hconflict, hfault⟩ := answer_error hop hreply
    exact herror e _ hK' hconflict fun he => hB.cancelled c hK (ha.2 (hfault he))

theorem Block.safe_retrying (hB : Block call g K X) {runId left attempt : ℕ} {write : StoreCall}
    {delay : ℚ} {Q : Except ManagerExn Bool → RegistryCtx → Prop}
    (hok : ∀ b n c, K c → c.answer = some ⟨.store runId n write, .ok b⟩ → Q (.ok b) c)
    (herror : ∀ e c, K c → (∀ detail, e ≠ .conflict detail) → (e = .cancelled → X) → Q (.error e) c)
    (hK : K c) :
    Sure policy hasStore call
      (Indexed.toStore (retrying policy runId write left attempt delay)) Q c := by
  induction left generalizing attempt delay c with
  | zero =>
    rw [retrying, Indexed.toStore, Coro.zoom_call]
    exact hB.safe_call (isWrite_store runId attempt write) (fun b c => hok b attempt c) herror hK
  | succ left ih =>
    rw [retrying, Indexed.toStore, Coro.zoom_tryCatch, Coro.zoom_call, Sure, Safe.tryCatch_iff]
    refine hB.safe_call (isWrite_store runId attempt write) (fun b c => hok b attempt c)
      (fun e c hK hconflict hX => ?_) hK
    rw [catch_error, Coro.zoom_ite, Coro.zoom_ite]
    split
    · exact herror e c hK hconflict hX
    split
    · rw [Coro.zoom_bind, Coro.zoom_call, Safe.bind_iff]
      exact hB.safe_call isWrite_sleep (fun _ c hK _ => ih hK) herror hK
    · exact ih hK

theorem safe_catchException {p : RunProc Bool}
    {Q : Except ManagerExn Bool → RegistryCtx → Prop} (hok : ∀ b c, K c → Q (.ok b) c)
    (hcancelled : ∀ c, K c → X → Q (.error .cancelled) c)
    (hp : ∀ Q : Except ManagerExn Bool → RegistryCtx → Prop, (∀ b c, K c → Q (.ok b) c) →
      (∀ e c, K c → (e = .cancelled → X) → Q (.error e) c) →
      Sure policy hasStore call (Indexed.toStore p) Q c) :
    Sure policy hasStore call (Indexed.toStore (catchException p fun _ => return false)) Q c := by
  rw [catchException, Indexed.toStore, Coro.zoom_tryCatch, Sure, Safe.tryCatch_iff]
  refine hp _ hok fun e c hK hX => ?_
  rw [catch_error, Coro.zoom_ite]
  split
  · next he => exact he ▸ hcancelled c hK (hX he)
  · exact hok false c hK

theorem Block.safe_persistSnapshot (hB : Block call g K X) {runId : ℕ} {payload : RunRow}
    {Q : Except ManagerExn Bool → RegistryCtx → Prop} (hok : ∀ b c, K c → Q (.ok b) c)
    (hcancelled : ∀ c, K c → X → Q (.error .cancelled) c) (hK : K c) :
    Sure policy hasStore call
      (Indexed.toStore (persistSnapshotToStore policy runId payload)) Q c := by
  refine safe_catchException hok hcancelled fun Q hok herror => ?_
  rw [Indexed.toStore, Coro.bind_def, Coro.zoom_bind, Sure, Safe.bind_iff]
  exact hB.safe_retrying (fun _ _ c hK _ => hok true c hK) (fun e c hK _ hX => herror e c hK hX) hK

/-- The write of a status never raises, unless the call is cancelled. -/
theorem Block.safe_persistStatus (hB : Block call g K X) {record : RunRecord} {status : RunStatus}
    {error : Option String} {Q : Except ManagerExn Bool → RegistryCtx → Prop}
    (hok : ∀ b c, K c → Q (.ok b) c) (hcancelled : ∀ c, K c → X → Q (.error .cancelled) c)
    (hK : K c) :
    Sure policy hasStore call (Indexed.persistStatus policy hasStore record status error) Q c := by
  rw [Indexed.persistStatus]
  cases hasStore with
  | false => exact hok true c hK
  | true =>
    rw [if_pos rfl, Indexed.toStore, Runs.persistStatus, Coro.bind_def, Coro.zoom_bind, Sure,
      Safe.bind_iff]
    show creation.Safe _ call (Coro.zoom _ _ (Coro.bind _ _)) Q c
    rw [Coro.zoom_bind, Safe.bind_iff]
    refine safe_catchException (fun b c hK => ?_) (fun c hK hX => hcancelled c hK hX)
      fun Q hok herror => ?_
    · exact hok b _ (hB.settled c record.runId status hK)
    · rw [Indexed.toStore, Coro.bind_def, Coro.zoom_bind, Sure, Safe.bind_iff]
      refine hB.safe_retrying (fun updated _ c hK _ => ?_) (fun e c hK _ hX => herror e c hK hX) hK
      rw [then_ok, Coro.zoom_ite]
      split
      · exact hok true c hK
      · exact hB.safe_persistSnapshot hok (fun c hK hX => herror _ c hK fun _ => hX) hK

/-! ### The lock -/

/-- **The lock.** The body runs from where the lock was taken, and gives it back however it ends. -/
theorem safe_underLock {body : RegistryProc α} {Q : Except ManagerExn α → RegistryCtx → Prop}
    (h : At 0 c) (hcancelled : ∀ s frame, Kept s (0 + frame) →
      Q (.error .cancelled) ⟨c.close, some ⟨.acquire, .error .cancelled⟩, s, frame, s⟩)
    (hbody : ∀ s frame, Kept s (0 + frame) → s.locked = false →
      Sure policy hasStore call body
        (fun res c' => Q res { c' with now := c'.now.withRuns c'.now.release })
        ⟨c.close, some ⟨.acquire, .ok ()⟩, s, frame,
          s.withRuns { s.toRunWorld with locked := true }⟩) :
    Sure policy hasStore call (Indexed.underLock body) Q c := by
  rw [Indexed.underLock, Sure, safe_withLock]
  refine Safe.call 0 (h.yield _) fun s frame out _ hi ha => ?_
  cases out with
  | fault => exact hcancelled s frame hi
  | ok => exact hbody s frame hi ha.1

theorem Kept.acquired {s : Registry} {frame : Token} (h : Kept s (0 + frame))
    (hfree : s.locked = false) :
    Kept (s.withRuns { s.toRunWorld with locked := true }) ({()} + frame) where
  exact := h.exact.of_places rfl rfl rfl
  lock := by
    have hlock := h.lock.acquire (k := ()) hfree
    rw [zero_add] at hlock
    intro k
    cases k
    have := hlock ()
    rwa [Function.update_self] at this

theorem At.resumed {s : Registry} {frame : Token} {trace : List RegistryEvent}
    {answer : Option (Answer RunOp RunOp.Reply ManagerExn)} (h : Kept s (g + frame)) :
    At g ⟨trace, answer, s, frame, s⟩ := ⟨h, fun _ => rfl⟩

/-! ### Creating a run -/

theorem block_persistNew (face : List RunRecord × (String → Option (List ℕ))) :
    Block call {()} (fun c => Holding w₀ c ∧ c.now.face = face) True where
  here _ hK := hK.1.at
  await _ _ _ _ _ hK hr hi hbeside :=
    ⟨⟨hbeside.kept hi, .inr hK.1.taken.granted⟩,
      hbeside.face.trans ((hr (Multiset.mem_singleton_self ())).trans hK.2)⟩
  settled _ _ _ hK :=
    ⟨⟨⟨hK.1.inv.exact.of_places rfl rfl rfl, hK.1.inv.lock⟩, hK.1.taken⟩, hK.2⟩
  cancelled _ _ _ := trivial

theorem block_released : Block call 0 (At 0) True where
  here _ hK := hK
  await _ _ _ _ _ _ _ hi hbeside := ⟨hbeside.kept hi, fun _ => hbeside.face⟩
  settled _ _ _ hK := ⟨⟨hK.inv.exact.of_places rfl rfl rfl, hK.inv.lock⟩, hK.rel⟩
  cancelled _ _ _ := trivial

theorem persisted_append {more : List RegistryEvent} (h : persisted trace = true) :
    persisted (trace ++ more) = true := by
  rw [persisted, answersOf, filterMap_append, any_append, Bool.or_eq_true]
  exact .inl h

theorem persisted_close {a : Answer RunOp RunOp.Reply ManagerExn} (h : c.answer = some a)
    (ha : wrote a = true) : persisted c.close = true := by
  rw [persisted, Ctx.answersOf_close, Ctx.answers, h, any_append, Bool.or_eq_true]
  exact .inr (by rw [toList_some, any_cons, ha, Bool.true_or])

theorem persisted_now (w : Registry) :
    persisted (Ctx.close { c with now := w }) = persisted c.close := by
  rw [persisted, persisted, Ctx.answersOf_close, Ctx.answersOf_close]
  rfl

theorem block_persisted : Block (.createOrReject info) 0
    (fun c => At 0 c ∧ Taken w₀ c ∧ persisted c.close = true) False where
  here _ hK := hK.1
  await _ _ _ _ _ hK _ hi hbeside :=
    ⟨⟨hbeside.kept hi, fun _ => hbeside.face⟩, .inr hK.2.1.granted, persisted_append hK.2.2⟩
  settled c _ _ hK :=
    ⟨⟨⟨hK.1.inv.exact.of_places rfl rfl rfl, hK.1.inv.lock⟩, hK.1.rel⟩, hK.2.1,
      (persisted_now _).trans hK.2.2⟩
  cancelled c hK hcancel := by
    have hnot : persisted c.close = false := hcancel
    rw [hK.2.2] at hnot
    cases hnot

/-- **The new run is there, or nothing has changed.** -/
theorem safe_insertPersisted {Q : Except ManagerExn RunRecord → RegistryCtx → Prop}
    (h : Holding w₀ c) (hface : c.now.face = w₀.face)
    (herror : ∀ e c', Holding w₀ c' → c'.now.face = w₀.face → (∀ detail, e ≠ .conflict detail) →
      Q (.error e) c')
    (hok : ∀ record c', Holding w₀ c' → (hasStore = true → persisted c'.close = true) →
      Q (.ok record) c') :
    Sure policy hasStore call (Indexed.insertPersisted policy hasStore info) Q c := by
  have hinserted : Holding w₀ { c with now := (c.now.insertRun info).2 } :=
    ⟨⟨h.inv.exact.insertRun info, h.inv.lock⟩, h.taken⟩
  rw [Indexed.insertPersisted, Sure, Coro.bind_def, Safe.bind_iff, safe_update, then_ok,
    Coro.bind_def, Safe.bind_iff, Safe.tryCatch_iff, Indexed.persistNewRunToStore]
  cases hasStore with
  | false => exact hok _ _ hinserted fun hno => Bool.noConfusion hno
  | true =>
    rw [if_pos rfl, Indexed.toStore, Runs.persistNewRunToStore, Coro.bind_def, Coro.zoom_bind,
      Safe.bind_iff]
    refine (block_persistNew (c.now.insertRun info).2.face).safe_retrying
      (fun _ _ c' hK hanswer => hok _ c' hK.1 fun _ => persisted_close hanswer rfl)
      (fun e c' hK hconflict _ => ?_) ⟨hinserted, rfl⟩
    -- the run is taken out again
    obtain ⟨hexact, hback⟩ := h.inv.exact.removeRun_insertRun hK.1.inv.exact hK.2
    refine herror e _ ⟨⟨hexact, ?_⟩, hK.1.taken⟩ (hback.trans hface) hconflict
    intro k
    rw [Registry.Exact.locked_removeRun]
    exact hK.1.inv.lock k

/-- The part of `create_or_reject` under the lock. -/
theorem safe_admitRun {Q : Except ManagerExn (RunRecord × List RunRecord) → RegistryCtx → Prop}
    (h : Holding w₀ c) (hnow : c.now.face = w₀.face)
    (hinflight : c.now.inflightLocked info.threadId = w₀.inflight info.threadId)
    (hconflict : ∀ detail c', Holding w₀ c' → c'.now.face = w₀.face →
      w₀.inflight info.threadId ≠ [] → Q (.error (.conflict detail)) c')
    (herror : ∀ e c', Holding w₀ c' → c'.now.face = w₀.face → (∀ detail, e ≠ .conflict detail) →
      (info.multitaskStrategy = .reject → w₀.inflight info.threadId = []) → Q (.error e) c')
    (hok : ∀ record interrupted c', Holding w₀ c' → (hasStore = true → persisted c'.close = true) →
      (info.multitaskStrategy = .reject → w₀.inflight info.threadId = []) →
      Q (.ok (record, interrupted)) c') :
    Sure policy hasStore call (Indexed.admitRun policy hasStore info) Q c := by
  rw [Indexed.admitRun]
  by_cases henqueue : info.multitaskStrategy = .enqueue
  · rw [if_pos henqueue]
    refine herror _ c h hnow (by simp) fun hreject => ?_
    rw [henqueue] at hreject
    cases hreject
  rw [if_neg henqueue, Sure, Coro.bind_def, Safe.bind_iff, safe_get, then_ok]
  dsimp only
  rw [hinflight]
  by_cases hrefused : info.multitaskStrategy = .reject ∧ w₀.inflight info.threadId ≠ []
  · rw [if_pos hrefused]
    exact hconflict _ c h hnow hrefused.2
  have hnone : info.multitaskStrategy = .reject → w₀.inflight info.threadId = [] := fun hreject =>
    by_contra fun hne => hrefused ⟨hreject, hne⟩
  rw [if_neg hrefused, Coro.bind_def, Safe.bind_iff]
  refine safe_insertPersisted h hnow (fun e c' hc hface he => herror e c' hc hface he hnone)
    fun record c' hc hput => ?_
  rw [then_ok]
  split
  · exact hok record [] c' hc hput hnone
  · rw [Coro.bind_def, Safe.bind_iff, safe_update, then_ok]
    -- the put is behind it: what it changes now stays
    have hsame := RunWorld.SamePlaces.interruptAll c'.now.toRunWorld
      info.multitaskStrategy.action (w₀.inflight info.threadId)
    exact hok record _ _ ⟨hc.inv.withRuns hsame, hc.taken⟩
      (fun hs => (persisted_now _).trans (hput hs)) hnone

theorem Taken.final {res : Except ManagerExn Unit} (h : Taken w₀ c) (hat : At 0 c)
    (hface : ∀ e, res = .error e → c.now.face = w₀.face)
    (hrefused : ∀ info, call = .createOrReject info → info.multitaskStrategy = .reject →
      ((∃ detail, res = .error (.conflict detail)) ↔ w₀.inflight info.threadId ≠ [])) :
    creation.Final call res c := by
  refine ⟨⟨0, hat.yield none⟩, fun _ e he => ?_, fun info hcall hreject => ?_⟩
  · refine h.granted.undone fun last hlast => ?_
    rw [Ctx.close, getLast?_concat, mem_def, some.injEq] at hlast
    rw [← hlast]
    exact hface e he
  · rw [h.granted.conflicted_iff]
    exact hrefused info hcall hreject

/-- The end of a call that was cancelled while it waited for the lock. -/
theorem Waiting.final (h : Waiting c.close) {s : Registry} {frame : Token}
    (hs : Kept s (0 + frame)) :
    creation.Final call (.error .cancelled)
      ⟨c.close, some ⟨.acquire, .error .cancelled⟩, s, frame, s⟩ := by
  have hall : Waiting (Ctx.close (Γ := Token)
      ⟨c.close, some ⟨.acquire, .error .cancelled⟩, s, frame, s⟩) := by
    intro e he
    rcases mem_append.1 he with he | he
    · exact h e he
    · obtain rfl := mem_singleton.1 he
      exact ⟨rfl, rfl⟩
  refine ⟨⟨0, (At.resumed hs).yield none⟩, fun _ _ _ => hall.undone, fun info _ _ => ?_⟩
  refine iff_of_false ?_ hall.not_conflicted
  rintro ⟨detail, hdetail⟩
  cases hdetail

theorem Waiting.holding (h : Waiting c.close) {s : Registry} {frame : Token}
    (hs : Kept s (0 + frame)) (hfree : s.locked = false) :
    Holding s ⟨c.close, some ⟨.acquire, .ok ()⟩, s, frame,
      s.withRuns { s.toRunWorld with locked := true }⟩ :=
  ⟨hs.acquired hfree, .inl ⟨h, rfl, rfl⟩⟩

theorem safe_create (h : At 0 c) (hwaiting : Waiting c.close) :
    Sure policy hasStore (.create info) (RegistryCall.proc policy hasStore (.create info))
      (creation.Final (.create info)) c := by
  have hnever : ∀ {res : Except ManagerExn Unit} {w₀ : Registry} (other : RunInfo),
      RegistryCall.create info = .createOrReject other → other.multitaskStrategy = .reject →
      ((∃ detail, res = .error (.conflict detail)) ↔ w₀.inflight other.threadId ≠ []) :=
    fun _ hcall => by cases hcall
  rw [RegistryCall.proc, Sure, Coro.bind_def, Safe.bind_iff, Indexed.create]
  refine safe_underLock h (fun s frame hs => hwaiting.final hs) fun s frame hs hfree => ?_
  refine safe_insertPersisted (hwaiting.holding hs hfree) rfl (fun e c' hc hface _ => ?_)
    fun record c' hc _ => ?_
  · exact Taken.final hc.taken (Kept.released hc.inv) (fun _ _ => hface) hnever
  · exact Taken.final hc.taken (Kept.released hc.inv) (fun _ he => by cases he) hnever

theorem safe_persistInterrupted {record : RunRecord} (h : At 0 c) (htaken : Taken w₀ c)
    (hput : hasStore = true → persisted c.close = true)
    {Q : Except ManagerExn Bool → RegistryCtx → Prop}
    (hok : ∀ b c', At 0 c' → Taken w₀ c' → (hasStore = true → persisted c'.close = true) →
      Q (.ok b) c') :
    Sure policy hasStore (.createOrReject info)
      (Indexed.persistStatus policy hasStore record .interrupted) Q c := by
  cases hasStore with
  | false => exact hok true c h htaken hput
  | true =>
    exact block_persisted.safe_persistStatus (fun b c' hK => hok b c' hK.1 hK.2.1 fun _ => hK.2.2)
      (fun _ _ hX => hX.elim) ⟨h, htaken, hput rfl⟩

/-- A run is created only if it is let in. -/
theorem safe_createOrReject (h : At 0 c) (hwaiting : Waiting c.close) :
    Sure policy hasStore (.createOrReject info)
      (RegistryCall.proc policy hasStore (.createOrReject info))
      (creation.Final (.createOrReject info)) c := by
  rw [RegistryCall.proc, Sure, Coro.bind_def, Safe.bind_iff, Indexed.createOrReject, Coro.bind_def,
    Safe.bind_iff]
  refine safe_underLock h (fun s frame hs => hwaiting.final hs) fun s frame hs hfree => ?_
  have hfound := (hs.acquired hfree).exact.inflightLocked info.threadId
  refine safe_admitRun (hwaiting.holding hs hfree) rfl hfound (fun detail c' hc hface hne => ?_)
    (fun e c' hc hface he hnone => ?_) fun record interrupted c' hc hput hnone => ?_
  · refine Taken.final hc.taken (Kept.released hc.inv) (fun _ _ => hface) fun other hcall _ => ?_
    cases hcall
    exact iff_of_true ⟨detail, rfl⟩ hne
  · refine Taken.final hc.taken (Kept.released hc.inv) (fun _ _ => hface)
      fun other hcall hreject => ?_
    cases hcall
    refine iff_of_false ?_ (not_not.2 (hnone hreject))
    rintro ⟨detail, hdetail⟩
    exact he detail (Except.error.inj hdetail)
  · rw [then_ok]
    dsimp only
    rw [Coro.bind_def, Safe.bind_iff]
    refine Safe.forEach
      (fun _ c => At 0 c ∧ Taken s c ∧ (hasStore = true → persisted c.close = true))
      (fun r rest c₁ h₁ => ?_) (fun c₁ h₁ => ?_)
      ⟨Kept.released hc.inv, hc.taken, fun hs => (persisted_now _).trans (hput hs)⟩
    · rw [Coro.bind_def, Safe.bind_iff]
      exact safe_persistInterrupted h₁.1 h₁.2.1 h₁.2.2 fun _ c₂ h₂ htaken hput => ⟨h₂, htaken, hput⟩
    · refine Taken.final h₁.2.1 h₁.1 (fun _ he => by cases he) fun other hcall hreject => ?_
      cases hcall
      refine iff_of_false ?_ (not_not.2 (hnone hreject))
      rintro ⟨detail, hdetail⟩
      cases hdetail

theorem At.final (h : At g c) (hcall : ¬ call.Creates) {res : Except ManagerExn Unit} :
    creation.Final call res c :=
  ⟨⟨g, h.yield none⟩, fun hcreates => absurd hcreates hcall, fun info hinfo => by
    rw [hinfo] at hcall
    exact absurd trivial hcall⟩

theorem safe_updateLocked {f : Registry → α × Registry}
    {Q : Except ManagerExn α → RegistryCtx → Prop} (h : At 0 c)
    (hf : ∀ w g, Kept w g → Kept (f w).2 g) (hQ : ∀ res c', At 0 c' → Q res c') :
    Sure policy hasStore call (Indexed.underLock (Coro.update f)) Q c := by
  refine safe_underLock h (fun s frame hi => hQ _ _ (.resumed hi)) fun s frame hi hfree => ?_
  exact hQ _ _ (Kept.released (c := ⟨c.close, _, s, frame, _⟩) (hf _ _ (hi.acquired hfree)))

theorem safe_setStatus {runId : ℕ} {status : RunStatus} {error : Option String}
    (hcall : ¬ call.Creates) (h : At 0 c) :
    Sure policy hasStore call (Indexed.setStatus policy hasStore runId status error)
      (creation.Final call) c := by
  rw [Indexed.setStatus, Sure, Coro.bind_def, Safe.bind_iff]
  refine safe_updateLocked h (fun w g hw => hw.withRuns (.setStatus _ runId status error))
    fun res c' hc => ?_
  cases res with
  | error e => exact hc.final hcall
  | ok found =>
    rw [then_ok]
    cases found with
    | none => exact hc.final hcall
    | some record =>
      dsimp only
      rw [Coro.bind_def, Safe.bind_iff]
      exact block_released.safe_persistStatus (fun _ c'' hc'' => hc''.final hcall)
        (fun c'' hc'' _ => hc''.final hcall) hc

theorem safe_cancel {runId : ℕ} {action : AbortAction}
    {Q : Except ManagerExn Bool → RegistryCtx → Prop} (h : At 0 c)
    (hQ : ∀ res c', At 0 c' → Q res c') :
    Sure policy hasStore call (Indexed.cancel policy hasStore runId action) Q c := by
  rw [Indexed.cancel, Sure, Coro.bind_def, Safe.bind_iff]
  refine safe_updateLocked h (fun w g hw => hw.withRuns (.cancel _ runId action))
    fun res c' hc => ?_
  cases res with
  | error e => exact hQ _ c' hc
  | ok answer =>
    rw [then_ok]
    cases answer with
    | error known => exact hQ _ c' hc
    | ok record =>
      dsimp only
      rw [Coro.bind_def, Safe.bind_iff]
      exact block_released.safe_persistStatus (fun _ c'' hc'' => hQ _ c'' hc'')
        (fun c'' hc'' _ => hQ _ c'' hc'') hc

theorem safe_cleanup {runId : ℕ} {delay : ℚ} (hcall : ¬ call.Creates) (h : At 0 c) :
    Sure policy hasStore call (Indexed.cleanup runId delay) (creation.Final call) c := by
  have hlocked : ∀ c : RegistryCtx, At 0 c → Sure policy hasStore call
      (Indexed.underLock (Coro.update fun w => ((), w.cleanup runId))) (creation.Final call) c :=
    fun c hc => safe_updateLocked hc (fun w g hw => ⟨hw.exact.cleanup runId, by
      rw [Registry.Exact.locked_cleanup]
      exact hw.lock⟩) fun _ c' hc' => hc'.final hcall
  rw [Indexed.cleanup]
  split
  · rw [Sure, Coro.bind_def, Safe.bind_iff]
    exact block_released.safe_call isWrite_sleep (fun _ c' hc _ => hlocked c' hc)
      (fun _ c' hc _ _ => hc.final hcall) h
  · exact hlocked c h

/-- **Every call keeps the registry.** -/
theorem creation_safe (policy : RetryPolicy) (hasStore : Bool) (call : RegistryCall) :
    SafeHandler creation (registryProgram policy hasStore).toBackend call
      (call.proc policy hasStore) := by
  refine ⟨trivial, fun s frame hi => ?_⟩
  have h : At 0 ⟨[], none, s, frame, s⟩ := .resumed hi
  have hwaiting : Waiting (Ctx.close (Γ := Token) ⟨[], none, s, frame, s⟩) := fun e he => by
    obtain rfl := mem_singleton.1 he
    exact ⟨rfl, rfl⟩
  cases call with
  | create info => exact safe_create h hwaiting
  | createOrReject info => exact safe_createOrReject h hwaiting
  | setStatus runId status error => exact safe_setStatus id h
  | cleanup runId delay => exact safe_cleanup id h
  | setFinalizing runId finalizing =>
    refine safe_updateLocked h (fun w g hw => hw.withRuns ?_) fun res c' hc => hc.final id
    exact .modify _ runId fun _ => rfl
  | cancel runId action =>
    rw [RegistryCall.proc, Coro.bind_def, Safe.bind_iff]
    refine safe_cancel h fun res c' hc => ?_
    cases res with
    | ok | error => exact hc.final id

end Calls

/-! ### The headline -/

theorem face_task (w : Registry) (runId : ℕ) (handle : Option RunTask) :
    (RegistryTick.apply (.task runId handle) w).face = w.face := by
  refine Prod.ext ?_ rfl
  show (w.toRunWorld.modify runId fun r => { r with task := handle }).runs.map RunRecord.still = _
  rw [RunWorld.modify, List.map_map]
  refine List.map_congr_left fun r _ => ?_
  show (if r.runId = runId then { r with task := handle } else r).still = r.still
  split <;> rfl

theorem creation_admits (policy : RetryPolicy) (hasStore : Bool) :
    Admits creation (registryProgram policy hasStore) EveryDue where
  spawn _ req _ := creation_safe policy hasStore req
  env s e g _ h := by
    cases e with
    | task runId handle =>
      exact ⟨h.withRuns (.modify _ runId fun _ => rfl), fun _ => face_task s.world runId handle⟩
    | clock | store | row => exact ⟨⟨h.exact.of_places rfl rfl rfl, h.lock⟩, fun _ => rfl⟩
  resume s out l₁ t l₂ gs₁ gs₂ hC htasks _ _ := by
    refine hC t ?_
    rw [htasks, getElem?_append_right (Nat.le_refl _), Nat.sub_self, getElem?_cons_zero]
    rfl

end Creation

open Creation

/-- **A run is created or nothing has changed.** Any number of calls, in any interleaving, with
store failures of any kind and cancellations, tasks that come and go. The index by thread lists in
every state what the records say. A creating call that raised left the registry as it was when it
got the lock, and one that may reject raised a conflict exactly if there was one at that moment. -/
theorem creation_atomic (policy : RetryPolicy) (hasStore : Bool) {w : Registry} (hw : w.Exact)
    (hfree : w.locked = false) {s : RegistryState}
    (hs : Steps (registryProgram policy hasStore) EveryDue ⟨w, []⟩ s) :
    s.world.Exact ∧
      ∀ t ∈ s.tasks, ∀ res, t.result = some res → Atomic t.req res t.trace := by
  have hinit : creation.inv w 0 := ⟨hw, Owns.zero fun _ => hfree⟩
  have hgood := (sound (creation_admits policy hasStore) (Good.init hinit) hs).1
  refine ⟨?_, fun t ht res hres => hgood.done ht hres⟩
  obtain ⟨gs, -, hinv⟩ := hgood
  exact hinv.exact

def emptyRegistry : Registry := { outside := fun _ => .error "down" }

theorem emptyRegistry_exact : emptyRegistry.Exact where
  creation := .nil
  fresh := fun _ hr => absurd hr not_mem_nil
  lists := fun _ => rfl
  full := fun _ hfull => by cases hfull

/-- A run is created; a second creation fails in the store, a third is cancelled there, and a fourth
is in conflict with the first. -/
def attempts : RegistryState :=
  (runWith (registryProgram {} true) EveryDue ⟨emptyRegistry, []⟩
    ([.spawn (.createOrReject { threadId := "t" })] ++ List.replicate 3 (.resume 0 .ok) ++
    [.env (.store (some (.other "disk full"))), .spawn (.create { threadId := "t" })] ++
    List.replicate 3 (.resume 1 .ok) ++
    [.env (.store none), .spawn (.createOrReject { threadId := "u" })] ++
    List.replicate 2 (.resume 2 .ok) ++ [.resume 2 .fault] ++
    [.spawn (.createOrReject { threadId := "t" })] ++ List.replicate 2 (.resume 3 .ok))).get
    (by decide +kernel)

theorem creation_atomic_attempts :
      attempts.tasks.map Task.result = [some (.ok ()), some (.error (.other "disk full")),
      some (.error .cancelled), some (.error (.conflict "Thread t already has an active run"))] ∧
    attempts.world.runs.map RunRecord.runId = [0] ∧ attempts.world.Exact ∧
    ∀ t ∈ attempts.tasks, ∀ res, t.result = some res → Atomic t.req res t.trace :=
  ⟨by decide +kernel, by decide +kernel,
    creation_atomic {} true emptyRegistry_exact rfl (Steps.of_runWith_get _)⟩

end AfterFlow.Runs
