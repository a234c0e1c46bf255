import AfterFlow.Transition.Runs

/-!
# The run journal

`RunJournal` buffers the events that callbacks record. When the buffer is full `_flush_sync` hands a
copy of it to a background task, unless one is pending. The task writes its batch to the store with
one `put_batch`, and puts it back in front of the buffer if that fails. At the end of the run
`flush` waits for the pending task and then writes the rest of the buffer, one batch after another.

So at any time the events are in the store, with the task, with `flush`, and in the buffer, and read
in this order they are what was recorded, provided the task and `flush` do not write at once.
Nothing keeps them apart: `flush` is not among the pending tasks, and it looks at them once. Events
that fill the buffer while `flush` is in progress start a task beside it.

`put_batch` stores its batch as a whole at some point before it returns, or raises and stores
nothing.

## Main results

* `flush_stores_recorded` — the store holds what was recorded, after a flush
-/

namespace AfterFlow.Events

open Transition Option

variable {ε : Type}

/-! ### The journal -/

/-- How far a background task is. -/
inductive TaskStage where
  | created
  /-- It awaits `put_batch`, -/
  | calling
  /-- which has stored the batch, but not returned yet. -/
  | stored
  /-- It has ended; the callback that discards it has not run yet. -/
  | finished
  deriving DecidableEq

/-- A task that runs `_flush_async`. -/
structure FlushTask (ε : Type) where
  id : ℕ
  batch : List ε
  stage : TaskStage
  deriving DecidableEq

/-- Where `flush` is. -/
inductive FlushPhase (ε : Type) where
  /-- It is not in progress. -/
  | idle
  /-- It waits for a task. -/
  | waiting (id : ℕ)
  /-- It waits for the progress reports. -/
  | progress
  /-- It awaits `put_batch`, which has stored the batch or not. -/
  | writing (batch : List ε) (stored : Bool)
  /-- It has returned, and no event has come since. -/
  | returned
  deriving DecidableEq

/-- `flush` has been called and has neither returned nor raised. -/
@[grind =] def FlushPhase.inProgress : FlushPhase ε → Bool
  | .idle => false
  | .returned => false
  | _ => true

/-- The phase once an event has come. -/
def FlushPhase.touched : FlushPhase ε → FlushPhase ε
  | .returned => .idle
  | phase => phase

structure Journal (ε : Type) where
  buffer : List ε
  /-- The pending flush tasks; there is never more than one. -/
  task : Option (FlushTask ε)
  started : ℕ
  flush : FlushPhase ε
  /-- The events in the store. -/
  store : List ε
  /-- Every event that was ever recorded. -/
  recorded : List ε
  deriving DecidableEq

namespace Journal

def new : Journal ε := ⟨[], none, 0, .idle, [], []⟩

/-- `_flush_sync`, where an event loop may be running or not. -/
def flushSync (loop : Bool) (s : Journal ε) : Journal ε :=
  if s.buffer = [] ∨ s.task.isSome ∨ loop = false then s
  else { s with buffer := [], task := some ⟨s.started, s.buffer, .created⟩, started := s.started + 1 }

/-- An event is appended to the buffer. -/
def record (event : ε) (s : Journal ε) : Journal ε :=
  { s with
    buffer := s.buffer ++ [event]
    recorded := s.recorded ++ [event]
    flush := s.flush.touched }

/-- `_put`. -/
def put (flushThreshold : ℕ) (loop : Bool) (event : ε) (s : Journal ε) : Journal ε :=
  if flushThreshold ≤ (s.record event).buffer.length then (s.record event).flushSync loop
  else s.record event

/-- The loop of `flush`, up to the next `put_batch` or to the end. -/
def flushLoop (flushThreshold : ℕ) (s : Journal ε) : Journal ε :=
  if s.buffer = [] then { s with flush := .returned }
  else { s with
    buffer := s.buffer.drop flushThreshold
    flush := .writing (s.buffer.take flushThreshold) false }

/-- The pending task goes on; `put_batch` works, or raises. -/
@[grind =] def taskStep (ok : Bool) (s : Journal ε) : Option (Journal ε) := do
  let t ← s.task
  match t.stage with
  | .created => some { s with task := some { t with stage := .calling } }
  | .calling =>
    if ok then some { s with task := some { t with stage := .stored }, store := s.store ++ t.batch }
    else some { s with task := some { t with stage := .finished }, buffer := t.batch ++ s.buffer }
  | .stored => some { s with task := some { t with stage := .finished } }
  | .finished => some { s with task := none }

/-- `flush` goes on; `put_batch` works, or raises. -/
@[grind =] def flushStep (flushThreshold : ℕ) (ok : Bool) (s : Journal ε) : Option (Journal ε) :=
  match s.flush with
  | .waiting id =>
    if s.task.map FlushTask.id = some id then none else some { s with flush := .progress }
  | .progress => some (s.flushLoop flushThreshold)
  | .writing batch false =>
    if ok then some { s with flush := .writing batch true, store := s.store ++ batch }
    else some { s with flush := .idle, buffer := batch ++ s.buffer }
  | .writing _ true => some (s.flushLoop flushThreshold)
  | _ => none

end Journal

inductive JournalLabel (ε : Type) where
  | put (event : ε) (loop : Bool)
  | flushSync (loop : Bool)
  | task (ok : Bool)
  | flush
  | flushStep (ok : Bool)
  deriving DecidableEq

@[grind =] def step (flushThreshold : ℕ) (s : Journal ε) : JournalLabel ε → Option (Journal ε)
  | .put event loop => some (s.put flushThreshold loop event)
  | .flushSync loop => some (s.flushSync loop)
  | .task ok => s.taskStep ok
  | .flush =>
    if s.flush.inProgress then none
    else some { s with flush := match s.task with
      | some t => .waiting t.id
      | none => .progress }
  | .flushStep ok => s.flushStep flushThreshold ok

/-! ### The condition -/

/-- The step starts a background task. -/
def Starts (flushThreshold : ℕ) (s : Journal ε) : JournalLabel ε → Prop
  | .put _ loop => flushThreshold ≤ s.buffer.length + 1 ∧ s.task = none ∧ loop = true
  | .flushSync loop => s.buffer ≠ [] ∧ s.task = none ∧ loop = true
  | _ => False

/-- No background task is started while `flush` is in progress. -/
def Quiet (flushThreshold : ℕ) (s : Journal ε) (l : JournalLabel ε) : Prop :=
  s.flush.inProgress = true → ¬Starts flushThreshold s l

instance [DecidableEq ε] (n : ℕ) (s : Journal ε) (l : JournalLabel ε) : Decidable (Quiet n s l) := by
  cases l <;> unfold Quiet Starts <;> infer_instance

/-! ### What a step keeps -/

/-- The events of a task that are not stored yet. -/
def FlushTask.inFlight (t : FlushTask ε) : List ε :=
  match t.stage with
  | .created => t.batch
  | .calling => t.batch
  | _ => []

/-- The events of `flush` that are not stored yet. -/
def FlushPhase.inFlight : FlushPhase ε → List ε
  | .writing batch false => batch
  | _ => []

/-- The task that is pending while `flush` is in a phase: any before, the one it waits for, and none
after that. -/
def Turn (s : Journal ε) : Prop :=
  match s.flush with
  | .idle => True
  | .waiting id => ∀ t ∈ s.task, t.id = id
  | .returned => s.task = none ∧ s.buffer = []
  | _ => s.task = none

/-- The events are in the store, with the task, with `flush` and in the buffer, in this order. -/
structure Kept (s : Journal ε) : Prop where
  balance : s.store ++ ((s.task.map FlushTask.inFlight).getD [] ++ (s.flush.inFlight ++ s.buffer)) =
    s.recorded
  turn : Turn s

variable {n : ℕ} {s s' : Journal ε} {l : JournalLabel ε}

theorem Kept.new : Kept (Journal.new : Journal ε) := ⟨rfl, trivial⟩

/-- The buffer goes to a task if there is none and `flush` is not in progress. -/
theorem Kept.flushSync {loop : Bool} (h : Kept s)
    (hquiet : s.flush.inProgress = true → s.buffer ≠ [] → s.task = none → loop = true → False) :
    Kept (s.flushSync loop) := by
  rw [Journal.flushSync]
  split
  · exact h
  · rename_i hgo
    simp only [not_or, Bool.not_eq_false, not_isSome_iff_eq_none] at hgo
    obtain ⟨hbuffer, htask, hloop⟩ := hgo
    have hidle : s.flush = .idle := by
      cases hflush : s.flush with
      | idle => rfl
      | returned =>
        have hturn := h.turn
        rw [Turn, hflush] at hturn
        exact absurd hturn.2 hbuffer
      | waiting id => exact (hquiet (by rw [hflush]; rfl) hbuffer htask hloop).elim
      | progress | writing => exact (hquiet (by rw [hflush]; rfl) hbuffer htask hloop).elim
    have hbalance := h.balance
    constructor
    · simpa [htask, hidle, FlushPhase.inFlight, FlushTask.inFlight] using hbalance
    · rw [Turn]
      simp [hidle]

theorem Kept.record (h : Kept s) (event : ε) : Kept (s.record event) := by
  obtain ⟨hbalance, hturn⟩ := h
  rw [Turn] at hturn
  constructor
  · rw [Journal.record, ← hbalance]
    cases hflush : s.flush <;> simp [FlushPhase.touched, FlushPhase.inFlight]
  · rw [Journal.record, Turn]
    cases hflush : s.flush <;> simp_all [FlushPhase.touched]

theorem Kept.put {loop : Bool} {event : ε} (h : Kept s) (hquiet : Quiet n s (.put event loop)) :
    Kept (s.put n loop event) := by
  rw [Journal.put]
  split
  · rename_i hfull
    refine (h.record event).flushSync fun hprogress _ htask hloop => hquiet ?_ ⟨?_, htask, hloop⟩
    · rw [Journal.record] at hprogress
      cases hflush : s.flush <;> simp_all [FlushPhase.inProgress, FlushPhase.touched]
    · simpa [Journal.record] using hfull
  · exact h.record event

theorem Kept.flushLoop (h : Kept s) (htask : s.task = none) (hflight : s.flush.inFlight = []) :
    Kept (s.flushLoop n) := by
  have hbalance := h.balance
  rw [htask, hflight] at hbalance
  rw [Journal.flushLoop]
  split
  · rename_i hbuffer
    exact ⟨by simpa [htask, FlushPhase.inFlight] using hbalance, htask, hbuffer⟩
  · exact ⟨by simpa [htask, FlushPhase.inFlight] using hbalance, htask⟩

theorem Turn.stage {t : FlushTask ε} {stage : TaskStage} {buffer store : List ε} (h : Turn s)
    (htask : s.task = some t) :
    Turn { s with buffer := buffer, task := some { t with stage := stage }, store := store } := by
  rw [Turn] at h ⊢
  cases hflush : s.flush <;> simp_all

theorem Kept.taskStep {ok : Bool} (h : Kept s) (hs : s.taskStep ok = some s') : Kept s' := by
  obtain ⟨⟨id, batch, stage⟩, htask, hstage⟩ := bind_eq_some_iff.1 hs
  have hturn := h.turn
  have hbalance := h.balance
  rw [htask] at hbalance
  -- with a task pending, `flush` has nothing in flight
  have hflight : s.flush.inFlight = [] := by
    rw [Turn] at hturn
    cases hflush : s.flush <;> simp_all [FlushPhase.inFlight]
  rw [hflight] at hbalance
  cases stage with
  | created =>
    obtain rfl := some.inj hstage
    exact ⟨by simpa [FlushTask.inFlight, hflight] using hbalance, hturn.stage htask⟩
  | calling =>
    cases ok with
    | true =>
      obtain rfl := some.inj hstage
      exact ⟨by simpa [FlushTask.inFlight, hflight] using hbalance, hturn.stage htask⟩
    | false =>
      obtain rfl := some.inj hstage
      exact ⟨by simpa [FlushTask.inFlight, hflight] using hbalance, hturn.stage htask⟩
  | stored =>
    obtain rfl := some.inj hstage
    exact ⟨by simpa [FlushTask.inFlight, hflight] using hbalance, hturn.stage htask⟩
  | finished =>
    obtain rfl := some.inj hstage
    refine ⟨by simpa [FlushTask.inFlight, hflight] using hbalance, ?_⟩
    rw [Turn] at hturn ⊢
    cases hflush : s.flush <;> simp_all

theorem Kept.flushStep {ok : Bool} (h : Kept s) (hs : s.flushStep n ok = some s') : Kept s' := by
  obtain ⟨hbalance, hturn⟩ := h
  rw [Journal.flushStep] at hs
  rw [Turn] at hturn
  cases hflush : s.flush with
  | idle | returned => simp [hflush] at hs
  | waiting id =>
    simp only [hflush] at hs hturn
    split at hs
    · cases hs
    · rename_i hid
      obtain rfl := some.inj hs
      refine ⟨by simpa [hflush, FlushPhase.inFlight] using hbalance, ?_⟩
      cases htask : s.task with
      | none => rfl
      | some t => exact absurd (by rw [htask, map_some, hturn t htask]) hid
  | progress =>
    simp only [hflush] at hs hturn
    obtain rfl := some.inj hs
    exact Kept.flushLoop ⟨hbalance, by rw [Turn, hflush]; exact hturn⟩ hturn (by rw [hflush]; rfl)
  | writing batch stored =>
    cases stored with
    | true =>
      simp only [hflush] at hs hturn
      obtain rfl := some.inj hs
      exact Kept.flushLoop ⟨hbalance, by rw [Turn, hflush]; exact hturn⟩ hturn (by rw [hflush]; rfl)
    | false =>
      simp only [hflush] at hs hturn
      cases ok with
      | true =>
        obtain rfl := some.inj hs
        exact ⟨by simpa [hflush, hturn, FlushPhase.inFlight] using hbalance, hturn⟩
      | false =>
        obtain rfl := some.inj hs
        exact ⟨by simpa [hflush, hturn, FlushPhase.inFlight] using hbalance, trivial⟩

/-- **A step keeps every event in its place, unless it starts a task beside `flush`.** -/
theorem Kept.step (h : Kept s) (hl : Quiet n s l) (hs : step n s l = some s') : Kept s' := by
  cases l with
  | put event loop =>
    obtain rfl := some.inj hs
    exact h.put hl
  | flushSync loop =>
    obtain rfl := some.inj hs
    exact h.flushSync fun hprogress hbuffer htask hloop => hl hprogress ⟨hbuffer, htask, hloop⟩
  | task ok => exact h.taskStep hs
  | flush =>
    rw [Events.step] at hs
    split at hs
    · cases hs
    · rename_i hprogress
      obtain rfl := some.inj hs
      have hflight : s.flush.inFlight = [] := by
        cases hflush : s.flush <;> simp_all [FlushPhase.inProgress, FlushPhase.inFlight]
      have hbalance := h.balance
      rw [hflight] at hbalance
      cases htask : s.task with
      | none => exact ⟨by simpa [htask, FlushPhase.inFlight] using hbalance, rfl⟩
      | some t =>
        refine ⟨by simpa [htask, FlushPhase.inFlight] using hbalance, fun t' ht' => ?_⟩
        rw [← some.inj ht']
  | flushStep ok => exact h.flushStep hs

/-- **The journal loses, repeats and reorders nothing.** In any interleaving of events, background
tasks and calls of `flush`, with any failures of `put_batch`, whenever `flush` has returned and no
task is pending the store holds what was recorded, as long as no task was started while `flush` was
in progress. -/
theorem flush_stores_recorded (flushThreshold : ℕ) {s : Journal ε}
    (h : Runs (step flushThreshold) (Quiet flushThreshold) Journal.new s)
    (hreturned : s.flush = .returned) (htask : s.task = none) : s.store = s.recorded := by
  have hkept : Kept s := h.invariant .new fun _ _ _ h hl hs => h.step hl hs
  obtain ⟨hbalance, hturn⟩ := hkept
  rw [Turn, hreturned] at hturn
  simpa [htask, hreturned, hturn.2, FlushPhase.inFlight] using hbalance

/-- A full buffer went to a task, whose `put_batch` failed, and `flush` has written everything. -/
def drained : Journal ℕ := ⟨[], none, 1, .returned, [1, 2, 3], [1, 2, 3]⟩

theorem flush_stores_recorded_demo : drained.store = drained.recorded := by
  have h : runWith (step 2) (Quiet 2) Journal.new [.put 1 true, .put 2 true, .task true, .flush,
      .put 3 true, .task false, .task true, .flushStep true, .flushStep true, .flushStep true,
      .flushStep true, .flushStep true, .flushStep true] = some drained := by decide
  exact flush_stores_recorded 2 (runs_of_runWith h) rfl rfl

/-- Two events fill the buffer while `flush` writes the one before them: they are stored first. -/
def overtaken : Journal ℕ := ⟨[], none, 1, .returned, [2, 3, 1], [1, 2, 3]⟩

theorem flush_overtaken :
    Runs (step 2) (fun _ _ => True) Journal.new overtaken ∧ overtaken.flush = .returned ∧
      overtaken.task = none ∧ overtaken.store ≠ overtaken.recorded := by
  have h : runWith (step 2) (fun _ _ => True) Journal.new [.put 1 true, .flush, .flushStep true,
      .put 2 true, .put 3 true, .task true, .task true, .task true, .task true, .flushStep true,
      .flushStep true] = some overtaken := by decide
  exact ⟨runs_of_runWith h, rfl, rfl, by decide⟩

end AfterFlow.Events
