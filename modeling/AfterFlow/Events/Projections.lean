import AfterFlow.Events.Agreement.Memory

/-!
# The projections of the store in memory

The store keeps the messages of a thread, the events of a run and the messages of a run beside the
list of the thread's events, and bisects them. Whatever was put and deleted, a read returns what the
list of the events would, filtered from one end to the other, and no projection holds an event that
the list has not.

## Main results

* `projections_faithful` — the store reads as the list of its events
-/

namespace AfterFlow.Events

open Transition List

/-! ### Reading a list of events -/

/-- The messages before a cursor, or else after one: the latest before it, or the first after it. -/
def plainMessages (limit : ℕ) (beforeSeq afterSeq : Option ℤ) (events : List EventRecord) :
    List EventRecord :=
  let messages := events.filter fun e => e.category = "message"
  match beforeSeq, afterSeq with
  | some beforeSeq, _ => latest limit (messages.filter fun e => (e.seq : ℤ) < beforeSeq)
  | none, some afterSeq => first limit (messages.filter fun e => afterSeq < (e.seq : ℤ))
  | none, none => latest limit messages

/-- The first events of a run after a cursor, of these types and this task. -/
def plainEvents (runId : String) (eventTypes : Option (List String)) (taskId : Option String)
    (limit : ℕ) (afterSeq : Option ℤ) (events : List EventRecord) : List EventRecord :=
  first limit (events.filter fun e => e.runId = runId ∧ eventTypes.all (e.eventType ∈ ·) ∧
    taskId.all (ofTask · e.metadata) ∧ afterSeq.all (· < (e.seq : ℤ)))

/-- The messages of a run between two cursors: the first after the lower, or the latest. -/
def plainMessagesByRun (runId : String) (limit : ℕ) (beforeSeq afterSeq : Option ℤ)
    (events : List EventRecord) : List EventRecord :=
  let window := events.filter fun e => e.category = "message" ∧ e.runId = runId ∧
    afterSeq.all (· < (e.seq : ℤ)) ∧ beforeSeq.all ((e.seq : ℤ) < ·)
  if afterSeq.isSome then first limit window else latest limit window

/-- The reads of the store are those of its events, and it holds no others. -/
structure Faithful (s : MemoryIndex) : Prop where
  increasing : ∀ t, (s.store.events t).Pairwise fun e e' => e.seq < e'.seq
  listMessages : ∀ t limit beforeSeq afterSeq, 1 ≤ limit →
    s.listMessages t limit beforeSeq afterSeq =
      plainMessages limit beforeSeq afterSeq (s.store.events t)
  listEvents : ∀ t run eventTypes taskId limit afterSeq,
    s.listEvents t run eventTypes taskId limit afterSeq =
      plainEvents run eventTypes taskId limit afterSeq (s.store.events t)
  listMessagesByRun : ∀ t run limit beforeSeq afterSeq, 1 ≤ limit →
    s.listMessagesByRun t run limit beforeSeq afterSeq =
      plainMessagesByRun run limit beforeSeq afterSeq (s.store.events t)
  countMessages : ∀ t,
    (s.messages t).length = (s.store.events t).countP fun e => e.category = "message"
  messages_alive : ∀ t, ∀ e ∈ s.messages t, e ∈ s.store.events t
  eventsByRun_alive : ∀ t run, ∀ e ∈ s.eventsByRun t run, e ∈ s.store.events t
  messagesByRun_alive : ∀ t run, ∀ e ∈ s.messagesByRun t run, e ∈ s.store.events t

/-! ### Runs of the store -/

variable {τ : Type}

/-- The store after some calls. -/
def MemoryIndex.run (s : MemoryIndex) (calls : List (StoreCall τ)) : MemoryIndex :=
  calls.foldl (fun s call => (s.exec call).2) s

/-- The list after some calls. -/
def EventLog.run (a : EventLog) (calls : List (StoreCall τ)) : EventLog :=
  calls.foldl (fun a call => (a.exec call).2) a

variable {s : MemoryIndex} {a : EventLog}

theorem Mirrors.step (h : Mirrors s a) (call : StoreCall τ) :
    Mirrors (s.exec call).2 (a.exec call).2 := by
  cases call with
  | put now e => exact (h.putOne now.memory e).2
  | putBatch events =>
    have hput := (h.putBatch (events.map fun e => (e.1.memory, e.2))).2
    rwa [map_map] at hput
  | deleteByThread t => exact (h.deleteByThread t).2
  | deleteByRun t run => exact (h.deleteByRun t run).2
  | _ => exact h

theorem EventLog.Ordered.step (h : a.Ordered) (call : StoreCall τ) : (a.exec call).2.Ordered := by
  cases call with
  | put now e => exact h.put e
  | putBatch events => exact h.putBatch _
  | deleteByThread t => exact h.deleteByThread t
  | deleteByRun t run => exact h.deleteByRun t run
  | _ => exact h

theorem Mirrors.run (h : Mirrors s a) (ho : a.Ordered) (calls : List (StoreCall τ)) :
    Mirrors (s.run calls) (a.run calls) ∧ (a.run calls).Ordered := by
  induction calls generalizing s a with
  | nil => exact ⟨h, ho⟩
  | cons call calls ih => exact ih (h.step call) (ho.step call)

/-! ### Reading the projections -/

theorem Mirrors.climbs (h : Mirrors s a) (ho : a.Ordered) (t : String) :
    Climbs MemoryIndex.seqKey (s.store.events t) :=
  climbs_shown (h.events t ▸ ho.climbs t)

theorem Mirrors.messages_read (h : Mirrors s a) (ho : a.Ordered) (t : String) {limit : ℕ}
    (hlimit : 1 ≤ limit) (beforeSeq afterSeq : Option ℤ) :
    s.listMessages t limit beforeSeq afterSeq =
      plainMessages limit beforeSeq afterSeq (s.store.events t) := by
  have hclimbs : Climbs MemoryIndex.seqKey (s.messages t) := by
    rw [h.messages]
    exact (h.climbs ho t).filter _
  rw [MemoryIndex.listMessages.eq_def, plainMessages.eq_def, ← h.messages]
  cases beforeSeq with
  | some x =>
    have hcut : (s.messages t).take (bisectLeft MemoryIndex.seqKey (s.messages t) x) =
        (s.messages t).filter fun e => (e.seq : ℤ) < x := take_bisectLeft hclimbs x
    have hlength : bisectLeft MemoryIndex.seqKey (s.messages t) x =
        ((s.messages t).filter fun e => (e.seq : ℤ) < x).length := by
      rw [← hcut, length_take, Nat.min_eq_left]
      exact ( takeWhile_prefix _).length_le
    dsimp only
    rw [hcut, hlength, latest]
  | none =>
    cases afterSeq with
    | some x =>
      have hcut : (s.messages t).drop (bisectRight MemoryIndex.seqKey (s.messages t) x) =
          (s.messages t).filter fun e => x < (e.seq : ℤ) := drop_bisectRight hclimbs x
      dsimp only
      rw [← hcut, first, take_drop]
    | none => exact sliceFromEnd_eq hlimit _

theorem Mirrors.events_read (h : Mirrors s a) (t run : String)
    (eventTypes : Option (List String)) (taskId : Option String) (limit : ℕ)
    (afterSeq : Option ℤ) :
    s.listEvents t run eventTypes taskId limit afterSeq =
      plainEvents run eventTypes taskId limit afterSeq (s.store.events t) := by
  rw [MemoryIndex.listEvents, plainEvents, h.eventsByRun, filter_filter, filter_filter,
    filter_filter]
  refine congrArg (first limit) (filter_congr fun e _ => ?_)
  rw [Bool.eq_iff_iff]
  simp only [Bool.and_eq_true, decide_eq_true_eq, MemoryIndex.seqKey]
  tauto

theorem Mirrors.messagesByRun_read (h : Mirrors s a) (ho : a.Ordered) (t run : String) {limit : ℕ}
    (hlimit : 1 ≤ limit) (beforeSeq afterSeq : Option ℤ) :
    s.listMessagesByRun t run limit beforeSeq afterSeq =
      plainMessagesByRun run limit beforeSeq afterSeq (s.store.events t) := by
  have hmessages : s.messagesByRun t run =
      (s.store.events t).filter fun e => e.category = "message" ∧ e.runId = run := by
    rw [h.messagesByRun, h.messages, filter_filter]
    refine filter_congr fun e _ => ?_
    rw [Bool.decide_and, Bool.and_comm]
  have hclimbs : Climbs MemoryIndex.seqKey (s.messagesByRun t run) := by
    rw [hmessages]
    exact (h.climbs ho t).filter _
  have hwindow : ((s.messagesByRun t run).take ((beforeSeq.map
      (bisectLeft MemoryIndex.seqKey (s.messagesByRun t run))).getD
        (s.messagesByRun t run).length)).drop ((afterSeq.map
          (bisectRight MemoryIndex.seqKey (s.messagesByRun t run))).getD 0) =
      (s.store.events t).filter fun e => e.category = "message" ∧ e.runId = run ∧
        afterSeq.all (· < (e.seq : ℤ)) ∧ beforeSeq.all ((e.seq : ℤ) < ·) := by
    rw [window_eq hclimbs, hmessages, filter_filter]
    refine filter_congr fun e _ => ?_
    rw [Bool.and_comm, ← Bool.decide_and]
    exact decide_eq_decide.2 (and_assoc ..)
  rw [MemoryIndex.listMessagesByRun, plainMessagesByRun, ← hwindow, sliceFromEnd_eq hlimit]

theorem Mirrors.faithful (h : Mirrors s a) (ho : a.Ordered) : Faithful s where
  increasing t := (h.climbs ho t).imp fun hlt => Int.ofNat_lt.1 hlt
  listMessages t _ beforeSeq afterSeq hlimit := h.messages_read ho t hlimit beforeSeq afterSeq
  listEvents t run eventTypes taskId limit afterSeq :=
    h.events_read t run eventTypes taskId limit afterSeq
  listMessagesByRun t run _ beforeSeq afterSeq hlimit :=
    h.messagesByRun_read ho t run hlimit beforeSeq afterSeq
  countMessages t := by rw [h.messages, countP_eq_length_filter]
  messages_alive t e he := by
    rw [h.messages] at he
    exact (mem_filter.1 he).1
  eventsByRun_alive t run e he := by
    rw [h.eventsByRun] at he
    exact (mem_filter.1 he).1
  messagesByRun_alive t run e he := by
    rw [h.messagesByRun, h.messages] at he
    exact (mem_filter.1 (mem_filter.1 he).1).1

/-- **The projections are faithful.** After any calls the store reads as the list of its events
does, and these are the events that were put and not deleted. -/
theorem projections_faithful (calls : List (StoreCall τ)) :
    Faithful (MemoryIndex.empty.run calls) ∧
      ∀ t, ((MemoryIndex.empty.run calls).store.events t).map EventRecord.shown =
        (EventLog.empty.run calls).ofThread t := by
  obtain ⟨hmirrors, hordered⟩ := Mirrors.empty.run .empty calls
  exact ⟨hmirrors.faithful hordered, hmirrors.events⟩

end AfterFlow.Events
