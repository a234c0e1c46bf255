import AfterFlow.Events.Stores
import AfterFlow.Transition.Windows

/-!
# What an event store is for

The interface of the run-event stores, without a way to store anything: a list of the events that
were put and not deleted, in the order in which they were put, and the last number of each thread.
The queries of the interface are filters and pages of this list.

Stores are compared in what a caller sees of a record, which is all but the time of its creation.
-/

namespace AfterFlow.Events

open Transition List Function

/-- What is compared of a record. -/
structure Shown where
  threadId : String
  runId : String
  seq : ℕ
  eventType : String
  category : String
  content : Value
  metadata : List (String × Value)

def EventRecord.shown (r : EventRecord) : Shown :=
  ⟨r.threadId, r.runId, r.seq, r.eventType, r.category, r.content, r.metadata⟩

/-- The fields of a dictionary, if it has all of them. -/
def shownOf : Value → Option Shown
  | .obj fields =>
    match fields.lookup "thread_id", fields.lookup "run_id", fields.lookup "seq",
      fields.lookup "event_type", fields.lookup "category", fields.lookup "content",
      fields.lookup "metadata" with
    | some (.str threadId), some (.str runId), some (.int seq), some (.str eventType),
      some (.str category), some content, some (.obj metadata) =>
      some ⟨threadId, runId, seq.toNat, eventType, category, content, metadata⟩
    | _, _, _, _, _, _, _ => none
  | _ => none

/-- The times at which an event is put, by the clocks of the three stores. -/
structure Clocks (τ : Type) where
  memory : String
  jsonl : String
  db : τ

/-- The calls of the interface. -/
inductive StoreCall (τ : Type) where
  | put (now : Clocks τ) (e : EventInput)
  | putBatch (events : List (Clocks τ × EventInput))
  | listMessages (threadId : String) (limit : ℕ) (beforeSeq afterSeq : Option ℤ)
  | listEvents (threadId runId : String) (eventTypes : Option (List String))
      (taskId : Option String) (limit : ℕ) (afterSeq : Option ℤ)
  | listMessagesByRun (threadId runId : String) (limit : ℕ) (beforeSeq afterSeq : Option ℤ)
  | countMessages (threadId : String)
  | deleteByThread (threadId : String)
  | deleteByRun (threadId runId : String)

/-- What a call returns; a dictionary may lack a field. -/
inductive StoreAnswer where
  | records (rs : List (Option Shown))
  | count (n : ℕ)
  | raised

/-- The answers to some calls, one after the other. -/
def answers {σ γ : Type} (exec : σ → γ → StoreAnswer × σ) (s : σ) : List γ → List StoreAnswer
  | [] => []
  | call :: calls => (exec s call).1 :: answers exec (exec s call).2 calls

/-! ### Pages -/

/-- The number of an event, to be compared with cursors. -/
def Shown.number (x : Shown) : ℤ := x.seq

def Shown.isMessage (x : Shown) : Bool := x.category = "message"

/-- The events after a cursor. -/
def after (afterSeq : Option ℤ) (l : List Shown) : List Shown :=
  l.filter fun x => afterSeq.all (· < x.number)

/-- The events before a cursor. -/
def before (beforeSeq : Option ℤ) (l : List Shown) : List Shown :=
  l.filter fun x => beforeSeq.all (x.number < ·)

/-- The first events after a cursor, or the latest before one. -/
def page (limit : ℕ) (beforeSeq afterSeq : Option ℤ) (l : List Shown) : List Shown :=
  if afterSeq.isSome then first limit (after afterSeq (before beforeSeq l))
  else latest limit (before beforeSeq l)

/-- Whether the metadata name the task. -/
def ofTask (taskId : String) (metadata : List (String × Value)) : Bool :=
  match metadata.lookup "task_id" with
  | some (.str id) => id = taskId
  | _ => false

/-! ### The list -/

/-- The events in the order in which they were put, and the last number of each thread. -/
structure EventLog where
  log : List Shown
  last : String → ℕ

namespace EventLog

def empty : EventLog := ⟨[], fun _ => 0⟩

variable (s : EventLog)

def ofThread (threadId : String) : List Shown := s.log.filter fun x => x.threadId = threadId

def ofRun (threadId runId : String) : List Shown :=
  (s.ofThread threadId).filter fun x => x.runId = runId

def put (e : EventInput) : Shown × EventLog :=
  let seq := s.last e.threadId + 1
  let x : Shown := ⟨e.threadId, e.runId, seq, e.eventType, e.category, e.content, e.metadata⟩
  (x, ⟨s.log ++ [x], update s.last e.threadId seq⟩)

def putBatch (s : EventLog) : List EventInput → List Shown × EventLog
  | [] => ([], s)
  | e :: events =>
    let (x, s) := s.put e
    let (xs, s) := s.putBatch events
    (x :: xs, s)

def deleteByThread (threadId : String) : EventLog :=
  ⟨s.log.filter fun x => x.threadId ≠ threadId, update s.last threadId 0⟩

def deleteByRun (threadId runId : String) : EventLog :=
  ⟨s.log.filter fun x => ¬(x.threadId = threadId ∧ x.runId = runId), s.last⟩

/-- The interface. -/
def exec {τ : Type} (s : EventLog) : StoreCall τ → StoreAnswer × EventLog
  | .put _ e => (.records [some (s.put e).1], (s.put e).2)
  | .putBatch events =>
    (.records ((s.putBatch (events.map Prod.snd)).1.map some),
      (s.putBatch (events.map Prod.snd)).2)
  | .listMessages threadId limit beforeSeq afterSeq =>
    (.records ((page limit beforeSeq afterSeq
      ((s.ofThread threadId).filter Shown.isMessage)).map some), s)
  | .listEvents threadId runId eventTypes taskId limit afterSeq =>
    (.records ((first limit (after afterSeq ((s.ofRun threadId runId).filter fun x =>
      eventTypes.all (x.eventType ∈ ·) && taskId.all (ofTask · x.metadata)))).map some), s)
  | .listMessagesByRun threadId runId limit beforeSeq afterSeq =>
    (.records ((page limit beforeSeq afterSeq
      ((s.ofRun threadId runId).filter Shown.isMessage)).map some), s)
  | .countMessages threadId =>
    (.count ((s.ofThread threadId).filter Shown.isMessage).length, s)
  | .deleteByThread threadId => (.count (s.ofThread threadId).length, s.deleteByThread threadId)
  | .deleteByRun threadId runId =>
    (.count (s.ofRun threadId runId).length, s.deleteByRun threadId runId)

/-! ### Numbers -/

/-- The numbers of a thread increase, and none is above its last one. -/
structure Ordered : Prop where
  climbs : ∀ t, Climbs Shown.number (s.ofThread t)
  le_last : ∀ t, ∀ x ∈ s.ofThread t, x.seq ≤ s.last t

/-- The numbers of a thread increase up to its last one. -/
structure Numbered : Prop where
  climbs : ∀ t, Climbs Shown.number (s.ofThread t)
  last : ∀ t, s.last t = ((s.ofThread t).getLast?.map Shown.seq).getD 0

variable {s} {t run : String} {e : EventInput}

theorem ofThread_put : (s.put e).2.ofThread t =
    s.ofThread t ++ if e.threadId = t then [(s.put e).1] else [] := by
  rw [ofThread, put, filter_append, filter_singleton]
  simp [ofThread]

theorem ofThread_deleteByThread : (s.deleteByThread t).ofThread run =
    if run = t then [] else s.ofThread run := by
  rw [ofThread, deleteByThread, filter_filter]
  split
  · rename_i h
    subst h
    refine filter_eq_nil_iff.2 fun x _ => ?_
    simp
  · rename_i h
    refine filter_congr fun x _ => ?_
    by_cases hx : x.threadId = run
    · simp [hx, h]
    · simp [hx]

theorem ofThread_deleteByRun {t' : String} : (s.deleteByRun t run).ofThread t' =
    if t' = t then (s.ofThread t).filter fun x => x.runId ≠ run else s.ofThread t' := by
  rw [ofThread, deleteByRun, filter_filter]
  split
  · rename_i h
    subst h
    rw [ofThread, filter_filter]
    refine filter_congr fun x _ => ?_
    by_cases hx : x.threadId = t'
    · simp [hx]
    · simp [hx]
  · rename_i h
    refine filter_congr fun x _ => ?_
    by_cases hx : x.threadId = t'
    · simp [hx, h]
    · simp [hx]

theorem Numbered.empty : EventLog.empty.Numbered :=
  ⟨fun _ => .nil, fun _ => rfl⟩

theorem Numbered.le_last (h : s.Numbered) {x : Shown} (hx : x ∈ s.ofThread t) : x.seq ≤ s.last t := by
  obtain ⟨l, last, hl⟩ : ∃ l last, s.ofThread t = l ++ [last] := by
    rcases eq_nil_or_concat (s.ofThread t) with hnil | ⟨l, last, hl⟩
    · rw [hnil] at hx
      cases hx
    · exact ⟨l, last, by rw [hl, concat_eq_append]⟩
  have hlast : s.last t = last.seq := by
    rw [h.last t, hl]
    simp
  have hclimbs := h.climbs t
  rw [hl] at hx hclimbs
  rw [hlast]
  rcases mem_append.1 hx with hx | hx
  · have hlt := (pairwise_append.1 hclimbs).2.2 x hx last (mem_singleton_self _)
    simp only [Shown.number] at hlt
    omega
  · rw [mem_singleton.1 hx]

theorem Numbered.ordered (h : s.Numbered) : s.Ordered := ⟨h.climbs, fun _ _ => h.le_last⟩

theorem Ordered.empty : EventLog.empty.Ordered := Numbered.empty.ordered

theorem Ordered.put (h : s.Ordered) (e : EventInput) : (s.put e).2.Ordered := by
  constructor
  · intro t
    rw [ofThread_put]
    split
    · rename_i ht
      refine pairwise_append.2 ⟨h.climbs t, pairwise_singleton _ _, ?_⟩
      intro x hx y hy
      rw [mem_singleton.1 hy]
      have hle := h.le_last t x hx
      show (x.seq : ℤ) < ((s.last e.threadId + 1 : ℕ) : ℤ)
      rw [ht]
      omega
    · rw [append_nil]
      exact h.climbs t
  · intro t x hx
    rw [ofThread_put] at hx
    show x.seq ≤ update s.last e.threadId (s.last e.threadId + 1) t
    by_cases ht : e.threadId = t
    · subst ht
      rw [if_pos rfl] at hx
      rw [update_self]
      rcases mem_append.1 hx with hx | hx
      · exact Nat.le_succ_of_le (h.le_last _ x hx)
      · rw [mem_singleton.1 hx]
        exact le_refl _
    · rw [if_neg ht, append_nil] at hx
      rw [update_of_ne (Ne.symm ht)]
      exact h.le_last t x hx

theorem Ordered.putBatch (h : s.Ordered) (events : List EventInput) :
    (s.putBatch events).2.Ordered := by
  induction events generalizing s with
  | nil => exact h
  | cons e events ih => exact ih (h.put e)

theorem Ordered.deleteByThread (h : s.Ordered) (t : String) : (s.deleteByThread t).Ordered := by
  constructor
  · intro t'
    rw [ofThread_deleteByThread]
    split
    · exact .nil
    · exact h.climbs t'
  · intro t' x hx
    rw [ofThread_deleteByThread] at hx
    split at hx
    · cases hx
    · rename_i ht
      show x.seq ≤ update s.last t 0 t'
      rw [update_of_ne ht]
      exact h.le_last t' x hx

theorem Ordered.deleteByRun (h : s.Ordered) (t run : String) : (s.deleteByRun t run).Ordered := by
  constructor
  · intro t'
    rw [ofThread_deleteByRun]
    split
    · exact (h.climbs t).filter _
    · exact h.climbs t'
  · intro t' x hx
    rw [ofThread_deleteByRun] at hx
    split at hx
    · rename_i ht
      subst ht
      exact h.le_last t' x (mem_filter.1 hx).1
    · exact h.le_last t' x hx

theorem Numbered.put (h : s.Numbered) (e : EventInput) : (s.put e).2.Numbered := by
  refine ⟨(h.ordered.put e).climbs, fun t => ?_⟩
  rw [ofThread_put]
  show update s.last e.threadId _ t = _
  by_cases ht : e.threadId = t
  · subst ht
    rw [if_pos rfl, update_self, getLast?_append]
    rfl
  · rw [if_neg ht, update_of_ne (Ne.symm ht), append_nil]
    exact h.last t

theorem Numbered.putBatch (h : s.Numbered) (events : List EventInput) :
    (s.putBatch events).2.Numbered := by
  induction events generalizing s with
  | nil => exact h
  | cons e events ih => exact ih (h.put e)

theorem Numbered.deleteByThread (h : s.Numbered) (t : String) : (s.deleteByThread t).Numbered := by
  refine ⟨(h.ordered.deleteByThread t).climbs, fun t' => ?_⟩
  rw [ofThread_deleteByThread]
  show update s.last t 0 t' = _
  by_cases ht : t' = t
  · subst ht
    rw [if_pos rfl, update_self]
    rfl
  · rw [if_neg ht, update_of_ne ht]
    exact h.last t'

/-- A deletion that leaves the last event of the thread leaves its number. -/
theorem Numbered.deleteByRun (h : s.Numbered)
    (hlast : ∀ x ∈ (s.ofThread t).getLast?, x.runId ≠ run) : (s.deleteByRun t run).Numbered := by
  refine ⟨(h.ordered.deleteByRun t run).climbs, fun t' => ?_⟩
  rw [ofThread_deleteByRun]
  show s.last t' = _
  rw [h.last t']
  split
  · rename_i ht
    subst ht
    rcases eq_nil_or_concat (s.ofThread t') with hnil | ⟨l, x, hl⟩
    · rw [hnil]
      rfl
    · rw [hl, concat_eq_append] at hlast ⊢
      have hx : x.runId ≠ run := hlast x (by simp)
      rw [filter_append, filter_singleton]
      simp [hx]
  · rfl

end EventLog

end AfterFlow.Events
