import AfterFlow.Transition.Runs
import Mathlib.Data.Fintype.Sum

/-!
# The queue of memory updates

Conversations wait in `MemoryUpdateQueue` until a timer fires, and then one pass hands them to the
updater. There is one entry for each thread, user and agent: a new one takes the place of the old
and keeps its signals. Its messages go, and so they should be among the new ones. They are for a
conversation that grows. But `memory_flush_hook` hands over the messages that summarization is about
to remove, with `add_nowait`, and the conversation that comes afterwards does not have them.

Under the lock everything is one step. A pass is told apart from others by the flag `_processing`,
and what it cannot do now it leaves to a new timer, so the queue is never left with nobody to come.

## Main results

* `Covers.step`, `World.Attended.step` — what each step keeps
* `no_conversation_dropped` — what is handed to the queue gets to the updater
* `flushed_messages_dropped` — a flush that is replaced before its pass begins
-/

namespace AfterFlow.Memory.Queue

open Transition List Function

/-- `ConversationContext`, with the place of the call that made it among the calls. -/
structure Context (K Msg : Type) where
  /-- The thread, the user and the agent. -/
  key : K
  messages : List Msg
  traceId : Option String
  correctionDetected : Bool
  reinforcementDetected : Bool
  number : ℕ
  deriving DecidableEq

/-- Who runs `_process_queue`: the thread of a timer, or a caller of `flush`. -/
inductive Worker (I : Type) where
  | timer (t : ℕ)
  | caller (i : I)
  deriving DecidableEq

inductive Stage (K Msg : Type) where
  | idle
  /-- The timer has been started and has not fired. -/
  | scheduled
  | cancelled
  /-- `_process_queue` has been called. -/
  | entering
  /-- A pass, with what it has still to hand to the updater. -/
  | passing (rest : List (Context K Msg))
  | done

/-- Somebody comes and looks at the queue. -/
@[grind =] def Stage.isDue {K Msg : Type} : Stage K Msg → Bool
  | .scheduled | .entering => true
  | _ => false

structure World (K Msg I : Type) where
  queue : List (Context K Msg)
  /-- `_timer`. -/
  timer : Option ℕ
  /-- The next timer. -/
  next : ℕ
  processing : Bool
  stage : Worker I → Stage K Msg
  /-- What has been handed to the queue, as it came. -/
  handed : List (Context K Msg)
  /-- What has been handed to the updater. -/
  passed : List (Context K Msg)

inductive Act (K Msg I : Type) where
  /-- `add` and `add_nowait`, which differ in the delay of the timer. -/
  | add (key : K) (messages : List Msg) (traceId : Option String)
      (correctionDetected reinforcementDetected : Bool)
  | flushNowait
  | fire (t : ℕ)
  | flush (i : I)
  /-- The first block of `_process_queue`. -/
  | enter (w : Worker I)
  /-- `update_memory`, whatever comes of it. -/
  | update (w : Worker I)
  /-- The last block of `_process_queue`. -/
  | leave (w : Worker I)

variable {K Msg I : Type} [DecidableEq K] [DecidableEq I]

def World.goTo (s : World K Msg I) (w : Worker I) (stage : Stage K Msg) : World K Msg I :=
  { s with stage := update s.stage w stage }

/-- `self._timer.cancel()`, which does nothing to a timer that has fired. -/
@[grind =] def World.cancelTimer (s : World K Msg I) : World K Msg I :=
  match s.timer with
  | none => s
  | some t =>
    match s.stage (.timer t) with
    | .scheduled => s.goTo (.timer t) .cancelled
    | _ => s

/-- `_schedule_timer`. -/
def World.scheduleTimer (s : World K Msg I) : World K Msg I :=
  let s := s.cancelTimer
  { s.goTo (.timer s.next) .scheduled with timer := some s.next, next := s.next + 1 }

/-- The entry that the new one replaces. -/
def World.existing (s : World K Msg I) (key : K) : Option (Context K Msg) :=
  s.queue.find? fun c => c.key = key

/-- `_enqueue_locked`. -/
def World.enqueue (s : World K Msg I) (c : Context K Msg) : World K Msg I :=
  let existing := s.existing c.key
  let merged : Context K Msg :=
    { c with
      correctionDetected := c.correctionDetected || existing.any Context.correctionDetected
      reinforcementDetected := c.reinforcementDetected || existing.any Context.reinforcementDetected }
  { s with
    queue := (s.queue.filter fun e => e.key ≠ c.key) ++ [merged]
    handed := s.handed ++ [c] }

/-- The first block of `_process_queue`. -/
def World.enter (s : World K Msg I) (w : Worker I) : World K Msg I :=
  if s.processing then s.scheduleTimer.goTo w .done
  else if s.queue = [] then s.goTo w .done
  else { s with processing := true, queue := [], timer := none }.goTo w (.passing s.queue)

/-- One act, if it is somebody's turn to do it. -/
@[grind =] def step (s : World K Msg I) : Act K Msg I → Option (World K Msg I)
  | .add key messages traceId correction reinforcement =>
    some (s.enqueue
      ⟨key, messages, traceId, correction, reinforcement, s.handed.length⟩).scheduleTimer
  | .flushNowait => some s.scheduleTimer
  | .fire t =>
    match s.stage (.timer t) with
    | .scheduled => some (s.goTo (.timer t) .entering)
    | _ => none
  | .flush i =>
    match s.stage (.caller i) with
    | .idle => some { s.cancelTimer.goTo (.caller i) .entering with timer := none }
    | _ => none
  | .enter w =>
    match s.stage w with
    | .entering => some (s.enter w)
    | _ => none
  | .update w =>
    match s.stage w with
    | .passing (c :: rest) => some { s.goTo w (.passing rest) with passed := s.passed ++ [c] }
    | _ => none
  | .leave w =>
    match s.stage w with
    | .passing [] => some { s.goTo w .done with processing := false }
    | _ => none

/-- An empty queue. -/
def World.start : World K Msg I := ⟨[], none, 0, false, fun _ => .idle, [], []⟩

/-- A new entry has the messages of the one that it replaces. -/
def Contains (s : World K Msg I) : Act K Msg I → Prop
  | .add key messages _ _ _ => ∀ c ∈ s.queue, c.key = key → c.messages ⊆ messages
  | _ => True

/-- The entry is in the queue, or a pass has still to hand it to the updater. -/
def World.Waits (s : World K Msg I) (c : Context K Msg) : Prop :=
  c ∈ s.queue ∨ ∃ w rest, s.stage w = .passing rest ∧ c ∈ rest

/-- Nobody is at the queue, and nobody will come. -/
def World.Quiet (s : World K Msg I) : Prop :=
  ∀ w, (s.stage w).isDue = false ∧ ∀ rest, s.stage w ≠ .passing rest

/-- The entry stands for what was handed over: it is of the same or a later call with the same key,
and it has its signals. -/
structure StandsFor (c h : Context K Msg) : Prop where
  key : c.key = h.key
  later : h.number ≤ c.number
  correction : h.correctionDetected = true → c.correctionDetected = true
  reinforcement : h.reinforcementDetected = true → c.reinforcementDetected = true

/-- One pass at a time, and no signal is lost. -/
structure World.Signals (s : World K Msg I) : Prop where
  single : ∀ w w' rest rest', s.stage w = .passing rest → s.stage w' = .passing rest' → w = w'
  kept : ∀ h ∈ s.handed, ∃ c, (c ∈ s.passed ∨ s.Waits c) ∧ StandsFor c h

/-- What was handed over is with the updater, or waits, as a part of what stands for it. With nobody
at work and nobody to come, it is with the updater. -/
structure World.Delivers (s : World K Msg I) : Prop where
  kept : ∀ h ∈ s.handed, ∃ c, (c ∈ s.passed ∨ s.Waits c) ∧ StandsFor c h ∧ h.messages ⊆ c.messages
  quiet : s.Quiet → ∀ h ∈ s.handed, ∃ c ∈ s.passed, StandsFor c h ∧ h.messages ⊆ c.messages

/-! ### What each step keeps -/

variable {s s' : World K Msg I} {w : Worker I} {c h : Context K Msg}

/-- There is one pass if the flag is set and none otherwise, one entry for each key, and somebody to
come as long as there are entries. -/
structure World.Attended (s : World K Msg I) : Prop where
  unique : (s.queue.map Context.key).Nodup
  fresh : ∀ t, s.next ≤ t → s.stage (.timer t) = .idle
  processing : ∀ w rest, s.stage w = .passing rest → s.processing = true
  single : ∀ w w' rest rest', s.stage w = .passing rest → s.stage w' = .passing rest' → w = w'
  due : s.queue ≠ [] → ∃ w, (s.stage w).isDue = true

section

omit [DecidableEq K]

@[simp] theorem cancelTimer_queue (s : World K Msg I) : s.cancelTimer.queue = s.queue := by
  rw [World.cancelTimer]
  split
  · rfl
  · split <;> rfl

@[simp] theorem cancelTimer_next (s : World K Msg I) : s.cancelTimer.next = s.next := by
  rw [World.cancelTimer]
  split
  · rfl
  · split <;> rfl

@[simp] theorem cancelTimer_processing (s : World K Msg I) :
    s.cancelTimer.processing = s.processing := by
  rw [World.cancelTimer]
  split
  · rfl
  · split <;> rfl

@[simp] theorem cancelTimer_handed (s : World K Msg I) : s.cancelTimer.handed = s.handed := by
  rw [World.cancelTimer]
  split
  · rfl
  · split <;> rfl

@[simp] theorem cancelTimer_passed (s : World K Msg I) : s.cancelTimer.passed = s.passed := by
  rw [World.cancelTimer]
  split
  · rfl
  · split <;> rfl

end

attribute [local simp] World.goTo World.scheduleTimer

section

omit [DecidableEq K]

theorem cancelTimer_stage (s : World K Msg I) (w : Worker I) : s.cancelTimer.stage w = s.stage w ∨
      (s.stage w = .scheduled ∧ s.cancelTimer.stage w = .cancelled) := by
  rw [World.cancelTimer]
  split
  · exact .inl rfl
  · rename_i t _
    split
    · rename_i hscheduled
      by_cases hw : w = .timer t
      · subst hw
        exact .inr ⟨hscheduled, by simp⟩
      · exact .inl (by simp [hw])
    · exact .inl rfl

@[simp] theorem cancelTimer_passing {rest : List (Context K Msg)} :
    s.cancelTimer.stage w = .passing rest ↔ s.stage w = .passing rest := by
  rcases cancelTimer_stage s w with h | ⟨hold, hnew⟩
  · rw [h]
  · simp [hold, hnew]

@[simp] theorem scheduleTimer_queue (s : World K Msg I) : s.scheduleTimer.queue = s.queue := by
  simp

@[simp] theorem scheduleTimer_next (s : World K Msg I) : s.scheduleTimer.next = s.next + 1 := by
  simp

@[simp] theorem scheduleTimer_processing (s : World K Msg I) :
    s.scheduleTimer.processing = s.processing := by
  simp

@[simp] theorem scheduleTimer_handed (s : World K Msg I) : s.scheduleTimer.handed = s.handed := by
  simp

@[simp] theorem scheduleTimer_passed (s : World K Msg I) : s.scheduleTimer.passed = s.passed := by
  simp

theorem scheduleTimer_stage (s : World K Msg I) (w : Worker I) :
    s.scheduleTimer.stage w = if w = .timer s.next then .scheduled else s.cancelTimer.stage w := by
  simp [update_apply]

theorem scheduleTimer_passing {rest : List (Context K Msg)}
    (hfresh : ∀ t, s.next ≤ t → s.stage (.timer t) = .idle) :
    s.scheduleTimer.stage w = .passing rest ↔ s.stage w = .passing rest := by
  rw [scheduleTimer_stage]
  split
  · rename_i hw
    simp [hw, hfresh s.next le_rfl]
  · exact cancelTimer_passing

theorem scheduleTimer_fresh (hfresh : ∀ t, s.next ≤ t → s.stage (.timer t) = .idle) (t : ℕ)
    (ht : s.scheduleTimer.next ≤ t) : s.scheduleTimer.stage (.timer t) = .idle := by
  simp only [scheduleTimer_next] at ht
  rw [scheduleTimer_stage, if_neg (by simpa using by omega)]
  rcases cancelTimer_stage s (.timer t) with h | ⟨hold, -⟩
  · rw [h, hfresh t (by omega)]
  · rw [hfresh t (by omega)] at hold
    cases hold

theorem scheduleTimer_due (s : World K Msg I) : ∃ w, (s.scheduleTimer.stage w).isDue = true :=
  ⟨.timer s.next, by simp [Stage.isDue]⟩

theorem goTo_stage (s : World K Msg I) (w w' : Worker I) (stage : Stage K Msg) :
    (s.goTo w stage).stage w' = if w' = w then stage else s.stage w' := by
  simp [update_apply]

theorem World.Attended.scheduleTimer (ha : s.Attended) : s.scheduleTimer.Attended where
  unique := by simpa using ha.unique
  fresh := scheduleTimer_fresh ha.fresh
  processing w rest hw := by
    simpa using ha.processing w rest ((scheduleTimer_passing ha.fresh).1 hw)
  single w w' rest rest' hw hw' :=
    ha.single w w' rest rest' ((scheduleTimer_passing ha.fresh).1 hw)
      ((scheduleTimer_passing ha.fresh).1 hw')
  due _ := scheduleTimer_due s

end

omit [DecidableEq K] [DecidableEq I] in
theorem ne_timer (ha : s.Attended) (hw : s.stage w ≠ .idle) (t : ℕ) (ht : s.next ≤ t) :
    w ≠ .timer t := by
  rintro rfl
  exact hw (ha.fresh t ht)

section

omit [DecidableEq K]

theorem World.Attended.fresh_goTo (ha : s.Attended) (hw : s.stage w ≠ .idle) {stage : Stage K Msg}
    (t : ℕ) (ht : s.next ≤ t) : (s.goTo w stage).stage (.timer t) = .idle := by
  rw [goTo_stage, if_neg (ne_timer ha hw t ht).symm]
  exact ha.fresh t ht

theorem World.Attended.due_goTo (ha : s.Attended) (hw : (s.stage w).isDue = false)
    {stage : Stage K Msg} (hne : s.queue ≠ []) : ∃ w', ((s.goTo w stage).stage w').isDue = true := by
  obtain ⟨w', hw'⟩ := ha.due hne
  refine ⟨w', ?_⟩
  rw [goTo_stage, if_neg]
  · exact hw'
  · rintro rfl
    simp [hw] at hw'

theorem World.Attended.goTo (ha : s.Attended) {stage : Stage K Msg}
    (hfresh : ∀ t, s.next ≤ t → w ≠ .timer t) (hpass : ∀ rest, stage ≠ .passing rest)
    (hdue : s.queue ≠ [] → ∃ w', ((s.goTo w stage).stage w').isDue = true) :
    (s.goTo w stage).Attended where
  unique := ha.unique
  fresh t ht := by
    rw [goTo_stage, if_neg (Ne.symm (hfresh t ht))]
    exact ha.fresh t ht
  processing w' rest hw' := by
    rw [goTo_stage] at hw'
    split at hw'
    · exact absurd hw' (hpass rest)
    · exact ha.processing w' rest hw'
  single w₁ w₂ rest rest' h₁ h₂ := by
    rw [goTo_stage] at h₁ h₂
    split at h₁
    · exact absurd h₁ (hpass rest)
    split at h₂
    · exact absurd h₂ (hpass rest')
    exact ha.single w₁ w₂ rest rest' h₁ h₂
  due := hdue

end

theorem enqueue_passing (hfresh : ∀ t, s.next ≤ t → s.stage (.timer t) = .idle) (c : Context K Msg)
    {rest : List (Context K Msg)} :
    (s.enqueue c).scheduleTimer.stage w = .passing rest ↔ s.stage w = .passing rest :=
  scheduleTimer_passing (s := s.enqueue c) hfresh

section

omit [DecidableEq I]

theorem enqueue_keys (s : World K Msg I) (c : Context K Msg) :
    (s.enqueue c).queue.map Context.key = (s.queue.map Context.key).filter (· ≠ c.key) ++ [c.key] := by
  simp [World.enqueue, filter_map, comp_def]

theorem enqueue_unique (hu : (s.queue.map Context.key).Nodup) (c : Context K Msg) :
    ((s.enqueue c).queue.map Context.key).Nodup := by
  rw [enqueue_keys, nodup_append]
  refine ⟨hu.filter _, nodup_singleton _, ?_⟩
  intro k hk k' hk'
  rw [mem_singleton.1 hk']
  simpa using (mem_filter.1 hk).2

end

section

omit [DecidableEq K]

theorem World.Attended.pass (ha : s.Attended) (hw : s.stage w = .entering)
    (hprocessing : s.processing = false) :
    ({ s with processing := true, queue := [], timer := none }.goTo w
      (.passing s.queue)).Attended where
  unique := nodup_nil
  fresh t ht := ha.fresh_goTo (by simp [hw]) t ht
  processing _ _ _ := rfl
  single w₁ w₂ rest rest' h₁ h₂ := by
    have hnone : ∀ w' rest, s.stage w' ≠ .passing rest := fun w' rest h => by
      simp [ha.processing w' rest h] at hprocessing
    simp only [goTo_stage] at h₁ h₂
    split at h₁
    · split at h₂
      · rename_i hw₁ hw₂
        rw [hw₁, hw₂]
      · exact absurd h₂ (hnone _ _)
    · exact absurd h₁ (hnone _ _)
  due hne := absurd rfl hne

theorem World.Attended.enter (ha : s.Attended) (hw : s.stage w = .entering) :
    (s.enter w).Attended := by
  have hnot := ne_timer ha (w := w) (by simp [hw])
  rw [World.enter]
  split
  · refine ha.scheduleTimer.goTo (fun t ht => hnot t ?_) (by simp) fun _ => ?_
    · simp only [scheduleTimer_next] at ht
      omega
    · refine ⟨.timer s.next, ?_⟩
      rw [goTo_stage, if_neg (hnot s.next le_rfl).symm, scheduleTimer_stage, if_pos rfl]
      rfl
  split
  · rename_i hempty
    exact ha.goTo hnot (by simp) fun hne => absurd hempty hne
  · rename_i hprocessing _
    exact ha.pass hw (by simpa using hprocessing)

end

omit [DecidableEq K] [DecidableEq I] in
theorem World.Attended.start : (World.start : World K Msg I).Attended where
  unique := nodup_nil
  fresh _ _ := rfl
  processing _ _ h := by cases h
  single _ _ _ _ h := by cases h
  due h := absurd rfl h

/-- **The queue is attended to.** -/
theorem World.Attended.step {a : Act K Msg I} (ha : s.Attended) (hstep : step s a = some s') :
    s'.Attended := by
  cases a with
  | add key messages traceId correction reinforcement =>
    cases hstep
    refine ⟨?_, ?_, ?_, ?_, ?_⟩
    · simpa using enqueue_unique ha.unique _
    · exact scheduleTimer_fresh ha.fresh
    · intro w rest hw
      simpa [World.enqueue] using ha.processing w rest ((enqueue_passing ha.fresh _).1 hw)
    · intro w w' rest rest' hw hw'
      exact ha.single w w' rest rest' ((enqueue_passing ha.fresh _).1 hw)
        ((enqueue_passing ha.fresh _).1 hw')
    · exact fun _ => scheduleTimer_due _
  | flushNowait =>
    cases hstep
    exact ha.scheduleTimer
  | fire t =>
    simp only [Queue.step] at hstep
    split at hstep <;> cases hstep
    rename_i hscheduled
    exact ha.goTo (ne_timer ha (by simp [hscheduled])) (by simp) fun _ =>
      ⟨.timer t, by simp [Stage.isDue]⟩
  | flush i =>
    simp only [Queue.step] at hstep
    split at hstep <;> cases hstep
    refine ⟨by simpa using ha.unique, ?_, ?_, ?_, ?_⟩
    · intro t ht
      simp only [World.goTo, cancelTimer_next] at ht
      simp only [goTo_stage]
      rcases cancelTimer_stage s (.timer t) with h | ⟨hold, -⟩
      · simp [h, ha.fresh t ht]
      · simp [ha.fresh t ht] at hold
    · intro w rest hw
      simp only [goTo_stage] at hw
      split at hw
      · cases hw
      · simpa using ha.processing w rest (cancelTimer_passing.1 hw)
    · intro w w' rest rest' hw hw'
      simp only [goTo_stage] at hw hw'
      split at hw
      · cases hw
      split at hw'
      · cases hw'
      exact ha.single w w' rest rest' (cancelTimer_passing.1 hw) (cancelTimer_passing.1 hw')
    · exact fun _ => ⟨.caller i, by simp [Stage.isDue]⟩
  | enter w =>
    simp only [Queue.step] at hstep
    split at hstep <;> cases hstep
    exact ha.enter ‹_›
  | update w =>
    simp only [Queue.step] at hstep
    split at hstep <;> cases hstep
    rename_i c rest hpassing
    have hold : ∀ w' rest', (s.goTo w (.passing rest)).stage w' = .passing rest' →
        ∃ rest'', s.stage w' = .passing rest'' := by
      intro w' rest' hw'
      rw [goTo_stage] at hw'
      split at hw'
      · rename_i hw
        exact ⟨_, hw ▸ hpassing⟩
      · exact ⟨_, hw'⟩
    refine ⟨ha.unique, ?_, ?_, ?_, ?_⟩
    · exact ha.fresh_goTo (by simp [hpassing])
    · intro w' rest' hw'
      obtain ⟨rest'', h⟩ := hold w' rest' hw'
      exact ha.processing w' rest'' h
    · intro w₁ w₂ rest₁ rest₂ h₁ h₂
      obtain ⟨rest₁', h₁'⟩ := hold w₁ rest₁ h₁
      obtain ⟨rest₂', h₂'⟩ := hold w₂ rest₂ h₂
      exact ha.single w₁ w₂ rest₁' rest₂' h₁' h₂'
    · exact ha.due_goTo (by simp [hpassing, Stage.isDue])
  | leave w =>
    simp only [Queue.step] at hstep
    split at hstep <;> cases hstep
    rename_i hpassing
    have hnone : ∀ w' rest, (s.goTo w .done).stage w' ≠ .passing rest := by
      intro w' rest hw'
      rw [goTo_stage] at hw'
      split at hw'
      · cases hw'
      · rename_i hne
        exact hne (ha.single w' w rest [] hw' hpassing)
    refine ⟨ha.unique, ?_, ?_, ?_, ?_⟩
    · exact ha.fresh_goTo (by simp [hpassing])
    · exact fun w' rest hw' => absurd hw' (hnone w' rest)
    · exact fun w' _ rest _ hw' _ => absurd hw' (hnone w' rest)
    · exact ha.due_goTo (by simp [hpassing, Stage.isDue])

/-! ### What was handed over -/

variable {R : List Msg → List Msg → Prop}

/-- What was handed over is with the updater, or waits, as something that is related to it. -/
structure World.Covers (R : List Msg → List Msg → Prop) (s : World K Msg I) : Prop where
  kept : ∀ h ∈ s.handed, ∃ c, (c ∈ s.passed ∨ s.Waits c) ∧ StandsFor c h ∧ R h.messages c.messages
  older : ∀ c ∈ s.queue, c.number < s.handed.length

omit [DecidableEq I] in
theorem existing_of_mem (hu : (s.queue.map Context.key).Nodup) (hc : c ∈ s.queue) :
    s.existing c.key = some c := by
  obtain ⟨e, he⟩ := Option.isSome_iff_exists.1
    (find?_isSome (p := fun e : Context K Msg => decide (e.key = c.key)) |>.2 ⟨c, hc, by simp⟩)
  have hkey : e.key = c.key := by simpa using find?_some he
  have hsame : e = c := inj_on_of_nodup_map hu (mem_of_find?_eq_some he) hc hkey
  rw [World.existing, he, hsame]

omit [DecidableEq K] [DecidableEq I] in
theorem World.Covers.of_waits (h : s.Covers R) (hhanded : s'.handed = s.handed)
    (hqueue : ∀ c ∈ s'.queue, c ∈ s.queue) (hpassed : ∀ c ∈ s.passed, c ∈ s'.passed)
    (hwaits : ∀ c, s.Waits c → c ∈ s'.passed ∨ s'.Waits c) : s'.Covers R where
  kept g hg := by
    rw [hhanded] at hg
    obtain ⟨c, hc, hrest⟩ := h.kept g hg
    refine ⟨c, ?_, hrest⟩
    rcases hc with hc | hc
    · exact .inl (hpassed c hc)
    · exact hwaits c hc
  older c hc := by
    rw [hhanded]
    exact h.older c (hqueue c hc)

section

omit [DecidableEq K]

theorem waits_goTo {stage : Stage K Msg} (hw : ∀ rest, s.stage w ≠ .passing rest)
    (hc : s.Waits c) : (s.goTo w stage).Waits c := by
  rcases hc with hc | ⟨w', rest, hw', hc⟩
  · exact .inl hc
  · refine .inr ⟨w', rest, ?_, hc⟩
    rw [goTo_stage, if_neg]
    · exact hw'
    · rintro rfl
      exact hw rest hw'

theorem waits_scheduleTimer (ha : s.Attended) (hc : s.Waits c) : s.scheduleTimer.Waits c := by
  rcases hc with hc | ⟨w, rest, hw, hc⟩
  · exact .inl (by simpa using hc)
  · exact .inr ⟨w, rest, (scheduleTimer_passing ha.fresh).2 hw, hc⟩

theorem waits_enter (ha : s.Attended) (hw : s.stage w = .entering) (hc : s.Waits c) :
    (s.enter w).Waits c := by
  rw [World.enter]
  split
  · refine waits_goTo (fun rest hpassing => ?_) (waits_scheduleTimer ha hc)
    rw [scheduleTimer_passing ha.fresh, hw] at hpassing
    cases hpassing
  split
  · exact waits_goTo (by simp [hw]) hc
  · rename_i hprocessing _
    rcases hc with hc | ⟨w', rest, hw', -⟩
    · exact .inr ⟨w, s.queue, by simp, hc⟩
    · exact absurd (ha.processing w' rest hw') hprocessing

end

/-- An entry that is replaced has what stood for it in the new one. -/
theorem World.Covers.enqueue (hrefl : ∀ l, R l l)
    (htrans : ∀ l₁ l₂ l₃, R l₁ l₂ → R l₂ l₃ → R l₁ l₃) (ha : s.Attended) (hs : s.Covers R)
    (hnew : c.number = s.handed.length)
    (hR : ∀ e ∈ s.queue, e.key = c.key → R e.messages c.messages) :
    (s.enqueue c).scheduleTimer.Covers R := by
  obtain ⟨merged, hmem, hkey, hmessages, hnumber, hcorrection, hreinforcement⟩ :
      ∃ m ∈ (s.enqueue c).queue, m.key = c.key ∧ m.messages = c.messages ∧ m.number = c.number ∧
        m.correctionDetected =
          (c.correctionDetected || (s.existing c.key).any Context.correctionDetected) ∧
        m.reinforcementDetected =
          (c.reinforcementDetected || (s.existing c.key).any Context.reinforcementDetected) :=
    ⟨_, mem_append_right _ (mem_singleton_self _), rfl, rfl, rfl, rfl, rfl⟩
  constructor
  · intro h hh
    simp only [scheduleTimer_handed, World.enqueue, mem_append, mem_singleton] at hh
    rcases hh with hh | rfl
    · obtain ⟨e, he, hstands, hRe⟩ := hs.kept h hh
      by_cases hreplaced : e ∈ s.queue ∧ e.key = c.key
      · obtain ⟨hqueue, hsame⟩ := hreplaced
        have hexisting := existing_of_mem ha.unique hqueue
        rw [hsame] at hexisting
        refine ⟨merged, .inr (.inl (by simpa using hmem)), ⟨?_, ?_, ?_, ?_⟩, ?_⟩
        · rw [hkey, ← hsame, hstands.key]
        · have := hs.older e hqueue
          have := hstands.later
          omega
        · intro hsignal
          simp [hcorrection, hexisting, hstands.correction hsignal]
        · intro hsignal
          simp [hreinforcement, hexisting, hstands.reinforcement hsignal]
        · rw [hmessages]
          exact htrans _ _ _ hRe (hR e hqueue hsame)
      · refine ⟨e, ?_, hstands, hRe⟩
        rcases he with he | he | ⟨w, rest, hw, he⟩
        · exact .inl (by simpa [World.enqueue] using he)
        · have hother : e.key ≠ c.key := fun hsame => hreplaced ⟨he, hsame⟩
          exact .inr (.inl (by simp [World.enqueue, he, hother]))
        · exact .inr (.inr ⟨w, rest, (enqueue_passing ha.fresh c).2 hw, he⟩)
    · refine ⟨merged, .inr (.inl (by simpa using hmem)), ⟨hkey, ?_, ?_, ?_⟩, ?_⟩
      · exact hnumber.ge
      · intro hsignal
        simp [hcorrection, hsignal]
      · intro hsignal
        simp [hreinforcement, hsignal]
      · rw [hmessages]
        exact hrefl _
  · intro e he
    simp only [scheduleTimer_queue, World.enqueue, mem_append, mem_filter, mem_singleton] at he
    simp only [scheduleTimer_handed, World.enqueue, length_append, length_singleton]
    rcases he with ⟨he, -⟩ | rfl
    · have := hs.older e he
      omega
    · simp only [hnew]
      omega

/-- **What one step keeps**: with nothing unrelated replaced, what was handed over is covered. -/
theorem World.Covers.step {a : Act K Msg I} (hrefl : ∀ l, R l l)
    (htrans : ∀ l₁ l₂ l₃, R l₁ l₂ → R l₂ l₃ → R l₁ l₃) (ha : s.Attended) (hs : s.Covers R)
    (hR : ∀ key messages traceId correction reinforcement,
      a = .add key messages traceId correction reinforcement →
      ∀ e ∈ s.queue, e.key = key → R e.messages messages)
    (hstep : step s a = some s') : s'.Covers R := by
  cases a with
  | add key messages traceId correction reinforcement =>
    cases hstep
    exact hs.enqueue hrefl htrans ha rfl (hR _ _ _ _ _ rfl)
  | flushNowait =>
    cases hstep
    exact hs.of_waits (by simp) (by simp) (by simp) fun c hc => .inr (waits_scheduleTimer ha hc)
  | fire t =>
    simp only [Queue.step] at hstep
    split at hstep <;> cases hstep
    rename_i hscheduled
    exact hs.of_waits rfl (fun _ => id) (fun _ => id) fun c hc =>
      .inr (waits_goTo (by simp [hscheduled]) hc)
  | flush i =>
    simp only [Queue.step] at hstep
    split at hstep <;> cases hstep
    rename_i hidle
    refine hs.of_waits (by simp) (by simp) (by simp) ?_
    intro c hc
    have hcancelled : s.cancelTimer.Waits c := by
      rcases hc with hc | ⟨w, rest, hw, hc⟩
      · exact .inl (by simpa using hc)
      · exact .inr ⟨w, rest, cancelTimer_passing.2 hw, hc⟩
    have hgone := @waits_goTo _ _ _ _ _ (.caller i) _ .entering
      (fun rest hpassing => by simp [hidle] at hpassing) hcancelled
    exact .inr hgone
  | enter w =>
    simp only [Queue.step] at hstep
    split at hstep <;> cases hstep
    rename_i hentering
    refine hs.of_waits ?_ ?_ ?_ fun c hc => .inr (waits_enter ha hentering hc)
    all_goals
      rw [World.enter]
      split
      · simp
      split <;> simp
  | update w =>
    simp only [Queue.step] at hstep
    split at hstep <;> cases hstep
    rename_i c rest hpassing
    refine hs.of_waits rfl (fun _ => id) (fun _ hc => mem_append_left _ hc) ?_
    intro e he
    rcases he with he | ⟨w', rest', hw', he⟩
    · exact .inr (.inl he)
    · by_cases hw : w' = w
      · rw [hw, hpassing] at hw'
        cases hw'
        rcases mem_cons.1 he with rfl | he
        · exact .inl (by simp)
        · exact .inr (.inr ⟨w, rest, by simp, he⟩)
      · exact .inr (.inr ⟨w', rest', by simp [hw, hw'], he⟩)
  | leave w =>
    simp only [Queue.step] at hstep
    split at hstep <;> cases hstep
    rename_i hpassing
    refine hs.of_waits rfl (fun _ => id) (fun _ => id) ?_
    intro e he
    rcases he with he | ⟨w', rest', hw', he⟩
    · exact .inr (.inl he)
    · refine .inr (.inr ⟨w', rest', ?_, he⟩)
      simp only [goTo_stage]
      rw [if_neg]
      · exact hw'
      · rintro rfl
        rw [hpassing] at hw'
        cases hw'
        cases he

section

omit [DecidableEq K] [DecidableEq I]

theorem World.Covers.start : (World.start : World K Msg I).Covers R where
  kept h hh := by cases hh
  older c hc := by cases hc

theorem World.Attended.delivered (ha : s.Attended) (hs : s.Covers R) (hquiet : s.Quiet)
    (hh : h ∈ s.handed) : ∃ c ∈ s.passed, StandsFor c h ∧ R h.messages c.messages := by
  obtain ⟨c, hc, hrest⟩ := hs.kept h hh
  rcases hc with hc | hc | ⟨w, rest, hw, -⟩
  · exact ⟨c, hc, hrest⟩
  · obtain ⟨w, hw⟩ := ha.due (ne_nil_of_mem hc)
    simp [(hquiet w).1] at hw
  · exact absurd hw ((hquiet w).2 rest)

end

theorem attended_of_runs {C : World K Msg I → Act K Msg I → Prop} (hrun : Runs step C .start s) :
    s.Attended :=
  hrun.invariant .start fun _ _ _ ha _ hstep => ha.step hstep

/-- **The queue drops no signal, and no conversation** as long as a new entry has the messages of
the one that it replaces. -/
theorem no_conversation_dropped :
    (∀ s : World K Msg I, Runs step (fun _ _ => True) .start s → s.Signals) ∧
    (∀ s : World K Msg I, Runs step Contains .start s → s.Delivers) := by
  constructor
  · intro s hrun
    have hs : s.Attended ∧ s.Covers fun _ _ => True := by
      refine hrun.invariant (I := fun s => s.Attended ∧ s.Covers fun _ _ => True)
        ⟨.start, .start⟩ ?_
      rintro s₁ a s₂ ⟨ha, hcovers⟩ - hstep
      exact ⟨ha.step hstep, hcovers.step (fun _ => trivial) (fun _ _ _ _ _ => trivial) ha
        (fun _ _ _ _ _ _ _ _ _ => trivial) hstep⟩
    obtain ⟨ha, hcovers⟩ := hs
    refine ⟨ha.single, fun h hh => ?_⟩
    obtain ⟨c, hc, hstands, -⟩ := hcovers.kept h hh
    exact ⟨c, hc, hstands⟩
  · intro s hrun
    have hs : s.Attended ∧ s.Covers (· ⊆ ·) := by
      refine hrun.invariant (I := fun s => s.Attended ∧ s.Covers (· ⊆ ·)) ⟨.start, .start⟩ ?_
      rintro s₁ a s₂ ⟨ha, hcovers⟩ hcontains hstep
      refine ⟨ha.step hstep, hcovers.step List.Subset.refl (fun _ _ _ => List.Subset.trans) ha ?_
        hstep⟩
      rintro key messages traceId correction reinforcement rfl
      exact hcontains
    obtain ⟨ha, hcovers⟩ := hs
    exact ⟨hcovers.kept, fun hquiet h hh => ha.delivered hcovers hquiet hh⟩

/-- A conversation that grows while a pass goes on. -/
def demoActs : List (Act String String Unit) :=
  [.add "t" ["hello"] none true false, .fire 0, .enter (.timer 0),
    .add "u" ["one"] none false true, .add "u" ["one", "two"] none false false,
    .fire 2, .enter (.timer 2), .update (.timer 0), .leave (.timer 0), .flush (),
    .enter (.caller ()), .update (.caller ()), .leave (.caller ())]

instance (s : World String String Unit) (a : Act String String Unit) : Decidable (Contains s a) := by
  simp only [Contains]
  split <;> infer_instance

theorem no_conversation_dropped_demo :
    ∃ s : World String String Unit, Runs step Contains .start s ∧ s.Signals ∧ s.Delivers ∧
      (s.passed.map Context.messages = [["hello"], ["one", "two"]]) := by
  obtain ⟨s, hs, hpassed⟩ := (Option.any_eq_true _ _).1
    (by decide +kernel : (runWith step Contains .start demoActs).any
      (fun s => decide (s.passed.map Context.messages = [["hello"], ["one", "two"]])) = true)
  have hrun := runs_of_runWith hs
  exact ⟨s, hrun, no_conversation_dropped.1 s (hrun.mono fun _ _ _ => trivial),
    no_conversation_dropped.2 s hrun, by simpa using hpassed⟩

/-- What summarization removes is handed over while a pass goes on, and replaced before the next. -/
def flushActs : List (Act String String Unit) :=
  [.add "u" ["hello"] none false false, .fire 0, .enter (.timer 0),
    .add "t" ["I live in Lisbon"] none false false, .fire 1, .enter (.timer 1),
    .add "t" ["thanks"] none false false, .update (.timer 0), .leave (.timer 0),
    .fire 3, .enter (.timer 3), .update (.timer 3), .leave (.timer 3)]

theorem flushed_messages_dropped :
    ¬∀ s : World String String Unit, Runs step (fun _ _ => True) .start s → s.Delivers := by
  intro hall
  obtain ⟨s, hs, hdropped⟩ := (Option.any_eq_true _ _).1
    (by decide +kernel : (runWith step (fun _ _ => True) .start flushActs).any
      (fun s => !s.processing && decide (s.queue = []) &&
        s.handed.any fun h => s.passed.all fun c => !decide (h.messages ⊆ c.messages)) = true)
  have hrun := runs_of_runWith hs
  simp only [Bool.and_eq_true, Bool.not_eq_true', decide_eq_true_eq, any_eq_true,
    all_eq_true, decide_eq_false_iff_not] at hdropped
  obtain ⟨⟨hprocessing, hqueue⟩, h, hh, hlost⟩ := hdropped
  obtain ⟨c, hc, -, hsub⟩ := (hall s hrun).kept h hh
  rcases hc with hc | hc | ⟨w, rest, hw, -⟩
  · exact hlost c hc hsub
  · simp [hqueue] at hc
  · simp [(attended_of_runs hrun).processing w rest hw] at hprocessing

end AfterFlow.Memory.Queue
