import AfterFlow.Coop.Keeps
import AfterFlow.Scheduler.Service

/-!
# What the calls of the scheduler await

For each call of the scheduler, the operations that it can ever await, with all that is known of
their arguments from the text of the coroutine. What holds in every run follows from these.
-/

namespace AfterFlow.Scheduler

open Coop Coro

open Events (Value withField)

/-- What is known of replies, if all tasks are as `R` says: claimed tasks are running, and a task
that is read has the id. -/
def Replies (R : TaskRow → Prop) : (op : SchedOp) → Except SchedExn op.Reply → Prop
  | .claimDueTasks _ _, .ok rows => ∀ row ∈ rows, R row ∧ row.status = .running
  | .getTask taskId _, .ok (some row) => R row ∧ row.id = taskId
  | _, _ => True

/-- Uuids are drawn, and nothing else changes. -/
def Draws {γ : Type} (w w' : World γ) : Prop := w'.store = w.store ∧ w'.memory = w.memory

/-- A coroutine with operations in `E`, which on its own only draws uuids. -/
abbrev Calls {γ α : Type} (R : TaskRow → Prop) (E : SchedOp → Prop) (p : SchedProc γ α)
    (w : World γ) : Prop :=
  p.Awaits E (Replies R) Draws w

/-- The state of the scheduler. -/
abbrev SchedSys (γ : Type) : Type := Sys (World γ) SchedOp SchedOp.Reply SchedExn Unit SchedCall

/-- The operation that a task waits for. -/
def pendingAt {γ : Type} (s : SchedSys γ) (i : ℕ) : Option SchedOp := s.tasks[i]?.bind Task.pending

/-- The operations of a dispatch. -/
def DispatchOp (cal : Calendar) (task : TaskRow) (now : Time) (trigger : Trigger) : SchedOp → Prop
  | .hasActiveRuns taskId => taskId = task.id
  | .createRun row _ => row.taskId = task.id ∧ row.status = .queued
  | .launchRun args => args.taskId = task.id
  | .updateStatus caller _ u => caller = .dispatch ∧
      (u.status = .running ∧ u.protectTerminal = true ∨
        (u.status = .failed ∨ u.status = .skipped) ∧ u.protectTerminal = false)
  | .updateAfterLaunch task' u => task' = task ∧ task.next cal now = .ok u.nextRunAt ∧
      (u.status = taskStatusForLaunch task trigger ∧ u.protectTerminal = true ∨
        u.status = taskStatusForFailure task trigger ∧ u.protectTerminal = false ∨
        u.status = taskStatusForSkip task ∧ u.protectTerminal = false ∧ trigger = .scheduled)
  | _ => False

/-- The operations of a completion hook. -/
def CompletionOp (R : TaskRow → Prop) (record : RunRecord) : SchedOp → Prop
  | .updateStatus caller id u => caller = .completion ∧ record.scheduledTaskRunId = some id ∧
      u.status.isTerminal = true ∧ u.protectTerminal = false
  | .getTask taskId _ => record.scheduledTaskId = some taskId
  | .updateTask caller existing taskId _ u => caller = .completion ∧ R existing ∧
      existing.id = taskId ∧ record.scheduledTaskId = some taskId ∧ ∃ status error,
        u = { TaskUpdates.empty with
              lastError := some error
              status := if existing.scheduleType = .once then some (onceStatus status) else none }
  | _ => False

/-- The operations of `setStatus`. -/
def SetStatusOp (caller : Caller) (status : TaskStatus) (taskId : String) : SchedOp → Prop
  | .getTask id _ => id = taskId
  | .updateTask caller' _ id _ u => caller' = caller ∧ id = taskId ∧
      u = { TaskUpdates.empty with status := some status }
  | _ => False

/-- The operations of an update: the schedule is left alone, or the specification, the next instant
and, if need be, the status are set together. -/
def UpdateOp (R : TaskRow → Prop) (cal : Calendar) (taskId : String) (body : UpdateBody)
    (now : Time) : SchedOp → Prop
  | .getTask id _ => id = taskId
  | .checkAccess _ _ => True
  | .updateTask caller existing id _ u => caller = .update ∧ id = taskId ∧ R existing ∧
      existing.id = taskId ∧ u.timezone = body.timezone ∧
      ((u.timezone = none ∧ u.scheduleSpec = none ∧ u.nextRunAt = none ∧ u.status = none) ∨
        ∃ spec next, u.scheduleSpec = some spec ∧ u.nextRunAt = some next ∧
          nextRunAt cal existing.scheduleType spec (body.timezone.getD existing.timezone) now =
            .ok next ∧
          (existing.scheduleType = .cron → ∃ expr, spec.lookup "cron" = some (.str expr)) ∧
          u.status = if next.isSome ∧ existing.status.isTerminal then some .enabled else none)
  | _ => False

/-- The operations of a call. -/
def CallOp (R : TaskRow → Prop) (cal : Calendar) : SchedCall → SchedOp → Prop
  | .poll now, op => op = .countActiveRuns ∨ (∃ limit, op = .claimDueTasks now limit) ∨
      ∃ task, R task ∧ task.status = .running ∧ DispatchOp cal task now .scheduled op
  | .dispatch task now trigger, op => DispatchOp cal task now trigger op
  | .complete record _, op => CompletionOp R record op
  | .pause _ taskId, op => SetStatusOp .pause .paused taskId op
  | .resume _ taskId, op => SetStatusOp .resume .enabled taskId op
  | .update _ taskId body now _, op => UpdateOp R cal taskId body now op
  | .trigger _ taskId now, op => (∃ userId, op = .getTask taskId userId) ∨
      ∃ task, R task ∧ task.id = taskId ∧ DispatchOp cal task now .manual op

section Calls

variable {γ α β : Type} {R : TaskRow → Prop} {E : SchedOp → Prop} {cfg : Setting}
  {task : TaskRow} {now later : Time} {trigger : Trigger} {w : World γ} {user : Option String} {taskId : String}

theorem calls_uuid4 : Calls R E (uuid4 : SchedProc γ ℕ) w := ⟨⟨rfl, rfl⟩, trivial⟩

theorem calls_finalizeSkip {taskRunId : ℕ} {threadId error : String} :
    Calls R (DispatchOp cfg.cal task now .scheduled)
      (finalizeSkip cfg task taskRunId threadId now error : SchedProc γ DispatchResult) w := by
  refine Awaits.ofExcept_bind fun nextAt hnext => ?_
  refine Awaits.call_bind ⟨rfl, .inr ⟨.inr rfl, rfl⟩⟩ fun _ _ _ => ?_
  exact Awaits.call_bind ⟨rfl, hnext, .inr (.inr ⟨rfl, rfl, rfl⟩)⟩ fun _ _ _ => trivial

theorem calls_launchTask {taskRunId : ℕ} {threadId : String} :
    Calls R (DispatchOp cfg.cal task now trigger)
      (launchTask cfg task taskRunId threadId now trigger : SchedProc γ DispatchResult) w := by
  refine Awaits.call_bind rfl fun result _ _ => ?_
  refine Awaits.ofExcept_bind fun nextAt hnext => ?_
  refine Awaits.call_bind ⟨rfl, .inl ⟨rfl, rfl⟩⟩ fun _ _ _ => ?_
  exact Awaits.call_bind ⟨rfl, hnext, .inl ⟨rfl, rfl⟩⟩ fun _ _ _ => trivial

theorem calls_launchFailed {taskRunId : ℕ} {threadId : String} {exc : SchedExn} :
    Calls R (DispatchOp cfg.cal task now trigger)
      (launchFailed cfg task taskRunId threadId now trigger exc :
        SchedProc γ DispatchResult) w := by
  refine Awaits.ofExcept_bind fun nextAt hnext => ?_
  split
  · rename_i h
    rw [h.2.1]
    exact calls_finalizeSkip
  · refine Awaits.call_bind ⟨rfl, .inr ⟨.inl rfl, rfl⟩⟩ fun _ _ _ => ?_
    exact Awaits.call_bind ⟨rfl, hnext, .inr (.inl ⟨rfl, rfl⟩)⟩ fun _ _ _ => trivial

theorem calls_executionThreadId : Calls R E (executionThreadId task : SchedProc γ String) w := by
  rw [executionThreadId]
  split
  · exact calls_uuid4.bind fun _ _ => trivial
  · trivial

theorem calls_overlaps :
    Calls R (DispatchOp cfg.cal task now trigger) (overlaps task : SchedProc γ Bool) w := by
  rw [overlaps]
  split
  · exact Awaits.call rfl
  · trivial

theorem calls_dispatchTask :
    Calls R (DispatchOp cfg.cal task now trigger)
      (dispatchTask cfg task now trigger : SchedProc γ DispatchResult) w := by
  refine calls_executionThreadId.bind fun threadId _ => ?_
  refine calls_overlaps.bind fun skips _ => ?_
  split
  · trivial
  · rename_i hconflict
    refine calls_uuid4.bind fun taskRunId _ => ?_
    refine Awaits.call_bind ⟨rfl, rfl⟩ fun _ _ _ => ?_
    split
    · rename_i hskips
      have hscheduled : trigger = .scheduled := by
        cases trigger with
        | manual => exact absurd ⟨hskips, rfl⟩ hconflict
        | scheduled => rfl
      subst hscheduled
      exact calls_finalizeSkip
    · exact calls_launchTask.tryCatch fun _ _ => calls_launchFailed

theorem calls_runOnce :
    Calls R (CallOp R cfg.cal (.poll now)) (runOnce cfg now : SchedProc γ Unit) w := by
  refine Awaits.call_bind (.inl rfl) fun active _ _ => ?_
  split
  · trivial
  · refine Awaits.call_bind (.inr (.inl ⟨_, rfl⟩)) fun claimed _ hclaimed => ?_
    refine Awaits.forEach fun task htask _ => ?_
    obtain ⟨hR, hrunning⟩ := hclaimed task htask
    have hdispatch : ∀ w, Calls R (CallOp R cfg.cal (.poll now))
        (dispatchTask cfg task now .scheduled : SchedProc γ DispatchResult) w := fun _ =>
      calls_dispatchTask.mono fun op hop => .inr (.inr ⟨task, hR, hrunning, hop⟩)
    exact (hdispatch _).bind fun _ _ => trivial

theorem calls_handleRunCompletion {record : RunRecord} :
    Calls R (CompletionOp R record) (handleRunCompletion record now : SchedProc γ Unit) w := by
  rw [handleRunCompletion]
  split
  · rename_i taskId taskRunId userId htask hrun huser
    split
    · trivial
    · rename_i status error hstatus
      have hterminal : status.isTerminal = true := by
        rw [terminalStatus] at hstatus
        split at hstatus <;> cases hstatus <;> rfl
      refine Awaits.call_bind ⟨rfl, hrun, hterminal, rfl⟩ fun _ _ _ => ?_
      refine Awaits.call_bind htask fun task _ hreply => ?_
      cases task with
      | none => trivial
      | some task =>
        exact Awaits.call_bind ⟨rfl, hreply.1, hreply.2, htask, status, error, rfl⟩
          fun _ _ _ => trivial
  · trivial

theorem calls_readTask (hE : ∀ userId, E (.getTask taskId userId)) :
    Calls R E (readTask user taskId : SchedProc γ (String × TaskRow)) w := by
  cases user with
  | none => trivial
  | some userId =>
    refine Awaits.call_bind (hE userId) fun existing _ _ => ?_
    cases existing <;> trivial

theorem calls_readTask_bind {f : String × TaskRow → SchedProc γ α}
    (hE : ∀ userId, E (.getTask taskId userId))
    (hf : ∀ p w, R p.2 → p.2.id = taskId → Calls R E (f p) w) :
    Calls R E ((readTask user taskId).bind f) w := by
  cases user with
  | none => trivial
  | some userId =>
    refine ⟨hE userId, fun r w hr => ?_⟩
    cases r with
    | error e => trivial
    | ok existing =>
      cases existing with
      | none => trivial
      | some existing => exact hf (userId, existing) w hr.1 hr.2

theorem calls_setStatus {caller : Caller} {status : TaskStatus} :
    Calls R (SetStatusOp caller status taskId)
      (setStatus caller status user taskId : SchedProc γ TaskRow) w := by
  refine calls_readTask_bind (fun _ => rfl) fun p _ _ _ => ?_
  refine Awaits.ofExcept_bind fun _ _ => ?_
  refine Awaits.call_bind ⟨rfl, rfl, rfl⟩ fun updated _ _ => ?_
  cases updated <;> trivial

theorem calls_threadUpdates_bind {existing : TaskRow} {userId : String} {body : UpdateBody}
    {updates : TaskUpdates} {f : TaskUpdates → SchedProc γ α}
    (hE : ∀ threadId userId, E (.checkAccess threadId userId))
    (hf : ∀ threadId w, Calls R E (f { updates with threadId := threadId }) w) :
    Calls R E ((threadUpdates existing userId body updates).bind f) w := by
  rw [threadUpdates]
  split
  · dsimp only
    split
    · trivial
    · refine ⟨hE _ _, fun r w _ => ?_⟩
      cases r with
      | error e => trivial
      | ok allowed =>
        cases allowed with
        | false => trivial
        | true => exact hf updates.threadId w
  · exact hf (some none) w

theorem bind_ok {x : Except SchedExn α} {f : α → Except SchedExn β} {b : β}
    (h : x >>= f = .ok b) : ∃ a, x = .ok a ∧ f a = .ok b := by
  cases x with
  | error e => cases h
  | ok a => exact ⟨a, rfl, h⟩

theorem mapError_ok {x : Except SchedExn α} {f : SchedExn → SchedExn} {a : α}
    (h : x.mapError f = .ok a) : x = .ok a := by
  cases x with
  | error e => cases h
  | ok b => exact h

theorem lookup_withField (fields : Spec) (key : String) (value : Value) :
    (withField fields key value).lookup key = some value := by
  rw [withField]
  split
  · rename_i hsome
    induction fields with
    | nil => cases hsome
    | cons f fields ih =>
      obtain ⟨k, v⟩ := f
      by_cases hk : k = key
      · simp [hk]
      · have hne : (key == k) = false := by simpa using fun h : key = k => hk h.symm
        rw [List.lookup_cons, hne] at hsome
        simpa [hk, List.lookup_cons, hne] using ih hsome
  · rename_i hnone
    rw [List.lookup_append, Option.not_isSome_iff_eq_none.1 hnone]
    simp

/-- A cron expression is stored as a text. -/
theorem storedSpec_cron {given spec : Spec} (h : storedSpec .cron given = .ok spec) :
    ∃ expr, spec.lookup "cron" = some (.str expr) := by
  rw [storedSpec] at h
  split at h
  · obtain ⟨expr, -, h⟩ := bind_ok h
    cases h
    exact ⟨expr, lookup_withField _ _ _⟩
  · cases h

/-- The fields of the schedule are left alone or set together. -/
theorem scheduleUpdates_ok {existing : TaskRow} {body : UpdateBody} {updates u : TaskUpdates}
    (h : scheduleUpdates cfg existing body now later updates = .ok u) :
    u.timezone = updates.timezone ∧
      ((body.scheduleSpec = none ∧ body.timezone = none ∧ u = updates) ∨
        ∃ spec next, u.scheduleSpec = some spec ∧ u.nextRunAt = some next ∧
          nextRunAt cfg.cal existing.scheduleType spec (body.timezone.getD existing.timezone) now =
            .ok next ∧
          (existing.scheduleType = .cron → ∃ expr, spec.lookup "cron" = some (.str expr)) ∧
          u.status = if next.isSome ∧ existing.status.isTerminal then some .enabled else none) := by
  rw [scheduleUpdates] at h
  split at h
  · cases hnew : reschedule cfg existing body now later with
    | error e =>
      rw [hnew] at h
      cases h
    | ok p =>
      rw [hnew] at h
      cases h
      suffices h : nextRunAt cfg.cal existing.scheduleType p.1
          (body.timezone.getD existing.timezone) now = .ok p.2 ∧
          (existing.scheduleType = .cron → ∃ expr, p.1.lookup "cron" = some (.str expr)) from
        ⟨rfl, .inr ⟨p.1, p.2, rfl, rfl, h.1, h.2, rfl⟩⟩
      rw [reschedule] at hnew
      obtain ⟨spec, hspec, hnew⟩ := bind_ok hnew
      obtain ⟨next, hnext, hnew⟩ := bind_ok hnew
      have hp : p = (spec, next) := by
        split at hnew
        · cases hnew
        · split at hnew
          · cases hnew
          · cases hnew
            rfl
        · cases hnew
          rfl
      rw [hp]
      refine ⟨mapError_ok hnext, fun hcron => ?_⟩
      rw [hcron] at hspec
      exact storedSpec_cron (mapError_ok hspec)
  · rename_i hnone
    cases h
    rw [not_or, Option.not_isSome_iff_eq_none, Option.not_isSome_iff_eq_none] at hnone
    exact ⟨rfl, .inl ⟨hnone.1, hnone.2, rfl⟩⟩

theorem calls_updateScheduledTask {body : UpdateBody} :
    Calls R (UpdateOp R cfg.cal taskId body now)
      (updateScheduledTask cfg user taskId body now later : SchedProc γ (Option TaskRow)) w := by
  refine calls_readTask_bind (fun _ => rfl) fun p _ hR hid => ?_
  refine Awaits.ofExcept_bind fun _ _ => ?_
  refine Awaits.ofExcept_bind fun contextMode _ => ?_
  refine calls_threadUpdates_bind (fun _ _ => trivial) fun threadId _ => ?_
  refine Awaits.ofExcept_bind fun _ _ => ?_
  refine Awaits.ofExcept_bind fun u hu => ?_
  obtain ⟨hzone, hu⟩ := scheduleUpdates_ok hu
  refine Awaits.call ⟨rfl, rfl, hR, hid, hzone, hu.imp ?_ id⟩
  rintro ⟨hspec, hnone, rfl⟩
  exact ⟨hnone, hspec, rfl, rfl⟩

theorem handler_awaits (call : SchedCall) :
    Calls R (CallOp R cfg.cal call) (handler cfg call : SchedProc γ Unit) w := by
  cases call with
  | poll now => exact calls_runOnce
  | dispatch task now trigger => exact calls_dispatchTask.bind fun _ _ => trivial
  | complete record now => exact calls_handleRunCompletion
  | pause | resume => exact calls_setStatus.bind fun _ _ => trivial
  | update user taskId body now later => exact calls_updateScheduledTask.bind fun _ _ => trivial
  | trigger user taskId now =>
    refine calls_readTask_bind (fun userId => .inl ⟨userId, rfl⟩) fun p _ hR hid => ?_
    have hdispatch : ∀ w, Calls R (CallOp R cfg.cal (.trigger user taskId now))
        (dispatchTask cfg p.2 now .manual : SchedProc γ DispatchResult) w := fun _ =>
      calls_dispatchTask.mono fun op hop => .inr ⟨p.2, hR, hid, hop⟩
    refine (hdispatch _).bind fun result _ => ?_
    cases result.outcome <;> trivial

theorem answer_replies {remember : (op : SchedOp) → Except SchedExn op.Reply → Store → γ → γ}
    (hrows : ∀ row ∈ w.store.tasks, R row)
    (hclaim : ∀ row owner expires, R row → R (row.claim owner expires)) (op : SchedOp)
    (out : Outcome) : Replies R op ((schedBackend cfg remember).answer op out w).1 := by
  cases out with
  | fault => cases op <;> trivial
  | ok =>
    cases op with
    | claimDueTasks now limit =>
      intro row hrow
      obtain ⟨t, ht, rfl⟩ := List.mem_map.1 hrow
      exact ⟨hclaim t _ _ (hrows t (Store.isDue_of_mem_dueTasks ht).1), rfl⟩
    | getTask taskId userId =>
      show Replies R (.getTask taskId userId) (.ok (w.store.getTask taskId userId))
      cases h : w.store.getTask taskId userId with
      | none => trivial
      | some row =>
        obtain ⟨hmem, hid⟩ := Store.getTask_eq_some h
        exact ⟨hrows row hmem, hid⟩
    | _ => trivial

/-- **What the operations of all calls keep holds in every state of a run.** -/
theorem scheduler_keeps {remember : (op : SchedOp) → Except SchedExn op.Reply → Store → γ → γ}
    {I : World γ → Prop} {C : SchedSys γ → Label SchedCall Empty → Prop} {s s' : SchedSys γ}
    (hclaim : ∀ row owner expires, R row → R (row.claim owner expires))
    (hrows : ∀ w, I w → ∀ row ∈ w.store.tasks, R row)
    (hcall : ∀ s call, C s (.spawn call) → ∀ op, CallOp R cfg.cal call op → E op)
    (hop : ∀ s i out op, C s (.resume i out) → op ∈ pendingAt s i → E op → I s.world →
      I ((schedBackend cfg remember).answer op out s.world).2)
    (hdraw : ∀ w w', Draws w w' → I w → I w')
    (hs : I s.world ∧ Steps.AllAwait E (Replies R) Draws s)
    (h : Steps (scheduler cfg remember) C s s') :
    I s'.world ∧ Steps.AllAwait E (Replies R) Draws s' := by
  refine Steps.keeps (fun op out w hI => answer_replies (hrows w hI) hclaim op out) ?_
    (fun _ e => e.elim) ?_ hdraw hs h
  · exact fun s call hC w => (handler_awaits call).mono (hcall s call hC)
  · intro s i out t op hC ht hpending
    refine hop s i out op hC ?_
    rw [pendingAt, ht]
    exact hpending

theorem allAwait_nil : Steps.AllAwait E (Replies R) Draws (⟨w, []⟩ : SchedSys γ) :=
  fun _ ht => absurd ht List.not_mem_nil

end Calls

end AfterFlow.Scheduler
