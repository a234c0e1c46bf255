import AfterFlow.Scheduler.Repositories

/-!
# The outcome of a run

The completion hook of a run writes how it ended: on the row of the run and, for a `once` task, on
the row of the task. The dispatch that launched the run may still be writing then. What it writes of
the launch leaves a status alone that says that the run or the task has ended, if it has read the
row after the hook. But it reads and commits in two steps, and its exception handler covers these
writes too and asks nothing: if one of them fails, a run that succeeded becomes a failed one, and a
`once` task that was triggered by hand becomes due again.

## Main results

* `outcome_sticks` — the rows say what the hooks wrote, and an ended task is never due
* `success_overwritten` — the exception handler makes a failure of a success
* `success_revived` — a protected write that has read the row before the hook overwrites it
-/

namespace AfterFlow.Scheduler

open Coop Coro Function

/-- The statuses that completion hooks wrote last, by run and by task. -/
structure Outcomes where
  runs : ℕ → Option RunStatus
  tasks : String → Option TaskStatus

/-- Nothing has ended yet. -/
def Outcomes.none : Outcomes := ⟨fun _ => .none, fun _ => .none⟩

/-- A write of the hook to a row that is there. -/
@[grind =] def rememberOutcome : (op : DbOp) → Except SchedExn op.Reply → Store → Outcomes → Outcomes
  | .commitRun .completion loaded u, .ok _, s, o =>
    if s.runs.any fun row => row.id = loaded.id then
      { o with runs := update o.runs loaded.id (some u.status) }
    else o
  | .commitTask .completion _ loaded u, .ok _, _, o =>
    match u.status with
    | some status => { o with tasks := update o.tasks loaded.id (some status) }
    | .none => o
  | _, _, _, o => o

/-- A dispatch writes before the hook, or it protects what ends and has read that the row has ended,
or the row that it has read has the status that it writes. A hook that finds its status there
already finds it there when it commits. A poll claims a task before the hook ends it, or has read
that it is running. -/
@[grind =] def BeforeHook (w : World Outcomes) : DbOp → Prop
  | .commitRun .dispatch loaded u => w.memory.runs loaded.id = .none ∨
      (u.protectTerminal = true ∧ loaded.status.isTerminal = true) ∨ u.status = loaded.status
  | .commitLaunch _ loaded u => w.memory.tasks loaded.id = .none ∨
      (u.protectTerminal = true ∧ loaded.status.isTerminal = true) ∨ u.status = loaded.status
  | .commitRun .completion loaded u => u.status = loaded.status →
      ∀ row ∈ w.store.runs, row.id = loaded.id → row.status = loaded.status
  | .commitTask .completion _ loaded u => u.status = some loaded.status →
      ∀ row ∈ w.store.tasks, row.id = loaded.id → row.status = loaded.status
  | .commitClaims _ loaded => ∀ row ∈ loaded, w.memory.tasks row.id = .none ∨ row.status = .running
  | _ => True

/-- A call that no user makes to change a task. -/
def SchedCall.isService : SchedCall → Prop
  | .pause _ _ | .resume _ _ | .update _ _ _ _ _ => False
  | _ => True

/-- Nobody changes the task by hand, and no write has read the row before the hook's and comes
after it. -/
def InTime (s : DbSys Outcomes) :
    Label SchedCall Empty → Prop
  | .spawn call => call.isService
  | .resume i out => out = .ok → ∀ op ∈ dbPendingAt s i, BeforeHook s.world op
  | .env _ => True

instance (call : SchedCall) : Decidable call.isService := by
  cases call <;> unfold SchedCall.isService <;> infer_instance

instance (w : World Outcomes) (op : DbOp) : Decidable (BeforeHook w op) := by
  simp only [BeforeHook]
  split <;> infer_instance

instance (s : DbSys Outcomes)
    (l : Label SchedCall Empty) : Decidable (InTime s l) :=
  match l with
  | .spawn call => inferInstanceAs (Decidable call.isService)
  | .resume i out =>
    inferInstanceAs (Decidable (out = .ok → ∀ op ∈ dbPendingAt s i, BeforeHook s.world op))
  | .env _ => .isTrue trivial

/-! ### What the hook wrote -/

/-- The rows say what the hook wrote, and that is a status in which a run or task has ended. -/
structure Sticks (w : World Outcomes) : Prop where
  run : ∀ id st, w.memory.runs id = some st → st.isTerminal = true ∧
    (∃ row ∈ w.store.runs, row.id = id) ∧ ∀ row ∈ w.store.runs, row.id = id → row.status = st
  task : ∀ id st, w.memory.tasks id = some st → st.isTerminal = true ∧
    ∀ row ∈ w.store.tasks, row.id = id → row.status = st

/-- No user changes the task. -/
def ServiceOp : SchedOp → Prop
  | .updateStatus caller _ u => caller = .dispatch ∨
      caller = .completion ∧ u.status.isTerminal = true ∧ u.protectTerminal = false
  | .updateTask caller _ _ _ u =>
      caller = .completion ∧ ∀ st, u.status = some st → st.isTerminal = true
  | _ => True

theorem DispatchOp.serviceOp {cal : Calendar} {task : TaskRow} {now : Time} {trigger : Trigger}
    {op : SchedOp} (h : DispatchOp cal task now trigger op) : ServiceOp op := by
  cases op with
  | updateStatus caller id u => exact .inl h.1
  | updateTask caller existing taskId userId u => exact h.elim
  | _ => trivial

theorem CallOp.serviceOp {cal : Calendar} {call : SchedCall} {op : SchedOp}
    (h : CallOp (fun _ => True) cal call op) (hcall : call.isService) : ServiceOp op := by
  cases call with
  | poll now =>
    obtain rfl | ⟨limit, rfl⟩ | ⟨task, -, -, hop⟩ := h
    · trivial
    · trivial
    · exact hop.serviceOp
  | dispatch task now trigger => exact DispatchOp.serviceOp h
  | complete record now =>
    cases op with
    | updateStatus caller id u => exact .inr ⟨h.1, h.2.2⟩
    | updateTask caller existing taskId userId u =>
      obtain ⟨hcaller, -, -, -, status, error, rfl⟩ := h
      refine ⟨hcaller, fun st hst => ?_⟩
      dsimp only at hst
      split at hst
      · cases hst
        exact onceStatus_isTerminal status
      · cases hst
    | _ => trivial
  | pause | resume | update => exact hcall.elim
  | trigger user taskId now =>
    obtain ⟨userId, rfl⟩ | ⟨task, -, -, hop⟩ := h
    · trivial
    · exact hop.serviceOp

theorem TaskRow.isDue_of_isTerminal {task : TaskRow} (h : task.status.isTerminal = true)
    (now : Time) : task.isDue now = false := by
  refine TaskRow.isDue_eq_false ?_ ?_ now
  · intro henabled
    rw [henabled] at h
    cases h
  · intro hrunning
    rw [hrunning] at h
    cases h

variable {drv : Driver} {cfg : Setting} {w : World Outcomes}

/-- A change of runs that leaves the statuses alone which the hook wrote. -/
theorem Sticks.onRuns (h : Sticks w) {id : ℕ} {f : RunRow → RunRow}
    (hid : ∀ row, (f row).id = row.id) {m : Outcomes} (htasks : m.tasks = w.memory.tasks)
    (hother : ∀ id', id' ≠ id → m.runs id' = w.memory.runs id')
    (hself : ∀ st, m.runs id = some st → st.isTerminal = true ∧
      (∃ row ∈ w.store.runs, row.id = id) ∧
      ∀ row ∈ w.store.runs, row.id = id → (f row).status = st) :
    Sticks ⟨w.store.onRun id f, w.uuids, m⟩ := by
  have hrow : ∀ {id' : ℕ}, (∃ row ∈ w.store.runs, row.id = id') →
      ∃ row ∈ (w.store.onRun id f).runs, row.id = id' := by
    rintro id' ⟨row, hmem, rfl⟩
    refine ⟨_, Store.mem_onRun.2 ⟨row, hmem, rfl⟩, ?_⟩
    split
    · exact hid row
    · rfl
  refine ⟨fun id' st hst => ?_, fun id' st hst => h.task id' st (htasks ▸ hst)⟩
  by_cases hne : id' = id
  · subst hne
    obtain ⟨hterminal, hex, hstatus⟩ := hself st hst
    refine ⟨hterminal, hrow hex, fun row hmem hrowId => ?_⟩
    obtain ⟨r, hr, rfl⟩ := Store.mem_onRun.1 hmem
    by_cases hrid : r.id = id'
    · rw [if_pos hrid]
      exact hstatus r hr hrid
    · rw [if_neg hrid] at hrowId
      exact absurd hrowId hrid
  · obtain ⟨hterminal, hex, hstatus⟩ := h.run id' st (hother id' hne ▸ hst)
    refine ⟨hterminal, hrow hex, fun row hmem hrowId => ?_⟩
    obtain ⟨r, hr, rfl⟩ := Store.mem_onRun.1 hmem
    by_cases hrid : r.id = id
    · rw [if_pos hrid, hid, hrid] at hrowId
      exact absurd hrowId.symm hne
    · rw [if_neg hrid] at hrowId ⊢
      exact hstatus r hr hrowId

/-- A change of tasks, likewise. -/
theorem Sticks.onTasks (h : Sticks w) {id : String} {f : TaskRow → TaskRow}
    (hid : ∀ row, (f row).id = row.id) {m : Outcomes} (hruns : m.runs = w.memory.runs)
    (hother : ∀ id', id' ≠ id → m.tasks id' = w.memory.tasks id')
    (hself : ∀ st, m.tasks id = some st → st.isTerminal = true ∧
      ∀ row ∈ w.store.tasks, row.id = id → (f row).status = st) :
    Sticks ⟨w.store.onTask id f, w.uuids, m⟩ := by
  refine ⟨fun id' st hst => h.run id' st (hruns ▸ hst), fun id' st hst => ?_⟩
  by_cases hne : id' = id
  · subst hne
    obtain ⟨hterminal, hstatus⟩ := hself st hst
    refine ⟨hterminal, fun row hmem hrowId => ?_⟩
    obtain ⟨t, ht, rfl⟩ := Store.mem_onTask.1 hmem
    by_cases htid : t.id = id'
    · rw [if_pos htid]
      exact hstatus t ht htid
    · rw [if_neg htid] at hrowId
      exact absurd hrowId htid
  · obtain ⟨hterminal, hstatus⟩ := h.task id' st (hother id' hne ▸ hst)
    refine ⟨hterminal, fun row hmem hrowId => ?_⟩
    obtain ⟨t, ht, rfl⟩ := Store.mem_onTask.1 hmem
    by_cases htid : t.id = id
    · rw [if_pos htid, hid, htid] at hrowId
      exact absurd hrowId.symm hne
    · rw [if_neg htid] at hrowId ⊢
      exact hstatus t ht hrowId

/-- The commit of a dispatch leaves the status alone, or it comes before the hook. -/
theorem Sticks.dispatchStatus (h : Sticks w) {loaded : RunRow} {u : StatusUpdate}
    (hbefore : w.memory.runs loaded.id = .none ∨
      (u.protectTerminal = true ∧ loaded.status.isTerminal = true) ∨ u.status = loaded.status) :
    Sticks ⟨w.store.onRun loaded.id (loaded.commit drv u), w.uuids, w.memory⟩ := by
  refine h.onRuns (fun _ => RunRow.commit_id u) rfl (fun _ _ => rfl) fun st hst => ?_
  obtain ⟨hterminal, hex, hstatus⟩ := h.run loaded.id st hst
  refine ⟨hterminal, hex, fun row hrow hid => ?_⟩
  obtain hnone | hkeeps := hbefore
  · rw [hst] at hnone
    cases hnone
  · rw [RunRow.commit_status, if_pos hkeeps]
    exact hstatus row hrow hid

theorem Sticks.completionStatus (h : Sticks w) {loaded : RunRow} {u : StatusUpdate}
    (hterminal : u.status.isTerminal = true) (hprotect : u.protectTerminal = false)
    (hsame : u.status = loaded.status →
      ∀ row ∈ w.store.runs, row.id = loaded.id → row.status = loaded.status) :
    Sticks ⟨w.store.onRun loaded.id (loaded.commit drv u), w.uuids,
      rememberOutcome (.commitRun .completion loaded u) (.ok ()) w.store w.memory⟩ := by
  by_cases hrow : (w.store.runs.any fun row => row.id = loaded.id) = true
  · simp only [rememberOutcome, hrow, if_true]
    refine h.onRuns (fun _ => RunRow.commit_id u) rfl
      (fun id' hne => update_of_ne hne _ _) fun st hst => ?_
    obtain rfl : u.status = st := by simpa using hst
    refine ⟨hterminal, by simpa using hrow, fun row hmem hid => ?_⟩
    rw [RunRow.commit_status]
    by_cases heq : u.status = loaded.status
    · rw [if_pos (.inr heq), hsame heq row hmem hid, heq]
    · exact if_neg fun hp => hp.elim (fun hp => by simp [hprotect] at hp) heq
  · simp only [rememberOutcome, hrow]
    refine h.onRuns (fun _ => RunRow.commit_id u) rfl (fun _ _ => rfl) fun st hst => ?_
    obtain ⟨-, ⟨row, hmem, hid⟩, -⟩ := h.run loaded.id st hst
    exact absurd (List.any_eq_true.2 ⟨row, hmem, decide_eq_true hid⟩) hrow

theorem Sticks.launch (h : Sticks w) {loaded : TaskRow} {u : LaunchUpdate}
    (hbefore : w.memory.tasks loaded.id = .none ∨
      (u.protectTerminal = true ∧ loaded.status.isTerminal = true) ∨ u.status = loaded.status) :
    Sticks ⟨w.store.onTask loaded.id (loaded.commitLaunch drv u), w.uuids, w.memory⟩ := by
  refine h.onTasks (fun _ => TaskRow.commitLaunch_id u) rfl (fun _ _ => rfl) fun st hst => ?_
  obtain ⟨hterminal, hstatus⟩ := h.task loaded.id st hst
  refine ⟨hterminal, fun row hrow hid => ?_⟩
  obtain hnone | hkeeps := hbefore
  · rw [hst] at hnone
    cases hnone
  · rw [TaskRow.commitLaunch_status, if_pos hkeeps]
    exact hstatus row hrow hid

theorem Sticks.completionTask (h : Sticks w) {existing loaded : TaskRow} {u : TaskUpdates}
    (hterminal : ∀ st, u.status = some st → st.isTerminal = true)
    (hsame : u.status = some loaded.status →
      ∀ row ∈ w.store.tasks, row.id = loaded.id → row.status = loaded.status) :
    Sticks ⟨w.store.onTask loaded.id (loaded.commit drv u), w.uuids,
      rememberOutcome (.commitTask .completion existing loaded u) (.ok ()) w.store w.memory⟩ := by
  cases hu : u.status with
  | none =>
    simp only [rememberOutcome, hu]
    refine h.onTasks (fun _ => TaskRow.commit_id u) rfl (fun _ _ => rfl) fun st hst => ?_
    obtain ⟨hterm, hstatus⟩ := h.task loaded.id st hst
    refine ⟨hterm, fun row hrow hid => ?_⟩
    show written loaded.status u.status row.status = st
    rw [hu]
    exact hstatus row hrow hid
  | some status =>
    simp only [rememberOutcome, hu]
    refine h.onTasks (fun _ => TaskRow.commit_id u) rfl (fun id' hne => update_of_ne hne _ _)
      fun st hst => ?_
    obtain rfl : status = st := by simpa using hst
    refine ⟨hterminal _ hu, fun row hrow hid => ?_⟩
    show written loaded.status u.status row.status = status
    rw [hu, written_some]
    by_cases heq : status = loaded.status
    · rw [if_pos heq, hsame (by rw [hu, heq]) row hrow hid, heq]
    · rw [if_neg heq]

theorem Sticks.claim (h : Sticks w) {owner : String} {expires : Time} {loaded : List TaskRow}
    (hbefore : ∀ row ∈ loaded, w.memory.tasks row.id = .none ∨ row.status = .running) :
    Sticks ⟨w.store.commitClaims drv owner expires loaded, w.uuids, w.memory⟩ := by
  refine ⟨h.run, fun id st hst => ?_⟩
  obtain ⟨hterminal, hstatus⟩ := h.task id st hst
  refine ⟨hterminal, fun row hrow hid => ?_⟩
  obtain hrow | ⟨t, ht, l, hl, hlid, rfl⟩ := Store.mem_commitClaims hrow
  · exact hstatus row hrow hid
  · have htid : t.id = id := hid
    obtain hnone | hrunning := hbefore l hl
    · rw [hlid, htid, hst] at hnone
      cases hnone
    · show written l.status (some .running) t.status = st
      rw [written_some, if_pos hrunning.symm]
      exact hstatus t ht htid

/-- A run that is created has an id of its own. -/
theorem Sticks.create (h : Sticks w) {row : RunRow} (hnew : ∀ r ∈ w.store.runs, r.id ≠ row.id) :
    Sticks ⟨w.store.createRun row, w.uuids, w.memory⟩ := by
  refine ⟨fun id st hst => ?_, h.task⟩
  obtain ⟨hterminal, ⟨r, hr, hrid⟩, hstatus⟩ := h.run id st hst
  refine ⟨hterminal, ⟨r, Store.mem_createRun.2 (.inl hr), hrid⟩, fun x hx hxid => ?_⟩
  rcases Store.mem_createRun.1 hx with hx | rfl
  · exact hstatus x hx hxid
  · exact absurd (hrid.trans hxid.symm) (hnew r hr)

/-- **One call of the database.** -/
theorem Sticks.answer (h : Sticks w) {op : DbOp} (hop : Within (fun _ => True) ServiceOp op)
    {out : Outcome} (hbefore : out = .ok → BeforeHook w op) :
    Sticks ((database drv cfg rememberOutcome).toBackend.answer op out w).2 := by
  cases out with
  | fault => exact h
  | ok =>
    have hbefore := hbefore rfl
    cases op with
    | createRun row skips =>
      show Sticks ⟨(perform cfg (.createRun row skips) w.store).2, w.uuids, w.memory⟩
      rw [perform]
      split
      · exact h
      · rename_i hfresh
        exact h.create (by simpa using hfresh)
    | commitRun caller loaded u =>
      obtain rfl | ⟨rfl, hterminal, hprotect⟩ := hop
      · exact h.dispatchStatus hbefore
      · exact h.completionStatus hterminal hprotect hbefore
    | commitLaunch task loaded u => exact h.launch hbefore
    | commitTask caller existing loaded u =>
      obtain ⟨-, userId, rfl, hterminal⟩ := hop
      exact h.completionTask hterminal hbefore
    | commitClaims now loaded => exact h.claim hbefore
    | refresh caller taskId =>
      show Sticks ⟨(performDb drv cfg (.refresh caller taskId) w.store).2, w.uuids, w.memory⟩
      rw [performDb]
      split <;> exact h
    | _ => exact h

/-- **A terminal outcome sticks.** In any run of the service in which no write has read the row
before the hook's write and comes after it, and the exception handlers of the dispatches write
before the hooks do, the rows say what the hooks wrote, and a task that a hook has ended is never
due. -/
theorem outcome_sticks {store : Store} {uuids : ℕ} {s : DbSys Outcomes}
    (h : Steps (database drv cfg rememberOutcome) InTime ⟨⟨store, uuids, .none⟩, []⟩ s) :
    (∀ id st, s.world.memory.runs id = some st →
        ∀ row ∈ s.world.store.runs, row.id = id → row.status = st) ∧
      ∀ id st, s.world.memory.tasks id = some st →
        ∀ row ∈ s.world.store.tasks, row.id = id →
          row.status = st ∧ ∀ now, row.isDue now = false := by
  have hinit : Sticks ⟨store, uuids, .none⟩ :=
    ⟨fun id st hst => (by cases hst), fun id st hst => (by cases hst)⟩
  have hsticks : Sticks s.world := by
    refine (database_keeps (R := fun _ => True) (E := ServiceOp) (I := Sticks)
      (fun _ _ _ _ => trivial) (fun _ _ _ _ => trivial)
      (fun s call hcall op hop => CallOp.serviceOp hop hcall) ?_ ?_
      ⟨hinit, fun _ ht => absurd ht List.not_mem_nil⟩ h).1
    · exact fun s i out op hC hpending hop hs => hs.answer hop fun hout => hC hout op hpending
    · rintro w w' ⟨hstore, hmemory⟩ hs
      exact ⟨by rw [hstore, hmemory]; exact hs.run, by rw [hstore, hmemory]; exact hs.task⟩
  refine ⟨fun id st hst => (hsticks.run id st hst).2.2, fun id st hst row hrow hid => ?_⟩
  obtain ⟨hterminal, hstatus⟩ := hsticks.task id st hst
  have hrowStatus := hstatus row hrow hid
  exact ⟨hrowStatus, TaskRow.isDue_of_isTerminal (by rw [hrowStatus]; exact hterminal)⟩

/-- The task before its run. -/
def beforeRun : DbSys Outcomes := ⟨⟨⟨[onceTask], []⟩, 0, .none⟩, []⟩

/-- The task is triggered by hand at 5, and its run is launched. -/
def launchSteps : List (Label SchedCall Empty) :=
  [.spawn (.dispatch onceTask 5 .manual), .resume 0 .ok, .resume 0 .ok, .resume 0 .ok,
    .resume 0 .ok]

/-- The run succeeds, and the hook writes it. -/
def successSteps : List (Label SchedCall Empty) :=
  .spawn (.complete (demoRecord .success) 6) :: List.replicate 7 (.resume 1 .ok)

/-- The launch is written after the hook, and changes nothing of what it wrote. -/
theorem outcome_sticks_demo : ∃ s : DbSys Outcomes, s.world.memory.runs 1 = some .success ∧
    (∀ row ∈ s.world.store.runs, row.id = 1 → row.status = .success) ∧
    s.world.memory.tasks "task-1" = some .completed ∧
    ∀ row ∈ s.world.store.tasks, row.id = "task-1" →
      row.status = .completed ∧ ∀ now, row.isDue now = false := by
  have h : (runWith (database demoDriver demoSetting rememberOutcome) InTime beforeRun
      (launchSteps ++ successSteps ++ List.replicate 4 (.resume 0 .ok))).isSome = true := rfl
  obtain ⟨hruns, htasks⟩ := outcome_sticks (Steps.of_runWith_get h)
  exact ⟨_, rfl, hruns 1 _ rfl, rfl, htasks "task-1" _ rfl⟩

/-- The second write of the launch fails after the hook has written. The handler makes a failure of
the success, and the task is due at 10 again. -/
theorem success_overwritten : ∃ s : DbSys Outcomes,
    Steps (database demoDriver demoSetting rememberOutcome) (fun _ _ => True) beforeRun s ∧
      (s.world.memory.runs 1 = some .success ∧
        ∃ row ∈ s.world.store.runs, row.id = 1 ∧ row.status = .failed) ∧
      s.world.memory.tasks "task-1" = some .completed ∧
        ∃ row ∈ s.world.store.tasks, row.id = "task-1" ∧ row.status = .enabled ∧
          row.isDue 10 = true := by
  have h : (run (database demoDriver demoSetting rememberOutcome) beforeRun
      (launchSteps ++ successSteps ++ List.replicate 3 (.resume 0 .ok) ++
        .resume 0 .fault :: List.replicate 4 (.resume 0 .ok))).isSome = true := rfl
  refine ⟨_, Steps.of_run_get h, ⟨rfl, _, List.mem_singleton_self _, rfl, rfl⟩, rfl, _,
    List.mem_singleton_self _, rfl, rfl, rfl⟩

/-- The launch reads the row of the run before the hook writes it, and commits after it. Nothing
fails, and the run that succeeded is running again. -/
theorem success_revived : ∃ s : DbSys Outcomes,
    Steps (database demoDriver demoSetting rememberOutcome) (fun _ _ => True) beforeRun s ∧
      s.world.memory.runs 1 = some .success ∧
      ∃ row ∈ s.world.store.runs, row.id = 1 ∧ row.status = .running := by
  have h : (run (database demoDriver demoSetting rememberOutcome) beforeRun
      (launchSteps ++ .resume 0 .ok :: successSteps ++ [.resume 0 .ok])).isSome = true := rfl
  exact ⟨_, Steps.of_run_get h, rfl, _, List.mem_singleton_self _, rfl, rfl⟩

end AfterFlow.Scheduler
