import AfterFlow.Scheduler.Repositories

/-!
# What a user changed

A user pauses a task, resumes it or gives it another schedule, while the poller claims it and
dispatches write it. A dispatch works on a copy of the row and writes the status and the next
instant from the copy. If the user has changed the row since the copy was taken, the change is
undone: a paused task is enabled again, or the next instant is that of the old schedule. An update
that arms an ended task again, or that takes the time zone from its copy, does the same; and a
resume that was read before a pause may be written after it.

The repositories have copies too. A claim that has read the task before a pause writes `running`
over it. An update that has read the schedule before another update writes only what differs from
what it has read, so the parts of two schedules are mixed. A pause that finds the task paused writes
nothing, even if a resume comes before its commit.

If no write comes from a copy that is out of date, what the user changed stands.

## Main results

* `user_changes_stand` — a pause holds, and the next instant is that of the schedule
* `pause_undone` — a pause is undone by a launch
* `pause_claimed` — a pause is undone by a claim that has read the task before it
-/

namespace AfterFlow.Scheduler

open Coop Coro Option

/-- Of each task, whether the last of the pauses and resumes that were written is a pause. -/
abbrev Pauses := String → Bool

/-- Nobody has paused a task. -/
def Pauses.none : Pauses := fun _ => false

def rememberPause : (op : DbOp) → Except SchedExn op.Reply → Store → Pauses → Pauses
  | .commitTask .pause _ loaded _, .ok _, _, m => Function.update m loaded.id true
  | .commitTask .resume _ loaded _, .ok _, _, m => Function.update m loaded.id false
  | _, _, _, m => m

/-- A write finds the row as its copies have it. A dispatch writes the status and the next instant:
the row is paused only if the copy is, and the schedule is that of the copy. An update that writes
the status does not find the row paused, and one that writes the next instant finds the schedule
that it has read, with the time zone of its copy if it takes that from it. A pause that has read
that the task is paused finds it so, and returns before a resume is written. A claim does not find
the task paused that it has read as enabled. -/
def FromCurrent (w : World Pauses) : DbOp → Prop
  | .commitLaunch task loaded _ => ∀ row ∈ w.store.tasks, row.id = loaded.id →
      (row.status = .paused → task.status = .paused) ∧
        row.scheduleSpec = task.scheduleSpec ∧ row.timezone = task.timezone
  | .commitTask .update existing loaded u => ∀ row ∈ w.store.tasks, row.id = loaded.id →
      (u.status ≠ none → row.status ≠ .paused) ∧
        (u.nextRunAt ≠ none → row.scheduleSpec = loaded.scheduleSpec ∧
          row.timezone = loaded.timezone ∧ row.nextRunAt = loaded.nextRunAt ∧
          (u.timezone = none → row.timezone = existing.timezone))
  | .commitTask .pause _ loaded _ => loaded.status = .paused →
      ∀ row ∈ w.store.tasks, row.id = loaded.id → row.status = .paused
  | .refresh .pause taskId => w.memory taskId = true
  | .commitClaims _ loaded => ∀ l ∈ loaded, l.status ≠ .running →
      ∀ row ∈ w.store.tasks, row.id = l.id → row.status ≠ .paused
  | _ => True

/-- The dispatches are those of the poller and of triggers, and no write comes from a copy that is
out of date. -/
def Kept (s : DbSys Pauses) : Label SchedCall Empty → Prop
  | .spawn (.dispatch _ _ _) => False
  | .resume i out => out = .ok → ∀ op ∈ dbPendingAt s i, FromCurrent s.world op
  | _ => True

/-- A commit that resumes the task. -/
def DbOp.resumes (taskId : String) : DbOp → Bool
  | .commitTask .resume _ loaded _ => loaded.id = taskId
  | _ => false

/-- No resume of the task is issued, and none is written. -/
def NotResumed (taskId : String) (s : DbSys Pauses) : Label SchedCall Empty → Prop
  | .spawn (.resume _ id) => id ≠ taskId
  | .resume i out => out = .ok → ∀ op ∈ dbPendingAt s i, op.resumes taskId = false
  | _ => True

instance (taskId : String) (s : DbSys Pauses) (l : Label SchedCall Empty) :
    Decidable (NotResumed taskId s l) :=
  match l with
  | .spawn (.resume _ id) => inferInstanceAs (Decidable (id ≠ taskId))
  | .resume i out =>
    inferInstanceAs (Decidable (out = .ok → ∀ op ∈ dbPendingAt s i, op.resumes taskId = false))
  | .spawn (.poll ..) | .spawn (.dispatch ..) | .spawn (.complete ..) | .spawn (.pause ..)
  | .spawn (.update ..) | .spawn (.trigger ..) | .env _ => .isTrue trivial

/-- All tasks with the id are cron tasks. -/
def IsCron (taskId : String) (row : TaskRow) : Prop := row.id = taskId → row.scheduleType = .cron

/-- The next instant is the one that was computed, at some time, from the schedule. -/
def OnSchedule (cal : Calendar) (row : TaskRow) : Prop :=
  ∃ now, nextRunAt cal row.scheduleType row.scheduleSpec row.timezone now = .ok row.nextRunAt

/-! ### What is awaited -/

/-- What is known of the writes to a cron task. -/
def CronOp (cal : Calendar) (taskId : String) : SchedOp → Prop
  | .updateAfterLaunch task u => task.id = taskId → task.scheduleType = .cron ∧
      (∃ now, task.next cal now = .ok u.nextRunAt) ∧ (task.status = .paused → u.status = .paused)
  | .updateTask caller existing id _ u => id = taskId →
      (caller = .pause ∧ u = { TaskUpdates.empty with status := some .paused }) ∨
      (caller = .resume ∧ u = { TaskUpdates.empty with status := some .enabled }) ∨
      (caller = .completion ∧ ∃ error, u = { TaskUpdates.empty with lastError := some error }) ∨
      (caller = .update ∧ ((u.timezone = none ∧ u.scheduleSpec = none ∧ u.nextRunAt = none ∧
          u.status = none) ∨
        ∃ spec next now, u.scheduleSpec = some spec ∧ u.nextRunAt = some next ∧
          nextRunAt cal .cron spec (u.timezone.getD existing.timezone) now = .ok next ∧
          ∃ expr, spec.lookup "cron" = some (.str expr)))
  | _ => True

variable {cfg : Setting} {taskId : String}

theorem DispatchOp.cronOp {cal : Calendar} {task : TaskRow} {now : Time} {trigger : Trigger}
    {op : SchedOp} (h : DispatchOp cal task now trigger op) (hcron : IsCron taskId task)
    (hpaused : trigger = .scheduled → task.status ≠ .paused) : CronOp cal taskId op := by
  cases op with
  | updateAfterLaunch task' u =>
    obtain ⟨rfl, hnext, hstatus⟩ := h
    intro hid
    refine ⟨hcron hid, ⟨now, hnext⟩, fun hp => ?_⟩
    have hmanual : trigger = .manual := by
      cases trigger with
      | manual => rfl
      | scheduled => exact absurd hp (hpaused rfl)
    obtain ⟨hstatus, -⟩ | ⟨hstatus, -⟩ | ⟨-, -, hscheduled⟩ := hstatus
    · rw [hstatus, taskStatusForLaunch, hcron hid, if_neg (by decide), if_pos ⟨hmanual, hp⟩]
    · rw [hstatus, taskStatusForFailure, if_pos hmanual, hp]
    · rw [hmanual] at hscheduled
      cases hscheduled
  | updateTask caller existing id userId u => exact h.elim
  | _ => trivial

/-- What a call writes to a cron task. -/
theorem CallOp.cronOp {cal : Calendar} {call : SchedCall} {op : SchedOp}
    (h : CallOp (IsCron taskId) cal call op)
    (hcall : ∀ task now trigger, call ≠ .dispatch task now trigger) :
    CronOp cal taskId op := by
  cases call with
  | poll now =>
    obtain rfl | ⟨limit, rfl⟩ | ⟨task, hcron, hrunning, hop⟩ := h
    · trivial
    · trivial
    · refine hop.cronOp hcron fun _ hp => ?_
      rw [hrunning] at hp
      cases hp
  | dispatch task now trigger => exact absurd rfl (hcall task now trigger)
  | complete record now =>
    cases op with
    | updateTask caller existing id userId u =>
      obtain ⟨hcaller, hcron, hid, -, status, error, rfl⟩ := h
      intro htask
      have honce : existing.scheduleType ≠ .once := by
        rw [hcron (hid.trans htask)]
        decide
      exact .inr (.inr (.inl ⟨hcaller, error, by rw [if_neg honce]; rfl⟩))
    | updateAfterLaunch task u => exact h.elim
    | _ => trivial
  | pause user id =>
    cases op with
    | updateTask caller existing id' userId u => exact fun _ => .inl ⟨h.1, h.2.2⟩
    | updateAfterLaunch task u => exact h.elim
    | _ => trivial
  | resume user id =>
    cases op with
    | updateTask caller existing id' userId u => exact fun _ => .inr (.inl ⟨h.1, h.2.2⟩)
    | updateAfterLaunch task u => exact h.elim
    | _ => trivial
  | update user id body now later =>
    cases op with
    | updateTask caller existing id' userId u =>
      obtain ⟨hcaller, hpath, hcron, hid, hzone, hu⟩ := h
      intro htask
      refine .inr (.inr (.inr ⟨hcaller, hu.imp (fun h => h) ?_⟩))
      rintro ⟨spec, next, hspec, hnext, hcomputed, htext, -⟩
      have htype := hcron (hid.trans (hpath.symm.trans htask))
      rw [htype, ← hzone] at hcomputed
      exact ⟨spec, next, now, hspec, hnext, hcomputed, htext htype⟩
    | updateAfterLaunch task u => exact h.elim
    | _ => trivial
  | trigger user id now =>
    obtain ⟨userId, rfl⟩ | ⟨task, hcron, -, hop⟩ := h
    · trivial
    · exact hop.cronOp hcron fun hscheduled => by cases hscheduled

/-! ### What the calls of the database keep -/

/-- Something that holds of every row with the id. -/
def AllRows (taskId : String) (K : TaskRow → Prop) (w : World Pauses) : Prop :=
  ∀ row ∈ w.store.tasks, row.id = taskId → K row

variable {drv : Driver} {w : World Pauses} {op : DbOp} {out : Outcome}

/-- The three commits of tasks keep what they keep of the rows with the id. -/
theorem AllRows.answer {K : TaskRow → Prop} (h : AllRows taskId K w)
    (hlaunch : ∀ task loaded u, op = .commitLaunch task loaded u → out = .ok → loaded.id = taskId →
      ∀ row ∈ w.store.tasks, row.id = taskId → K row → K (loaded.commitLaunch drv u row))
    (hupdate : ∀ caller existing loaded u, op = .commitTask caller existing loaded u → out = .ok →
      loaded.id = taskId →
      ∀ row ∈ w.store.tasks, row.id = taskId → K row → K (loaded.commit drv u row))
    (hclaim : ∀ now rows, op = .commitClaims now rows → out = .ok → ∀ l ∈ rows, l.id = taskId →
      ∀ owner expires, ∀ row ∈ w.store.tasks, row.id = taskId → K row →
        K (l.commitClaim drv owner expires row)) :
    AllRows taskId K ((database drv cfg rememberPause).toBackend.answer op out w).2 := by
  cases out with
  | fault => exact h
  | ok =>
    cases op with
    | createRun row skips =>
      show ∀ row' ∈ (perform cfg (.createRun row skips) w.store).2.tasks, _
      rw [perform]
      split <;> exact h
    | refresh caller id =>
      show ∀ row ∈ (performDb drv cfg (.refresh caller id) w.store).2.tasks, _
      rw [performDb]
      split <;> exact h
    | commitLaunch task loaded u =>
      intro row hrow hid
      obtain ⟨t, ht, rfl⟩ := Store.mem_onTask.1 hrow
      by_cases htid : t.id = loaded.id
      · rw [if_pos htid] at hid ⊢
        exact hlaunch task loaded u rfl rfl (htid.symm.trans hid) t ht hid (h t ht hid)
      · rw [if_neg htid] at hid ⊢
        exact h t ht hid
    | commitTask caller existing loaded u =>
      intro row hrow hid
      obtain ⟨t, ht, rfl⟩ := Store.mem_onTask.1 hrow
      by_cases htid : t.id = loaded.id
      · rw [if_pos htid] at hid ⊢
        exact hupdate caller existing loaded u rfl rfl (htid.symm.trans hid) t ht hid (h t ht hid)
      · rw [if_neg htid] at hid ⊢
        exact h t ht hid
    | commitClaims now rows =>
      intro row hrow hid
      obtain hrow | ⟨t, ht, l, hl, hlid, rfl⟩ := Store.mem_commitClaims hrow
      · exact h row hrow hid
      · exact hclaim now rows rfl rfl l hl (hlid.trans hid) _ _ t ht hid (h t ht hid)
    | _ => exact h

/-! ### The schedule -/

theorem nextRunAt_cron {cal : Calendar} {a b : Spec} (h : cronText cal a = cronText cal b)
    (zone : String) (now : Time) :
    nextRunAt cal .cron a zone now = nextRunAt cal .cron b zone now := by
  rw [nextRunAt, nextRunAt, h]

/-- The stored specification has the expression of the one that was assigned. -/
theorem cronText_specified {cal : Calendar} {loaded spec : Spec} {expr : String}
    (hspec : spec.lookup "cron" = some (.str expr)) :
    cronText cal (drv.specified loaded (some spec) loaded) = cronText cal spec := by
  rw [Driver.specified]
  split
  · rename_i hsame
    rw [cronText, cronText, hspec, drv.same_cron hsame hspec]
  · rfl

/-- The commit of a dispatch whose copy has the schedule of the row. -/
theorem onSchedule_commitLaunch {cal : Calendar} {row task loaded : TaskRow} {u : LaunchUpdate}
    (hnext : ∃ now, task.next cal now = .ok u.nextRunAt)
    (htype : row.scheduleType = task.scheduleType) (hspec : row.scheduleSpec = task.scheduleSpec)
    (hzone : row.timezone = task.timezone) (h : OnSchedule cal row) :
    OnSchedule cal (loaded.commitLaunch drv u row) := by
  show ∃ now, nextRunAt cal row.scheduleType row.scheduleSpec row.timezone now =
    .ok (drv.stamped loaded.nextRunAt (some u.nextRunAt) row.nextRunAt)
  obtain hstored | hnew := drv.stamped_cases loaded.nextRunAt u.nextRunAt row.nextRunAt
  · rw [hstored]
    exact h
  · rw [hnew, htype, hspec, hzone]
    exact hnext

/-- The commit of an update that finds the schedule it has read. -/
theorem onSchedule_commit {cal : Calendar} {row existing loaded : TaskRow} {u : TaskUpdates}
    {spec : Spec} {next : Option Time} {now : Time} {expr : String}
    (hcron : row.scheduleType = .cron) (hspec : u.scheduleSpec = some spec)
    (hnext : u.nextRunAt = some next)
    (hcomputed : nextRunAt cal .cron spec (u.timezone.getD existing.timezone) now = .ok next)
    (htext : spec.lookup "cron" = some (.str expr)) (hloaded : row.scheduleSpec =
      loaded.scheduleSpec ∧ row.timezone = loaded.timezone ∧ row.nextRunAt = loaded.nextRunAt ∧
        (u.timezone = none → row.timezone = existing.timezone)) :
    OnSchedule cal (loaded.commit drv u row) := by
  obtain ⟨hsameSpec, hsameZone, hsameNext, hzone⟩ := hloaded
  refine ⟨now, ?_⟩
  show nextRunAt cal row.scheduleType (drv.specified loaded.scheduleSpec u.scheduleSpec
    row.scheduleSpec) (written loaded.timezone u.timezone row.timezone) now =
      .ok (drv.stamped loaded.nextRunAt u.nextRunAt row.nextRunAt)
  have hzone : u.timezone.getD loaded.timezone = u.timezone.getD existing.timezone := by
    cases hz : u.timezone with
    | some zone => rfl
    | none => exact hsameZone.symm.trans (hzone hz)
  rw [hcron, hsameSpec, hsameZone, hsameNext, written_self, drv.stamped_self, hspec, hnext, hzone,
    nextRunAt_cron (cronText_specified htext)]
  exact hcomputed

/-- **The schedule, one call of the database.** -/
theorem onSchedule_answer
    (h : AllRows taskId (fun row => row.scheduleType = .cron ∧ OnSchedule cfg.cal row) w)
    (hop : Within (IsCron taskId) (CronOp cfg.cal taskId) op)
    (hcurrent : out = .ok → FromCurrent w op) :
    AllRows taskId (fun row => row.scheduleType = .cron ∧ OnSchedule cfg.cal row)
      ((database drv cfg rememberPause).toBackend.answer op out w).2 := by
  refine h.answer ?_ ?_ (fun _ _ _ _ _ _ _ _ _ _ _ _ hK => hK)
  · rintro task loaded u rfl hout hid row hrow hrowId ⟨hcron, hnext⟩
    obtain ⟨-, htaskId, hlaunch⟩ := hop
    obtain ⟨htask, hcomputed, -⟩ := hlaunch (htaskId.symm.trans hid)
    obtain ⟨-, hspec, hzone⟩ := hcurrent hout row hrow (hrowId.trans hid.symm)
    exact ⟨hcron, onSchedule_commitLaunch hcomputed (hcron.trans htask.symm) hspec hzone hnext⟩
  · rintro caller existing loaded u rfl hout hid row hrow hrowId ⟨hcron, hnext⟩
    obtain ⟨-, userId, hupdate⟩ := hop
    obtain ⟨-, rfl⟩ | ⟨-, rfl⟩ | ⟨-, error, rfl⟩ | ⟨rfl, hu⟩ := hupdate hid
    · exact ⟨hcron, hnext⟩
    · exact ⟨hcron, hnext⟩
    · exact ⟨hcron, hnext⟩
    · refine ⟨hcron, ?_⟩
      obtain ⟨hzone, hspec, hnone, -⟩ | ⟨spec, next, now, hspec, hsome, hcomputed, expr, htext⟩ := hu
      · obtain ⟨now, hnow⟩ := hnext
        refine ⟨now, ?_⟩
        show nextRunAt _ row.scheduleType (drv.specified _ u.scheduleSpec _)
          (written _ u.timezone _) now = .ok (drv.stamped _ u.nextRunAt _)
        rw [hzone, hspec, hnone]
        exact hnow
      · refine onSchedule_commit hcron hspec hsome hcomputed htext ?_
        refine (hcurrent hout row hrow (hrowId.trans hid.symm)).2 ?_
        rw [hsome]
        exact some_ne_none _

/-! ### The pause -/

theorem memory_answer
    (h : ((database drv cfg rememberPause).toBackend.answer op out w).2.memory taskId = true) :
    w.memory taskId = true ∨ out = .ok ∧ ∃ existing loaded u,
      op = .commitTask .pause existing loaded u ∧ loaded.id = taskId := by
  cases out with
  | fault => exact .inl h
  | ok =>
    cases op with
    | commitTask caller existing loaded u =>
      have hne : ∀ b, loaded.id ≠ taskId → Function.update w.memory loaded.id b taskId = true →
          w.memory taskId = true := fun b hid h => by
        rwa [Function.update_of_ne (Ne.symm hid)] at h
      by_cases hid : loaded.id = taskId
      · cases caller with
        | pause => exact .inr ⟨rfl, existing, loaded, u, rfl, hid⟩
        | resume =>
          have h : Function.update w.memory loaded.id false taskId = true := h
          rw [hid, Function.update_self] at h
          cases h
        | _ => exact .inl h
      · cases caller with
        | pause | resume => exact .inl (hne _ hid h)
        | _ => exact .inl h
    | _ => exact .inl h

theorem memory_keeps (h : w.memory taskId = true) (hresume : out = .ok → op.resumes taskId = false) :
    ((database drv cfg rememberPause).toBackend.answer op out w).2.memory taskId = true := by
  cases out with
  | fault => exact h
  | ok =>
    cases op with
    | commitTask caller existing loaded u =>
      cases caller with
      | pause =>
        show Function.update w.memory loaded.id true taskId = true
        by_cases hid : taskId = loaded.id
        · rw [hid, Function.update_self]
        · rwa [Function.update_of_ne hid]
      | resume =>
        have hid : loaded.id ≠ taskId := by simpa [DbOp.resumes] using hresume rfl
        show Function.update w.memory loaded.id false taskId = true
        rwa [Function.update_of_ne hid.symm]
      | _ => exact h
    | _ => exact h

/-- **The pause, one call of the database.** -/
theorem paused_answer
    (h : w.memory taskId = true → AllRows taskId (fun row => row.status = .paused) w)
    (hop : Within (IsCron taskId) (CronOp cfg.cal taskId) op)
    (hcurrent : out = .ok → FromCurrent w op)
    (hafter : ((database drv cfg rememberPause).toBackend.answer op out w).2.memory taskId = true) :
    AllRows taskId (fun row => row.status = .paused)
      ((database drv cfg rememberPause).toBackend.answer op out w).2 := by
  obtain hpaused | ⟨rfl, existing, loaded, u, rfl, hid⟩ := memory_answer hafter
  · refine (h hpaused).answer ?_ ?_ ?_
    · rintro task loaded u rfl hout hid row hrow hrowId hstatus
      obtain ⟨-, htaskId, hlaunch⟩ := hop
      obtain ⟨-, -, hkeeps⟩ := hlaunch (htaskId.symm.trans hid)
      rw [TaskRow.commitLaunch_status]
      split
      · exact hstatus
      · exact hkeeps ((hcurrent hout row hrow (hrowId.trans hid.symm)).1 hstatus)
    · rintro caller existing loaded u rfl hout hid row hrow hrowId hstatus
      obtain ⟨-, userId, hupdate⟩ := hop
      obtain ⟨-, rfl⟩ | ⟨rfl, -⟩ | ⟨-, error, rfl⟩ | ⟨rfl, -⟩ := hupdate hid
      · show written loaded.status (some .paused) row.status = .paused
        rw [written_some, hstatus, ite_self]
      · rw [hout] at hafter
        have hafter : Function.update w.memory loaded.id false taskId = true := hafter
        rw [hid, Function.update_self] at hafter
        cases hafter
      · exact hstatus
      · have hnone : u.status = none := by
          by_contra hsome
          exact (hcurrent hout row hrow (hrowId.trans hid.symm)).1 hsome hstatus
        show written loaded.status u.status row.status = .paused
        rw [hnone]
        exact hstatus
    · rintro now rows rfl hout l hl hlid owner expires row hrow hrowId hstatus
      show written l.status (some .running) row.status = .paused
      rw [written_some]
      split
      · exact hstatus
      · rename_i hne
        exact absurd hstatus (hcurrent hout l hl (Ne.symm hne) row hrow (hrowId.trans hlid.symm))
  · intro row hrow hrowId
    obtain ⟨-, userId, hupdate⟩ := hop
    obtain ⟨t, ht, rfl⟩ := Store.mem_onTask.1 hrow
    by_cases htid : t.id = loaded.id
    · rw [if_pos htid]
      obtain ⟨-, rfl⟩ | ⟨hresume, -⟩ | ⟨hcompletion, -⟩ | ⟨hupdated, -⟩ := hupdate hid
      · show written loaded.status (some .paused) t.status = .paused
        rw [written_some]
        split
        · rename_i heq
          exact hcurrent rfl heq.symm t ht htid
        · rfl
      · cases hresume
      · cases hcompletion
      · cases hupdated
    · rw [if_neg htid] at hrowId
      exact absurd (hrowId.trans hid.symm) htid

/-- The task is a cron task with the instant of its schedule, and paused if the last pause or resume
that was written is a pause. -/
structure Stands (cal : Calendar) (taskId : String) (w : World Pauses) : Prop where
  next : AllRows taskId (fun row => row.scheduleType = .cron ∧ OnSchedule cal row) w
  paused : w.memory taskId = true → AllRows taskId (fun row => row.status = .paused) w

theorem Stands.answer (h : Stands cfg.cal taskId w)
    (hop : Within (IsCron taskId) (CronOp cfg.cal taskId) op)
    (hcurrent : out = .ok → FromCurrent w op) :
    Stands cfg.cal taskId ((database drv cfg rememberPause).toBackend.answer op out w).2 :=
  ⟨onSchedule_answer h.next hop hcurrent, paused_answer h.paused hop hcurrent⟩

theorem Stands.draws {cal : Calendar} {w' : World Pauses} (hw : Draws w w')
    (h : Stands cal taskId w) : Stands cal taskId w' := by
  obtain ⟨hstore, hmemory⟩ := hw
  refine ⟨?_, fun hp => ?_⟩
  · rw [AllRows, hstore]
    exact h.next
  · rw [AllRows, hstore]
    exact h.paused (by rwa [hmemory] at hp)

/-! ### A pause returns -/

/-- A pause has read back the task. -/
def PauseRead (taskId : String) : (op : DbOp) → Except SchedExn op.Reply → Prop
  | .refresh .pause id, .ok _ => id = taskId
  | _, _ => False

theorem pause_endsAfter (user : Option String) (w : World Pauses) :
    EndsAfter (PauseRead taskId) False
      ((handler cfg (.pause user taskId)).expand (repository cfg)) w := by
  cases user with
  | none => trivial
  | some userId =>
    rintro (e | existing) w
    · trivial
    · cases existing with
      | none => trivial
      | some existing =>
        show EndsAfter _ _ (((((Coro.ofExcept (ensureTaskMutable existing)).bind _).bind
          _).expand (repository cfg))) w
        cases ensureTaskMutable existing with
        | error e => trivial
        | ok _ =>
          rintro (e | found) w
          · trivial
          · dsimp only [Coro.bind]
            cases found.filter fun row => row.userId = userId with
            | none => trivial
            | some row =>
              rintro (e | _) w
              · trivial
              · rintro (e | updated) w
                · trivial
                · exact rfl

/-! ### Runs -/

theorem Kept.cronOp {s : DbSys Pauses} {call : SchedCall} (h : Kept s (.spawn call)) {op : SchedOp}
    (hop : CallOp (IsCron taskId) cfg.cal call op) : CronOp cfg.cal taskId op := by
  refine hop.cronOp fun task now trigger hcall => ?_
  rw [hcall] at h
  exact h

/-- The state between two steps. -/
abbrev Settled (cal : Calendar) (taskId : String) (I : World Pauses → Prop) (s : DbSys Pauses) :
    Prop :=
  I s.world ∧ Steps.AllAwait (Within (IsCron taskId) (CronOp cal taskId))
    (DbReplies (IsCron taskId)) Draws s

theorem stands_keeps {s s' : DbSys Pauses} (hs : Settled cfg.cal taskId (Stands cfg.cal taskId) s)
    (h : Steps (database drv cfg rememberPause) Kept s s') :
    Settled cfg.cal taskId (Stands cfg.cal taskId) s' := by
  refine database_keeps (fun row owner expires hR => hR)
    (fun w hI row hrow hid => (hI.next row hrow hid).1) (fun s call hC op hop => hC.cronOp hop) ?_
    (fun w w' hw => Stands.draws hw) hs h
  exact fun s i out op hC hpending hop hI => hI.answer hop fun hout => hC hout op hpending

/-- As long as the task is not resumed, the pause is the last word. -/
theorem paused_keeps {s s' : DbSys Pauses}
    (hs : Settled cfg.cal taskId
      (fun w => Stands cfg.cal taskId w ∧ w.memory taskId = true) s)
    (h : Steps (database drv cfg rememberPause) (fun s l => Kept s l ∧ NotResumed taskId s l) s s') :
    Settled cfg.cal taskId (fun w => Stands cfg.cal taskId w ∧ w.memory taskId = true) s' := by
  refine database_keeps (fun row owner expires hR => hR)
    (fun w (hI : Stands cfg.cal taskId w ∧ w.memory taskId = true) row hrow hid =>
      (hI.1.next row hrow hid).1)
    (fun s call hC op hop => hC.1.cronOp hop) ?_ ?_ hs h
  · rintro s i out op ⟨hkept, hresumed⟩ hpending hop ⟨hI, hmemory⟩
    exact ⟨hI.answer hop fun hout => hkept hout op hpending,
      memory_keeps hmemory fun hout => hresumed hout op hpending⟩
  · rintro w w' hw ⟨hI, hmemory⟩
    exact ⟨hI.draws hw, by rwa [hw.2]⟩

/-- **What a user changed stands.** In any run on a cron task in which no dispatch, update, pause or
claim writes from a copy that is out of date: the next instant is always the one of the schedule
that is stored; and once a pause has returned, the task is paused, and so is never claimed, as long
as no resume of it is issued, and none that was issued before is written. -/
theorem user_changes_stand (drv : Driver) (cfg : Setting) (taskId : String) (store : Store)
    (uuids : ℕ) (hcron : ∀ row ∈ store.tasks, row.id = taskId → row.scheduleType = .cron)
    (hnext : ∀ row ∈ store.tasks, row.id = taskId → OnSchedule cfg.cal row) :
    (∀ s, Steps (database drv cfg rememberPause) Kept ⟨⟨store, uuids, .none⟩, []⟩ s →
        ∀ row ∈ s.world.store.tasks, row.id = taskId → OnSchedule cfg.cal row) ∧
      ∀ s₁ s₂ s i out t user,
        Steps (database drv cfg rememberPause) Kept ⟨⟨store, uuids, .none⟩, []⟩ s₁ →
        Kept s₁ (.resume i out) →
        step (database drv cfg rememberPause) s₁ (.resume i out) = some s₂ →
        s₂.tasks[i]? = some t → t.req = .pause user taskId → t.result = some (.ok ()) →
        Steps (database drv cfg rememberPause) (fun s l => Kept s l ∧ NotResumed taskId s l) s₂ s →
        ∀ row ∈ s.world.store.tasks, row.id = taskId →
          row.status = .paused ∧ ∀ now, row.isDue now = false := by
  have hinit : Settled cfg.cal taskId (Stands cfg.cal taskId) ⟨⟨store, uuids, .none⟩, []⟩ :=
    ⟨⟨fun row hrow hid => ⟨hcron row hrow hid, hnext row hrow hid⟩, fun h => by cases h⟩,
      fun _ ht => absurd ht List.not_mem_nil⟩
  refine ⟨fun s h row hrow hid => ((stands_keeps hinit h).1.next row hrow hid).2, ?_⟩
  intro s₁ s₂ s i out t user h₁ hkept hstep ht hreq hresult h
  have hs₁ := stands_keeps hinit h₁
  have hs₂ := stands_keeps hinit (h₁.tail hkept hstep)
  have hend : Steps.AllEnd (PauseRead taskId) (fun req => ∃ user, req = .pause user taskId)
      s₁ := by
    refine Steps.allEnd ?_ h₁ fun t ht => absurd ht List.not_mem_nil
    rintro req ⟨user, rfl⟩ w
    exact pause_endsAfter user w
  have hmemory : s₂.world.memory taskId = true := by
    refine Steps.holds_on_return (I := fun w => w.memory taskId = true) hend hs₁.2
      (database_replies fun row hrow hid => (hs₁.1.next row hrow hid).1)
      (fun w w' hw h => by rwa [hw.2]) ?_ hstep ht ⟨user, hreq⟩ hresult
    intro op hop hread
    cases op with
    | refresh caller id =>
      cases caller with
      | pause =>
        cases out with
        | fault => exact hread.elim
        | ok =>
          have hcurrent : s₁.world.memory id = true := hkept rfl _ hop
          have hid : id = taskId := by
            revert hread
            generalize ((database drv cfg rememberPause).toBackend.answer (.refresh .pause id) .ok
              s₁.world).1 = reply
            cases reply with
            | error e => exact False.elim
            | ok row => exact fun h => h
          rw [← hid]
          exact hcurrent
      | _ => exact hread.elim
    | _ => exact hread.elim
  have hs := paused_keeps ⟨⟨hs₂.1, hmemory⟩, hs₂.2⟩ h
  intro row hrow hid
  have hstatus := hs.1.1.paused hs.1.2 row hrow hid
  exact ⟨hstatus, TaskRow.isDue_eq_false (by rw [hstatus]; decide) (by rw [hstatus]; decide)⟩

/-- A task that is due every minute, next at 60. -/
def cronTask : TaskRow := demoTask .cron [("cron", .str "* * * * *")] (some 60)

def beforePause : DbSys Pauses := ⟨⟨⟨[cronTask], []⟩, 0, .none⟩, []⟩

/-- A call that does not write from a copy, and does not resume a task. -/
def DbOp.isFresh (w : World Pauses) : DbOp → Bool
  | .commitLaunch _ _ _ => false
  | .commitTask caller _ loaded _ => caller = .pause && loaded.status ≠ .paused
  | .refresh .pause taskId => w.memory taskId
  | .commitClaims _ loaded => loaded.isEmpty
  | _ => true

/-- Nothing is written from a copy. -/
def Fresh (s : DbSys Pauses) : Label SchedCall Empty → Prop
  | .spawn (.dispatch _ _ _) => False
  | .spawn (.resume _ _) => False
  | .resume i _ => ∀ op ∈ dbPendingAt s i, op.isFresh s.world = true
  | _ => True

instance (s : DbSys Pauses) (l : Label SchedCall Empty) : Decidable (Fresh s l) :=
  match l with
  | .spawn (.dispatch ..) | .spawn (.resume ..) => .isFalse id
  | .resume i _ => inferInstanceAs (Decidable (∀ op ∈ dbPendingAt s i, op.isFresh s.world = true))
  | .spawn (.poll ..) | .spawn (.complete ..) | .spawn (.pause ..) | .spawn (.update ..)
  | .spawn (.trigger ..) | .env _ => .isTrue trivial

theorem Fresh.fromCurrent (h : op.isFresh w = true) : FromCurrent w op := by
  cases op with
  | commitLaunch task loaded u => cases h
  | commitTask caller existing loaded u =>
    obtain ⟨hcaller, hne⟩ := Bool.and_eq_true_iff.1 h
    obtain rfl := of_decide_eq_true hcaller
    exact fun heq => absurd heq (of_decide_eq_true hne)
  | refresh caller taskId =>
    cases caller with
    | pause => exact h
    | _ => trivial
  | commitClaims now loaded =>
    obtain rfl := List.isEmpty_iff.1 h
    exact fun l hl => absurd hl List.not_mem_nil
  | _ => trivial

theorem Fresh.kept {s : DbSys Pauses} {l : Label SchedCall Empty} (h : Fresh s l) : Kept s l := by
  cases l with
  | spawn call =>
    cases call with
    | dispatch task now trigger => exact h
    | _ => trivial
  | resume i out => exact fun _ op hop => Fresh.fromCurrent (h op hop)
  | env e => trivial

theorem Fresh.notResumed {s : DbSys Pauses} {l : Label SchedCall Empty} (h : Fresh s l) :
    NotResumed "task-1" s l := by
  cases l with
  | spawn call =>
    cases call with
    | resume user id => exact h.elim
    | _ => trivial
  | resume i out =>
    intro _ op hop
    have hfresh := h op hop
    cases op with
    | commitTask caller existing loaded u =>
      cases caller with
      | resume => cases hfresh
      | _ => rfl
    | _ => rfl
  | env e => trivial

/-- The task is paused, and then polled when it would be due. -/
theorem user_changes_stand_demo : ∃ s : DbSys Pauses,
    s.world.store.tasks.map TaskRow.id = ["task-1"] ∧ s.tasks.length = 2 ∧
      ∀ row ∈ s.world.store.tasks, row.id = "task-1" →
        row.status = .paused ∧ ∀ now, row.isDue now = false := by
  have hpause : (runWith (database demoDriver demoSetting rememberPause) Fresh beforePause
      (.spawn (.pause (some "user-1") "task-1") ::
        List.replicate 4 (.resume 0 .ok))).isSome = true := rfl
  have hreturn : (step (database demoDriver demoSetting rememberPause) (get _ hpause)
      (.resume 0 .ok)).isSome = true := rfl
  have hpoll : (runWith (database demoDriver demoSetting rememberPause) Fresh (get _ hreturn)
      (.spawn (.poll 100) :: List.replicate 4 (.resume 1 .ok))).isSome = true := rfl
  have hcron : ∀ row ∈ beforePause.world.store.tasks, row.id = "task-1" →
      row.scheduleType = .cron ∧ OnSchedule demoSetting.cal row := by
    rintro row hrow -
    obtain rfl := List.mem_singleton.1 hrow
    exact ⟨rfl, 0, rfl⟩
  obtain ⟨-, hpaused⟩ := user_changes_stand demoDriver demoSetting "task-1" beforePause.world.store
    0 (fun row hrow hid => (hcron row hrow hid).1) fun row hrow hid => (hcron row hrow hid).2
  have hfresh : Fresh (get _ hpause) (.resume 0 .ok) := of_decide_eq_true rfl
  exact ⟨_, rfl, rfl, hpaused _ _ (get _ hpoll) 0 .ok _ (some "user-1")
    ((Steps.of_runWith_get hpause).mono fun _ _ => Fresh.kept) hfresh.kept (some_get hreturn).symm
    rfl rfl rfl ((Steps.of_runWith_get hpoll).mono fun _ _ h => ⟨h.kept, h.notResumed⟩)⟩

/-- The task is triggered by hand and paused before the launch is written. The pause returns, and
then the launch enables the task. -/
theorem pause_undone : ∃ s₂ s : DbSys Pauses,
    Steps (database demoDriver demoSetting rememberPause) (fun _ _ => True) beforePause s₂ ∧
      (∃ t ∈ s₂.tasks, t.req = .pause (some "user-1") "task-1" ∧ t.result = some (.ok ())) ∧
      Steps (database demoDriver demoSetting rememberPause) (NotResumed "task-1") s₂ s ∧
      (∀ t ∈ s.tasks, t.result.isSome = true) ∧
      ∃ row ∈ s.world.store.tasks, row.id = "task-1" ∧ row.status = .enabled := by
  have hpause : (run (database demoDriver demoSetting rememberPause) beforePause
      (.spawn (.trigger (some "user-1") "task-1" 5) :: List.replicate 5 (.resume 0 .ok) ++
        .spawn (.pause (some "user-1") "task-1") ::
          List.replicate 5 (.resume 1 .ok))).isSome = true := rfl
  have hlaunch : (runWith (database demoDriver demoSetting rememberPause) (NotResumed "task-1")
      (get _ hpause) (List.replicate 4 (.resume 0 .ok))).isSome = true := rfl
  have hdone : (get _ hlaunch).tasks.all (fun t => t.result.isSome) = true := rfl
  exact ⟨_, _, Steps.of_run_get hpause, ⟨_, List.mem_of_getElem? (i := 1) rfl, rfl, rfl⟩,
    Steps.of_runWith_get hlaunch, List.all_eq_true.1 hdone, _, List.mem_singleton_self _, rfl, rfl⟩

/-- A poll has read that the task is due when it is paused. The pause returns, and then the poll
claims the task. -/
theorem pause_claimed : ∃ s₂ s : DbSys Pauses,
    Steps (database demoDriver demoSetting rememberPause) (fun _ _ => True) beforePause s₂ ∧
      (∃ t ∈ s₂.tasks, t.req = .pause (some "user-1") "task-1" ∧ t.result = some (.ok ())) ∧
      step (database demoDriver demoSetting rememberPause) s₂ (.resume 0 .ok) = some s ∧
      ∃ row ∈ s.world.store.tasks, row.id = "task-1" ∧ row.status = .running := by
  have hpause : (run (database demoDriver demoSetting rememberPause) beforePause
      (.spawn (.poll 100) :: List.replicate 3 (.resume 0 .ok) ++
        .spawn (.pause (some "user-1") "task-1") ::
          List.replicate 5 (.resume 1 .ok))).isSome = true := rfl
  have hclaim : (step (database demoDriver demoSetting rememberPause) (get _ hpause)
      (.resume 0 .ok)).isSome = true := rfl
  exact ⟨_, _, Steps.of_run_get hpause, ⟨_, List.mem_of_getElem? (i := 1) rfl, rfl, rfl⟩,
    (some_get hclaim).symm, _, List.mem_singleton_self _, rfl, rfl⟩

end AfterFlow.Scheduler
