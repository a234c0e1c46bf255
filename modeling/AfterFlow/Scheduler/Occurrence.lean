import AfterFlow.Scheduler.Calls
import Mathlib.Algebra.GroupWithZero.Nat

/-!
# The occurrence of a task that runs once

A `once` task is triggered by hand while its instant is still ahead. A trigger that finds an active
run, and one whose launch fails, leave the occurrence to the poller: that is what
`taskStatusForFailure` is for. A trigger whose launch works does not. The launch makes the task
running whoever triggered it, and the completion hook, which does not know the trigger, ends it. The
instant is still stored then, but a task that has ended is never due.

The system of this module is one dispatch by hand, from a current copy of the row, with the
completion hooks of its run. The hooks may overtake what the dispatch still has to write. The
database works throughout; `launch_run` may do what it likes.

## Main results

* `occurrence_kept_iff` — the occurrence is kept just when no launch has worked
* `occurrence_consumed` — a successful run by hand completes the task
-/

namespace AfterFlow.Scheduler

open Coop Coro Logic List Option

/-- How many runs were launched, and whether a completion hook has written a task. -/
structure Progress where
  launches : ℕ
  ended : Bool

def Progress.none : Progress := ⟨0, false⟩

@[grind =] def rememberProgress :
    (op : SchedOp) → Except SchedExn op.Reply → Store → Progress → Progress
  | .launchRun _, .ok _, _, m => { m with launches := m.launches + 1 }
  | .updateTask .completion _ _ _ _, .ok (some _), _, m => { m with ended := true }
  | _, _, _, m => m

/-- A call of the completion hook for a run of the task that has ended. -/
def SchedCall.isHook (task : TaskRow) : SchedCall → Bool
  | .complete record _ => record.scheduledTaskId = some task.id && record.userId = some task.userId &&
      record.scheduledTaskRunId.isSome && (terminalStatus record).isSome
  | _ => false

/-- The call of a task. -/
def callAt {γ : Type} (s : SchedSys γ) (i : ℕ) : Option SchedCall := s.tasks[i]?.map Task.req

/-- Besides the dispatch there are only completion hooks of the task. They run once the run is
launched, and the database works. -/
@[grind =] def HooksAfter (task : TaskRow) (s : SchedSys Progress) : Label SchedCall Empty → Prop
  | .spawn call => call.isHook task = true
  | .resume i out => out = .ok ∧
      ∀ call ∈ callAt s i, call.isHook task = true → 0 < s.world.memory.launches
  | .env _ => True

instance (task : TaskRow) (s : SchedSys Progress) (l : Label SchedCall Empty) :
    Decidable (HooksAfter task s l) := by
  simp only [HooksAfter]
  split <;> infer_instance

/-- The row still has its occurrence at `runAt`: its status is the one of the copy, and if that is
enabled and nobody has a lease, the row is due from `runAt` on. -/
structure HasOccurrence (task : TaskRow) (runAt : Time) (row : TaskRow) : Prop where
  status : row.status = task.status
  next : row.nextRunAt = some runAt
  due : task.status = .enabled → task.leaseExpiresAt = none → ∀ now, runAt ≤ now →
    row.isDue now = true

/-! ### The row -/

/-- What is known of the row of the task while `g` runs were launched. -/
structure Tracks (task : TaskRow) (runAt : Time) (w : World Progress) (g : ℕ) : Prop where
  launches : w.memory.launches = g
  rows : ∀ row ∈ w.store.tasks, row.id = task.id →
    row.userId = task.userId ∧ row.scheduleType = .once
  present : ∃ row ∈ w.store.tasks, row.id = task.id
  kept : g = 0 → ∀ row ∈ w.store.tasks, row.id = task.id → HasOccurrence task runAt row
  ended : w.memory.ended = true → 0 < g ∧
    ∀ row ∈ w.store.tasks, row.id = task.id → row.status.isTerminal = true

variable {cfg : Setting} {task : TaskRow} {runAt : Time} {w : World Progress} {g : ℕ}

theorem Tracks.getTask (h : Tracks task runAt w g) :
    ∃ row, w.store.getTask task.id task.userId = some row := by
  obtain ⟨row, hrow, hid⟩ := h.present
  cases hfind : w.store.tasks.find? fun r => r.id = task.id with
  | none =>
    have hnone := find?_eq_none.1 hfind row hrow
    exact absurd (decide_eq_true hid) hnone
  | some found =>
    have hfound : found.id = task.id := by simpa using find?_some hfind
    refine ⟨found, ?_⟩
    rw [Store.getTask, hfind]
    exact filter_eq_some_iff.2
      ⟨rfl, decide_eq_true (h.rows found (mem_of_find?_eq_some hfind) hfound).1⟩

theorem Tracks.sameTasks (h : Tracks task runAt w g) {store : Store}
    (htasks : store.tasks = w.store.tasks) (uuids : ℕ) :
    Tracks task runAt ⟨store, uuids, w.memory⟩ g := by
  refine ⟨h.launches, ?_, ?_, ?_, ?_⟩
  · show ∀ row ∈ store.tasks, _
    rw [htasks]
    exact h.rows
  · show ∃ row ∈ store.tasks, _
    rw [htasks]
    exact h.present
  · show g = 0 → ∀ row ∈ store.tasks, _
    rw [htasks]
    exact h.kept
  · show _ → 0 < g ∧ ∀ row ∈ store.tasks, _
    rw [htasks]
    exact h.ended

/-- The row of the task is written. -/
theorem Tracks.onTask (h : Tracks task runAt w g) {f : TaskRow → TaskRow} {m : Progress} (uuids : ℕ)
    (hf : ∀ row, (f row).id = row.id ∧ (f row).userId = row.userId ∧
      (f row).scheduleType = row.scheduleType)
    (hlaunches : m.launches = g)
    (hkept : g = 0 → ∀ row, HasOccurrence task runAt row → HasOccurrence task runAt (f row))
    (hended : m.ended = true → 0 < g ∧ ∀ row,
      (w.memory.ended = true → row.status.isTerminal = true) → (f row).status.isTerminal = true) :
    Tracks task runAt ⟨w.store.onTask task.id f, uuids, m⟩ g := by
  have hback : ∀ row ∈ (w.store.onTask task.id f).tasks, row.id = task.id →
      ∃ r ∈ w.store.tasks, r.id = task.id ∧ row = f r := by
    intro row hrow hid
    obtain ⟨r, hr, rfl⟩ := Store.mem_onTask.1 hrow
    by_cases hrid : r.id = task.id
    · exact ⟨r, hr, hrid, if_pos hrid⟩
    · rw [if_neg hrid] at hid
      exact absurd hid hrid
  refine ⟨hlaunches, fun row hrow hid => ?_, ?_, fun hg row hrow hid => ?_, fun hm => ?_⟩
  · obtain ⟨r, hr, hrid, rfl⟩ := hback row hrow hid
    rw [(hf r).2.1, (hf r).2.2]
    exact h.rows r hr hrid
  · obtain ⟨r, hr, hrid⟩ := h.present
    exact ⟨_, Store.mem_onTask.2 ⟨r, hr, rfl⟩, by rw [if_pos hrid, (hf r).1, hrid]⟩
  · obtain ⟨r, hr, hrid, rfl⟩ := hback row hrow hid
    exact hkept hg r (h.kept hg r hr hrid)
  · obtain ⟨hpos, hterminal⟩ := hended hm
    refine ⟨hpos, fun row hrow hid => ?_⟩
    obtain ⟨r, hr, hrid, rfl⟩ := hback row hrow hid
    exact hterminal r fun hold => (h.ended hold).2 r hr hrid

theorem Tracks.writeLaunch (h : Tracks task runAt w g) (hg : 0 < g) {u : LaunchUpdate}
    (hprotect : u.protectTerminal = true) (uuids : ℕ) :
    Tracks task runAt ⟨w.store.updateAfterLaunch task.id u, uuids, w.memory⟩ g := by
  refine h.onTask uuids (fun row => ?_) h.launches (fun hzero => absurd hzero (Nat.ne_of_gt hg))
    fun hended => ⟨hg, fun row hrow => ?_⟩
  · rw [TaskRow.updateAfterLaunch]
    split <;> exact ⟨rfl, rfl, rfl⟩
  · rw [TaskRow.updateAfterLaunch_status, if_pos ⟨hprotect, hrow hended⟩]
    exact hrow hended

theorem Tracks.writeFailure (h : Tracks task runAt w 0) {u : LaunchUpdate}
    (hprotect : u.protectTerminal = false) (hstatus : u.status = task.status)
    (hnext : u.nextRunAt = some runAt) (uuids : ℕ) :
    Tracks task runAt ⟨w.store.updateAfterLaunch task.id u, uuids, w.memory⟩ 0 := by
  refine h.onTask uuids (fun row => ?_) h.launches (fun _ row _ => ?_)
    fun hended => absurd (h.ended hended).1 (Nat.lt_irrefl 0)
  · rw [TaskRow.updateAfterLaunch]
    split <;> exact ⟨rfl, rfl, rfl⟩
  · have hnew : (row.updateAfterLaunch u).status = task.status := by
      rw [TaskRow.updateAfterLaunch_status, hprotect, if_neg fun hp => Bool.noConfusion hp.1, hstatus]
    have hat : (row.updateAfterLaunch u).nextRunAt = some runAt := by
      rw [TaskRow.updateAfterLaunch]
      split <;> exact hnext
    have hlease : (row.updateAfterLaunch u).leaseExpiresAt = none := by
      rw [TaskRow.updateAfterLaunch]
    refine ⟨hnew, hat, fun henabled _ now hnow => ?_⟩
    simp [TaskRow.isDue, hnew, hat, hlease, henabled, hnow]

theorem Tracks.writeEnd (h : Tracks task runAt w g) (hg : 0 < g) {u : TaskUpdates}
    {status : TaskStatus} (hstatus : u.status = some status) (hterminal : status.isTerminal = true)
    (uuids : ℕ) :
    Tracks task runAt ⟨w.store.onTask task.id (TaskRow.update u), uuids,
      { w.memory with ended := true }⟩ g := by
  refine h.onTask uuids (fun row => ⟨rfl, rfl, rfl⟩) h.launches
    (fun hzero => absurd hzero (Nat.ne_of_gt hg)) fun _ => ⟨hg, fun row _ => ?_⟩
  rw [TaskRow.update_status, hstatus]
  exact hterminal

/-! ### The calls -/

/-- The dispatch owns what it has launched. -/
def occurring (task : TaskRow) (runAt : Time) :
    Logic (World Progress) SchedOp SchedOp.Reply SchedExn Unit SchedCall ℕ where
  inv := Tracks task runAt
  rel _ w w' := w.memory.ended = true → w'.memory.ended = true
  link call _ _ g := call.isHook task = true → g = 0
  allowed call _ _ out w frame := out = .ok ∧ (call.isHook task = true → 0 < w.memory.launches) ∧
    (call.isHook task = false → frame = 0)
  done call _ trace := call.isHook task = true → ∃ e ∈ trace, e.after.memory.ended = true
  rel_refl _ _ h := h
  rel_trans h₁ h₂ h := h₂ (h₁ h)
  rel_weaken h := h

/-- Where a call is inside a segment, with `g` launches of its own. -/
structure Inside (task : TaskRow) (runAt : Time) (call : SchedCall) (g : ℕ)
    (c : Ctx (World Progress) SchedOp SchedOp.Reply SchedExn ℕ) : Prop where
  inv : Tracks task runAt c.now (g + c.frame)
  rel : c.start.memory.ended = true → c.now.memory.ended = true
  own : call.isHook task = true → g = 0

variable {α β : Type} {call : SchedCall} {c : Ctx (World Progress) SchedOp SchedOp.Reply SchedExn ℕ}

/-- Safe in `occurring`. -/
abbrev Tracking (cfg : Setting) (task : TaskRow) (runAt : Time) (call : SchedCall)
    (p : SchedProc Progress β)
    (Q : Except SchedExn β → Ctx (World Progress) SchedOp SchedOp.Reply SchedExn ℕ → Prop)
    (c : Ctx (World Progress) SchedOp SchedOp.Reply SchedExn ℕ) : Prop :=
  (occurring task runAt).Safe (schedBackend cfg rememberProgress) call p Q c

theorem Inside.yield (h : Inside task runAt call g c) (op : Option SchedOp) :
    (occurring task runAt).Yield call c op g :=
  ⟨h.inv, h.rel, h.own⟩

theorem Inside.final (h : Inside task runAt call g c) (hcall : call.isHook task = false)
    (res : Except SchedExn Unit) : (occurring task runAt).Final call res c := by
  refine ⟨⟨g, h.yield _⟩, fun hhook => ?_⟩
  rw [hcall] at hhook
  cases hhook

theorem Inside.draw (h : Inside task runAt call g c) (uuids : ℕ) :
    Inside task runAt call g { c with now := { c.now with uuids := uuids } } :=
  ⟨h.inv.sameTasks rfl uuids, h.rel, h.own⟩

theorem tracks_schedAwait {op : SchedOp} (h : Inside task runAt call g c)
    {Q : Except SchedExn op.Reply → Ctx (World Progress) SchedOp SchedOp.Reply SchedExn ℕ → Prop}
    (hQ : ∀ w frame trace, Tracks task runAt w (g + frame) →
      (call.isHook task = true → 0 < w.memory.launches) → (call.isHook task = false → frame = 0) →
      ∀ answer, Q (perform cfg op w.store).1 ⟨trace, answer, w, frame,
        ⟨(perform cfg op w.store).2, w.uuids,
          rememberProgress op (perform cfg op w.store).1 w.store w.memory⟩⟩) :
    Tracking cfg task runAt call (schedAwait op) Q c := by
  refine Safe.call g (h.yield _) fun w frame out _ hw hallowed => ?_
  obtain ⟨rfl, hhook, hframe⟩ := hallowed
  exact hQ w frame _ hw hhook hframe _

theorem tracks_quiet {op : SchedOp} (h : Inside task runAt call g c)
    (htasks : ∀ s, (perform cfg op s).2.tasks = s.tasks)
    (hmemory : ∀ r s m, rememberProgress op r s m = m)
    {Q : Except SchedExn op.Reply → Ctx (World Progress) SchedOp SchedOp.Reply SchedExn ℕ → Prop}
    (hQ : ∀ w c, Inside task runAt call g c → Q (perform cfg op w).1 c) :
    Tracking cfg task runAt call (schedAwait op) Q c := by
  refine tracks_schedAwait h fun w frame trace hw _ _ answer => hQ w.store _ ?_
  rw [hmemory]
  exact ⟨hw.sameTasks (htasks _) _, fun hended => hended, h.own⟩

variable {now : Time} {threadId : String} {taskRunId : ℕ}

theorem tracks_uuid4 (h : Inside task runAt call g c)
    {Q : Except SchedExn ℕ → Ctx (World Progress) SchedOp SchedOp.Reply SchedExn ℕ → Prop}
    (hQ : ∀ n c, Inside task runAt call g c → Q (.ok n) c) :
    Tracking cfg task runAt call uuid4 Q c :=
  hQ _ _ (h.draw _)

theorem tracks_executionThreadId (h : Inside task runAt call g c)
    {Q : Except SchedExn String → Ctx (World Progress) SchedOp SchedOp.Reply SchedExn ℕ → Prop}
    (hQ : ∀ id c, Inside task runAt call g c → Q (.ok id) c) :
    Tracking cfg task runAt call (executionThreadId task) Q c := by
  rw [executionThreadId]
  split
  · rw [Tracking, Coro.bind_def, Safe.bind_iff]
    exact tracks_uuid4 h fun n c hc => hQ _ _ hc
  · exact hQ _ _ h

theorem tracks_overlaps (h : Inside task runAt call g c)
    {Q : Except SchedExn Bool → Ctx (World Progress) SchedOp SchedOp.Reply SchedExn ℕ → Prop}
    (hQ : ∀ b c, Inside task runAt call g c → Q (.ok b) c) :
    Tracking cfg task runAt call (overlaps task) Q c := by
  rw [overlaps]
  split
  · exact tracks_quiet h (fun _ => rfl) (fun _ _ _ => rfl) fun w c hc => hQ _ _ hc
  · exact hQ _ _ h

theorem perform_createRun_tasks (row : RunRow) (skips : Bool) (s : Store) :
    (perform cfg (.createRun row skips) s).2.tasks = s.tasks := by
  rw [perform]
  split <;> rfl

theorem tracks_launchFailed (hcall : call.isHook task = false)
    (hnext : task.next cfg.cal now = .ok (some runAt)) {exc : SchedExn}
    (h : Inside task runAt call 0 c)
    {Q : Except SchedExn DispatchResult →
      Ctx (World Progress) SchedOp SchedOp.Reply SchedExn ℕ → Prop}
    (hQ : ∀ res c, Inside task runAt call 0 c → Q res c) :
    Tracking cfg task runAt call (launchFailed cfg task taskRunId threadId now .manual exc) Q c := by
  rw [launchFailed, hnext, Tracking, Coro.bind_def, Safe.bind_iff, safe_ofExcept, then_ok]
  rw [if_neg fun hskip => by cases hskip.2.1]
  rw [Coro.bind_def, Safe.bind_iff]
  refine tracks_quiet h (fun _ => rfl) (fun _ _ _ => rfl) fun w c hc => ?_
  show (occurring task runAt).Safe _ _ _ _ _
  rw [Coro.bind_def, Safe.bind_iff]
  refine tracks_schedAwait hc fun w frame trace hw _ hframe answer => hQ _ _ ?_
  obtain rfl := hframe hcall
  have hstatus : taskStatusForFailure task .manual = task.status := if_pos rfl
  exact ⟨hw.writeFailure rfl hstatus rfl _, fun hended => hended, fun _ => rfl⟩

/-- A launch that works is counted, and nothing fails after it. -/
theorem tracks_launchTask (hcall : call.isHook task = false)
    (hnext : task.next cfg.cal now = .ok (some runAt)) (h : Inside task runAt call 0 c)
    {Q : Except SchedExn DispatchResult →
      Ctx (World Progress) SchedOp SchedOp.Reply SchedExn ℕ → Prop}
    (hok : ∀ res c, Inside task runAt call 1 c → Q (.ok res) c)
    (herror : ∀ e c, Inside task runAt call 0 c → Q (.error e) c) :
    Tracking cfg task runAt call (launchTask cfg task taskRunId threadId now .manual) Q c := by
  rw [launchTask, Tracking, Coro.bind_def, Safe.bind_iff]
  refine tracks_schedAwait h fun w frame trace hw _ hframe answer => ?_
  obtain rfl := hframe hcall
  have hlaunch : (perform cfg (.launchRun
      { threadId := threadId, assistantId := task.assistantId, prompt := task.prompt
        ownerUserId := task.userId, taskId := task.id, taskRunId := taskRunId
        trigger := .manual }) w.store).1 = cfg.launch _ := rfl
  rw [hlaunch]
  cases cfg.launch _ with
  | error e => exact herror _ _ ⟨hw.sameTasks rfl _, fun hended => hended, fun _ => rfl⟩
  | ok result =>
    have hcounted : Tracks task runAt ⟨w.store, w.uuids,
        { w.memory with launches := w.memory.launches + 1 }⟩ (1 + 0) :=
      ⟨by rw [hw.launches], hw.rows, hw.present, fun hzero => (by cases hzero),
        fun hended => absurd (hw.ended hended).1 (Nat.lt_irrefl 0)⟩
    rw [then_ok, hnext, Coro.bind_def, Safe.bind_iff, safe_ofExcept, then_ok, Coro.bind_def,
      Safe.bind_iff]
    refine tracks_quiet ⟨hcounted, fun hended => hended, fun hhook => ?_⟩ (fun _ => rfl)
      (fun _ _ _ => rfl) fun w c hc => ?_
    · rw [hcall] at hhook
      cases hhook
    · show (occurring task runAt).Safe _ _ _ _ _
      rw [Coro.bind_def, Safe.bind_iff]
      refine tracks_schedAwait hc fun w frame trace hw _ hframe answer => hok _ _ ?_
      obtain rfl := hframe hcall
      exact ⟨hw.writeLaunch Nat.one_pos rfl _, fun hended => hended, hc.own⟩

/-- **The dispatch.** -/
theorem tracks_dispatchTask (hcall : call.isHook task = false)
    (hnext : task.next cfg.cal now = .ok (some runAt)) (h : Inside task runAt call 0 c)
    {Q : Except SchedExn DispatchResult →
      Ctx (World Progress) SchedOp SchedOp.Reply SchedExn ℕ → Prop}
    (hQ : ∀ res g c, Inside task runAt call g c → Q res c) :
    Tracking cfg task runAt call (dispatchTask cfg task now .manual) Q c := by
  rw [dispatchTask, Tracking, Coro.bind_def, Safe.bind_iff]
  refine tracks_executionThreadId h fun threadId c hc => ?_
  rw [then_ok, Coro.bind_def, Safe.bind_iff]
  refine tracks_overlaps hc fun skips c hc => ?_
  rw [then_ok]
  split
  · exact hQ _ _ _ hc
  · rename_i hconflict
    rw [Coro.bind_def, Safe.bind_iff]
    refine tracks_uuid4 hc fun taskRunId c hc => ?_
    rw [then_ok, Coro.bind_def, Safe.bind_iff]
    refine tracks_quiet hc (perform_createRun_tasks _ _) (fun _ _ _ => ?_) fun w c hc => ?_
    · cases skips <;> rfl
    · cases (perform cfg _ w).1 with
      | error e => exact hQ _ _ _ hc
      | ok _ =>
        rw [then_ok, if_neg fun hskips => hconflict ⟨hskips, rfl⟩, Safe.tryCatch_iff]
        exact tracks_launchTask hcall hnext hc (fun res c hc => hQ _ _ _ hc) fun e c hc =>
          tracks_launchFailed hcall hnext hc fun res c hc => hQ _ _ _ hc

/-- **The hook.** It finds the row and ends it. -/
theorem tracks_handleRunCompletion {record : RunRecord} {later : Time}
    (hcall : (SchedCall.complete record later).isHook task = true) (huser : task.userId ≠ "")
    (h : Inside task runAt (.complete record later) 0 c) :
    Tracking cfg task runAt (.complete record later) (handleRunCompletion record later)
      ((occurring task runAt).Final (.complete record later)) c := by
  have hrecord := hcall
  simp only [SchedCall.isHook, Bool.and_eq_true, decide_eq_true_eq, isSome_iff_exists]
    at hrecord
  obtain ⟨⟨⟨htask, hrecordUser⟩, taskRunId, hrun⟩, ⟨status, error⟩, hstatus⟩ := hrecord
  have hfilter : record.userId.filter (fun userId => userId ≠ "") = some task.userId := by
    rw [hrecordUser]
    exact filter_eq_some_iff.2 ⟨rfl, decide_eq_true huser⟩
  rw [handleRunCompletion, htask, hrun, hfilter]
  dsimp only
  rw [hstatus]
  dsimp only
  rw [completeRun, Tracking, Coro.bind_def, Safe.bind_iff]
  refine tracks_quiet h (fun _ => rfl) (fun _ _ _ => rfl) fun w c hc => ?_
  show (occurring task runAt).Safe _ _ _ _ _
  rw [Coro.bind_def, Safe.bind_iff]
  refine tracks_schedAwait hc fun w frame trace hw _ _ answer => ?_
  obtain ⟨row, hrow⟩ := hw.getTask
  obtain ⟨hmem, hid⟩ := Store.getTask_eq_some hrow
  have hget : (perform cfg (.getTask task.id task.userId) w.store).1 = .ok (some row) :=
    congrArg Except.ok hrow
  rw [hget, then_ok]
  dsimp only
  rw [if_pos (hw.rows row hmem hid).2, Coro.bind_def, Safe.bind_iff]
  have hread : Inside task runAt (.complete record later) 0 ⟨trace, answer, w, frame, w⟩ :=
    ⟨hw, fun hended => hended, fun _ => rfl⟩
  refine tracks_schedAwait hread fun w frame trace hw hpos _ answer => ?_
  obtain ⟨row, hrow⟩ := hw.getTask
  have hpos' : 0 < 0 + frame := hw.launches ▸ hpos hcall
  have hupdate : ∀ u, w.store.updateTask task.id task.userId u =
      (some (row.update u), w.store.onTask task.id (TaskRow.update u)) := fun u => by
    rw [Store.updateTask, hrow]
  have hended := hw.writeEnd hpos' (u := { TaskUpdates.empty with
    lastError := some error, status := some (onceStatus status) }) rfl (onceStatus_isTerminal status)
    w.uuids
  simp only [perform, hupdate, rememberProgress]
  exact ⟨⟨0, hended, fun _ => rfl, fun _ => rfl⟩, fun _ =>
    ⟨_, mem_append_right _ (mem_singleton_self _), rfl⟩⟩

/-! ### Runs -/

/-- The system in which only the dispatch has begun. -/
def dispatching (cfg : Setting) (task : TaskRow) (now : Time) (w : World Progress) :
    SchedSys Progress :=
  ⟨w, [Coop.Task.spawn (scheduler cfg rememberProgress) (.dispatch task now .manual)]⟩

/-- The first task is the dispatch, and the others are hooks. -/
def OneDispatch (task : TaskRow) (now : Time) (s : SchedSys Progress) : Prop :=
  ∃ t hooks, s.tasks = t :: hooks ∧ t.req = .dispatch task now .manual ∧
    ∀ t' ∈ hooks, t'.req.isHook task = true

theorem oneDispatch {s : SchedSys Progress}
    (h : Steps (scheduler cfg rememberProgress) (HooksAfter task) (dispatching cfg task now w) s) :
    OneDispatch task now s := by
  induction h with
  | refl => exact ⟨_, [], rfl, rfl, fun t ht => absurd ht not_mem_nil⟩
  | @tail s₁ s₂ l _ hC hstep ih =>
    obtain ⟨t, hooks, htasks, hreq, hhooks⟩ := ih
    cases l with
    | env e => exact e.elim
    | spawn call =>
      refine ⟨t, hooks ++ [Coop.Task.spawn _ call], by rw [(step_spawn hstep).2, htasks]; rfl, hreq, ?_⟩
      intro t' ht'
      rcases mem_append.1 ht' with ht' | ht'
      · exact hhooks t' ht'
      · rw [mem_singleton.1 ht']
        exact hC
    | resume i out =>
      obtain ⟨t₀, answer, w', p, ht₀, -, -, hnew⟩ := step_resume hstep
      rw [htasks] at ht₀ hnew
      cases i with
      | zero =>
        obtain rfl : t = t₀ := some.inj ht₀
        exact ⟨_, hooks, hnew, hreq, hhooks⟩
      | succ i =>
        refine ⟨t, _, hnew, hreq, fun t' ht' => ?_⟩
        rcases mem_or_eq_of_mem_set ht' with ht' | rfl
        · exact hhooks t' ht'
        · exact hhooks t₀ (mem_of_getElem? ht₀)

theorem occurring_dispatch (hnext : task.next cfg.cal now = .ok (some runAt)) :
    SafeHandler (occurring task runAt) (schedBackend cfg rememberProgress)
      (.dispatch task now .manual) (handler cfg (.dispatch task now .manual)) := by
  refine ⟨fun _ => rfl, fun w frame hw => ?_⟩
  rw [handler, Coro.bind_def, Safe.bind_iff]
  have h : Inside task runAt (.dispatch task now .manual) 0 ⟨[], none, w, frame, w⟩ :=
    ⟨hw, fun hended => hended, fun _ => rfl⟩
  refine tracks_dispatchTask rfl hnext h fun res g c hc => ?_
  cases res with
  | error | ok => exact hc.final rfl _

theorem occurring_hook (huser : task.userId ≠ "") {call : SchedCall}
    (hcall : call.isHook task = true) :
    SafeHandler (occurring task runAt) (schedBackend cfg rememberProgress) call
      (handler cfg call) := by
  refine ⟨fun _ => rfl, fun w frame hw => ?_⟩
  cases call with
  | complete record later =>
    exact tracks_handleRunCompletion hcall huser ⟨hw, fun hended => hended, fun _ => rfl⟩
  | _ => cases hcall

theorem sum_hooks
    {ts : List (Coop.Task (World Progress) SchedOp SchedOp.Reply SchedExn Unit SchedCall)}
    {gs : List ℕ} (h : List.Forall₂
      (fun t g => (occurring task runAt).link t.req t.trace t.pending g) ts gs)
    (hhooks : ∀ t ∈ ts, t.req.isHook task = true) : gs.sum = 0 := by
  induction h with
  | nil => rfl
  | @cons t g ts gs hlink _ ih =>
    rw [sum_cons, hlink (hhooks t mem_cons_self), zero_add]
    exact ih fun t' ht' => hhooks t' (mem_cons_of_mem _ ht')

theorem occurring_admits (now : Time) (huser : task.userId ≠ "") :
    Admits (occurring task runAt) (scheduler cfg rememberProgress)
      (fun s l => HooksAfter task s l ∧ OneDispatch task now s) where
  spawn _ call hC := occurring_hook huser hC.1
  env _ e := e.elim
  resume s out l₁ t l₂ gs₁ gs₂ hC htasks hl₁ hl₂ := by
    obtain ⟨⟨rfl, hpos⟩, first, hooks, hfirst, hreq, hhooks⟩ := hC
    refine ⟨rfl, hpos t.req ?_, fun hdispatch => ?_⟩
    · rw [callAt, htasks, getElem?_append_right (Nat.le_refl _), Nat.sub_self]
      rfl
    · rw [hfirst] at htasks
      cases l₁ with
      | cons t' l₁ =>
        obtain ⟨-, rfl⟩ := List.cons.inj htasks
        rw [hhooks t (by simp)] at hdispatch
        cases hdispatch
      | nil =>
        obtain ⟨-, rfl⟩ := List.cons.inj htasks
        cases hl₁
        rw [sum_nil, zero_add]
        exact sum_hooks hl₂ hhooks

/-- **The occurrence is kept just when nothing was launched.** A `once` task whose instant is ahead
is dispatched by hand; whatever comes of it, once the dispatch and the completion hook of the run,
if there is a run, have ended, the row of the task still has its status and its instant, and is due
then if it was, if and only if no launch has worked. -/
theorem occurrence_kept_iff (cfg : Setting) (w : World Progress) (task : TaskRow) (now runAt : Time)
    (hmemory : w.memory = .none) (hmem : task ∈ w.store.tasks)
    (hcopy : ∀ row ∈ w.store.tasks, row.id = task.id → row = task) (huser : task.userId ≠ "")
    (honce : task.scheduleType = .once) (hstatus : task.status = .enabled ∨ task.status = .paused)
    (hrunAt : task.nextRunAt = some runAt) (hnext : task.next cfg.cal now = .ok (some runAt))
    (s : SchedSys Progress)
    (h : Steps (scheduler cfg rememberProgress) (HooksAfter task) (dispatching cfg task now w) s)
    (hdone : ∀ t ∈ s.tasks, t.result.isSome = true)
    (hhook : 0 < s.world.memory.launches → ∃ t ∈ s.tasks, t.req.isHook task = true) :
    (∀ row ∈ s.world.store.tasks, row.id = task.id → HasOccurrence task runAt row) ↔
      s.world.memory.launches = 0 := by
  have hhas : HasOccurrence task runAt task := by
    refine ⟨rfl, hrunAt, fun henabled hlease now hnow => ?_⟩
    simp [TaskRow.isDue, hrunAt, henabled, hlease, hnow]
  have hstart : Tracks task runAt w 0 := by
    refine ⟨by rw [hmemory]; rfl, fun row hrow hid => ?_, ⟨task, hmem, rfl⟩,
      fun _ row hrow hid => ?_, fun hended => ?_⟩
    · rw [hcopy row hrow hid]
      exact ⟨rfl, honce⟩
    · rw [hcopy row hrow hid]
      exact hhas
    · rw [hmemory] at hended
      cases hended
  have hgood : Good (occurring task runAt) (scheduler cfg rememberProgress).toBackend
      (dispatching cfg task now w) :=
    ⟨[0], .cons ((occurring_dispatch hnext).live w) .nil, hstart⟩
  have hrun := Steps.with_fact (fun s' h' => oneDispatch h') h
  obtain ⟨hsound, -⟩ := sound (occurring_admits now huser) hgood hrun
  have hpast := sound_past (occurring_admits now huser) hgood (fun t ht e he => ?_) hrun
  · obtain ⟨gs, -, hinv⟩ := id hsound
    have htracks : Tracks task runAt s.world gs.sum := hinv
    refine ⟨fun hkept => ?_, fun hzero => htracks.kept (htracks.launches.symm.trans hzero)⟩
    by_contra hpos
    obtain ⟨t, ht, hhook⟩ := hhook (Nat.pos_of_ne_zero hpos)
    obtain ⟨res, hres⟩ := isSome_iff_exists.1 (hdone t ht)
    obtain ⟨e, he, hended⟩ := hsound.done ht hres hhook
    obtain ⟨-, hterminal⟩ := htracks.ended ((hpast t ht e he).2 hended)
    obtain ⟨row, hrow, hid⟩ := htracks.present
    have hrowStatus := hterminal row hrow hid
    rw [(hkept row hrow hid).status] at hrowStatus
    obtain henabled | hpaused := hstatus
    · rw [henabled] at hrowStatus
      cases hrowStatus
    · rw [hpaused] at hrowStatus
      cases hrowStatus
  · rw [mem_singleton.1 ht] at he
    exact absurd he not_mem_nil

def beforeDispatch : World Progress := ⟨⟨[onceTask], []⟩, 0, .none⟩

/-- Every launch is refused. -/
def refusing : Setting := { demoSetting with launch := fun _ => .error (.conflict "busy") }

/-- The launch is refused, and the task is due at 10 as before. -/
theorem occurrence_kept_demo : ∃ s : SchedSys Progress, s.world.memory.launches = 0 ∧
    s.world.store.runs.map RunRow.status = [.failed] ∧
    ∀ row ∈ s.world.store.tasks, row.id = onceTask.id → HasOccurrence onceTask 10 row := by
  have hrun : (runWith (scheduler refusing rememberProgress) (HooksAfter onceTask)
      (dispatching refusing onceTask 5 beforeDispatch)
      [.resume 0 .ok, .resume 0 .ok, .resume 0 .ok, .resume 0 .ok, .resume 0 .ok,
        .resume 0 .ok]).isSome = true := rfl
  have hdone : (get _ hrun).tasks.all (fun t => t.result.isSome) = true := rfl
  refine ⟨_, rfl, rfl, (occurrence_kept_iff refusing beforeDispatch onceTask 5 10 rfl
    (mem_singleton_self _) (fun row hrow _ => mem_singleton.1 hrow) (by decide) rfl
    (.inl rfl) rfl rfl _ (Steps.of_runWith_get hrun) (all_eq_true.1 hdone) fun hpos => ?_).2 rfl⟩
  exact absurd hpos (Nat.lt_irrefl 0)

/-- The task is triggered by hand at 5 and the run succeeds. The task is completed and never runs at
10. -/
theorem occurrence_consumed : ∃ s : SchedSys Progress,
    Steps (scheduler demoSetting rememberProgress) (HooksAfter onceTask)
      (dispatching demoSetting onceTask 5 beforeDispatch) s ∧
      (∀ t ∈ s.tasks, t.result.isSome = true) ∧ onceTask.status = .enabled ∧
      onceTask.next demoSetting.cal 5 = .ok (some 10) ∧
      ∃ row ∈ s.world.store.tasks, row.id = onceTask.id ∧ row.status = .completed ∧
        row.isDue 10 = false := by
  have hrun : (runWith (scheduler demoSetting rememberProgress) (HooksAfter onceTask)
      (dispatching demoSetting onceTask 5 beforeDispatch)
      [.resume 0 .ok, .resume 0 .ok, .resume 0 .ok, .resume 0 .ok, .resume 0 .ok, .resume 0 .ok,
        .spawn (.complete (demoRecord .success) 6), .resume 1 .ok, .resume 1 .ok, .resume 1 .ok,
        .resume 1 .ok]).isSome = true := rfl
  have hdone : (get _ hrun).tasks.all (fun t => t.result.isSome) = true := rfl
  exact ⟨_, Steps.of_runWith_get hrun, all_eq_true.1 hdone, rfl, rfl, _,
    mem_singleton_self _, rfl, rfl, rfl⟩

end AfterFlow.Scheduler
