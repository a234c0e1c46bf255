import AfterFlow.Scheduler.Repositories
import Mathlib.Algebra.Order.PUnit

/-!
# Two runs of a task at once

With the overlap policy `skip`, `dispatch_task` asks whether a run of the task is active before it
creates its own. The question and the creation are two calls of the database, and other dispatches
may come in between: two triggers, or a trigger and the poller, may both find no active run, and
both launch one. And the status of a run is read and committed in two steps: a launch that has read
its row before the completion hook ends it makes it active again, when the next run of the task may
have been launched.

If no active run is in the way when a row is created to be launched, or made active again, no task
ever has two active runs that were launched. Rows that a dispatch creates only to mark them as
skipped do not count; nothing is ever launched for them.

## Main results

* `never_runs_twice` — a task never has two active runs that were launched
* `runs_twice` — two triggers launch two runs
-/

namespace AfterFlow.Scheduler

open Coop Coro Logic List

/-- What was done about the runs: the rows that were created only to be skipped, those that were
created to be launched, and those whose launch worked. -/
structure Launches where
  skipped : List ℕ
  created : List ℕ
  launched : List ℕ

def Launches.none : Launches := ⟨[], [], []⟩

def rememberLaunch : (op : DbOp) → Except SchedExn op.Reply → Store → Launches → Launches
  | .createRun row true, .ok _, _, m => { m with skipped := row.id :: m.skipped }
  | .createRun row false, .ok _, _, m => { m with created := row.id :: m.created }
  | .launchRun args, .ok _, _, m => { m with launched := args.taskRunId :: m.launched }
  | _, _, _, m => m

/-- The active runs of the task are only there to be skipped. -/
def Vacant (w : World Launches) (taskId : String) : Prop :=
  ∀ r ∈ w.store.runs, r.taskId = taskId → r.status.isActive = true → r.id ∈ w.memory.skipped

/-- Nothing is in the way of a row that is created to be launched, nor of one that has ended since
it was read and is made active again. -/
def Alone (w : World Launches) : DbOp → Prop
  | .createRun row false => Vacant w row.taskId
  | .commitRun _ loaded u => u.status.isActive = true →
      ¬(u.protectTerminal = true ∧ loaded.status.isTerminal = true) →
      ∀ r ∈ w.store.runs, r.id = loaded.id → r.status.isActive = false → Vacant w r.taskId
  | _ => True

/-- No dispatch is overtaken between its look at the active runs and its row, nor between its look
at its row and the write. -/
def NotOvertaken (s : DbSys Launches) : Label SchedCall Empty → Prop
  | .resume i out => out = .ok → ∀ op ∈ dbPendingAt s i, Alone s.world op
  | _ => True

instance (w : World Launches) (taskId : String) : Decidable (Vacant w taskId) := by
  unfold Vacant
  infer_instance

instance (w : World Launches) (op : DbOp) : Decidable (Alone w op) := by
  simp only [Alone]
  split <;> infer_instance

instance (s : DbSys Launches) (l : Label SchedCall Empty) : Decidable (NotOvertaken s l) :=
  match l with
  | .resume i out =>
    inferInstanceAs (Decidable (out = .ok → ∀ op ∈ dbPendingAt s i, Alone s.world op))
  | .spawn _ | .env _ => .isTrue trivial

/-! ### One active run -/

/-- At most one run of a task is active, but for those that are there to be skipped. -/
structure OneActive (w : World Launches) : Prop where
  /-- The runs that were created have rows. -/
  rows : ∀ id, id ∈ w.memory.skipped ∨ id ∈ w.memory.created → ∃ row ∈ w.store.runs, row.id = id
  disjoint : ∀ id ∈ w.memory.created, id ∉ w.memory.skipped
  launched : ∀ id ∈ w.memory.launched, id ∈ w.memory.created
  active : ∀ r₁ ∈ w.store.runs, ∀ r₂ ∈ w.store.runs, r₁.taskId = r₂.taskId →
    r₁.status.isActive = true → r₂.status.isActive = true → r₁.id ∉ w.memory.skipped →
    r₂.id ∉ w.memory.skipped → r₁.id = r₂.id
  scheduled : ∀ row ∈ w.store.runs, row.trigger = .manual → row.id ∉ w.memory.skipped

/-- Operations that create no run, launch none and do not bring one back to life. -/
def Settles : SchedOp → Prop
  | .createRun _ _ => False
  | .launchRun _ => False
  | .updateStatus _ _ u => u.status.isActive = false ∨ u.protectTerminal = true
  | _ => True

variable {drv : Driver} {cfg : Setting} {w : World Launches}

theorem OneActive.sameRuns (h : OneActive w) {store : Store} (hruns : store.runs = w.store.runs)
    (uuids : ℕ) : OneActive ⟨store, uuids, w.memory⟩ where
  rows id hid := by
    rw [hruns]
    exact h.rows id hid
  disjoint := h.disjoint
  launched := h.launched
  active := by
    rw [hruns]
    exact h.active
  scheduled := by
    rw [hruns]
    exact h.scheduled

/-- A row that is active after a commit was so before, or it is the one that was committed, and
nothing is in its way. -/
theorem Alone.active {caller : Caller} {loaded r : RunRow} {u : StatusUpdate}
    (h : Alone w (.commitRun caller loaded u)) (hr : r ∈ w.store.runs) (hid : r.id = loaded.id)
    (hactive : (loaded.commit drv u r).status.isActive = true) :
    r.status.isActive = true ∨ Vacant w r.taskId := by
  by_cases hold : r.status.isActive = true
  · exact .inl hold
  · rw [RunRow.commit_status] at hactive
    split at hactive
    · exact absurd hactive hold
    · rename_i hnot
      exact .inr (h hactive (fun hp => hnot (.inl hp)) r hr hid (Bool.eq_false_iff.2 hold))

/-- **The commit of a status.** -/
theorem OneActive.commitRun (h : OneActive w) {caller : Caller} {loaded : RunRow}
    {u : StatusUpdate} (halone : Alone w (.commitRun caller loaded u)) (uuids : ℕ) :
    OneActive ⟨w.store.onRun loaded.id (loaded.commit drv u), uuids, w.memory⟩ := by
  have hcommit : ∀ row ∈ (w.store.onRun loaded.id (loaded.commit drv u)).runs,
      ∃ r ∈ w.store.runs, r.id = row.id ∧ r.taskId = row.taskId ∧ r.trigger = row.trigger ∧
        (row.status.isActive = true →
          r.status.isActive = true ∨ row.id = loaded.id ∧ Vacant w row.taskId) := by
    intro row hrow
    obtain ⟨r, hr, rfl⟩ := Store.mem_onRun.1 hrow
    by_cases hid : r.id = loaded.id
    · rw [if_pos hid]
      refine ⟨r, hr, (RunRow.commit_id u).symm, (RunRow.commit_taskId u).symm,
        (RunRow.commit_trigger u).symm, fun hactive => ?_⟩
      rw [RunRow.commit_id, RunRow.commit_taskId]
      exact (halone.active hr hid hactive).imp_right fun hvacant => ⟨hid, hvacant⟩
    · rw [if_neg hid]
      exact ⟨r, hr, rfl, rfl, rfl, .inl⟩
  refine ⟨fun id hid => ?_, h.disjoint, h.launched,
    fun r₁ h₁ r₂ h₂ htask hactive₁ hactive₂ hnot₁ hnot₂ => ?_, fun row hrow hmanual => ?_⟩
  · obtain ⟨r, hr, rfl⟩ := h.rows id hid
    refine ⟨_, Store.mem_onRun.2 ⟨r, hr, rfl⟩, ?_⟩
    split
    · exact RunRow.commit_id u
    · rfl
  · obtain ⟨s₁, hs₁, hid₁, htask₁, -, hlive₁⟩ := hcommit r₁ h₁
    obtain ⟨s₂, hs₂, hid₂, htask₂, -, hlive₂⟩ := hcommit r₂ h₂
    -- one that was made active again meets no other that was active
    obtain hold₁ | ⟨hloaded₁, hvacant⟩ := hlive₁ hactive₁
    · obtain hold₂ | ⟨-, hvacant⟩ := hlive₂ hactive₂
      · rw [← hid₁] at hnot₁ ⊢
        rw [← hid₂] at hnot₂ ⊢
        exact h.active s₁ hs₁ s₂ hs₂ (htask₁.trans (htask.trans htask₂.symm)) hold₁ hold₂ hnot₁
          hnot₂
      · refine absurd ?_ hnot₁
        rw [← hid₁]
        exact hvacant s₁ hs₁ (htask₁.trans htask) hold₁
    · obtain hold₂ | ⟨hloaded₂, -⟩ := hlive₂ hactive₂
      · refine absurd ?_ hnot₂
        rw [← hid₂]
        exact hvacant s₂ hs₂ (htask₂.trans htask.symm) hold₂
      · exact hloaded₁.trans hloaded₂.symm
  · obtain ⟨r, hr, hid, -, htrigger, -⟩ := hcommit row hrow
    rw [← hid]
    exact h.scheduled r hr (htrigger.trans hmanual)

/-- **Calls that settle.** -/
theorem OneActive.settles (h : OneActive w) (drv : Driver) (cfg : Setting) {op : DbOp}
    (hop : Within (fun _ => True) Settles op) {out : Outcome} (halone : out = .ok → Alone w op) :
    OneActive ((database drv cfg rememberLaunch).toBackend.answer op out w).2 ∧
      ((database drv cfg rememberLaunch).toBackend.answer op out w).2.memory = w.memory := by
  cases out with
  | fault => exact ⟨h, rfl⟩
  | ok =>
    cases op with
    | createRun | launchRun => exact hop.elim
    | commitRun caller loaded u => exact ⟨h.commitRun (halone rfl) _, rfl⟩
    | refresh caller taskId =>
      refine ⟨h.sameRuns ?_ _, rfl⟩
      show (performDb drv cfg (.refresh caller taskId) w.store).2.runs = _
      rw [performDb]
      split <;> rfl
    | _ => exact ⟨h.sameRuns (by rfl) _, rfl⟩

/-- A row that is created to be skipped. -/
theorem OneActive.skip (h : OneActive w) {row : RunRow} (hnew : ∀ r ∈ w.store.runs, r.id ≠ row.id)
    (hscheduled : row.trigger = .scheduled) (uuids : ℕ) :
    OneActive ⟨w.store.createRun row, uuids,
      { w.memory with skipped := row.id :: w.memory.skipped }⟩ where
  rows id hid := by
    have hid : id = row.id ∨ id ∈ w.memory.skipped ∨ id ∈ w.memory.created := by
      simpa [or_assoc] using hid
    obtain rfl | hid := hid
    · exact ⟨row, Store.mem_createRun.2 (.inr rfl), rfl⟩
    · obtain ⟨r, hr, hrid⟩ := h.rows id hid
      exact ⟨r, Store.mem_createRun.2 (.inl hr), hrid⟩
  disjoint id hid hskip := by
    rcases mem_cons.1 hskip with rfl | hskip
    · obtain ⟨r, hr, hrid⟩ := h.rows _ (.inr hid)
      exact hnew r hr hrid
    · exact h.disjoint id hid hskip
  launched := h.launched
  active r₁ h₁ r₂ h₂ htask hactive₁ hactive₂ hnot₁ hnot₂ := by
    rw [mem_cons, not_or] at hnot₁ hnot₂
    rcases Store.mem_createRun.1 h₁ with h₁ | rfl
    · rcases Store.mem_createRun.1 h₂ with h₂ | rfl
      · exact h.active r₁ h₁ r₂ h₂ htask hactive₁ hactive₂ hnot₁.2 hnot₂.2
      · exact absurd rfl hnot₂.1
    · exact absurd rfl hnot₁.1
  scheduled r hr hmanual hskip := by
    rcases Store.mem_createRun.1 hr with hr | rfl
    · rcases mem_cons.1 hskip with hid | hskip
      · exact hnew r hr hid
      · exact h.scheduled r hr hmanual hskip
    · rw [hscheduled] at hmanual
      cases hmanual

/-- A row that is created to be launched. -/
theorem OneActive.create (h : OneActive w) {row : RunRow}
    (hnew : ∀ r ∈ w.store.runs, r.id ≠ row.id)
    (halone : Vacant w row.taskId) (uuids : ℕ) :
    OneActive ⟨w.store.createRun row, uuids,
      { w.memory with created := row.id :: w.memory.created }⟩ := by
  have hfresh : row.id ∉ w.memory.skipped := fun hskip => by
    obtain ⟨r, hr, hrid⟩ := h.rows _ (.inl hskip)
    exact hnew r hr hrid
  refine ⟨fun id hid => ?_, fun id hid => ?_, fun id hid => mem_cons_of_mem _ (h.launched id hid),
    fun r₁ h₁ r₂ h₂ htask hactive₁ hactive₂ hnot₁ hnot₂ => ?_, fun r hr hmanual => ?_⟩
  · have hid : id = row.id ∨ id ∈ w.memory.skipped ∨ id ∈ w.memory.created := by
      simpa [or_left_comm] using hid
    obtain rfl | hid := hid
    · exact ⟨row, Store.mem_createRun.2 (.inr rfl), rfl⟩
    · obtain ⟨r, hr, hrid⟩ := h.rows id hid
      exact ⟨r, Store.mem_createRun.2 (.inl hr), hrid⟩
  · rcases mem_cons.1 hid with rfl | hid
    · exact hfresh
    · exact h.disjoint id hid
  · rcases Store.mem_createRun.1 h₁ with hold₁ | hnew₁
    · rcases Store.mem_createRun.1 h₂ with hold₂ | hnew₂
      · exact h.active r₁ hold₁ r₂ hold₂ htask hactive₁ hactive₂ hnot₁ hnot₂
      · rw [hnew₂] at htask
        exact absurd (halone r₁ hold₁ htask hactive₁) hnot₁
    · rw [hnew₁] at htask ⊢
      rcases Store.mem_createRun.1 h₂ with hold₂ | hnew₂
      · exact absurd (halone r₂ hold₂ htask.symm hactive₂) hnot₂
      · rw [hnew₂]
  · rcases Store.mem_createRun.1 hr with hr | rfl
    · exact h.scheduled r hr hmanual
    · exact hfresh

theorem OneActive.launch (h : OneActive w) {id : ℕ} (hid : id ∈ w.memory.created) (uuids : ℕ) :
    OneActive ⟨w.store, uuids, { w.memory with launched := id :: w.memory.launched }⟩ where
  rows := h.rows
  disjoint := h.disjoint
  launched id' hid' := by
    rcases mem_cons.1 hid' with rfl | hid'
    · exact hid
    · exact h.launched id' hid'
  active := h.active
  scheduled := h.scheduled

/-! ### Inside a call -/

/-- Every row that was created to be launched stays one. -/
def launching : Logic (World Launches) DbOp DbOp.Reply SchedExn Unit SchedCall Unit where
  inv w _ := OneActive w
  rel _ w w' := w.memory.created ⊆ w'.memory.created
  link _ _ _ _ := True
  allowed _ _ waits out w _ := out = .ok → ∀ op ∈ waits, Alone w op
  done _ _ _ := True
  rel_refl _ _ := List.Subset.refl _
  rel_trans := List.Subset.trans
  rel_weaken h := h

abbrev LaunchCtx := Ctx (World Launches) DbOp DbOp.Reply SchedExn Unit

/-- Inside a call at most one run is active, and rows were created to be launched for `ids`. -/
structure Going (ids : List ℕ) (c : LaunchCtx) : Prop where
  inv : OneActive c.now
  rel : c.start.memory.created ⊆ c.now.memory.created
  created : ids ⊆ c.now.memory.created

variable {γ β : Type} {ids : List ℕ} {call : SchedCall} {c : LaunchCtx}

/-- Safe in `launching`. -/
abbrev Sound (drv : Driver) (cfg : Setting) (call : SchedCall) (p : DbProc Launches β)
    (Q : Except SchedExn β → LaunchCtx → Prop) (c : LaunchCtx) : Prop :=
  launching.Safe (database drv cfg rememberLaunch).toBackend call p Q c

/-- A coroutine of the service is safe with the repositories written out. -/
abbrev SoundCall (drv : Driver) (cfg : Setting) (call : SchedCall) (p : SchedProc Launches β)
    (Q : Except SchedExn β → LaunchCtx → Prop) (c : LaunchCtx) : Prop :=
  Sound drv cfg call (p.expand (repository cfg)) Q c

/-- **Sequencing.** -/
theorem soundCall_bind {α : Type} {p : SchedProc Launches α} {f : α → SchedProc Launches β}
    {Q : Except SchedExn β → LaunchCtx → Prop} (h : SoundCall drv cfg call p
      (fun res c => match res with
        | .ok a => SoundCall drv cfg call (f a) Q c
        | .error e => Q (.error e) c) c) : SoundCall drv cfg call (p.bind f) Q c := by
  rw [SoundCall, expand_bind, Sound, Safe.bind_iff]
  refine h.mono fun res c hQ => ?_
  cases res <;> exact hQ

theorem Going.yield (h : Going ids c) (op : Option DbOp) : launching.Yield call c op () :=
  ⟨h.inv, h.rel, trivial⟩

theorem Going.final (h : Going ids c) (res : Except SchedExn Unit) :
    launching.Final call res c :=
  ⟨⟨(), h.yield _⟩, trivial⟩

theorem Going.draws (h : Going ids c) {w : World Launches} (hw : Draws c.now w) :
    Going ids { c with now := w } := by
  obtain ⟨hstore, hmemory⟩ := hw
  have hinv : OneActive ⟨w.store, w.uuids, c.now.memory⟩ := h.inv.sameRuns (by rw [hstore]) w.uuids
  rw [← hmemory] at hinv
  refine ⟨hinv, ?_, ?_⟩
  · show c.start.memory.created ⊆ w.memory.created
    rw [hmemory]
    exact h.rel
  · show ids ⊆ w.memory.created
    rw [hmemory]
    exact h.created

theorem Going.settles (h : Going ids c) {op : DbOp} (hop : Within (fun _ => True) Settles op)
    (out : Outcome) {w : World Launches} (hrel : c.now.memory.created ⊆ w.memory.created)
    (hw : OneActive w) (halone : out = .ok → Alone w op) :
    Going ids ⟨c.close,
      some ⟨op, ((database drv cfg rememberLaunch).toBackend.answer op out w).1⟩, w, (),
      ((database drv cfg rememberLaunch).toBackend.answer op out w).2⟩ := by
  obtain ⟨hinv, hmemory⟩ := hw.settles drv cfg hop halone
  refine ⟨hinv, ?_, ?_⟩
  · show w.memory.created ⊆ _
    rw [hmemory]
    exact List.Subset.refl _
  · show ids ⊆ _
    rw [hmemory]
    exact List.Subset.trans h.created hrel

theorem safe_settles {p : SchedProc Launches β} (h : Going ids c)
    (hp : Calls (fun _ => True) Settles p c.now)
    {Q : Except SchedExn β → LaunchCtx → Prop} (hQ : ∀ res c, Going ids c → Q res c) :
    SoundCall drv cfg call p Q c := by
  refine Safe.of_awaits (K := Going ids) () (database_awaits (fun _ _ _ _ => trivial) hp)
    (fun c w hc hw => hc.draws hw) (fun c op hc _ => hc.yield _) ?_ hQ h
  intro c op w frame out hc hop hrel hw hallowed
  exact ⟨database_replies (fun _ _ => trivial) op out,
    hc.settles hop out hrel hw fun hout => hallowed hout op rfl⟩

/-! ### The calls -/

section Calls

variable {task : TaskRow} {now : Time} {trigger : Trigger} {threadId : String} {taskRunId : ℕ}
  {Q : Except SchedExn β → LaunchCtx → Prop}

theorem settles_finalizeSkip {error : String} {w : World γ} : Calls (fun _ => True) Settles
    (finalizeSkip cfg task taskRunId threadId now error : SchedProc γ DispatchResult) w := by
  refine Awaits.ofExcept_bind fun nextAt _ => ?_
  refine Awaits.call_bind (.inl rfl) fun _ _ _ => ?_
  exact Awaits.call_bind trivial fun _ _ _ => trivial

theorem settles_launchFailed {exc : SchedExn} {w : World γ} : Calls (fun _ => True) Settles
    (launchFailed cfg task taskRunId threadId now trigger exc : SchedProc γ DispatchResult) w := by
  refine Awaits.ofExcept_bind fun nextAt _ => ?_
  split
  · exact settles_finalizeSkip
  · refine Awaits.call_bind (.inl rfl) fun _ _ _ => ?_
    exact Awaits.call_bind trivial fun _ _ _ => trivial

theorem settles_overlaps {w : World γ} :
    Calls (fun _ => True) Settles (overlaps task : SchedProc γ Bool) w := by
  rw [overlaps]
  split
  · exact Awaits.call trivial
  · trivial

/-- The row of a run is created. -/
theorem safe_createRun {row : RunRow} {skips : Bool} (h : Going ids c)
    (hskips : skips = true → row.trigger = .scheduled)
    {Q : Except SchedExn Unit → LaunchCtx → Prop}
    (herror : ∀ e c, Going ids c → Q (.error e) c)
    (hok : ∀ c, Going ids c → (skips = false → row.id ∈ c.now.memory.created) → Q (.ok ()) c) :
    SoundCall drv cfg call (schedAwait (.createRun row skips)) Q c := by
  rw [SoundCall, schedAwait, expand_call]
  refine Safe.call () (h.yield _) fun w _ out hrel hw hallowed => ?_
  have hids : ids ⊆ w.memory.created := List.Subset.trans h.created hrel
  cases out with
  | fault => exact herror _ _ ⟨hw, List.Subset.refl _, hids⟩
  | ok =>
    by_cases htaken : (w.store.runs.any fun r => r.id = row.id) = true
    · have hanswer : (database drv cfg rememberLaunch).toBackend.answer (.createRun row skips) .ok w =
          (.error .database, w) := by
        show (_, (⟨_, _, _⟩ : World Launches)) = _
        rw [performDb, perform, if_pos htaken]
        cases skips <;> rfl
      rw [hanswer]
      exact herror _ _ ⟨hw, List.Subset.refl _, hids⟩
    · have hnew : ∀ r ∈ w.store.runs, r.id ≠ row.id := by simpa using htaken
      cases skips with
      | true =>
        have hanswer : (database drv cfg rememberLaunch).toBackend.answer (.createRun row true) .ok w =
            (.ok (), ⟨w.store.createRun row, w.uuids,
              { w.memory with skipped := row.id :: w.memory.skipped }⟩) := by
          show (_, (⟨_, _, _⟩ : World Launches)) = _
          rw [performDb, perform, if_neg htaken]
          rfl
        rw [hanswer]
        refine hok _ ⟨hw.skip hnew (hskips rfl) _, List.Subset.refl _, hids⟩ fun hfalse => ?_
        cases hfalse
      | false =>
        have hanswer : (database drv cfg rememberLaunch).toBackend.answer (.createRun row false) .ok w =
            (.ok (), ⟨w.store.createRun row, w.uuids,
              { w.memory with created := row.id :: w.memory.created }⟩) := by
          show (_, (⟨_, _, _⟩ : World Launches)) = _
          rw [performDb, perform, if_neg htaken]
          rfl
        rw [hanswer]
        have halone : Alone w (.createRun row false) := hallowed rfl _ rfl
        exact hok _ ⟨hw.create hnew halone _, subset_cons_self _ _,
          List.Subset.trans hids (subset_cons_self _ _)⟩ fun _ => mem_cons_self

theorem safe_launchRun {args : LaunchArgs} (h : Going ids c) (hid : args.taskRunId ∈ ids)
    {Q : Except SchedExn LaunchResult → LaunchCtx → Prop}
    (hQ : ∀ res c, Going ids c → Q res c) :
    SoundCall drv cfg call (schedAwait (.launchRun args)) Q c := by
  rw [SoundCall, schedAwait, expand_call]
  refine Safe.call () (h.yield _) fun w _ out hrel hw _ => hQ _ _ ?_
  have hids : ids ⊆ w.memory.created := List.Subset.trans h.created hrel
  cases out with
  | fault => exact ⟨hw, List.Subset.refl _, hids⟩
  | ok =>
    show Going ids ⟨_, _, _, _, ⟨w.store, w.uuids,
      rememberLaunch (.launchRun args) (cfg.launch args) w.store w.memory⟩⟩
    cases cfg.launch args with
    | error e => exact ⟨hw, List.Subset.refl _, hids⟩
    | ok result => exact ⟨hw.launch (hids hid) _, List.Subset.refl _, hids⟩

theorem safe_launchTask (h : Going ids c) (hid : taskRunId ∈ ids)
    {Q : Except SchedExn DispatchResult → LaunchCtx → Prop}
    (hQ : ∀ res c, Going ids c → Q res c) :
    SoundCall drv cfg call (launchTask cfg task taskRunId threadId now trigger) Q c := by
  rw [launchTask, Coro.bind_def]
  refine soundCall_bind ?_
  refine safe_launchRun h hid fun res c hc => ?_
  cases res with
  | error e => exact hQ _ _ hc
  | ok result =>
    refine safe_settles hc ?_ hQ
    refine Awaits.ofExcept_bind fun nextAt _ => ?_
    refine Awaits.call_bind (.inr rfl) fun _ _ _ => ?_
    exact Awaits.call_bind trivial fun _ _ _ => trivial

theorem safe_dispatchTask (h : Going ids c)
    {Q : Except SchedExn DispatchResult → LaunchCtx → Prop}
    (hQ : ∀ res c, Going ids c → Q res c) :
    SoundCall drv cfg call (dispatchTask cfg task now trigger) Q c := by
  rw [dispatchTask, Coro.bind_def]
  refine soundCall_bind ?_
  refine safe_settles h calls_executionThreadId fun threadId c hc => ?_
  cases threadId with
  | error e => exact hQ _ _ hc
  | ok threadId =>
    refine soundCall_bind ?_
    refine safe_settles hc settles_overlaps fun skips c hc => ?_
    cases skips with
    | error e => exact hQ _ _ hc
    | ok skips =>
      dsimp only
      split
      · exact hQ _ _ hc
      · rename_i hconflict
        refine soundCall_bind ?_
        refine safe_settles hc calls_uuid4 fun taskRunId c hc => ?_
        cases taskRunId with
        | error e => exact hQ _ _ hc
        | ok taskRunId =>
          refine soundCall_bind ?_
          refine safe_createRun hc (fun hskips => ?_) (fun e c hc => hQ _ _ hc) fun c hc hid => ?_
          · cases trigger with
            | scheduled => rfl
            | manual => exact absurd ⟨hskips, rfl⟩ hconflict
          · dsimp only
            split
            · exact safe_settles hc settles_finalizeSkip hQ
            · rename_i hskips
              have hmem := hid (Bool.eq_false_iff.2 hskips)
              have hc' : Going (taskRunId :: ids) c :=
                ⟨hc.inv, hc.rel, cons_subset.2 ⟨hmem, hc.created⟩⟩
              have hdrop : ∀ {c}, Going (taskRunId :: ids) c → Going ids c := fun hc =>
                ⟨hc.inv, hc.rel, (cons_subset.1 hc.created).2⟩
              rw [SoundCall, expand_tryCatch, Sound, Safe.tryCatch_iff]
              refine safe_launchTask hc' mem_cons_self fun res c hc => ?_
              cases res with
              | ok result => exact hQ _ _ (hdrop hc)
              | error e => exact safe_settles (hdrop hc) settles_launchFailed hQ

theorem CallOp.settles {cal : Calendar} {op : SchedOp}
    (hcall : (∃ record now, call = .complete record now) ∨ (∃ user id, call = .pause user id) ∨
      (∃ user id, call = .resume user id) ∨
      ∃ user id body now later, call = .update user id body now later)
    (h : CallOp (fun _ => True) cal call op) : Settles op := by
  obtain ⟨record, now, rfl⟩ | ⟨user, id, rfl⟩ | ⟨user, id, rfl⟩ | ⟨user, id, body, now, later, rfl⟩ :=
    hcall
  · cases op with
    | updateStatus caller id u =>
      refine .inl ?_
      rw [RunStatus.isActive_eq_not_isTerminal, h.2.2.1]
      rfl
    | createRun | launchRun => exact h.elim
    | _ => trivial
  all_goals
    cases op with
    | updateStatus | createRun | launchRun => exact h.elim
    | _ => trivial

end Calls

/-! ### Runs -/

/-- **Every call keeps at most one run active.** -/
theorem launching_safe (drv : Driver) (cfg : Setting) (call : SchedCall) :
    SafeHandler launching (database drv cfg rememberLaunch).toBackend call
      ((handler cfg call).expand (repository cfg)) := by
  refine ⟨trivial, fun w _ hinv => ?_⟩
  have h : Going [] ⟨[], none, w, (), w⟩ :=
    ⟨hinv, List.Subset.refl _, nil_subset _⟩
  have hsettles : (∀ op, CallOp (fun _ => True) cfg.cal call op → Settles op) →
      SoundCall drv cfg call (handler cfg call) (launching.Final call) ⟨[], none, w, (), w⟩ := fun hcall =>
    safe_settles h ((handler_awaits call).mono hcall) fun res c hc => hc.final res
  cases call with
  | complete record now => exact hsettles fun op => CallOp.settles (.inl ⟨_, _, rfl⟩)
  | pause user id => exact hsettles fun op => CallOp.settles (.inr (.inl ⟨_, _, rfl⟩))
  | resume user id => exact hsettles fun op => CallOp.settles (.inr (.inr (.inl ⟨_, _, rfl⟩)))
  | update user id body now later =>
    exact hsettles fun op => CallOp.settles (.inr (.inr (.inr ⟨_, _, _, _, _, rfl⟩)))
  | dispatch task now trigger =>
    rw [handler, Coro.bind_def]
    refine soundCall_bind ?_
    refine safe_dispatchTask h fun res c hc => ?_
    cases res with
    | error | ok => exact hc.final _
  | trigger user id now =>
    rw [handler, triggerScheduledTask, Coro.bind_def]
    refine soundCall_bind ?_
    refine safe_settles h (calls_readTask fun _ => trivial) fun res c hc => ?_
    cases res with
    | error e => exact hc.final _
    | ok found =>
      dsimp only
      refine soundCall_bind ?_
      refine safe_dispatchTask hc fun res c hc => ?_
      cases res with
      | error e => exact hc.final _
      | ok result =>
        dsimp only
        cases result.outcome <;> exact hc.final _
  | poll now =>
    rw [handler, runOnce, Coro.bind_def]
    refine soundCall_bind ?_
    refine safe_settles h (by exact Awaits.call trivial) fun res c hc => ?_
    cases res with
    | error e => exact hc.final _
    | ok active =>
      dsimp only
      split
      · exact hc.final _
      · refine soundCall_bind ?_
        refine safe_settles hc (by exact Awaits.call trivial) fun res c hc => ?_
        cases res with
        | error e => exact hc.final _
        | ok claimed =>
          dsimp only
          rw [SoundCall, expand_forEach]
          refine Safe.forEach (fun _ c => Going [] c) (fun task l c hc => ?_)
            (fun c hc => hc.final _) hc
          refine soundCall_bind ?_
          refine safe_dispatchTask hc fun res c hc => ?_
          cases res with
          | error e => exact hc.final _
          | ok result => exact hc

theorem launching_admits (drv : Driver) (cfg : Setting) :
    Admits launching (database drv cfg rememberLaunch) NotOvertaken where
  spawn _ call _ := launching_safe drv cfg call
  env _ e := e.elim
  resume s out l₁ t l₂ gs₁ gs₂ hC htasks _ _ hout op hop := by
    refine hC hout op ?_
    rw [dbPendingAt, htasks, getElem?_append_right (Nat.le_refl _), Nat.sub_self]
    exact hop

/-- **Never twice.** In any run of the scheduler in which no dispatch is overtaken between its look
at the active runs and its row, nor between its look at its row and a write that makes it active
again, no task has two active runs that were launched, and no manual trigger that met an active run
has created a row. -/
theorem never_runs_twice (drv : Driver) (cfg : Setting) (w : World Launches)
    (hmemory : w.memory = .none) (hended : ∀ row ∈ w.store.runs, row.status.isActive = false)
    (s : DbSys Launches) (h : Steps (database drv cfg rememberLaunch) NotOvertaken ⟨w, []⟩ s) :
    (∀ r₁ ∈ s.world.store.runs, ∀ r₂ ∈ s.world.store.runs, r₁.taskId = r₂.taskId →
        r₁.status.isActive = true → r₂.status.isActive = true →
        r₁.id ∈ s.world.memory.launched → r₂.id ∈ s.world.memory.launched → r₁.id = r₂.id) ∧
      ∀ row ∈ s.world.store.runs, row.trigger = .manual → row.id ∉ s.world.memory.skipped := by
  have hstart : OneActive w := by
    refine ⟨fun id hid => ?_, fun id _ => ?_, fun id hid => ?_, fun r₁ h₁ r₂ _ _ hactive => ?_,
      fun row _ _ => ?_⟩
    · rw [hmemory] at hid
      exact (hid.elim not_mem_nil not_mem_nil).elim
    · rw [hmemory]
      exact not_mem_nil
    · rw [hmemory] at hid
      exact (not_mem_nil hid).elim
    · rw [hended r₁ h₁] at hactive
      cases hactive
    · rw [hmemory]
      exact not_mem_nil
  obtain ⟨⟨_, -, hinv⟩, -⟩ := sound (launching_admits drv cfg) (Good.init hstart) h
  have hone : OneActive s.world := hinv
  refine ⟨fun r₁ h₁ r₂ h₂ htask hactive₁ hactive₂ hlaunched₁ hlaunched₂ => ?_, hone.scheduled⟩
  exact hone.active r₁ h₁ r₂ h₂ htask hactive₁ hactive₂
    (hone.disjoint _ (hone.launched _ hlaunched₁)) (hone.disjoint _ (hone.launched _ hlaunched₂))

def beforeTriggers : DbSys Launches := ⟨⟨⟨[onceTask], []⟩, 0, .none⟩, []⟩

/-- The task is triggered by hand, and again while its run is active. -/
theorem never_runs_twice_demo : ∃ s : DbSys Launches, s.world.memory.launched = [1] ∧
    s.world.store.runs.map RunRow.id = [1] ∧ s.tasks.length = 2 ∧
    (∀ r₁ ∈ s.world.store.runs, ∀ r₂ ∈ s.world.store.runs, r₁.taskId = r₂.taskId →
        r₁.status.isActive = true → r₂.status.isActive = true →
        r₁.id ∈ s.world.memory.launched → r₂.id ∈ s.world.memory.launched → r₁.id = r₂.id) ∧
      ∀ row ∈ s.world.store.runs, row.trigger = .manual → row.id ∉ s.world.memory.skipped := by
  have hrun : (runWith (database demoDriver demoSetting rememberLaunch) NotOvertaken beforeTriggers
      [.spawn (.trigger (some "user-1") "task-1" 5), .resume 0 .ok, .resume 0 .ok, .resume 0 .ok,
        .resume 0 .ok, .resume 0 .ok, .spawn (.trigger (some "user-1") "task-1" 6), .resume 1 .ok,
        .resume 1 .ok, .resume 1 .ok]).isSome = true := rfl
  exact ⟨_, rfl, rfl, rfl, never_runs_twice demoDriver demoSetting beforeTriggers.world rfl
    (fun row hrow => absurd hrow not_mem_nil) _ (Steps.of_runWith_get hrun)⟩

/-- Two triggers look for active runs before either has created its row. Both runs are launched. -/
theorem runs_twice : ∃ s : DbSys Launches,
    Steps (database demoDriver demoSetting rememberLaunch) (fun _ _ => True) beforeTriggers s ∧
      onceTask.overlapPolicy = "skip" ∧
      ∃ r₁ ∈ s.world.store.runs, ∃ r₂ ∈ s.world.store.runs, r₁.taskId = r₂.taskId ∧
        r₁.status.isActive = true ∧ r₂.status.isActive = true ∧
        r₁.id ∈ s.world.memory.launched ∧ r₂.id ∈ s.world.memory.launched ∧ r₁.id ≠ r₂.id := by
  have hrun : (run (database demoDriver demoSetting rememberLaunch) beforeTriggers
      [.spawn (.trigger (some "user-1") "task-1" 5), .spawn (.trigger (some "user-1") "task-1" 5),
        .resume 0 .ok, .resume 1 .ok, .resume 0 .ok, .resume 1 .ok, .resume 0 .ok, .resume 1 .ok,
        .resume 0 .ok, .resume 1 .ok, .resume 0 .ok, .resume 1 .ok]).isSome = true := rfl
  refine ⟨_, Steps.of_run_get hrun, rfl, _, mem_cons_self, _,
    mem_cons_of_mem _ mem_cons_self, rfl, rfl, rfl, ?_, ?_, ?_⟩
  · exact mem_cons_of_mem _ mem_cons_self
  · exact mem_cons_self
  · exact Nat.ne_of_lt (Nat.lt_succ_self 2)

end AfterFlow.Scheduler
