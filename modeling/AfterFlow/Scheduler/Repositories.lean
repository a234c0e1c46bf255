import AfterFlow.Coop.Expand
import AfterFlow.Scheduler.Calls

/-!
# The repositories as coroutines

`update_status`, `update_after_launch`, `update` and `claim_due_tasks` each read rows, change their
copies in the session and commit. They await the read and the commit, and no lock is held between
the two: `FOR UPDATE` means nothing to SQLite. So anything may happen between them, and what is
decided on the rows that were read may be written to rows that have changed since. A commit writes
only the columns whose value differs from the one that was read.

Here the service and the endpoints run with these methods written out.

## Main definitions

* `written`, `Driver.stamped` — what a commit leaves in a column
* `repository` — the methods, over the awaited calls of the database
* `database` — the scheduler with its repositories written out

## Main results

* `database_keeps` — what the awaited calls of the database keep holds in every state of a run
-/

namespace AfterFlow.Scheduler

open Coop List

/-! ### Commits -/

/-- How values are read back and compared. -/
structure Driver where
  /-- Instants are read back with their zone: PostgreSQL does it, SQLite does not, and without a
  zone they equal no instant that is assigned. -/
  zoned : Bool
  /-- `==` of two dictionaries. -/
  same : Spec → Spec → Bool
  /-- A text equals only itself. -/
  same_cron : ∀ {a b : Spec} {text : String}, same a b = true →
    a.lookup "cron" = some (.str text) → b.lookup "cron" = some (.str text)

/-- What a commit leaves in a column: the stored value, unless a value was assigned that is not the
one that was read. -/
def written {α : Type} [DecidableEq α] (loaded : α) (assigned : Option α) (stored : α) : α :=
  match assigned with
  | none => stored
  | some new => if new = loaded then stored else new

namespace Driver

variable (drv : Driver)

/-- What a commit leaves in a column of instants. -/
def stamped (loaded : Option Time) (assigned : Option (Option Time)) (stored : Option Time) :
    Option Time :=
  match assigned with
  | none => stored
  | some new => if new = loaded ∧ (drv.zoned = true ∨ new = none) then stored else new

/-- What a commit leaves of `schedule_spec`. -/
def specified (loaded : Spec) (assigned : Option Spec) (stored : Spec) : Spec :=
  match assigned with
  | none => stored
  | some new => if drv.same new loaded = true then stored else new

end Driver

/-- The commit of `update_status`. -/
def RunRow.commit (drv : Driver) (u : StatusUpdate) (loaded stored : RunRow) : RunRow :=
  if u.protectTerminal && loaded.status.isTerminal then
    { stored with
      runId := if loaded.runId = none then u.runId.or stored.runId else stored.runId
      startedAt :=
        if loaded.startedAt = none then u.startedAt.or stored.startedAt else stored.startedAt }
  else
    { stored with
      status := written loaded.status (some u.status) stored.status
      runId := written loaded.runId (some u.runId) stored.runId
      error := written loaded.error (some u.error) stored.error
      startedAt := drv.stamped loaded.startedAt (u.startedAt.map some) stored.startedAt
      finishedAt := drv.stamped loaded.finishedAt (u.finishedAt.map some) stored.finishedAt }

/-- The commit of `update_after_launch`. -/
def TaskRow.commitLaunch (drv : Driver) (u : LaunchUpdate) (loaded stored : TaskRow) : TaskRow :=
  let ended := u.protectTerminal && loaded.status.isTerminal
  { stored with
    status := written loaded.status (if ended then none else some u.status) stored.status
    lastError := written loaded.lastError (if ended then none else some u.lastError)
      stored.lastError
    nextRunAt := drv.stamped loaded.nextRunAt (some u.nextRunAt) stored.nextRunAt
    lastRunAt := drv.stamped loaded.lastRunAt (some u.lastRunAt) stored.lastRunAt
    lastRunId := written loaded.lastRunId (some u.lastRunId) stored.lastRunId
    lastThreadId := written loaded.lastThreadId (some u.lastThreadId) stored.lastThreadId
    runCount := if u.incrementRunCount then loaded.runCount + 1 else stored.runCount
    leaseOwner := written loaded.leaseOwner (some none) stored.leaseOwner
    leaseExpiresAt := drv.stamped loaded.leaseExpiresAt (some none) stored.leaseExpiresAt }

/-- The commit of `update`. -/
def TaskRow.commit (drv : Driver) (u : TaskUpdates) (loaded stored : TaskRow) : TaskRow :=
  { stored with
    contextMode := written loaded.contextMode u.contextMode stored.contextMode
    threadId := written loaded.threadId u.threadId stored.threadId
    title := written loaded.title u.title stored.title
    prompt := written loaded.prompt u.prompt stored.prompt
    scheduleSpec := drv.specified loaded.scheduleSpec u.scheduleSpec stored.scheduleSpec
    timezone := written loaded.timezone u.timezone stored.timezone
    nextRunAt := drv.stamped loaded.nextRunAt u.nextRunAt stored.nextRunAt
    status := written loaded.status u.status stored.status
    lastError := written loaded.lastError u.lastError stored.lastError }

/-- The commit of `claim_due_tasks`, on one row. -/
def TaskRow.commitClaim (drv : Driver) (leaseOwner : String) (leaseExpiresAt : Time)
    (loaded stored : TaskRow) : TaskRow :=
  { stored with
    leaseOwner := written loaded.leaseOwner (some (some leaseOwner)) stored.leaseOwner
    leaseExpiresAt := drv.stamped loaded.leaseExpiresAt (some (some leaseExpiresAt))
      stored.leaseExpiresAt
    status := written loaded.status (some .running) stored.status }

section Commits

variable {α : Type} [DecidableEq α] {drv : Driver} {loaded stored : TaskRow} {row read : RunRow}

@[simp] theorem written_none (loaded stored : α) : written loaded none stored = stored := rfl

theorem written_some (loaded new stored : α) :
    written loaded (some new) stored = if new = loaded then stored else new := rfl

/-- Nobody has come between. -/
@[simp] theorem written_self (loaded : α) (assigned : Option α) :
    written loaded assigned loaded = assigned.getD loaded := by
  cases assigned with
  | none => rfl
  | some new => exact ite_eq_right_iff.2 fun h => h.symm

@[simp] theorem Driver.stamped_self (loaded : Option Time) (assigned : Option (Option Time)) :
    drv.stamped loaded assigned loaded = assigned.getD loaded := by
  cases assigned with
  | none => rfl
  | some new => exact ite_eq_right_iff.2 fun h => h.1.symm

theorem Driver.stamped_cases (loaded new stored : Option Time) :
    drv.stamped loaded (some new) stored = stored ∨ drv.stamped loaded (some new) stored = new := by
  rw [Driver.stamped]
  exact ite_eq_or_eq _ _ _

@[simp] theorem RunRow.commit_id (u : StatusUpdate) : (read.commit drv u row).id = row.id := by
  rw [RunRow.commit]
  split <;> rfl

@[simp] theorem RunRow.commit_taskId (u : StatusUpdate) :
    (read.commit drv u row).taskId = row.taskId := by
  rw [RunRow.commit]
  split <;> rfl

@[simp] theorem RunRow.commit_trigger (u : StatusUpdate) :
    (read.commit drv u row).trigger = row.trigger := by
  rw [RunRow.commit]
  split <;> rfl

theorem RunRow.commit_status (u : StatusUpdate) : (read.commit drv u row).status =
    if (u.protectTerminal = true ∧ read.status.isTerminal = true) ∨ u.status = read.status then
      row.status
    else u.status := by
  rw [RunRow.commit]
  by_cases h : u.protectTerminal = true ∧ read.status.isTerminal = true
  · simp [h]
  · have hended : (u.protectTerminal && read.status.isTerminal) = false := by simpa using h
    simp only [hended, h, false_or, Bool.false_eq_true, if_false, written_some]

@[simp] theorem TaskRow.commitLaunch_id (u : LaunchUpdate) :
    (loaded.commitLaunch drv u stored).id = stored.id := rfl

@[simp] theorem TaskRow.commit_id (u : TaskUpdates) : (loaded.commit drv u stored).id = stored.id :=
  rfl

theorem TaskRow.commitLaunch_status (u : LaunchUpdate) : (loaded.commitLaunch drv u stored).status =
    if (u.protectTerminal = true ∧ loaded.status.isTerminal = true) ∨ u.status = loaded.status then
      stored.status
    else u.status := by
  rw [TaskRow.commitLaunch]
  by_cases h : u.protectTerminal = true ∧ loaded.status.isTerminal = true
  · simp [h]
  · have hended : (u.protectTerminal && loaded.status.isTerminal) = false := by simpa using h
    simp only [hended, h, false_or, Bool.false_eq_true, if_false, written_some]

end Commits

/-! ### The awaited calls of the database -/

/-- As for `SchedOp`, some operations carry more than the call: who calls and the caller's copy. A
commit carries what was read. -/
inductive DbOp where
  | countActiveRuns
  | hasActiveRuns (taskId : String)
  | createRun (row : RunRow) (skips : Bool)
  | launchRun (args : LaunchArgs)
  | getTask (taskId userId : String)
  | checkAccess (threadId userId : String)
  | getRun (id : ℕ)
  | commitRun (caller : Caller) (loaded : RunRow) (u : StatusUpdate)
  | getRow (taskId : String)
  | commitLaunch (task loaded : TaskRow) (u : LaunchUpdate)
  | commitTask (caller : Caller) (existing loaded : TaskRow) (u : TaskUpdates)
  | refresh (caller : Caller) (taskId : String)
  | selectDue (now : Time) (limit : ℕ)
  | commitClaims (now : Time) (loaded : List TaskRow)

@[reducible] def DbOp.Reply : DbOp → Type
  | .countActiveRuns => ℕ
  | .hasActiveRuns _ => Bool
  | .launchRun _ => LaunchResult
  | .getTask _ _ => Option TaskRow
  | .checkAccess _ _ => Bool
  | .getRun _ => Option RunRow
  | .getRow _ => Option TaskRow
  | .refresh _ _ => TaskRow
  | .selectDue _ _ => List TaskRow
  | _ => Unit

namespace Store

variable (s : Store)

def getRun (id : ℕ) : Option RunRow := s.runs.find? fun row => row.id = id

def getRow (taskId : String) : Option TaskRow := s.tasks.find? fun row => row.id = taskId

/-- Each row that was read is written. -/
def commitClaims (drv : Driver) (leaseOwner : String) (leaseExpiresAt : Time)
    (loaded : List TaskRow) : Store :=
  { s with tasks := s.tasks.map fun row =>
      match loaded.find? fun l => l.id = row.id with
      | none => row
      | some l => l.commitClaim drv leaseOwner leaseExpiresAt row }

variable {s} {task : TaskRow}

theorem getRun_eq_some {id : ℕ} {row : RunRow} (h : s.getRun id = some row) :
    row ∈ s.runs ∧ row.id = id :=
  ⟨mem_of_find?_eq_some h, by simpa using find?_some h⟩

theorem getRow_eq_some {taskId : String} (h : s.getRow taskId = some task) :
    task ∈ s.tasks ∧ task.id = taskId :=
  ⟨mem_of_find?_eq_some h, by simpa using find?_some h⟩

theorem mem_commitClaims {drv : Driver} {owner : String} {expires : Time} {loaded : List TaskRow}
    (h : task ∈ (s.commitClaims drv owner expires loaded).tasks) :
    task ∈ s.tasks ∨ ∃ t ∈ s.tasks, ∃ l ∈ loaded, l.id = t.id ∧
      task = l.commitClaim drv owner expires t := by
  obtain ⟨t, ht, rfl⟩ := mem_map.1 h
  split
  · exact .inl ht
  · rename_i l hl
    exact .inr ⟨t, ht, l, mem_of_find?_eq_some hl, by simpa using find?_some hl, rfl⟩

end Store

variable {γ : Type} (drv : Driver) (cfg : Setting)

/-- What the calls of the database do. -/
@[grind =] def performDb : (op : DbOp) → Store → Except SchedExn op.Reply × Store
  | .countActiveRuns, s => perform cfg .countActiveRuns s
  | .hasActiveRuns taskId, s => perform cfg (.hasActiveRuns taskId) s
  | .createRun row skips, s => perform cfg (.createRun row skips) s
  | .launchRun args, s => perform cfg (.launchRun args) s
  | .getTask taskId userId, s => perform cfg (.getTask taskId userId) s
  | .checkAccess threadId userId, s => perform cfg (.checkAccess threadId userId) s
  | .getRun id, s => (.ok (s.getRun id), s)
  | .commitRun _ loaded u, s => (.ok (), s.onRun loaded.id (loaded.commit drv u))
  | .getRow taskId, s => (.ok (s.getRow taskId), s)
  | .commitLaunch _ loaded u, s => (.ok (), s.onTask loaded.id (loaded.commitLaunch drv u))
  | .commitTask _ _ loaded u, s => (.ok (), s.onTask loaded.id (loaded.commit drv u))
  | .refresh _ taskId, s =>
    match s.getRow taskId with
    | none => (.error .database, s)
    | some row => (.ok row, s)
  | .selectDue now limit, s => (.ok (s.dueTasks now limit), s)
  | .commitClaims now loaded, s =>
    (.ok (), s.commitClaims drv cfg.leaseOwner (now + cfg.leaseSeconds) loaded)

/-- The coroutines with the repositories written out. -/
abbrev DbProc (γ α : Type) := Coro (World γ) DbOp DbOp.Reply SchedExn α

def dbAwait (op : DbOp) : DbProc γ op.Reply := Coro.call op

/-- The methods of the repositories. -/
def repository : (op : SchedOp) → DbProc γ op.Reply
  | .countActiveRuns => dbAwait .countActiveRuns
  | .hasActiveRuns taskId => dbAwait (.hasActiveRuns taskId)
  | .createRun row skips => dbAwait (.createRun row skips)
  | .launchRun args => dbAwait (.launchRun args)
  | .getTask taskId userId => dbAwait (.getTask taskId userId)
  | .checkAccess threadId userId => dbAwait (.checkAccess threadId userId)
  | .updateStatus caller id u => do
    match ← dbAwait (.getRun id) with
    | none => pure ()
    | some row => dbAwait (.commitRun caller row u)
  | .updateAfterLaunch task u => do
    match ← dbAwait (.getRow task.id) with
    | none => pure ()
    | some row => dbAwait (.commitLaunch task row u)
  | .updateTask caller existing taskId userId u => do
    let found ← dbAwait (.getRow taskId)
    match found.filter fun row => row.userId = userId with
    | none => pure none
    | some row => do
      dbAwait (.commitTask caller existing row u)
      let row ← dbAwait (.refresh caller taskId)
      pure (some row)
  | .claimDueTasks now limit => do
    let rows ← dbAwait (.selectDue now limit)
    dbAwait (.commitClaims now rows)
    pure (rows.map (TaskRow.claim cfg.leaseOwner (now + cfg.leaseSeconds)))

/-- The scheduler with its repositories written out. -/
def database (remember : (op : DbOp) → Except SchedExn op.Reply → Store → γ → γ) :
    Program (World γ) DbOp DbOp.Reply SchedExn Unit SchedCall Empty where
  perform op w :=
    ((performDb drv cfg op w.store).1,
      ⟨(performDb drv cfg op w.store).2, w.uuids,
        remember op (performDb drv cfg op w.store).1 w.store w.memory⟩)
  fault := .database
  handler call := (handler cfg call).expand (repository cfg)
  tick := fun e => nomatch e

/-- The state of the scheduler with its repositories written out. -/
abbrev DbSys (γ : Type) : Type := Sys (World γ) DbOp DbOp.Reply SchedExn Unit SchedCall

/-- The call of the database that a task waits for. -/
def dbPendingAt {γ : Type} (s : DbSys γ) (i : ℕ) : Option DbOp := s.tasks[i]?.bind Task.pending

/-! ### What the methods await -/

/-- What is known of the replies, if all tasks are as `R` says. -/
def DbReplies (R : TaskRow → Prop) : (op : DbOp) → Except SchedExn op.Reply → Prop
  | .getTask taskId _, .ok (some row) => R row ∧ row.id = taskId
  | .getRun id, .ok (some row) => row.id = id
  | .getRow taskId, .ok (some row) => R row ∧ row.id = taskId
  | .selectDue now _, .ok rows => ∀ row ∈ rows, R row ∧ row.isDue now = true
  | _, _ => True

/-- The calls of the database that operations in `E` come to. -/
def Within (R : TaskRow → Prop) (E : SchedOp → Prop) : DbOp → Prop
  | .countActiveRuns => E .countActiveRuns
  | .hasActiveRuns taskId => E (.hasActiveRuns taskId)
  | .createRun row skips => E (.createRun row skips)
  | .launchRun args => E (.launchRun args)
  | .getTask taskId userId => E (.getTask taskId userId)
  | .checkAccess threadId userId => E (.checkAccess threadId userId)
  | .commitRun caller loaded u => E (.updateStatus caller loaded.id u)
  | .commitLaunch task loaded u => R loaded ∧ loaded.id = task.id ∧ E (.updateAfterLaunch task u)
  | .commitTask caller existing loaded u =>
    R loaded ∧ ∃ userId, E (.updateTask caller existing loaded.id userId u)
  | .commitClaims now loaded => ∀ row ∈ loaded, R row ∧ row.isDue now = true
  | .getRun _ | .getRow _ | .refresh _ _ | .selectDue _ _ => True

section Keeps

variable {R : TaskRow → Prop} {E : SchedOp → Prop} {drv : Driver} {cfg : Setting} {w : World γ}
  {remember : (op : DbOp) → Except SchedExn op.Reply → Store → γ → γ}

theorem repository_returns (hclaim : ∀ row owner expires, R row → R (row.claim owner expires))
    (op : SchedOp) (hop : E op) :
    (repository cfg op : DbProc γ op.Reply).Returns (Within R E) (DbReplies R) Draws
      (Replies R op) w := by
  cases op with
  | countActiveRuns | hasActiveRuns | createRun | launchRun | checkAccess =>
    exact Coro.Returns.call hop fun _ _ => trivial
  | getTask taskId userId =>
    refine Coro.Returns.call hop fun r h => ?_
    cases r with
    | error e => trivial
    | ok found =>
      cases found with
      | none => trivial
      | some row => exact h
  | updateStatus caller id u =>
    refine Coro.Returns.call_bind trivial (fun _ => trivial) fun found _ hfound => ?_
    cases found with
    | none => trivial
    | some row =>
      obtain rfl : row.id = id := hfound
      exact Coro.Returns.call hop fun _ _ => trivial
  | updateAfterLaunch task u =>
    refine Coro.Returns.call_bind trivial (fun _ => trivial) fun found _ hfound => ?_
    cases found with
    | none => trivial
    | some row => exact Coro.Returns.call ⟨hfound.1, hfound.2, hop⟩ fun _ _ => trivial
  | updateTask caller existing taskId userId u =>
    refine Coro.Returns.call_bind trivial (fun _ => trivial) fun found _ hfound => ?_
    cases hfilter : found.filter fun row => row.userId = userId with
    | none =>
      trivial
    | some row =>
      obtain ⟨rfl, -⟩ := Option.filter_eq_some_iff.1 hfilter
      obtain ⟨hrow, rfl⟩ := hfound
      refine Coro.Returns.call_bind ⟨hrow, userId, hop⟩ (fun _ => trivial) fun _ _ _ => ?_
      exact Coro.Returns.call_bind trivial (fun _ => trivial) fun _ _ _ => trivial
  | claimDueTasks now limit =>
    refine Coro.Returns.call_bind trivial (fun _ => trivial) fun rows _ hrows => ?_
    refine Coro.Returns.call_bind hrows (fun _ => trivial) fun _ _ _ row hrow => ?_
    obtain ⟨t, ht, rfl⟩ := mem_map.1 hrow
    exact ⟨hclaim t _ _ (hrows t ht).1, rfl⟩

theorem database_awaits (hclaim : ∀ row owner expires, R row → R (row.claim owner expires))
    {α : Type} {p : SchedProc γ α} (hp : Calls R E p w) :
    (p.expand (repository cfg)).Awaits (Within R E) (DbReplies R) Draws w :=
  hp.expand fun op _ => repository_returns hclaim op

theorem database_replies (hrows : ∀ row ∈ w.store.tasks, R row) (op : DbOp) (out : Outcome) :
    DbReplies R op ((database drv cfg remember).toBackend.answer op out w).1 := by
  cases out with
  | fault => cases op <;> trivial
  | ok =>
    cases op with
    | getTask taskId userId =>
      show DbReplies R (.getTask taskId userId) (.ok (w.store.getTask taskId userId))
      cases h : w.store.getTask taskId userId with
      | none => trivial
      | some row =>
        obtain ⟨hmem, hid⟩ := Store.getTask_eq_some h
        exact ⟨hrows row hmem, hid⟩
    | getRun id =>
      show DbReplies R (.getRun id) (.ok (w.store.getRun id))
      cases h : w.store.getRun id with
      | none => trivial
      | some row => exact (Store.getRun_eq_some h).2
    | getRow taskId =>
      show DbReplies R (.getRow taskId) (.ok (w.store.getRow taskId))
      cases h : w.store.getRow taskId with
      | none => trivial
      | some row =>
        obtain ⟨hmem, hid⟩ := Store.getRow_eq_some h
        exact ⟨hrows row hmem, hid⟩
    | selectDue now limit =>
      intro row hrow
      obtain ⟨hmem, hdue⟩ := Store.isDue_of_mem_dueTasks hrow
      exact ⟨hrows row hmem, hdue⟩
    | _ => trivial

/-- **What the calls of the database keep holds in every state of a run.** -/
theorem database_keeps {I : World γ → Prop} {C : DbSys γ → Label SchedCall Empty → Prop}
    {s s' : DbSys γ} (hclaim : ∀ row owner expires, R row → R (row.claim owner expires))
    (hrows : ∀ w, I w → ∀ row ∈ w.store.tasks, R row)
    (hcall : ∀ s call, C s (.spawn call) → ∀ op, CallOp R cfg.cal call op → E op)
    (hop : ∀ s i out op, C s (.resume i out) → op ∈ dbPendingAt s i → Within R E op → I s.world →
      I ((database drv cfg remember).toBackend.answer op out s.world).2)
    (hdraw : ∀ w w', Draws w w' → I w → I w')
    (hs : I s.world ∧ Steps.AllAwait (Within R E) (DbReplies R) Draws s)
    (h : Steps (database drv cfg remember) C s s') :
    I s'.world ∧ Steps.AllAwait (Within R E) (DbReplies R) Draws s' := by
  refine Steps.keeps (fun op out w hI => database_replies (hrows w hI) op out) ?_
    (fun _ e => e.elim) ?_ hdraw hs h
  · exact fun s call hC w => database_awaits hclaim ((handler_awaits call).mono (hcall s call hC))
  · intro s i out t op hC ht hpending
    refine hop s i out op hC ?_
    rw [dbPendingAt, ht]
    exact hpending

end Keeps

/-! ### An example -/

/-- SQLite, where specifications are compared by their cron expressions. -/
def demoDriver : Driver where
  zoned := false
  same a b :=
    match a.lookup "cron", b.lookup "cron" with
    | some (.str x), some (.str y) => x = y
    | _, _ => false
  same_cron {a b text} h ha := by
    rw [ha] at h
    cases hb : b.lookup "cron" with
    | none => simp [hb] at h
    | some v => cases v <;> simp_all

end AfterFlow.Scheduler
