import AfterFlow.Runs.FailedStart
import AfterFlow.Runs.Places

/-!
# One run of a thread at a time

Starts, cancellations and workers of any number of threads at once. A start holds the lock from the
look at the runs in the way until they have been interrupted, so a new run finds every older one
closed, and finalizing if it is still in execution.

## Main results

* `one_run_at_a_time` — the headline
* `two_runs_execute` — the two gaps
-/

namespace AfterFlow.Runs

open Coop Logic List

namespace Turns

section Rules

variable {call : ThreadCall} {task : Option ℕ} {g g' : Shares} {c : ThreadCtx} {α β : Type}

/-! ### Starts and cancellations -/

section Plain

variable (policy : RetryPolicy)

/-- A part of a call that is nobody's task and keeps what it owns. -/
def Plain (call : ThreadCall) (g : Shares) (p : RunProc β) : Prop :=
  ∀ c, Held none g c → fairness.Safe taskBackend call (asTask none p) (fun _ c' => Held none g c') c

theorem ownsNothing (g : Shares) : Owner none g := by
  rintro _ ⟨⟩

theorem Kept.plain {res : Except ManagerExn α} (h : Kept none g res c) : Held none g c := by
  obtain ⟨hheld, -⟩ | ⟨htask, -, -, -, -⟩ := h
  · exact hheld
  · cases htask

namespace Plain

variable {p : RunProc α}

theorem of_steady (hp : Steady call none g p) : Plain call g p :=
  fun c h => Safe.mono (fun _ _ hkept => hkept.plain) (hp c h)

theorem pure (a : α) : Plain call g (.pure a : RunProc α) := fun _ h => h

theorem raise (e : ManagerExn) : Plain call g (.raise e : RunProc α) := fun _ h => h

theorem ofExcept (x : Except ManagerExn α) : Plain call g (Coro.ofExcept x) := by
  cases x with
  | ok a => exact pure a
  | error e => exact raise e

theorem outside (q : Query) : Plain call g (runAwait (.outside q)) :=
  of_steady (Steady.await (ownsNothing g) RunOp.noConfusion)

theorem bind {f : α → RunProc β} (hp : Plain call g p) (hf : ∀ a, Plain call g (f a)) :
    Plain call g (p.bind f) := by
  intro c h
  rw [asTask_bind]
  refine Safe.bind_iff.mpr (Safe.mono (fun res c' hheld => ?_) (hp c h))
  cases res with
  | ok a => exact hf a c' hheld
  | error e => exact hheld

theorem catchException {handle : ManagerExn → RunProc α} (hp : Plain call g p)
    (hh : ∀ e, Plain call g (handle e)) : Plain call g (Runs.catchException p handle) := by
  intro c h
  rw [Runs.catchException, asTask_tryCatch]
  refine Safe.tryCatch_iff.mpr (Safe.mono (fun res c' hheld => ?_) (hp c h))
  cases res with
  | ok a => exact hheld
  | error e =>
    show fairness.Safe taskBackend call (asTask none (if e = .cancelled then .raise e else handle e)) _ c'
    split
    · exact hheld
    · exact hh e c' hheld

theorem persistAll (records : List RunRecord) (status : RunStatus) :
    Plain call g (Coro.forEach records fun r => do
      let _ ← persistStatus policy r status
      return ()) := by
  induction records with
  | nil => exact pure ()
  | cons r rs ih =>
    exact bind (bind (of_steady (Steady.persistStatus policy (ownsNothing g) r status none))
      fun _ => pure ()) fun _ => ih

theorem accessAllowed (env : StartEnv) (threadId : String) (request : StartRequest)
    (user : RequestUser) : Plain call g (Runs.accessAllowed env threadId request user) := by
  refine bind (outside _) fun allowed => ?_
  split
  · exact pure true
  · split
    · exact pure false
    · exact outside _

theorem checkThread (env : StartEnv) (threadId : String) (request : StartRequest) :
    Plain call g (Runs.checkThread env threadId request) := by
  rw [Runs.checkThread]
  split
  · exact pure ()
  · refine bind (accessAllowed env threadId request _) fun allowed => ?_
    split
    · exact pure ()
    · exact raise _

theorem upsertThread (env : StartEnv) (threadId : String) (request : StartRequest) :
    Plain call g (Runs.upsertThread env threadId request) := by
  refine catchException (bind (outside _) fun existing => ?_) fun _ => pure ()
  split
  · refine bind (outside _) fun unscoped => ?_
    split
    · exact outside _
    · split
      · exact bind (outside _) fun _ => bind (outside _) fun _ => outside _
      · exact bind (outside _) fun _ => outside _
  · exact outside _

theorem findCheckpoint (read : Option ReadConfig) : Plain call g (Runs.findCheckpoint read) := by
  cases read with
  | none => exact pure _
  | some read => exact catchException (bind (outside _) fun found => pure _) fun _ => pure _

end Plain

theorem safe_cancel {runId : ℕ} {action : AbortAction} :
    Plain call 0 (Runs.cancel policy runId action) := by
  intro c h
  rw [Runs.cancel, Coro.bind_def, asTask_bind]
  refine Safe.bind_iff.mpr (safe_underLock (ownsNothing 0) h (fun res c' hkept hres => ?_)
    fun c' hheld _ _ => ?_)
  · subst hres
    exact hkept.plain
  · rw [asTask_update, then_ok]
    obtain ⟨known, hcancel⟩ | ⟨r, hr, hid, hopen, hcancel⟩ := c'.now.cancel_cases runId action
    · rw [hcancel]
      exact hheld.release
    · rw [hcancel]
      have hmoved : Held none (lockShare + 0) { c' with now := c'.now.interrupt runId action } := by
        refine hheld.locked_write ?_ (by simp)
        rw [← add_assoc]
        exact hheld.fair.interrupt hr hid hopen action
      exact Plain.bind (Plain.of_steady (Steady.persistStatus policy (ownsNothing 0) r _ none))
        (fun _ => Plain.pure true) _ hmoved.release

/-! ### Admission -/

/-- What is known of the runs in the way while a run is created. -/
def InTheWay (w : RunWorld) (threadId : String) (runId : ℕ) (ids : List ℕ) : Prop :=
  ∀ r ∈ w.runs, (r.runId = runId → r.threadId = threadId) ∧ (r.runId ∈ ids → r.IsOpen ∨ r.finalizing) ∧
    (r.runId ≠ runId → r.threadId = threadId →
      (r.IsOpen ∨ r.finalizing → r.runId ∈ ids) ∧ (executing w.log r.runId → r.IsOpen ∨ r.finalizing))

theorem InTheWay.rely {w w' : RunWorld} {threadId : String} {runId : ℕ} {ids : List ℕ}
    (h : InTheWay w threadId runId ids)
    (hfaces : w'.runs.map RunRecord.face = w.runs.map RunRecord.face)
    (hexec : ∀ id, executing w'.log id → executing w.log id) : InTheWay w' threadId runId ids := by
  intro r' hr'
  have hin : r'.face ∈ w.runs.map RunRecord.face := hfaces ▸ mem_map_of_mem hr'
  obtain ⟨r, hr, hface⟩ := mem_map.mp hin
  obtain ⟨hid, hthread, hstatus, hfin⟩ : r.runId = r'.runId ∧ r.threadId = r'.threadId ∧
      r.status = r'.status ∧ r.finalizing = r'.finalizing := by
    simpa [RunRecord.face] using hface
  obtain ⟨hnew, hway, hold⟩ := h r hr
  have hopen : r'.IsOpen ∨ r'.finalizing ↔ r.IsOpen ∨ r.finalizing := by
    rw [RunRecord.IsOpen, RunRecord.IsOpen, hstatus, hfin]
  rw [hopen, ← hid, ← hthread]
  exact ⟨hnew, hway, fun hne hsame => ⟨(hold hne hsame).1, fun he => (hold hne hsame).2 (hexec _ he)⟩⟩

theorem inflight_iff {r : RunRecord} : r.inflight = true ↔ r.IsOpen ∨ r.finalizing := by
  rw [RunRecord.inflight, RunRecord.IsOpen, decide_eq_true_iff, or_assoc]

theorem InTheWay.insert {w : RunWorld} (h : Fair w (lockShare + g)) {info : RunInfo}
    (hordered : ∀ r ∈ w.runs, r.threadId = info.threadId → executing w.log r.runId →
      r.IsOpen ∨ r.finalizing) :
    InTheWay (w.insertRecord info).2 info.threadId w.uuids (w.inflight info.threadId) := by
  have hmem : ∀ {r}, r ∈ w.runs → r.runId ∈ w.inflight info.threadId →
      r.threadId = info.threadId ∧ (r.IsOpen ∨ r.finalizing) := by
    intro r hr hin
    obtain ⟨r', hr', hid⟩ := mem_map.mp hin
    obtain ⟨hthread, hinflight⟩ := mem_filter.mp hr'
    obtain ⟨hr', hthread⟩ := mem_filter.mp hthread
    rw [← h.eq_of_runId hr' hr hid]
    exact ⟨of_decide_eq_true hthread, inflight_iff.mp hinflight⟩
  intro r hr
  obtain hr | hr := mem_append.mp hr
  · refine ⟨fun hid => absurd hid (h.fresh r hr).ne, fun hin => (hmem hr hin).2,
      fun _ hthread => ⟨fun hway => ?_, hordered r hr hthread⟩⟩
    exact mem_map_of_mem (mem_filter.mpr
      ⟨mem_filter.mpr ⟨hr, decide_eq_true hthread⟩, inflight_iff.mpr hway⟩)
  · rw [mem_singleton.mp hr]
    exact ⟨fun _ => rfl, fun _ => .inl (.inl rfl), fun hne => absurd rfl hne⟩

theorem InTheWay.cleared {w : RunWorld} {threadId : String} {runId : ℕ}
    (h : InTheWay w threadId runId []) : Fair.Cleared w threadId runId := by
  intro r hr hne hthread
  obtain ⟨-, -, hold⟩ := h r hr
  obtain ⟨hway, hexec⟩ := hold hne hthread
  exact ⟨fun ho => not_mem_nil (hway (.inl ho)),
    fun he => absurd (hway (hexec he)) not_mem_nil⟩

theorem InTheWay.interrupted {w : RunWorld} {threadId : String} {runId : ℕ} {ids : List ℕ}
    (hfair : Fair w g) (h : InTheWay w threadId runId ids) (hnodup : ids.Nodup) (action : AbortAction) :
    Fair (interruptAll action ids w).2 g ∧
      Fair.Cleared (interruptAll action ids w).2 threadId runId ∧
      ∀ r ∈ (interruptAll action ids w).2.runs, r.runId = runId → r.threadId = threadId := by
  obtain ⟨hfair', hexec, hruns⟩ := hfair.interrupted action hnodup fun r hr hin => (h r hr).2.1 hin
  refine ⟨hfair', fun r' hr' hne hthread => ?_, fun r' hr' hid => ?_⟩
  · obtain ⟨r, hr, hid, hsame, hcases⟩ := hruns r' hr'
    obtain ⟨hway, hexec₀⟩ := (h r hr).2.2 (hid ▸ hne) (hsame ▸ hthread)
    obtain ⟨hout, rfl⟩ | ⟨-, hclosed, hfin⟩ := hcases
    · refine ⟨fun ho => hout (hway (.inl ho)), fun he => ?_⟩
      exact absurd (hway (hexec₀ (hexec _ ▸ he))) hout
    · exact ⟨hclosed, fun he => hfin (by rw [hexec, hid] at he; exact he)⟩
  · obtain ⟨r, hr, hrid, hsame, -⟩ := hruns r' hr'
    rw [hsame]
    exact (h r hr).1 (hrid ▸ hid)

theorem safe_callStore {runId : ℕ} {write : StoreCall} {Q : Except ManagerExn Bool → ThreadCtx → Prop}
    (h : Held none g c)
    (hQ : ∀ c' a, Held none g c' → Respecting g c.now c'.now → Q (.ok a) c') :
    fairness.Safe taskBackend call (asTask none (callStoreWithRetry policy runId write)) Q c := by
  have hawait : ∀ attempt, ∀ {Q' : Except ManagerExn Bool → ThreadCtx → Prop},
      (∀ a c', Q (.ok a) c' → Q' (.ok a) c') →
      fairness.Safe taskBackend call (asTask none (runAwait (.store runId attempt write))) Q' c := by
    intro attempt Q' hQ'
    refine safe_await (ownsNothing g) h (fun res c' hkept hres => ?_)
      fun trace answer s frame hheld hrel _ _ => ?_
    · obtain ⟨-, hnot⟩ | ⟨htask, -, -, -, -⟩ := hkept
      · exact absurd hres hnot
      · cases htask
    · refine hQ' _ _ (hQ _ _ ?_ ?_)
      · cases write <;> exact hheld.of_same rfl rfl rfl rfl
      · cases write <;> exact hrel
  rw [callStoreWithRetry]
  cases policy.maxAttempts - 1 with
  | zero => exact hawait 1 fun _ _ h => h
  | succ left =>
    rw [retrying, asTask_tryCatch]
    exact Safe.tryCatch_iff.mpr (hawait 1 fun _ _ h => h)

/-- After the part of `create_or_reject` under the lock: the run is there, or nothing is. -/
def Admitted {β : Type} : Except ManagerExn (RunRecord × β) → ThreadCtx → Prop
  | .ok (record, _), c => Held none (share record.runId .starting) c
  | .error _, c => Held none 0 c

theorem Held.settled {runId : ℕ} {threadId : String} {w : RunWorld}
    (h : Held none (lockShare + share runId .creating) c)
    (hfair : Fair w (share runId .creating + (lockShare + c.frame)))
    (hcleared : Fair.Cleared w threadId runId)
    (hthread : ∀ r ∈ w.runs, r.runId = runId → r.threadId = threadId) :
    Held none (share runId .starting) { c with now := w.release } := by
  refine Held.release (c := { c with now := w }) ⟨?_, fun hframe => absurd h.frame_idle hframe, by simp⟩
  rw [add_assoc, add_left_comm]
  exact hfair.settle hthread hcleared

/-- **Admission under the lock.** -/
theorem safe_admitRun {info : RunInfo} {body : StartBody} {request : StartRequest} {w : RunWorld}
    (h : Held none (lockShare + 0) c) (hw : c.now = { w with locked := true })
    (hstrategy : info.multitaskStrategy = body.multitaskStrategy)
    (hordered : Orderly w (.start info.threadId body request) (some ⟨none, .acquire⟩)) :
    fairness.Safe taskBackend call (asTask none (admitRun policy info))
      (fun res c' => Admitted res { c' with now := c'.now.release }) c := by
  rw [admitRun]
  split
  · exact h.release
  rename_i henqueue
  show fairness.Safe taskBackend call (asTask none
    (if info.multitaskStrategy = .reject ∧ c.now.inflight info.threadId ≠ [] then _ else _)) _ c
  split
  · exact h.release
  rename_i hconflict
  have hinflight : c.now.inflight info.threadId = w.inflight info.threadId := by
    rw [hw]
    rfl
  have hadmits : w.admitsRun info.threadId body.multitaskStrategy := by
    rw [hinflight, hstrategy] at hconflict
    exact ⟨hstrategy ▸ henqueue, hconflict⟩
  have hfair : Fair c.now (lockShare + c.frame) := by
    have hfair := h.fair
    rwa [add_zero] at hfair
  have hway : InTheWay (c.now.insertRecord info).2 info.threadId c.now.uuids
      (c.now.inflight info.threadId) := by
    refine InTheWay.insert hfair fun r hr hthread he => ?_
    rw [hw] at hr he
    exact hordered hadmits r hr hthread he
  have hnodup : (c.now.inflight info.threadId).Nodup :=
    hfair.ids.sublist ((filter_sublist.trans filter_sublist).map _)
  have hinserted : Held none (lockShare + share c.now.uuids .creating)
      { c with now := (c.now.insertRecord info).2 } := by
    refine ⟨?_, fun hframe => absurd h.frame_idle hframe, by simp⟩
    rw [add_assoc, add_left_comm]
    exact hfair.insert info
  show fairness.Safe taskBackend call (asTask none (Coro.bind
    (Coro.tryCatch (persistNewRunToStore policy (c.now.insertRecord info).1) _) _)) _
      { c with now := (c.now.insertRecord info).2 }
  rw [asTask_bind, asTask_tryCatch, persistNewRunToStore, Coro.bind_def, asTask_bind]
  refine Safe.bind_iff.mpr (Safe.tryCatch_iff.mpr (Safe.bind_iff.mpr
    (safe_callStore policy hinserted fun c' a hheld hrel => ?_)))
  have hlocked : (lockShare + share c.now.uuids .creating).2 ≠ 0 := by
    intro hzero
    have hin : () ∈ (lockShare + share c.now.uuids .creating).2 :=
      Multiset.mem_add.mpr (.inl (Multiset.mem_singleton_self _))
    rw [hzero] at hin
    exact absurd hin (Multiset.notMem_zero _)
  have hway' := hway.rely (hrel hlocked).1 (hrel hlocked).2
  have hfair' : Fair c'.now (share c.now.uuids .creating + (lockShare + c'.frame)) := by
    have hfair := hheld.fair
    rwa [add_assoc, add_left_comm] at hfair
  show fairness.Safe taskBackend call (asTask none (if info.multitaskStrategy = .reject then _ else _)) _ c'
  split
  · rename_i hreject
    have hnone : c.now.inflight info.threadId = [] := by
      by_contra hsome
      exact hconflict ⟨hreject, hsome⟩
    rw [hnone] at hway'
    exact hheld.settled hfair' hway'.cleared fun r hr => (hway' r hr).1
  · obtain ⟨hfair'', hcleared, hthread⟩ :=
      InTheWay.interrupted hfair' hway' hnodup info.multitaskStrategy.action
    exact hheld.settled hfair'' hcleared hthread

/-- A new run belongs to the start that created it. -/
def Created : Except ManagerExn RunRecord → ThreadCtx → Prop
  | .ok record, c => Held none (share record.runId .starting) c
  | .error _, c => ∃ g, Held none g c

theorem safe_createOrReject {info : RunInfo} {body : StartBody} {request : StartRequest}
    (h : Held none 0 c) (hcall : call = .start info.threadId body request)
    (hstrategy : info.multitaskStrategy = body.multitaskStrategy) :
    fairness.Safe taskBackend call (asTask none (createOrReject policy info)) Created c := by
  rw [createOrReject, Coro.bind_def, asTask_bind]
  refine Safe.bind_iff.mpr (safe_underLock (ownsNothing 0) h (fun res c' hkept hres => ?_)
    fun c' hheld _ hacquired => ?_)
  · subst hres
    exact ⟨0, hkept.plain⟩
  · obtain ⟨w, hordered, hw⟩ := hacquired
    rw [hcall] at hordered
    refine Safe.mono (fun res c'' hadmitted => ?_) (safe_admitRun policy hheld hw hstrategy hordered)
    obtain e | ⟨record, records⟩ := res
    · exact ⟨0, hadmitted⟩
    · show fairness.Safe taskBackend call (asTask none (Coro.bind (Coro.forEach records _) _)) _ _
      rw [asTask_bind]
      refine Safe.bind_iff.mpr (Safe.mono (fun res c hheld => ?_)
        (Plain.persistAll policy records .interrupted _ hadmitted))
      cases res with
      | ok a => exact hheld
      | error e => exact ⟨_, hheld⟩

/-! ### After admission -/

theorem Plain.then {p : RunProc α} {f : α → RunProc β} {Q : Except ManagerExn β → ThreadCtx → Prop}
    (hp : Plain call g p) (h : Held none g c) (herror : ∀ e c', Held none g c' → Q (.error e) c')
    (hf : ∀ a c', Held none g c' → fairness.Safe taskBackend call (asTask none (f a)) Q c') :
    fairness.Safe taskBackend call (asTask none (p.bind f)) Q c := by
  rw [asTask_bind]
  refine Safe.bind_iff.mpr (Safe.mono (fun res c' hheld => ?_) (hp c h))
  cases res with
  | ok a => exact hf a c' hheld
  | error e => exact herror e c' hheld

/-- A start owns its run, which is pending still if the config could be made. -/
def Prepared (runId : ℕ) {β : Type} (res : Except ManagerExn β) (c : ThreadCtx) : Prop :=
  Held none (share runId .starting) c ∧
    ∀ a, res = .ok a → ∀ r ∈ c.now.runs, r.runId = runId → r.status = .pending

theorem Prepared.error {runId : ℕ} {e : ManagerExn} (h : Held none (share runId .starting) c) :
    Prepared runId (.error e : Except ManagerExn β) c :=
  ⟨h, fun _ hres => by cases hres⟩

theorem safe_makeConfig (env : StartEnv) {threadId : String} {body : RunBody} {request : RunRequest}
    {runId : ℕ} (hcall : ∃ threadId body request, call = .start threadId body request)
    (h : Held none (share runId .starting) c) :
    fairness.Safe taskBackend call (asTask none (makeConfig env threadId body request runId))
      (Prepared runId) c := by
  obtain ⟨_, _, _, rfl⟩ := hcall
  rw [makeConfig]
  refine Plain.then (Plain.ofExcept _) h (fun _ _ => .error) fun config c h => ?_
  refine Plain.then (Plain.ofExcept _) h (fun _ _ => .error) fun read c h => ?_
  refine Plain.then (Plain.findCheckpoint _) h (fun _ _ => .error) fun tuple c h => ?_
  refine Plain.then (Plain.ofExcept _) h (fun _ _ => .error) fun config c h => ?_
  rw [Coro.bind_def, asTask_bind, catchException, asTask_tryCatch]
  refine Safe.bind_iff.mpr (Safe.tryCatch_iff.mpr (safe_await (ownsNothing _) h
    (fun res c' hkept hres => ?_) fun trace answer s frame hheld _ _ hordered => ?_))
  · subst hres
    exact .error hkept.plain
  · have hprepared : Prepared runId (.ok () : Except ManagerExn Unit) ⟨trace, answer, s, frame, s⟩ :=
      ⟨hheld, fun _ _ => hordered⟩
    show Catch _ _ _ _ _ ((s.outside (.internalOwner runId)).mapError ManagerExn.other) _
    cases s.outside (.internalOwner runId) with
    | ok | error => exact ⟨hprepared.1, fun _ _ => hordered⟩

theorem safe_launch (env : StartEnv) {threadId : String} {body : StartBody} {request : StartRequest}
    {record : RunRecord} (hcall : ∃ threadId body request, call = .start threadId body request)
    (h : Held none (share record.runId .starting) c) :
    fairness.Safe taskBackend call (asTask none (launch env threadId body request record))
      (fun _ c' => ∃ g, Held none g c') c := by
  rw [launch]
  refine Plain.then (Plain.upsertThread env threadId request) h (fun _ _ h => ⟨_, h⟩) fun _ c h => ?_
  refine Plain.then (Plain.ofExcept _) h (fun _ _ h => ⟨_, h⟩) fun input c h => ?_
  rw [Coro.bind_def, asTask_bind]
  refine Safe.bind_iff.mpr (Safe.mono (fun res c hprepared => ?_) (safe_makeConfig env hcall h))
  obtain ⟨hheld, hpending⟩ := hprepared
  cases res with
  | error e => exact ⟨_, hheld⟩
  | ok config =>
    have hfair := hheld.fair.attach (hpending _ rfl)
    rw [← zero_add c.frame] at hfair
    exact ⟨0, hheld.write hfair (c.now.faces_modify record.runId fun _ => rfl) (fun _ he => he) (by simp)⟩

/-- **A start.** -/
theorem safe_startRun (env : StartEnv) {threadId : String} {body : StartBody} {request : StartRequest}
    (hcall : call = .start threadId body request) (h : Held none 0 c) :
    fairness.Safe taskBackend call (asTask none (startRun env threadId body request))
      (fun _ c' => ∃ g, Held none g c') c := by
  rw [startRun]
  refine Plain.then (Plain.ofExcept _) h (fun _ _ h => ⟨_, h⟩) fun _ c h => ?_
  refine Plain.then (Plain.checkThread env threadId request) h (fun _ _ h => ⟨_, h⟩) fun _ c h => ?_
  rw [Coro.bind_def, asTask_bind, admission]
  refine Safe.bind_iff.mpr (Plain.then (Plain.outside _) h (fun _ _ h => ⟨_, h⟩) fun _ c h => ?_)
  rw [asTask_tryCatch]
  refine Safe.tryCatch_iff.mpr (Safe.mono (fun res c hcreated => ?_)
    (safe_createOrReject env.policy h hcall rfl))
  cases res with
  | ok record => exact safe_launch env ⟨_, _, _, hcall⟩ hcreated
  | error e => exact hcreated

end Plain

end Rules

end Turns

open Turns

/-! ### The headline -/

/-- A condition on every step of a run. -/
def EveryTask (C : RunWorld → ThreadCall → Option TaskOp → Outcome → Prop) (s : ThreadState) :
    Label ThreadCall ThreadTick → Prop
  | .resume i out => ∀ t ∈ s.tasks[i]?, C s.world t.req t.pending out
  | _ => True

/-- What the scheduler does. -/
def Possible (w : RunWorld) (_ : ThreadCall) (waits : Option TaskOp) (out : Outcome) : Prop :=
  out = .ok ∧ Realizable w waits

/-- What it does where the two gaps are not met. -/
def InTurn (w : RunWorld) (call : ThreadCall) (waits : Option TaskOp) (out : Outcome) : Prop :=
  out = .ok ∧ Realizable w waits ∧ Orderly w call waits

theorem fairness_safe (env : StartEnv) (ctx : RunContext) (call : ThreadCall) :
    SafeHandler fairness taskBackend call (call.proc env ctx) := by
  refine ⟨trivial, fun s frame hinv => ?_⟩
  have h : Turns.Held none 0 ⟨[], none, s, frame, s⟩ := ⟨hinv, fun _ => ⟨rfl, fun _ he => he⟩, by simp⟩
  have hfinal : ∀ (res : Except ManagerExn Unit) c, (∃ g, Turns.Held none g c) →
      fairness.Final call res c := fun _ _ ⟨g, hheld⟩ =>
    ⟨⟨g, hheld.fair, hheld.respects, trivial⟩, trivial⟩
  cases call with
  | start threadId body request =>
    rw [ThreadCall.proc, asTask_bind]
    refine Safe.bind_iff.mpr (Safe.mono (fun res c hheld => ?_) (safe_startRun env rfl h))
    cases res with
    | ok | error => exact hfinal _ _ hheld
  | cancel runId action =>
    rw [ThreadCall.proc, asTask_bind]
    refine Safe.bind_iff.mpr (Safe.mono (fun res c hheld => ?_) (Turns.safe_cancel env.policy _ h))
    cases res with
    | ok | error => exact hfinal _ _ ⟨0, hheld⟩
  | worker runId =>
    exact Safe.mono (fun res c hheld => hfinal _ _ ⟨0, hheld⟩) (safe_runTask env.policy ctx h)

theorem fairness_admits (env : StartEnv) (ctx : RunContext) :
    Logic.Admits fairness (threadProgram env ctx) (EveryTask InTurn) where
  spawn _ req _ := fairness_safe env ctx req
  env s e g _ h := by
    cases e with
    | outside | clock => exact ⟨h.neutral rfl rfl rfl rfl, fun _ => ⟨rfl, fun _ he => he⟩⟩
  resume s out l₁ t l₂ gs₁ gs₂ hC htasks _ _ := by
    refine hC t ?_
    rw [htasks, getElem?_append_right (Nat.le_refl _), Nat.sub_self, getElem?_cons_zero]
    rfl

/-- A manager that has just been created. -/
structure RunWorld.New (w : RunWorld) : Prop where
  runs : w.runs = []
  log : w.log = []
  free : w.locked = false

theorem RunWorld.New.fair {w : RunWorld} (h : w.New) : Fair w 0 := by
  obtain ⟨hruns, hlog, hfree⟩ := h
  constructor <;> simp [hruns, hlog, hfree, NeverResumed]

theorem Fair.oneAtATime {w : RunWorld} {g : Shares} (h : Fair w g) : OneAtATime w := by
  have hpair : w.runs.Pairwise fun r r' => r.threadId = r'.threadId → executing w.log r.runId →
      executing w.log r'.runId → r.runId = r'.runId := by
    refine List.Pairwise.imp_of_mem (fun {r r'} _ hr' hold hthread he he' => ?_) h.order
    have hset : (r'.runId, .creating) ∉ g.1 := fun hin =>
      ((h.records r' hr').2 (some .creating) hin).2 he'
    exact absurd he ((hold hthread hset).alone (.inr he'))
  have : Std.Symm fun r r' : RunRecord => r.threadId = r'.threadId → executing w.log r.runId →
      executing w.log r'.runId → r.runId = r'.runId :=
    ⟨fun _ _ hxy hthread he he' => (hxy hthread.symm he' he).symm⟩
  exact fun r hr r' hr' => hpair.forall_of_forall (fun _ _ _ _ _ => rfl) hr hr'

/-- **One run of a thread at a time.** Any number of starts, cancellations and workers, in any
interleaving, with any answers from outside. If tasks are attached to pending runs only, and no run
is admitted while a run that ended by itself is cleaning up, then at most one run of a thread is
between running and the end of its cleanup, and no interrupted run comes back. -/
theorem one_run_at_a_time (env : StartEnv) (ctx : RunContext) {w : RunWorld} (hw : w.New)
    {s : ThreadState} (hs : Steps (threadProgram env ctx) (EveryTask InTurn) ⟨w, []⟩ s) :
    OneAtATime s.world ∧ NeverResumed s.world := by
  obtain ⟨gs, -, hinv⟩ := (sound (fairness_admits env ctx) (Good.init hw.fair) hs).1
  exact ⟨Fair.oneAtATime hinv, hinv.history⟩

instance (w : RunWorld) (call : ThreadCall) (waits : Option TaskOp) (out : Outcome) :
    Decidable (Possible w call waits out) := inferInstanceAs (Decidable (_ ∧ _))

instance (w : RunWorld) (call : ThreadCall) (waits : Option TaskOp) (out : Outcome) :
    Decidable (InTurn w call waits out) := inferInstanceAs (Decidable (_ ∧ _ ∧ _))

instance (C : RunWorld → ThreadCall → Option TaskOp → Outcome → Prop)
    [∀ w call waits out, Decidable (C w call waits out)] (s : ThreadState)
    (l : Label ThreadCall ThreadTick) : Decidable (EveryTask C s l) :=
  match l with
  | .resume i _ => match h : s.tasks[i]? with
    | none => .isTrue fun t ht => by rw [h] at ht; cases ht
    | some t => decidable_of_iff (C s.world t.req t.pending _)
        ⟨fun hC t' ht => by rw [h] at ht; cases ht; exact hC, fun hC => hC t h⟩
  | .spawn _ => .isTrue trivial
  | .env _ => .isTrue trivial

/-- A hook is all that is configured. -/
def hookOnly : RunContext where
  checkpointer := false
  eventStore := false
  threadStore := false
  completedHook := true
  fuel := 3

def plainCall (strategy : Strategy) : ThreadCall :=
  .start "t" { multitaskStrategy := strategy } anonymous

/-- A run is started, and its worker takes some steps. -/
def started (steps : ℕ) : List (Label ThreadCall ThreadTick) :=
  [.spawn (plainCall .reject)] ++ List.replicate 7 (.resume 0 .ok) ++
  [.spawn (.worker 0)] ++ List.replicate steps (.resume 1 .ok)

/-- A second run is started, and its worker gets to where it is set to running. -/
def startedAgain : List (Label ThreadCall ThreadTick) :=
  [.spawn (plainCall .reject)] ++ List.replicate 7 (.resume 2 .ok) ++
  [.spawn (.worker 1)] ++ List.replicate 4 (.resume 3 .ok)

/-- The second run waits for the first. -/
def inTurn : ThreadState :=
  (runWith (threadProgram demoStart hookOnly) (EveryTask InTurn) ⟨idleManager, []⟩
    (started 11 ++ startedAgain)).get (by decide +kernel)

theorem one_run_at_a_time_demo :
    executing inTurn.world.log 1 = true ∧ OneAtATime inTurn.world ∧ NeverResumed inTurn.world :=
  ⟨by decide +kernel, one_run_at_a_time demoStart hookOnly ⟨rfl, rfl, rfl⟩ (Steps.of_runWith_get _)⟩

/-- The second run starts while the first one is in its hook. -/
def overlapping : ThreadState :=
  (runWith (threadProgram demoStart hookOnly) (EveryTask Possible) ⟨idleManager, []⟩
    (started 9 ++ startedAgain)).get (by decide +kernel)

/-- A run is cancelled before it has a task, and gets one. -/
def cancelledEarly : ThreadState :=
  (runWith (threadProgram demoStart hookOnly) (EveryTask Possible) ⟨idleManager, []⟩
    ([.spawn (plainCall .reject)] ++ List.replicate 6 (.resume 0 .ok) ++
      [.spawn (.cancel 0 .interrupt)] ++ List.replicate 3 (.resume 1 .ok) ++ [.resume 0 .ok] ++
      [.spawn (.worker 0)] ++ List.replicate 7 (.resume 2 .ok))).get (by decide +kernel)

/-- **Two runs of a thread overlap, and an interrupted run executes.** The first run has ended and
is in the hook of its cleanup when the second is set to running. And a run that was cancelled while
its start still made the config is set to running and executes its graph. -/
theorem two_runs_execute :
    (Steps (threadProgram demoStart hookOnly) (EveryTask Possible) ⟨idleManager, []⟩ overlapping ∧
      ¬ OneAtATime overlapping.world) ∧
    Steps (threadProgram demoStart hookOnly) (EveryTask Possible) ⟨idleManager, []⟩ cancelledEarly ∧
      ¬ NeverResumed cancelledEarly.world ∧
      cancelledEarly.world.log = [.status 0 .interrupted, .status 0 .running, .executes 0] := by
  have hruns : overlapping.world.runs.map (fun r => (r.runId, r.threadId)) = [(0, "t"), (1, "t")] := by
    decide +kernel
  have hlog : cancelledEarly.world.log = [.status 0 .interrupted, .status 0 .running, .executes 0] := by
    decide +kernel
  refine ⟨⟨Steps.of_runWith_get _, fun h => ?_⟩, Steps.of_runWith_get _, fun h => ?_, hlog⟩
  · have hmem : ∀ p ∈ [(0, "t"), (1, "t")], ∃ r ∈ overlapping.world.runs, (r.runId, r.threadId) = p := by
      rw [← hruns]
      exact fun p hp => mem_map.mp hp
    obtain ⟨r, hr, hid⟩ := hmem (0, "t") (by simp)
    obtain ⟨r', hr', hid'⟩ := hmem (1, "t") (by simp)
    obtain ⟨hid, hthread⟩ := Prod.mk.inj hid
    obtain ⟨hid', hthread'⟩ := Prod.mk.inj hid'
    have hexec : executing overlapping.world.log 0 = true ∧ executing overlapping.world.log 1 = true := by
      decide +kernel
    have hsame := h r hr r' hr' (hthread.trans hthread'.symm) (hid ▸ hexec.1) (hid' ▸ hexec.2)
    rw [hid, hid'] at hsame
    cases hsame
  · rw [NeverResumed, hlog, pairwise_cons] at h
    exact (h.1 _ mem_cons_self 0 rfl).1 rfl

end AfterFlow.Runs
