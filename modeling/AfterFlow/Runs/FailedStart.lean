import AfterFlow.Runs.Confinement
import AfterFlow.Runs.Start

/-!
# A start that fails

`start_run` creates the run before it looks at the input, the config and the checkpoint of the
request. Nothing takes the run back when one of these raises: it stays pending, without a task that
could ever end it, and every later start that rejects concurrent runs is answered with a conflict.

A start runs alone here, in any state of the manager, with any answers from outside.

## Main results

* `failed_start_leaves_nothing_iff` — the headline
* `failed_start_blocks_thread` — a malformed message, and the conflict it causes
-/

namespace AfterFlow.Runs

open Coop List

/-- The manager's operations, none of which fails. -/
def runBackend : Backend RunWorld RunOp RunOp.Reply ManagerExn := ⟨RunOp.perform, .database true⟩

/-! ### The statement -/

/-- A start that raised left no active run of its own, and nothing in the way of a later start. -/
def LeavesNothing (w : RunWorld) (threadId : String)
    (out : Except ManagerExn RunRecord × RunWorld) : Prop :=
  ∀ e, out.1 = .error e → w.uuids ∉ out.2.inflight threadId ∧
    ∀ r ∈ out.2.runs, r.runId = w.uuids →
      r.status ≠ .pending ∧ r.status ≠ .running ∧ r.task = none

/-- Whether a user may use the thread. -/
def RunWorld.granted (w : RunWorld) (threadId userId : String) : Bool :=
  match w.outside (.checkAccess threadId userId) with
  | .ok allowed => allowed
  | .error _ => false

/-- Whether a user or the owner it acts for may use the thread. -/
def RunWorld.grantsUser (w : RunWorld) (env : StartEnv) (threadId : String) (request : StartRequest)
    (user : RequestUser) : Bool :=
  match w.outside (.checkAccess threadId user.id) with
  | .error _ => false
  | .ok allowed => allowed || (trustedOwner env request).any (w.granted threadId)

/-- Whether the caller may use the thread. -/
def RunWorld.grants (w : RunWorld) (env : StartEnv) (threadId : String) (request : StartRequest) :
    Bool :=
  match request.user with
  | none => true
  | some user => w.grantsUser env threadId request user

/-- The manager has nothing against a run. -/
def RunWorld.accepts (w : RunWorld) (info : RunInfo) : Prop :=
  info.multitaskStrategy ≠ .enqueue ∧
    ¬ (info.multitaskStrategy = .reject ∧ w.inflight info.threadId ≠ [])

instance (w : RunWorld) (info : RunInfo) : Decidable (w.accepts info) :=
  inferInstanceAs (Decidable (_ ∧ _))

/-- The request passes every check before the run exists. -/
structure Admits (env : StartEnv) (w : RunWorld) (threadId : String) (body : StartBody)
    (request : StartRequest) : Prop where
  model : checkModel env body = .ok ()
  thread : w.grants env threadId request = true
  lock : w.outside (.goalThreadLock threadId) = .ok ()
  accepts : w.accepts (runInfo env threadId body request)

/-- What the checkpointer answers. -/
def RunWorld.agetTuple (w : RunWorld) (read : ReadConfig) : Except Unit Bool :=
  (w.outside (.checkpoint read)).mapError fun _ => ()

/-- The input and the config of the request can be made. -/
def Prepares (env : StartEnv) (w : RunWorld) (threadId : String) (body : StartBody)
    (request : StartRequest) : Prop :=
  (∃ input, graphInput env body = .ok input) ∧
    ∃ config, runConfig (env.toGatewayEnv.answering w.agetTuple) threadId body.toRunBody
      request.toRunRequest = .ok config

/-! ### Asking the world outside -/

/-- Only asks outside: the manager is as it was, and what is raised comes from there. -/
def Outer {α : Type} (p : RunProc α) : Prop :=
  ∀ w, (runAlone runBackend p w).2 = w ∧
    ∀ e, (runAlone runBackend p w).1 = .error e → ∃ text, e = .other text

theorem Outer.pure {α : Type} (a : α) : Outer (.pure a) := by
  intro w
  refine ⟨rfl, fun e he => ?_⟩
  cases he

theorem runAlone_ask (q : Query) (w : RunWorld) :
    runAlone runBackend (runAwait (.outside q)) w = ((w.outside q).mapError .other, w) :=
  runAlone_call runBackend (.outside q) w

theorem Outer.ask (q : Query) : Outer (runAwait (.outside q)) := by
  intro w
  rw [runAlone_ask]
  refine ⟨rfl, fun e he => ?_⟩
  cases ho : w.outside q with
  | ok reply =>
    rw [ho] at he
    cases he
  | error text =>
    rw [ho] at he
    cases he
    exact ⟨text, rfl⟩

theorem Outer.bind {α β : Type} {p : RunProc α} {f : α → RunProc β} (hp : Outer p)
    (hf : ∀ a, Outer (f a)) : Outer (p.bind f) := by
  intro w
  obtain ⟨hw, he⟩ := hp w
  rw [runAlone_bind]
  rcases hres : runAlone runBackend p w with ⟨e | a, w'⟩ <;> rw [hres] at hw he <;> subst hw
  · refine ⟨rfl, fun e' he' => ?_⟩
    cases he'
    exact he _ rfl
  · exact hf a _

theorem Outer.catchException {α : Type} {p : RunProc α} (hp : Outer p) (a : α) (w : RunWorld) :
    runAlone runBackend (catchException p fun _ => .pure a) w =
      (.ok (match (runAlone runBackend p w).1 with
        | .ok b => b
        | .error _ => a), w) := by
  obtain ⟨hw, he⟩ := hp w
  rw [Runs.catchException, runAlone_tryCatch]
  rcases hres : runAlone runBackend p w with ⟨e | b, w'⟩ <;> rw [hres] at hw he <;> subst hw
  · obtain ⟨text, rfl⟩ := he e rfl
    rfl
  · rfl

theorem upsertThread_alone (env : StartEnv) (threadId : String) (request : StartRequest)
    (w : RunWorld) : runAlone runBackend (upsertThread env threadId request) w = (.ok (), w) := by
  refine (Outer.catchException ?_ () w).trans ?_
  · refine (Outer.ask _).bind fun existing => ?_
    split
    · refine (Outer.ask _).bind fun unscoped => ?_
      split
      · exact .ask _
      · split
        · exact (Outer.ask _).bind fun _ => (Outer.ask _).bind fun _ => .ask _
        · exact (Outer.ask _).bind fun _ => .ask _
    · exact .ask _
  · split <;> rfl

theorem accessAllowed_alone (env : StartEnv) (threadId : String) (request : StartRequest)
    (user : RequestUser) (w : RunWorld) :
    ∃ res, runAlone runBackend (accessAllowed env threadId request user) w = (res, w) ∧
      (res = .ok true ↔ w.grantsUser env threadId request user = true) := by
  rw [accessAllowed, Coro.bind_def, runAlone_bind, runAlone_ask, RunWorld.grantsUser]
  cases w.outside (.checkAccess threadId user.id) with
  | error text => exact ⟨_, rfl, ⟨fun h => (by cases h), fun h => (by cases h)⟩⟩
  | ok allowed =>
    cases allowed with
    | true => exact ⟨.ok true, rfl, ⟨fun _ => rfl, fun _ => rfl⟩⟩
    | false =>
      rw [Except.mapError, thenAlone_ok, if_neg Bool.false_ne_true]
      cases trustedOwner env request with
      | none => exact ⟨.ok false, rfl, ⟨fun h => (by cases h), fun h => (by cases h)⟩⟩
      | some owner =>
        dsimp only
        rw [runAlone_ask, Option.any_some, Bool.false_or, RunWorld.granted]
        cases w.outside (.checkAccess threadId owner) with
        | error text => exact ⟨_, rfl, ⟨fun h => (by cases h), fun h => (by cases h)⟩⟩
        | ok granted => exact ⟨.ok granted, rfl, ⟨fun h => (by cases h; rfl), fun h => congrArg _ h⟩⟩

theorem checkThread_alone (env : StartEnv) (threadId : String) (request : StartRequest)
    (w : RunWorld) :
    ∃ res, runAlone runBackend (checkThread env threadId request) w = (res, w) ∧
      (res = .ok () ↔ w.grants env threadId request = true) := by
  rw [checkThread, RunWorld.grants]
  cases request.user with
  | none => exact ⟨_, rfl, ⟨fun _ => rfl, fun _ => rfl⟩⟩
  | some user =>
    dsimp only
    obtain ⟨res, hrun, hiff⟩ := accessAllowed_alone env threadId request user w
    rw [Coro.bind_def, runAlone_bind, hrun, ← hiff]
    rcases res with e | allowed
    · exact ⟨_, rfl, ⟨fun h => (by cases h), fun h => (by cases h)⟩⟩
    · cases allowed with
      | false => exact ⟨_, rfl, ⟨fun h => (by cases h), fun h => (by cases h)⟩⟩
      | true => exact ⟨_, rfl, ⟨fun _ => rfl, fun _ => rfl⟩⟩

/-! ### The manager alone -/

theorem runAlone_get_bind {α : Type} (f : RunWorld → RunProc α) (w : RunWorld) :
    runAlone runBackend (Coro.get.bind f) w = runAlone runBackend (f w) w := rfl

theorem underLock_alone {α : Type} (body : RunProc α) (w : RunWorld) :
    runAlone runBackend (underLock body) w =
      ((runAlone runBackend body { w with locked := true }).1,
        (runAlone runBackend body { w with locked := true }).2.release) := by
  rw [underLock, Coro.withLock, Coro.bind_def, runAlone_bind, runAlone_call]
  show thenAlone _ _ (.ok (), { w with locked := true }) = _
  rw [thenAlone_ok, Coro.bind_def, runAlone_bind, runAlone_tryCatch]
  rcases runAlone runBackend body { w with locked := true } with ⟨e | a, w'⟩ <;> rfl

theorem callStore_alone (policy : RetryPolicy) (runId : ℕ) (call : StoreCall) (w : RunWorld) :
    runAlone runBackend (callStoreWithRetry policy runId call) w =
      (.ok (call.perform runId w).1, (call.perform runId w).2) := by
  rw [callStoreWithRetry]
  cases policy.maxAttempts - 1 with
  | zero => exact runAlone_call runBackend (.store runId 1 call) w
  | succ left =>
    rw [retrying, runAlone_tryCatch, runAlone_call]
    rfl

/-- The registry and the world outside are as they were. -/
structure RunWorld.Same (w w' : RunWorld) : Prop where
  runs : w'.runs = w.runs
  outside : w'.outside = w.outside

theorem RunWorld.Same.trans {w w₁ w₂ : RunWorld} (h : w.Same w₁) (h' : w₁.Same w₂) : w.Same w₂ :=
  ⟨h'.runs.trans h.runs, h'.outside.trans h.outside⟩

theorem perform_same (call : StoreCall) (runId : ℕ) (w : RunWorld) :
    w.Same (call.perform runId w).2 := by
  cases call <;> exact ⟨rfl, rfl⟩

theorem persistNew_alone (policy : RetryPolicy) (record : RunRecord) (w : RunWorld) :
    runAlone runBackend (persistNewRunToStore policy record) w =
      (.ok (), ((StoreCall.put record.payload).perform record.runId w).2) := by
  rw [persistNewRunToStore, Coro.bind_def, runAlone_bind, callStore_alone]
  rfl

/-- A write of a status leaves the records alone, and does not raise. -/
theorem persistStatus_alone (policy : RetryPolicy) (record : RunRecord) (status : RunStatus)
    (error : Option String) (w : RunWorld) :
    ∃ persisted w', runAlone runBackend (persistStatus policy record status error) w =
      (.ok persisted, w') ∧ w.Same w' := by
  have hcatch : ∀ payload, ∃ persisted w', runAlone runBackend (catchException (do
      let updated ← callStoreWithRetry policy record.runId (.updateStatus status error)
      if updated then return true
      else persistSnapshotToStore policy record.runId payload) fun _ => return false) w =
        (.ok persisted, w') ∧ w.Same w' := by
    intro payload
    rw [catchException, runAlone_tryCatch, Coro.bind_def, runAlone_bind, callStore_alone,
      thenAlone_ok]
    split
    · exact ⟨true, _, rfl, perform_same _ _ _⟩
    · rw [persistSnapshotToStore, catchException, runAlone_tryCatch, Coro.bind_def, runAlone_bind,
        callStore_alone, thenAlone_ok]
      exact ⟨true, _, rfl, (perform_same _ _ _).trans (perform_same _ _ _)⟩
  obtain ⟨persisted, w', hrun, hsame⟩ :=
    hcatch (((w.find? record.runId).getD record).payload error)
  refine ⟨persisted, w'.settled record.runId status, ?_, hsame.runs, hsame.outside⟩
  rw [persistStatus, Coro.bind_def, runAlone_bind]
  show thenAlone _ _ (.ok w, w) = _
  rw [thenAlone_ok, Coro.bind_def, runAlone_bind, hrun]
  rfl

theorem persistAll_alone (policy : RetryPolicy) (status : RunStatus) (records : List RunRecord)
    (w : RunWorld) :
    ∃ w', runAlone runBackend (Coro.forEach records fun r => do
      let _ ← persistStatus policy r status
      return ()) w = (.ok (), w') ∧ w.Same w' := by
  induction records generalizing w with
  | nil => exact ⟨w, rfl, rfl, rfl⟩
  | cons r rs ih =>
    obtain ⟨persisted, w₁, hrun, hsame⟩ := persistStatus_alone policy r status none w
    obtain ⟨w₂, hrest, hsame₂⟩ := ih w₁
    refine ⟨w₂, ?_, hsame.trans hsame₂⟩
    rw [Coro.forEach, runAlone_bind, Coro.bind_def, runAlone_bind, hrun]
    exact hrest

theorem mem_interruptAll {action : AbortAction} {ids : List ℕ} {w : RunWorld} {r : RunRecord}
    (hr : r ∈ w.runs) (hid : r.runId ∉ ids) : r ∈ (interruptAll action ids w).2.runs := by
  refine interruptAll_invariant (P := fun w => r ∈ w.runs) (fun w id hin hr => ?_) hr
  have hne : r.runId ≠ id := fun he => hid (he ▸ hin)
  exact mem_map.mpr ⟨r, hr, if_neg hne⟩

theorem interruptAll_outside (action : AbortAction) (ids : List ℕ) (w : RunWorld) :
    (interruptAll action ids w).2.outside = w.outside :=
  interruptAll_invariant (P := fun w' => w'.outside = w.outside) (fun _ _ _ h => h) rfl

/-- **A refused run leaves no record.** -/
theorem createOrReject_refused (policy : RetryPolicy) {info : RunInfo} {w : RunWorld}
    (h : ¬ w.accepts info) :
    ∃ e, (runAlone runBackend (createOrReject policy info) w).1 = .error e ∧
      (runAlone runBackend (createOrReject policy info) w).2.runs = w.runs := by
  have hrun : ∃ e, runAlone runBackend (admitRun policy info) { w with locked := true } =
      (.error e, { w with locked := true }) := by
    rw [admitRun]
    by_cases henqueue : info.multitaskStrategy = .enqueue
    · rw [if_pos henqueue]
      exact ⟨_, rfl⟩
    · have hconflict : info.multitaskStrategy = .reject ∧ w.inflight info.threadId ≠ [] := by
        by_contra hc
        exact h ⟨henqueue, hc⟩
      rw [if_neg henqueue, Coro.bind_def, runAlone_get_bind, if_pos]
      · exact ⟨_, rfl⟩
      · exact hconflict
  obtain ⟨e, hrun⟩ := hrun
  rw [createOrReject, Coro.bind_def, runAlone_bind, underLock_alone, hrun]
  exact ⟨e, rfl, rfl⟩

/-- **An accepted run is in the registry, pending.** -/
theorem createOrReject_admits (policy : RetryPolicy) {info : RunInfo} {w : RunWorld}
    (hfresh : ∀ r ∈ w.runs, r.runId < w.uuids) (h : w.accepts info) :
    ∃ w', runAlone runBackend (createOrReject policy info) w = (.ok (w.insertRecord info).1, w') ∧
      (w.insertRecord info).1 ∈ w'.runs ∧ w'.outside = w.outside := by
  have hrun : ∃ rs w', runAlone runBackend (admitRun policy info) { w with locked := true } =
      (.ok ((w.insertRecord info).1, rs), w') ∧ (w.insertRecord info).1 ∈ w'.runs ∧
        w'.outside = w.outside := by
    have haccepts : ¬ (info.multitaskStrategy = .reject ∧
        RunWorld.inflight { w with locked := true } info.threadId ≠ []) := h.2
    rw [admitRun, if_neg h.1, Coro.bind_def, runAlone_get_bind, if_neg haccepts, Coro.bind_def, runAlone_bind, runAlone_update, thenAlone_ok,
      Coro.bind_def, runAlone_bind, runAlone_tryCatch, persistNew_alone]
    have hmem : (w.insertRecord info).1 ∈ ((w.insertRecord info).2).runs :=
      mem_append_right _ (mem_singleton_self _)
    show ∃ rs w', runAlone runBackend (if info.multitaskStrategy = .reject then _ else _) _ = _ ∧ _
    split
    · refine ⟨[], _, rfl, ?_, (perform_same _ _ _).outside⟩
      rw [(perform_same _ _ _).runs]
      exact hmem
    · refine ⟨_, _, rfl, mem_interruptAll ?_ fun hid => ?_,
        (interruptAll_outside _ _ _).trans (perform_same _ _ _).outside⟩
      · rw [(perform_same _ _ _).runs]
        exact hmem
      · obtain ⟨r, hr, heq⟩ := mem_map.mp hid
        have hold := mem_of_mem_filter (mem_of_mem_filter hr)
        exact (hfresh r hold).ne heq
  obtain ⟨rs, w₁, hrun, hmem, houtside⟩ := hrun
  obtain ⟨w₂, hpersist, hsame⟩ := persistAll_alone policy .interrupted rs w₁.release
  refine ⟨w₂, ?_, by rw [hsame.runs]; exact hmem, hsame.outside.trans houtside⟩
  rw [createOrReject, Coro.bind_def, runAlone_bind, underLock_alone, hrun]
  show runAlone runBackend ((Coro.forEach rs _).bind _) _ = _
  rw [runAlone_bind, hpersist]
  rfl

/-! ### The steps after admission -/

theorem findCheckpoint_alone (read : Option ReadConfig) (w : RunWorld) :
    runAlone runBackend (findCheckpoint read) w = (.ok (match read with
      | none => .ok true
      | some read => w.agetTuple read), w) := by
  cases read with
  | none => rfl
  | some read =>
    refine (Outer.catchException ((Outer.ask _).bind fun found => .pure _) (Except.error ()) w).trans ?_
    rw [runAlone_bind, runAlone_ask]
    show (_, w) = (Except.ok (w.agetTuple read), w)
    rw [RunWorld.agetTuple]
    cases w.outside (.checkpoint read) <;> rfl

/-- The config is made of the request and the checkpointer's answer. -/
theorem makeConfig_alone (env : StartEnv) (threadId : String) (body : RunBody) (request : RunRequest)
    (runId : ℕ) (w : RunWorld) :
    runAlone runBackend (makeConfig env threadId body request runId) w =
      ((runConfig (env.toGatewayEnv.answering w.agetTuple) threadId body request).mapError .service,
        w) := by
  have hbuild : buildRunConfig (env.toGatewayEnv.answering w.agetTuple) threadId body.config
      body.metadata body.assistantId = buildRunConfig env.toGatewayEnv threadId body.config
      body.metadata body.assistantId := rfl
  have hread : ∀ answer, requestedCheckpoint (env.toGatewayEnv.answering answer) body threadId =
      requestedCheckpoint env.toGatewayEnv body threadId := fun _ => rfl
  rw [makeConfig, Coro.bind_def, runAlone_bind, runAlone_ofExcept, runConfig, hbuild]
  cases buildRunConfig env.toGatewayEnv threadId body.config body.metadata body.assistantId with
  | error e => rfl
  | ok config =>
    show runAlone runBackend (Coro.bind _ _) w = (Except.mapError _ ((applyCheckpointToRunConfig
      (env.toGatewayEnv.answering w.agetTuple) config body threadId).bind
        fun config => .ok (finishConfig body request config)), w)
    rw [runAlone_bind, runAlone_ofExcept, applyCheckpointToRunConfig, hread]
    cases hr : requestedCheckpoint env.toGatewayEnv body threadId with
    | error e => rfl
    | ok read =>
      show runAlone runBackend (Coro.bind _ _) w = _
      rw [runAlone_bind, findCheckpoint_alone, thenAlone_ok, Coro.bind_def, runAlone_bind,
        runAlone_ofExcept, applyCheckpointToRunConfig, hread, hr]
      have hlast : ∀ config : RunConfig, runAlone runBackend (do
          let _ ← catchException (runAwait (.outside (.internalOwner runId))) fun _ => return ()
          return finishConfig body request config) w = (.ok (finishConfig body request config), w) := by
        intro config
        rw [Coro.bind_def, runAlone_bind]
        exact (congrArg _ ((Outer.catchException (Outer.ask (.internalOwner runId)) () w))).trans rfl
      cases read with
      | none => exact hlast _
      | some read =>
        dsimp only [GatewayEnv.answering, bind, Except.bind]
        rcases w.agetTuple read with _ | (_ | _)
        · rfl
        · rfl
        · exact hlast _

/-- **What follows admission.** The run gets its task, or nothing changes. -/
theorem launch_alone (env : StartEnv) (threadId : String) (body : StartBody) (request : StartRequest)
    (record : RunRecord) (w : RunWorld) :
    (Prepares env w threadId body request ∧
      runAlone runBackend (launch env threadId body request record) w =
        (.ok record, w.attach record.runId)) ∨
    (¬ Prepares env w threadId body request ∧ ∃ e,
      runAlone runBackend (launch env threadId body request record) w = (.error e, w)) := by
  rw [launch, Coro.bind_def, runAlone_bind, upsertThread_alone, thenAlone_ok, Coro.bind_def,
    runAlone_bind, runAlone_ofExcept]
  cases hinput : graphInput env body with
  | error e =>
    refine .inr ⟨fun h => ?_, e, rfl⟩
    obtain ⟨⟨input, hi⟩, -⟩ := h
    rw [hinput] at hi
    cases hi
  | ok input =>
    rw [thenAlone_ok, Coro.bind_def, runAlone_bind, makeConfig_alone]
    cases hconfig : runConfig (env.toGatewayEnv.answering w.agetTuple) threadId body.toRunBody
      request.toRunRequest with
    | error e =>
      refine .inr ⟨fun h => ?_, .service e, rfl⟩
      obtain ⟨-, config, hc⟩ := h
      rw [hconfig] at hc
      cases hc
    | ok config => exact .inl ⟨⟨⟨input, hinput⟩, config, hconfig⟩, rfl⟩

/-- **What a start does.** It is refused before a run exists, or the run is launched. -/
theorem startRun_alone (env : StartEnv) {w : RunWorld} (hfresh : ∀ r ∈ w.runs, r.runId < w.uuids)
    (threadId : String) (body : StartBody) (request : StartRequest) :
    (¬ Admits env w threadId body request ∧ ∃ e w',
      runAlone runBackend (startRun env threadId body request) w = (.error e, w') ∧
        w'.runs = w.runs) ∨
    (Admits env w threadId body request ∧ ∃ w' record, record ∈ w'.runs ∧
      record = (w.insertRecord (runInfo env threadId body request)).1 ∧ w'.outside = w.outside ∧
      runAlone runBackend (startRun env threadId body request) w =
        runAlone runBackend (launch env threadId body request record) w') := by
  rw [startRun, Coro.bind_def, runAlone_bind, runAlone_ofExcept]
  cases hmodel : checkModel env body with
  | error e => exact .inl ⟨fun h => (by rw [h.model] at hmodel; cases hmodel), e, w, rfl, rfl⟩
  | ok _ =>
    obtain ⟨res, hthread, hgrants⟩ := checkThread_alone env threadId request w
    rw [thenAlone_ok, Coro.bind_def, runAlone_bind, hthread]
    rcases res with e | ⟨⟩
    · exact .inl ⟨fun h => (by cases hgrants.mpr h.thread), e, w, rfl, rfl⟩
    rw [thenAlone_ok, Coro.bind_def, runAlone_bind, admission, Coro.bind_def, runAlone_bind,
      runAlone_ask]
    cases hlock : w.outside (.goalThreadLock threadId) with
    | error text => exact .inl ⟨fun h => (by rw [h.lock] at hlock; cases hlock), _, w, rfl, rfl⟩
    | ok _ =>
      show (_ ∧ ∃ e w', thenAlone _ _ (runAlone runBackend (Coro.tryCatch _ _) w) = _ ∧ _) ∨
        (_ ∧ ∃ w' record, _ ∧ _ ∧ _ ∧ thenAlone _ _ (runAlone runBackend (Coro.tryCatch _ _) w) = _)
      rw [runAlone_tryCatch]
      by_cases haccepts : w.accepts (runInfo env threadId body request)
      · obtain ⟨w', hrun, hmem, houtside⟩ := createOrReject_admits env.policy hfresh haccepts
        refine .inr ⟨⟨hmodel, hgrants.mp rfl, hlock, haccepts⟩, w', _, hmem, rfl, houtside, ?_⟩
        rw [hrun]
        rfl
      · obtain ⟨e, herror, hruns⟩ := createOrReject_refused env.policy haccepts
        refine .inl ⟨fun h => haccepts h.accepts, ?_⟩
        rcases hrun : runAlone runBackend (createOrReject env.policy
          (runInfo env threadId body request)) w with ⟨res, w'⟩
        rw [hrun] at herror hruns
        cases herror
        exact ⟨_, w', rfl, hruns⟩

/-- **A failed start leaves a run behind exactly if it fails after admission.** In any state of the
manager whose ids are drawn, with any answers from outside: a start that raises leaves no active run
of its own and nothing in the way of the next start, if and only if the request is refused before
the run exists or its input and config can be made. -/
theorem failed_start_leaves_nothing_iff (env : StartEnv) {w : RunWorld}
    (hfresh : ∀ r ∈ w.runs, r.runId < w.uuids) (threadId : String) (body : StartBody)
    (request : StartRequest) :
    LeavesNothing w threadId (runAlone runBackend (startRun env threadId body request) w) ↔
      (Admits env w threadId body request → Prepares env w threadId body request) := by
  rcases startRun_alone env hfresh threadId body request with
    ⟨hrefused, e, w', hrun, hruns⟩ | ⟨hadmits, w', record, hmem, hrecord, houtside, hrun⟩
  · refine ⟨fun _ h => absurd h hrefused, fun _ e' _ => ?_⟩
    have hnew : ∀ r ∈ w'.runs, r.runId ≠ w.uuids := by
      rw [hruns]
      exact fun r hr => (hfresh r hr).ne
    rw [hrun]
    refine ⟨fun hin => ?_, fun r hr hid => absurd hid (hnew r hr)⟩
    obtain ⟨r, hr, hid⟩ := mem_map.mp hin
    exact hnew r (mem_of_mem_filter (mem_of_mem_filter hr)) hid
  · have hsame : Prepares env w' threadId body request ↔ Prepares env w threadId body request := by
      have htuple : w'.agetTuple = w.agetTuple := by
        funext read
        rw [RunWorld.agetTuple, RunWorld.agetTuple, houtside]
      rw [Prepares, Prepares, htuple]
    rw [hrun]
    rcases launch_alone env threadId body request record w' with ⟨hp, hok⟩ | ⟨hnot, e, herror⟩
    · rw [hok]
      exact ⟨fun _ _ => hsame.mp hp, fun _ e he => by cases he⟩
    · rw [herror]
      refine ⟨fun h _ => ?_, fun h => absurd (hsame.mpr (h hadmits)) hnot⟩
      have hid : record.runId = w.uuids := by rw [hrecord]; rfl
      have hstatus : record.status = .pending := by rw [hrecord]; rfl
      exact absurd hstatus ((h e rfl).2 record hmem hid).1

/-! ### A malformed message -/

/-- No model is excluded, and a message without fields is malformed. -/
def demoStart : StartEnv where
  toGatewayEnv := demoGateway
  modelAllowed _ := true
  convertToMessages fields := if fields.isEmpty then .error (.invalid "no role") else .ok [.obj fields]
  redactConfigSecrets _ := .null

/-- Nobody has started a run, and every answer from outside is a good one. -/
def idleManager : RunWorld where
  outside
    | .checkAccess .. => .ok true
    | .goalThreadLock _ => .ok ()
    | .threadOwner .. => .ok none
    | .threadWrite _ => .ok ()
    | .checkpoint _ => .ok true
    | .internalOwner _ => .ok ()
    | .worker .. => .ok ()
    | .chunk _ => .ok .done
    | .continuation _ => .ok false

def anonymous : StartRequest where
  user := none

/-- A start without an input. -/
def plainStart : Except ManagerExn RunRecord × RunWorld :=
  runAlone runBackend (startRun demoStart "t" {} anonymous) idleManager

theorem failed_start_leaves_nothing_demo : LeavesNothing idleManager "t" plainStart :=
  (failed_start_leaves_nothing_iff demoStart (fun _ hr => absurd hr not_mem_nil) "t" {}
    anonymous).mpr fun _ => ⟨⟨.state [], rfl⟩, _, rfl⟩

def malformedBody : StartBody where
  input := some [("messages", .arr [.obj []])]

/-- A start with a malformed message. -/
def malformedStart : Except ManagerExn RunRecord × RunWorld :=
  runAlone runBackend (startRun demoStart "t" malformedBody anonymous) idleManager

def failure {ε α : Type} : Except ε α → Option ε
  | .ok _ => none
  | .error e => some e

theorem eq_error_of_failure {ε α : Type} {x : Except ε α} {e : ε} (h : failure x = some e) :
    x = .error e := by
  cases x with
  | ok a => cases h
  | error e' => exact congrArg _ (Option.some.inj h)

/-- **A malformed message blocks the thread.** The start is answered with the error it should be,
its run stays pending, and a proper start after it is answered with a conflict. -/
theorem failed_start_blocks_thread :
    ¬ LeavesNothing idleManager "t" malformedStart ∧
    failure malformedStart.1 =
      some (.service (.http 400 "Invalid message at input.messages[0]: no role")) ∧
    (malformedStart.2.runs.map fun r => (r.runId, r.status)) = [(0, .pending)] ∧
    failure (runAlone runBackend (startRun demoStart "t" {} anonymous) malformedStart.2).1 =
      some (.service (.http 409 "Thread t already has an active run")) := by
  have herror : failure malformedStart.1 =
      some (.service (.http 400 "Invalid message at input.messages[0]: no role")) := by
    decide +kernel
  refine ⟨fun h => (h _ (eq_error_of_failure herror)).1 ?_, herror, ?_, ?_⟩ <;> decide +kernel

end AfterFlow.Runs
