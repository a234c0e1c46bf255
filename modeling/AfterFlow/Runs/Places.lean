import AfterFlow.Runs.Turns

/-!
# A task and its place

A worker is followed from await to await. Where it is suspended it owns the place of its run, and a
cancellation may reach it there, which moves it to the end of its run. Parts that keep the place
compose; the others have a lemma of their own.

## Main results

* `safe_await`, `safe_underLock` — awaiting, and the lock
* `safe_execute`, `safe_cleanup`, `safe_runTask` — the worker
-/

namespace AfterFlow.Runs

open Coop Logic

namespace Turns

/-- The backend of `threadProgram`. -/
def taskBackend : Backend RunWorld TaskOp TaskOp.Reply ManagerExn := ⟨TaskOp.perform, .cancelled⟩

abbrev ThreadCtx := Ctx RunWorld TaskOp TaskOp.Reply ManagerExn Shares

/-- Inside a step of a task that owns `g` and is not about to be cancelled. -/
structure Held (task : Option ℕ) (g : Shares) (c : ThreadCtx) : Prop where
  fair : Fair c.now (g + c.frame)
  respects : Respecting c.frame c.start c.now
  calm : ∀ runId ∈ task, ¬ c.now.cancelPending runId

/-- The place is as it was, or the worker has been cancelled. -/
inductive Kept (task : Option ℕ) (g : Shares) {β : Type} (res : Except ManagerExn β) (c : ThreadCtx) :
    Prop where
  | same (h : Held task g c) (hres : res ≠ .error .cancelled)
  | cut {runId : ℕ} {phase : Phase} (htask : task = some runId) (hg : g = share runId phase)
      (hphase : phase.Cancellable) (hres : res = .error .cancelled)
      (h : Held task (share runId .finishing) c)

/-- A worker owns the place of its run and nothing else. -/
def Owner (task : Option ℕ) (g : Shares) : Prop := ∀ runId ∈ task, ∃ phase, g = share runId phase

section Rules

variable {call : ThreadCall} {task : Option ℕ} {g g' : Shares} {c : ThreadCtx} {α β : Type}

theorem asTask_call (op : RunOp) :
    asTask task (runAwait op) = (Coro.call (⟨task, op⟩ : TaskOp) : TaskProc op.Reply) := by
  refine congrArg (Coro.await _) (funext fun reply => ?_)
  cases reply <;> rfl

theorem asTask_underLock (body : RunProc α) :
    asTask task (underLock body) =
      Coro.withLock (⟨task, .acquire⟩ : TaskOp) RunWorld.release (asTask task body) := by
  rw [underLock, Coro.withLock, Coro.withLock, Coro.bind_def, asTask_bind, asTask_call, Coro.bind_def]
  refine congrArg _ (funext fun _ => ?_)
  rw [Coro.bind_def, asTask_bind, asTask_tryCatch]
  rfl

theorem asTask_get_bind {f : RunWorld → RunProc α} {Q : Except ManagerExn α → ThreadCtx → Prop} :
    fairness.Safe taskBackend call (asTask task (Coro.get.bind f)) Q c ↔
      fairness.Safe taskBackend call (asTask task (f c.now)) Q c :=
  Iff.rfl

theorem asTask_update {f : RunWorld → α × RunWorld} {Q : Except ManagerExn α → ThreadCtx → Prop} :
    fairness.Safe taskBackend call (asTask task (Coro.update f)) Q c ↔
      Q (.ok (f c.now).1) { c with now := (f c.now).2 } :=
  Iff.rfl

theorem Held.of_same {w : RunWorld} (h : Held task g c) (hruns : w.runs = c.now.runs)
    (hlog : w.log = c.now.log) (huuids : w.uuids = c.now.uuids) (hlock : w.locked = c.now.locked) :
    Held task g { c with now := w } where
  fair := h.fair.neutral hruns hlog huuids hlock
  respects := by
    intro hframe
    obtain ⟨hfaces, hexec⟩ := h.respects hframe
    constructor
    · show w.runs.map RunRecord.face = _
      rw [hruns, hfaces]
    · show ∀ runId, executing w.log runId → _
      rw [hlog]
      exact hexec
  calm := by
    intro runId htask
    show ¬ w.cancelPending runId
    rw [RunWorld.cancelPending, RunWorld.find?, hruns]
    exact h.calm runId htask

theorem Held.frame_idle (h : Held task (lockShare + g) c) : c.frame.2 = 0 := by
  have hzero := ((add_assoc lockShare g c.frame) ▸ h.fair).rest_eq_zero
  have hle : c.frame.2 ≤ (g + c.frame).2 := Multiset.le_add_left _ _
  rw [hzero] at hle
  exact Multiset.le_zero.mp hle

theorem Held.locked_write {w : RunWorld} (h : Held task (lockShare + g) c)
    (hfair : Fair w (lockShare + (g' + c.frame)))
    (hcalm : ∀ runId ∈ task, ¬ w.cancelPending runId) :
    Held task (lockShare + g') { c with now := w } where
  fair := (add_assoc lockShare g' c.frame).symm ▸ hfair
  respects := fun hframe => absurd h.frame_idle hframe
  calm := hcalm

theorem Held.release (h : Held task (lockShare + g) c) :
    Held task g { c with now := c.now.release } where
  fair := ((add_assoc lockShare g c.frame) ▸ h.fair).release
  respects := h.respects
  calm := h.calm

theorem Held.write {w : RunWorld} (h : Held task g c) (hfair : Fair w (g' + c.frame))
    (hfaces : w.runs.map RunRecord.face = c.now.runs.map RunRecord.face)
    (hexec : ∀ runId, executing w.log runId → executing c.now.log runId)
    (hcalm : ∀ runId ∈ task, ¬ w.cancelPending runId) : Held task g' { c with now := w } where
  fair := hfair
  respects := fun hframe => ⟨hfaces.trans (h.respects hframe).1,
    fun runId he => (h.respects hframe).2 runId (hexec runId he)⟩
  calm := hcalm

/-- **Awaiting.** A worker that is not finishing may be cancelled here. -/
theorem safe_await {op : RunOp} {Q : Except ManagerExn op.Reply → ThreadCtx → Prop}
    (hown : Owner task g) (h : Held task g c)
    (hcut : ∀ res c', Kept task g res c' → res = .error .cancelled → Q res c')
    (hok : ∀ trace answer s frame, Held task g ⟨trace, answer, s, frame, s⟩ → Respecting g c.now s →
      Realizable s (some ⟨task, op⟩) → Orderly s call (some ⟨task, op⟩) →
      Q (op.perform s).1 ⟨trace, answer, s, frame, (op.perform s).2⟩) :
    fairness.Safe taskBackend call (asTask task (runAwait op)) Q c := by
  rw [asTask_call]
  refine Safe.call g ⟨h.fair, h.respects, trivial⟩ fun s frame out hrel hinv ⟨hout, hreal, hord⟩ => ?_
  subst hout
  show Q (TaskOp.perform ⟨task, op⟩ s).1 ⟨c.close, some ⟨⟨task, op⟩, (TaskOp.perform ⟨task, op⟩ s).1⟩, s,
    frame, (TaskOp.perform ⟨task, op⟩ s).2⟩
  cases task with
  | none => exact hok _ _ _ _ ⟨hinv, fun _ => ⟨rfl, fun _ he => he⟩, by simp⟩ hrel hreal hord
  | some runId =>
    obtain ⟨phase, rfl⟩ := hown runId rfl
    by_cases hpending : s.cancelPending runId
    · have hperform : TaskOp.perform ⟨some runId, op⟩ s = (.error .cancelled, s.delivered runId) :=
        if_pos hpending
      rw [hperform]
      obtain ⟨r₀, hr₀, hid, hcons, hplaced⟩ := hinv.owned
      have hpending₀ := hpending
      rw [hinv.cancelPending_eq hr₀ hid] at hpending₀
      have hphase : phase.Cancellable := by
        cases phase with
        | waiting | cleared | active => trivial
        | creating =>
          rw [RunRecord.cancelPending, hplaced.1] at hpending₀
          cases hpending₀
        | starting =>
          rw [RunRecord.cancelPending, hplaced.1] at hpending₀
          cases hpending₀
        | finishing => exact absurd hpending₀ hplaced.2.2
        | ended => exact absurd hpending₀ hplaced.2.2.1
      have hfair := hinv.deliver hphase hpending
      refine hcut _ _ (.cut rfl rfl hphase rfl ⟨hfair, fun _ => ⟨?_, fun _ he => he⟩, ?_⟩) rfl
      · show (s.delivered runId).runs.map RunRecord.face = s.runs.map RunRecord.face
        rw [RunWorld.delivered, RunWorld.modifyTask, RunWorld.modify, List.map_map]
        refine List.map_congr_left fun r _ => ?_
        show RunRecord.face (if r.runId = runId then _ else r) = _
        split <;> rfl
      · rintro _ ⟨⟩
        obtain ⟨r₁, hr₁, hid₁, -, hplaced₁⟩ := hfair.owned
        show ¬ (s.delivered runId).cancelPending runId
        rw [hfair.cancelPending_eq hr₁ hid₁]
        exact hplaced₁.2.2
    · have hperform : TaskOp.perform ⟨some runId, op⟩ s = op.perform s := if_neg hpending
      rw [hperform]
      refine hok _ _ _ _ ⟨hinv, fun _ => ⟨rfl, fun _ he => he⟩, ?_⟩ hrel hreal hord
      rintro _ ⟨⟩
      exact hpending

/-- **The lock.** -/
theorem safe_underLock {body : RunProc α} {Q : Except ManagerExn α → ThreadCtx → Prop}
    (hown : Owner task g) (h : Held task g c)
    (hcut : ∀ res c', Kept task g res c' → res = .error .cancelled → Q res c')
    (hbody : ∀ c', Held task (lockShare + g) c' → Respecting g c.now c'.now →
      (∃ w, Orderly w call (some ⟨task, .acquire⟩) ∧ c'.now = { w with locked := true }) →
      fairness.Safe taskBackend call (asTask task body)
        (fun res c'' => Q res { c'' with now := c''.now.release }) c') :
    fairness.Safe taskBackend call (asTask task (underLock body)) Q c := by
  rw [asTask_underLock]
  refine safe_withLock.mpr ?_
  rw [← asTask_call]
  refine safe_await hown h (fun res c' hkept hres => ?_) fun trace answer s frame hheld hrel hreal hord => ?_
  · subst hres
    refine hcut _ _ ?_ rfl
    obtain ⟨-, hres⟩ | ⟨htask, hg, hphase, -, hheld⟩ := hkept
    · exact absurd rfl hres
    · exact .cut htask hg hphase rfl hheld
  · have hfree : s.locked = false := by
      obtain hfree | hpending := hreal
      · exact hfree
      · obtain ⟨runId, htask, hpending⟩ := (Option.any_eq_true _ _).mp hpending
        exact absurd hpending (hheld.calm runId htask)
    refine hbody _ ⟨?_, hheld.respects, hheld.calm⟩ hrel ⟨s, hord, rfl⟩
    rw [add_assoc]
    exact hheld.fair.acquire hfree

/-- A part of a task that keeps its place. -/
def Steady (call : ThreadCall) (task : Option ℕ) (g : Shares) (p : RunProc β) : Prop :=
  ∀ c, Held task g c → fairness.Safe taskBackend call (asTask task p) (Kept task g) c

namespace Steady

variable {p : RunProc α}

theorem pure (a : α) : Steady call task g (.pure a : RunProc α) :=
  fun _ h => .same h fun he => by cases he

theorem raise {e : ManagerExn} (he : e ≠ .cancelled) : Steady call task g (.raise e : RunProc α) :=
  fun _ h => .same h fun heq => he (Except.error.inj heq)

theorem bind {f : α → RunProc β} (hp : Steady call task g p) (hf : ∀ a, Steady call task g (f a)) :
    Steady call task g (p.bind f) := by
  intro c h
  rw [asTask_bind]
  refine Safe.bind_iff.mpr (Safe.mono (fun res c' hkept => ?_) (hp _ h))
  cases res with
  | ok a =>
    obtain ⟨hheld, -⟩ | ⟨-, -, -, hres, -⟩ := hkept
    · exact hf a _ hheld
    · cases hres
  | error e =>
    obtain ⟨hheld, hres⟩ | ⟨htask, hg, hphase, hres, hheld⟩ := hkept
    · exact .same hheld fun he => hres (congrArg _ (Except.error.inj he))
    · exact .cut htask hg hphase (congrArg _ (Except.error.inj hres)) hheld

theorem tryCatch {handle : ManagerExn → RunProc α} (hp : Steady call task g p)
    (hh : ∀ e, e ≠ .cancelled → Steady call task g (handle e))
    (hthrough : handle .cancelled = .raise .cancelled) : Steady call task g (p.tryCatch handle) := by
  intro c h
  rw [asTask_tryCatch]
  refine Safe.tryCatch_iff.mpr (Safe.mono (fun res c' hkept => ?_) (hp _ h))
  cases res with
  | ok a => exact hkept
  | error e =>
    obtain ⟨hheld, hres⟩ | ⟨htask, hg, hphase, hres, hheld⟩ := hkept
    · exact hh e (fun he => hres (congrArg _ he)) _ hheld
    · cases hres
      show fairness.Safe taskBackend call (asTask task (handle .cancelled)) _ c'
      rw [hthrough]
      exact .cut htask hg hphase rfl hheld

theorem catchException {handle : ManagerExn → RunProc α} (hp : Steady call task g p)
    (hh : ∀ e, Steady call task g (handle e)) :
    Steady call task g (Runs.catchException p handle) := by
  refine tryCatch hp (fun e he => ?_) (if_pos rfl)
  rw [if_neg he]
  exact hh e

theorem get {f : RunWorld → RunProc α} (hf : ∀ w, Steady call task g (f w)) :
    Steady call task g (Coro.get.bind f) :=
  fun c h => hf c.now c h

theorem modify {f : RunWorld → RunWorld} (hf : ∀ w, (f w).runs = w.runs ∧ (f w).log = w.log ∧
    (f w).uuids = w.uuids ∧ (f w).locked = w.locked) : Steady call task g (Coro.modify f) := by
  intro c h
  obtain ⟨hruns, hlog, huuids, hlock⟩ := hf c.now
  exact .same (h.of_same hruns hlog huuids hlock) fun he => by cases he

theorem await (hown : Owner task g) {op : RunOp} (hop : op ≠ .acquire) :
    Steady call task g (runAwait op) := by
  intro c h
  refine safe_await hown h (fun _ _ hkept _ => hkept) fun trace answer s frame hheld _ hreal _ => ?_
  cases op with
  | acquire => exact absurd rfl hop
  | store runId attempt write =>
    cases write <;> exact .same (hheld.of_same rfl rfl rfl rfl) fun he => by cases he
  | sleep => exact .same (hheld.of_same rfl rfl rfl rfl) fun he => by cases he
  | outside q =>
    refine .same (hheld.of_same rfl rfl rfl rfl) fun he => ?_
    rw [show (RunOp.perform (.outside q) s).1 = (s.outside q).mapError .other from rfl] at he
    cases hq : s.outside q <;> rw [hq] at he <;> cases he
  | never => exact absurd hreal id

theorem underLock (hown : Owner task g) (hp : Steady call task (lockShare + g) p) :
    Steady call task g (Runs.underLock p) := by
  intro c h
  refine safe_underLock hown h (fun _ _ hkept _ => hkept) fun c' hheld _ _ => ?_
  refine Safe.mono (fun res c'' hkept => ?_) (hp _ hheld)
  obtain ⟨hheld, hres⟩ | ⟨-, hg, -, -, -⟩ := hkept
  · exact .same hheld.release hres
  · have hin : () ∈ (lockShare + g).2 :=
      Multiset.mem_add.mpr (.inl (Multiset.mem_singleton_self ()))
    rw [hg] at hin
    exact absurd hin (Multiset.notMem_zero _)

/-! ### Writing to the store -/

variable (policy : RetryPolicy)

theorem retrying (hown : Owner task g) (runId : ℕ) (write : StoreCall) (left attempt : ℕ) (delay : ℚ) :
    Steady call task g (Runs.retrying policy runId write left attempt delay) := by
  induction left generalizing attempt delay with
  | zero => exact await hown RunOp.noConfusion
  | succ left ih =>
    refine tryCatch (await hown RunOp.noConfusion) (fun e he => ?_) (if_pos fun h => by cases h)
    split
    · exact raise he
    · split
      · exact bind (await hown RunOp.noConfusion) fun _ => ih _ _
      · exact ih _ _

theorem callStore (hown : Owner task g) (runId : ℕ) (write : StoreCall) :
    Steady call task g (callStoreWithRetry policy runId write) :=
  retrying policy hown _ _ _ _ _

theorem persistSnapshot (hown : Owner task g) (runId : ℕ) (payload : RunRow) :
    Steady call task g (persistSnapshotToStore policy runId payload) :=
  catchException (bind (callStore policy hown _ _) fun _ => pure true) fun _ => pure false

theorem persistStatus (hown : Owner task g) (record : RunRecord) (status : RunStatus)
    (error : Option String) : Steady call task g (Runs.persistStatus policy record status error) := by
  refine get fun w => bind (catchException (bind (callStore policy hown _ _) fun updated => ?_)
    fun _ => pure false) fun persisted => bind
      (modify (f := fun w => w.settled record.runId status) fun w => ⟨rfl, rfl, rfl, rfl⟩) fun _ => pure _
  split
  · exact pure true
  · exact persistSnapshot policy hown _ _

theorem callCompletion (hown : Owner task g) (runId : ℕ) (data : CompletionData) :
    Steady call task g (Runs.callCompletion policy runId data) := callStore policy hown _ _

theorem writeCompletion (hown : Owner task g) (runId : ℕ) (data : CompletionData)
    (recovery : Option RunRow) : Steady call task g (Runs.writeCompletion policy runId data recovery) := by
  refine bind (callCompletion policy hown _ _) fun updated => ?_
  split
  · exact pure ()
  · split
    · exact pure ()
    · refine bind (persistSnapshot policy hown _ _) fun persisted => ?_
      split
      · exact bind (callCompletion policy hown _ _) fun _ => pure ()
      · exact pure ()

theorem complete (runId : ℕ) (data : CompletionData) :
    Steady call task g (Coro.update fun w => w.complete runId data) := by
  refine fun c h => .same (h.write (h.fair.complete data) (c.now.faces_modify runId fun r => rfl)
    (fun _ he => he) fun x htask => ?_) fun he => by cases he
  have hsame := c.now.cancelPending_modify runId x (f := fun r => r.complete data) fun r => ⟨rfl, rfl⟩
  show ¬ (c.now.modify runId fun r => r.complete data).cancelPending x
  rw [hsame]
  exact h.calm x htask

/-! ### Executing and cleaning up -/

variable (runId : ℕ)

theorem ask (hown : Owner task g) (step : WorkerStep) : Steady call task g (Runs.ask runId step) :=
  await hown RunOp.noConfusion

theorem attempt (hown : Owner task g) (step : WorkerStep) :
    Steady call task g (Runs.attempt runId step) :=
  catchException (ask runId hown step) fun _ => pure ()

theorem provided {configured : Bool} {body : RunProc Unit} (hbody : Steady call task g body) :
    Steady call task g (Runs.provided configured body) := by
  rw [Runs.provided]
  split
  · exact hbody
  · exact pure ()

theorem waitForever (hown : Owner task g) (a : α) : Steady call task g (Runs.waitForever a) :=
  bind (await hown RunOp.noConfusion) fun _ => pure a

theorem streamOnce (hown : Owner task g) (chunks : ℕ) :
    Steady call task g (Runs.streamOnce runId chunks) := by
  induction chunks with
  | zero => exact waitForever hown none
  | succ chunks ih =>
    refine bind (await hown RunOp.noConfusion) fun chunk => ?_
    cases chunk with
    | done => exact pure none
    | next llmError =>
      refine bind (get fun w => pure _) fun stop => ?_
      split
      · exact pure none
      · exact bind (ask runId hown .publish) fun _ => bind ih fun rest => pure _

theorem continueGoal (hown : Owner task g) (chunks rounds : ℕ) :
    Steady call task g (Runs.continueGoal runId chunks rounds) := by
  induction rounds with
  | zero => exact waitForever hown none
  | succ rounds ih =>
    refine bind (get fun w => pure _) fun stop => ?_
    split
    · exact pure none
    · refine bind (await hown RunOp.noConfusion) fun more => bind (get fun w => pure _) fun stop => ?_
      split
      · exact pure none
      · refine bind (streamOnce runId hown chunks) fun llmError => ?_
        cases llmError with
        | some text => exact pure _
        | none => exact ih

theorem waitForPrior (hown : Owner task g) (threadId : String) (polls : ℕ) :
    Steady call task g (waitForPriorFinalizing threadId runId polls) := by
  induction polls with
  | zero => exact bind (await hown RunOp.noConfusion) fun _ => pure ()
  | succ polls ih =>
    refine bind (underLock hown (get fun w => pure _)) fun wait => ?_
    split
    · exact bind (await hown RunOp.noConfusion) fun _ => ih
    · exact pure ()

end Steady

/-! ### From place to place -/

section Places

variable {runId : ℕ} {phase phase' : Phase} (policy : RetryPolicy)

theorem owner (phase : Phase) : Owner (some runId) (share runId phase) := by
  rintro _ ⟨⟩
  exact ⟨phase, rfl⟩

theorem Held.locked_step {w : RunWorld} (h : Held (some runId) (lockShare + share runId phase) c)
    (hstep : Fair c.now (share runId phase + (lockShare + c.frame)) →
      Fair w (share runId phase' + (lockShare + c.frame)))
    (hcalm : ¬ w.cancelPending runId) :
    Held (some runId) (lockShare + share runId phase') { c with now := w } := by
  refine h.locked_write ?_ (by rintro _ ⟨⟩; exact hcalm)
  rw [add_left_comm]
  refine hstep ?_
  rw [add_left_comm, ← add_assoc]
  exact h.fair

theorem Kept.held {res : Except ManagerExn α} (h : Kept (some runId) (share runId .finishing) res c) :
    Held (some runId) (share runId .finishing) c := by
  obtain ⟨hheld, -⟩ | ⟨htask, hg, hphase, -, hheld⟩ := h
  · exact hheld
  · cases htask
    exact hheld

theorem Kept.cut_of {res : Except ManagerExn α} (h : Kept (some runId) (share runId phase) res c)
    (hres : res = .error .cancelled) :
    phase.Cancellable ∧ Held (some runId) (share runId .finishing) c := by
  obtain ⟨-, hnot⟩ | ⟨htask, hg, hphase, -, hheld⟩ := h
  · exact absurd hres hnot
  · cases htask
    have hsame : phase = _ := congrArg Prod.snd (Multiset.singleton_inj.mp (congrArg Prod.fst hg))
    rw [hsame]
    exact ⟨hphase, hheld⟩

/-- Setting the status of one's run. -/
theorem safe_setStatus {status : RunStatus} {error : Option String}
    {Q : Except ManagerExn Unit → ThreadCtx → Prop} (h : Held (some runId) (share runId phase) c)
    (hstep : ∀ w g, Fair w (share runId phase + g) → ¬ w.cancelPending runId →
      Fair (Fair.statusSet w runId status error) (share runId phase' + g))
    (hcut : ∀ c', phase.Cancellable → Held (some runId) (share runId .finishing) c' →
      Q (.error .cancelled) c')
    (hQ : ∀ res c', Kept (some runId) (share runId phase') res c' → Q res c') :
    fairness.Safe taskBackend call (asTask (some runId) (setStatus policy runId status error)) Q c := by
  rw [setStatus, Coro.bind_def, asTask_bind]
  refine Safe.bind_iff.mpr (safe_underLock (owner phase) h (fun res c' hkept hres => ?_)
    fun c' hheld _ _ => ?_)
  · subst hres
    exact hcut c' (hkept.cut_of rfl).1 (hkept.cut_of rfl).2
  · have hcalm := hheld.calm runId rfl
    have hfair : Fair c'.now (share runId phase + (lockShare + c'.frame)) := by
      rw [add_left_comm, ← add_assoc]
      exact hheld.fair
    obtain ⟨r₀, hr₀, hid, -, -⟩ := hfair.owned
    have hset : c'.now.setStatus runId status error =
        (some r₀, Fair.statusSet c'.now runId status error) := by
      rw [RunWorld.setStatus, hfair.find?_eq hr₀ hid]
    have hcalm' : ¬ (Fair.statusSet c'.now runId status error).cancelPending runId := by
      have hsame := c'.now.cancelPending_modify runId runId
        (f := fun r => { r with error := error.orElse fun _ => r.error, status := status })
        fun r => ⟨rfl, rfl⟩
      rw [← hsame] at hcalm
      exact hcalm
    have hmoved := (hheld.locked_step (fun h => hstep _ _ h hcalm) hcalm').release
    rw [asTask_update, hset, then_ok]
    exact Safe.mono hQ (Steady.bind (Steady.persistStatus policy (owner phase') r₀ status error)
      (fun _ => Steady.pure ()) _ hmoved)

theorem safe_setRunning (h : Held (some runId) (share runId .cleared) c) :
    fairness.Safe taskBackend call (asTask (some runId) (setStatus policy runId .running))
      (Kept (some runId) (share runId .active)) c :=
  safe_setStatus policy h (fun _ _ hfair hcalm => hfair.setRunning hcalm none)
    (fun _ _ hheld => .cut rfl rfl trivial rfl hheld) fun _ _ hkept => hkept

/-- Where a worker is when its run has ended. -/
abbrev Finishing (runId : ℕ) {β : Type} (_ : Except ManagerExn β) (c : ThreadCtx) : Prop :=
  Held (some runId) (share runId .finishing) c

theorem safe_setTerminal {status : RunStatus} {error : Option String}
    (h : Held (some runId) (share runId phase) c) (hphase : phase.Cancellable ∨ phase = .finishing)
    (hpending : status ≠ .pending) (hrunning : status ≠ .running) :
    fairness.Safe taskBackend call (asTask (some runId) (setStatus policy runId status error))
      (Finishing runId) c :=
  safe_setStatus policy h
    (fun _ _ hfair hcalm => hfair.setTerminal hcalm hphase hpending hrunning error)
    (fun _ _ hheld => hheld) fun _ _ hkept => hkept.held

theorem safe_setFinalizing (h : Held (some runId) (share runId .finishing) c) :
    fairness.Safe taskBackend call (asTask (some runId) (setFinalizing runId true))
      (Finishing runId) c := by
  refine safe_underLock (owner .finishing) h (fun _ _ hkept _ => hkept.held) fun c' hheld _ _ => ?_
  have hcalm := hheld.calm runId rfl
  have hsame := c'.now.cancelPending_modify runId runId
    (f := fun r => { r with finalizing := true }) fun r => ⟨rfl, rfl⟩
  rw [← hsame] at hcalm
  exact (hheld.locked_step (fun h => h.setFinalizing) hcalm).release

theorem safe_then {p : RunProc α} {f : α → RunProc β}
    (hp : fairness.Safe taskBackend call (asTask (some runId) p) (Finishing runId) c)
    (hf : ∀ a c', Held (some runId) (share runId .finishing) c' →
      fairness.Safe taskBackend call (asTask (some runId) (f a)) (Finishing runId) c') :
    fairness.Safe taskBackend call (asTask (some runId) (p.bind f)) (Finishing runId) c := by
  rw [asTask_bind]
  refine Safe.bind_iff.mpr (Safe.mono (fun res c' hheld => ?_) hp)
  cases res with
  | ok a => exact hf a c' hheld
  | error e => exact hheld

theorem Steady.finishing {p : RunProc α} (hp : Steady call (some runId) (share runId .finishing) p)
    (h : Held (some runId) (share runId .finishing) c) :
    fairness.Safe taskBackend call (asTask (some runId) p) (Finishing runId) c :=
  Safe.mono (fun _ _ hkept => hkept.held) (hp c h)

theorem safe_abortRun (h : Held (some runId) (share runId .finishing) c) :
    fairness.Safe taskBackend call (asTask (some runId) (abortRun policy runId))
      (Finishing runId) c := by
  refine safe_then (safe_setFinalizing h) fun _ c' hheld => ?_
  rw [Coro.bind_def, asTask_get_bind]
  split
  · exact safe_then (safe_setTerminal policy hheld (.inr rfl) RunStatus.noConfusion RunStatus.noConfusion)
      fun _ _ hheld => (Steady.attempt runId (owner .finishing) .rollback).finishing hheld
  · exact safe_setTerminal policy hheld (.inr rfl) RunStatus.noConfusion RunStatus.noConfusion

/-- Waiting until older runs have cleaned up. -/
theorem safe_waitForPrior {threadId : String} (polls : ℕ)
    (h : Held (some runId) (share runId (.waiting threadId)) c) :
    fairness.Safe taskBackend call (asTask (some runId) (waitForPriorFinalizing threadId runId polls))
      (Kept (some runId) (share runId .cleared)) c := by
  induction polls generalizing c with
  | zero =>
    rw [waitForPriorFinalizing, Coro.bind_def, asTask_bind]
    refine Safe.bind_iff.mpr (safe_await (owner _) h (fun res c' hkept hres => ?_)
      fun trace answer s frame _ _ hreal _ => absurd hreal id)
    subst hres
    exact .cut rfl rfl trivial rfl (hkept.cut_of rfl).2
  | succ polls ih =>
    rw [waitForPriorFinalizing, Coro.bind_def, asTask_bind]
    refine Safe.bind_iff.mpr (safe_underLock (owner _) h (fun res c' hkept hres => ?_)
      fun c' hheld _ _ => ?_)
    · subst hres
      exact .cut rfl rfl trivial rfl (hkept.cut_of rfl).2
    · show fairness.Safe taskBackend call (asTask (some runId)
        (if c'.now.mustWait threadId runId then do
          let _ ← runAwait .sleep
          waitForPriorFinalizing threadId runId polls
        else return ())) (Kept (some runId) (share runId .cleared)) { c' with now := c'.now.release }
      split
      · rw [Coro.bind_def, asTask_bind]
        refine Safe.bind_iff.mpr (safe_await (owner _) hheld.release (fun res c' hkept hres => ?_)
          fun trace answer s frame hheld _ _ _ => ih hheld)
        subst hres
        exact .cut rfl rfl trivial rfl (hkept.cut_of rfl).2
      · rename_i hwait
        have hmoved : Held (some runId) (lockShare + share runId .cleared) { c' with now := c'.now } := by
          refine hheld.locked_step (fun hfair => hfair.clear (hfair.noneBefore ?_)) (hheld.calm runId rfl)
          exact Bool.eq_false_iff.mpr hwait
        exact .same hmoved.release fun he => by cases he

/-- How the body of a worker ends: its run has ended, or is about to because of an exception. -/
def Executed (runId : ℕ) {β : Type} (res : Except ManagerExn β) (c : ThreadCtx) : Prop :=
  Finishing runId res c ∨ ∃ phase e, Phase.Cancellable phase ∧ res = .error e ∧ e ≠ .cancelled ∧
    Held (some runId) (share runId phase) c

theorem Kept.executed {e : ManagerExn} (hphase : phase.Cancellable)
    (h : Kept (some runId) (share runId phase) (.error e : Except ManagerExn α) c) :
    Executed runId (.error e : Except ManagerExn β) c := by
  by_cases he : e = .cancelled
  · subst he
    exact .inl (h.cut_of rfl).2
  · obtain ⟨hheld, -⟩ | ⟨-, -, -, hres, -⟩ := h
    · exact .inr ⟨phase, e, hphase, rfl, he, hheld⟩
    · exact absurd (Except.error.inj hres) he

theorem safe_body {p : RunProc α} {f : α → RunProc β} (hphase : phase.Cancellable)
    (hp : fairness.Safe taskBackend call (asTask (some runId) p)
      (Kept (some runId) (share runId phase)) c)
    (hf : ∀ a c', Held (some runId) (share runId phase) c' →
      fairness.Safe taskBackend call (asTask (some runId) (f a)) (Executed runId) c') :
    fairness.Safe taskBackend call (asTask (some runId) (p.bind f)) (Executed runId) c := by
  rw [asTask_bind]
  refine Safe.bind_iff.mpr (Safe.mono (fun res c' hkept => ?_) hp)
  cases res with
  | ok a =>
    obtain ⟨hheld, -⟩ | ⟨-, -, -, hres, -⟩ := hkept
    · exact hf a c' hheld
    · cases hres
  | error e => exact hkept.executed hphase

theorem safe_conclude {llmError : Option String} (h : Held (some runId) (share runId .active) c) :
    fairness.Safe taskBackend call (asTask (some runId) (conclude policy runId llmError))
      (Executed runId) c := by
  obtain ⟨r₀, hr₀, hid, hcons, hplaced⟩ := h.fair.owned
  have hcalm := h.calm runId rfl
  rw [h.fair.cancelPending_eq hr₀ hid] at hcalm
  have hopen := hplaced.isOpen trivial hcalm
  have hstop : (c.now.find? runId).any RunRecord.abortEvent = false := by
    rw [h.fair.find?_eq hr₀ hid, Option.any_some, Bool.eq_false_iff]
    exact fun ha => hcons.aborted ha hopen
  show fairness.Safe taskBackend call (asTask (some runId)
    (if (c.now.find? runId).any RunRecord.abortEvent then abortRun policy runId else _)) _ _
  rw [hstop, if_neg Bool.false_ne_true]
  cases llmError with
  | some text =>
    exact Safe.mono (fun _ _ => .inl) (safe_setTerminal policy h (.inl trivial) RunStatus.noConfusion
      RunStatus.noConfusion)
  | none =>
    exact Safe.mono (fun _ _ => .inl) (safe_setTerminal policy h (.inl trivial) RunStatus.noConfusion
      RunStatus.noConfusion)

/-- **The body of a worker.** -/
theorem safe_execute (ctx : RunContext) {threadId : String}
    (h : Held (some runId) (share runId (.waiting threadId)) c) :
    fairness.Safe taskBackend call (asTask (some runId) (execute ctx policy runId threadId))
      (Executed runId) c := by
  have hown : Owner (some runId) (share runId .active) := owner .active
  have hactive : Phase.active.Cancellable := trivial
  have hcleared : Phase.cleared.Cancellable := trivial
  refine safe_body hcleared (safe_waitForPrior ctx.fuel h) fun _ c hheld => ?_
  refine safe_body hactive (safe_setRunning policy hheld) fun _ c hheld => ?_
  refine safe_body hactive (Steady.provided (Steady.attempt runId hown _) c hheld) fun _ c hheld => ?_
  refine safe_body hactive (Steady.provided (Steady.attempt runId hown _) c hheld) fun _ c hheld => ?_
  refine safe_body hactive (Steady.ask runId hown _ c hheld) fun _ c hheld => ?_
  have hmarked : Held (some runId) (share runId .active)
      { c with now := c.now.mark (.executes runId) } := by
    refine hheld.write (hheld.fair.executes (hheld.calm runId rfl)) rfl (fun id he => ?_) hheld.calm
    rw [show (c.now.mark (.executes runId)).log = c.now.log ++ [.executes runId] from rfl,
      executing_append, if_neg RunMark.noConfusion, if_neg RunMark.noConfusion] at he
    exact he
  show fairness.Safe taskBackend call (asTask (some runId) ((streamOnce runId ctx.fuel).bind _)) _
    { c with now := c.now.mark (.executes runId) }
  refine safe_body hactive (Steady.streamOnce runId hown _ _ hmarked) fun llmError c hheld => ?_
  cases llmError with
  | some text =>
    show fairness.Safe taskBackend call (asTask (some runId) (conclude policy runId (some text))) _ c
    exact safe_conclude policy hheld
  | none =>
    exact safe_body hactive (Steady.continueGoal runId hown _ _ _ hheld)
      fun llmError c hheld => safe_conclude policy hheld

theorem safe_failRun {e : ManagerExn} (h : Executed runId (.error e : Except ManagerExn Unit) c) :
    fairness.Safe taskBackend call (asTask (some runId) (failRun policy runId e))
      (Finishing runId) c := by
  have hfail : ∀ {phase : Phase}, Held (some runId) (share runId phase) c →
      phase.Cancellable ∨ phase = .finishing → fairness.Safe taskBackend call (asTask (some runId) (do
        setStatus policy runId .error (some e.text)
        ask runId .publishError)) (Finishing runId) c := fun hheld hphase =>
    safe_then (safe_setTerminal policy hheld hphase RunStatus.noConfusion RunStatus.noConfusion)
      fun _ _ hheld => (Steady.ask runId (owner .finishing) .publishError).finishing hheld
  rw [failRun]
  split
  · rename_i he
    obtain hheld | ⟨phase, e', hphase, hres, hne, hheld⟩ := h
    · exact safe_abortRun policy hheld
    · exact absurd ((Except.error.inj hres).symm.trans he) hne
  · obtain hheld | ⟨phase, e', hphase, hres, hne, hheld⟩ := h
    · exact hfail hheld (.inr rfl)
    · exact hfail hheld (.inl hphase)

/-- A part of a cleanup that returns. -/
def Smooth (call : ThreadCall) (runId : ℕ) (p : RunProc β) : Prop :=
  ∀ c, Held (some runId) (share runId .finishing) c →
    fairness.Safe taskBackend call (asTask (some runId) p)
      (fun res c' => Finishing runId res c' ∧ ∃ a, res = .ok a) c

theorem Kept.smooth {e : ManagerExn}
    (h : Kept (some runId) (share runId .finishing) (.error e : Except ManagerExn α) c) :
    e ≠ .cancelled := by
  rintro rfl
  exact (h.cut_of rfl).1

namespace Smooth

variable {p : RunProc α}

theorem pure (a : α) : Smooth call runId (.pure a : RunProc α) := fun _ h => ⟨h, a, rfl⟩

theorem bind {f : α → RunProc β} (hp : Smooth call runId p) (hf : ∀ a, Smooth call runId (f a)) :
    Smooth call runId (p.bind f) := by
  intro c h
  rw [asTask_bind]
  refine Safe.bind_iff.mpr (Safe.mono (fun res c' hres => ?_) (hp c h))
  obtain ⟨hheld, a, rfl⟩ := hres
  exact hf a c' hheld

theorem catchException {a : α} (hp : Steady call (some runId) (share runId .finishing) p) :
    Smooth call runId (Runs.catchException p fun _ => .pure a) := by
  intro c h
  rw [Runs.catchException, asTask_tryCatch]
  refine Safe.tryCatch_iff.mpr (Safe.mono (fun res c' hkept => ?_) (hp c h))
  cases res with
  | ok b => exact ⟨hkept.held, b, rfl⟩
  | error e =>
    show fairness.Safe taskBackend call (asTask (some runId) (if e = .cancelled then .raise e
      else .pure a)) _ c'
    rw [if_neg hkept.smooth]
    exact ⟨hkept.held, a, rfl⟩

theorem attempt (step : WorkerStep) : Smooth call runId (Runs.attempt runId step) :=
  catchException (Steady.ask runId (owner .finishing) step)

theorem provided {configured : Bool} {body : RunProc Unit} (hbody : Smooth call runId body) :
    Smooth call runId (Runs.provided configured body) := by
  rw [Runs.provided]
  split
  · exact hbody
  · exact pure ()

theorem updateRunCompletion (data : CompletionData) :
    Smooth call runId (Runs.updateRunCompletion policy runId data) := by
  refine bind (fun c h => ?_) fun _ =>
    catchException (Steady.writeCompletion policy (owner .finishing) _ _ _)
  refine safe_underLock (owner .finishing) h (fun res c' hkept hres => ?_) fun c' hheld _ _ => ?_
  · exact absurd (hkept.cut_of hres).1 id
  · obtain ⟨hheld, -⟩ | ⟨-, -, -, hres, -⟩ := (Steady.complete runId data : Steady call _ _ _) c' hheld
    · exact ⟨hheld.release, _, rfl⟩
    · cases hres

theorem recordCompletion (ctx : RunContext) :
    Smooth call runId (Runs.recordCompletion ctx policy runId) := by
  refine bind (attempt .flushJournal) fun _ c h => ?_
  rw [Coro.bind_def, asTask_get_bind]
  split
  · exact pure () c h
  · exact updateRunCompletion policy _ c h

theorem titleInterrupted (ctx : RunContext) (threadId : String) :
    Smooth call runId (Runs.titleInterrupted ctx runId threadId) := by
  intro c h
  show fairness.Safe taskBackend call (asTask (some runId)
    (if (c.now.find? runId).any fun r => r.status = .interrupted then _ else return ())) _ c
  split
  · refine catchException (Steady.bind (Steady.waitForPrior runId (owner .finishing) _ _) fun _ =>
      Steady.bind (Steady.underLock (owner .finishing) (Steady.get fun w => Steady.pure _))
        fun later => ?_) c h
    split
    · exact Steady.pure ()
    · exact Steady.ask runId (owner .finishing) .interruptedTitle
  · exact pure () c h

end Smooth

/-- Where a worker is when its cleanup is over. -/
abbrev Ended (runId : ℕ) {β : Type} (_ : Except ManagerExn β) (c : ThreadCtx) : Prop :=
  Held (some runId) (share runId .ended) c

theorem safe_endCleanup (h : Held (some runId) (share runId .finishing) c) :
    fairness.Safe taskBackend call (asTask (some runId) (endCleanup runId))
      (fun res c' => Ended runId res c' ∧ ∃ a, res = .ok a) c := by
  show fairness.Safe taskBackend call (asTask (some runId)
    (if (c.now.find? runId).any RunRecord.finalizing then _ else _)) _ c
  split
  · refine safe_underLock (owner .finishing) h (fun res c' hkept hres => ?_) fun c' hheld _ _ => ?_
    · exact absurd (hkept.cut_of hres).1 id
    · have hcalm := hheld.calm runId rfl
      have hsame := c'.now.cancelPending_modify runId runId
        (f := fun r => { r with finalizing := false }) fun r => ⟨rfl, rfl⟩
      rw [← hsame] at hcalm
      exact ⟨(hheld.locked_step (fun h => h.endCleanup _ fun r => ⟨false, rfl, fun h => by cases h⟩)
        hcalm).release, _, rfl⟩
  · have hsame : (c.now.modify runId fun r => r).runs = c.now.runs := by
      simp [RunWorld.modify]
    have hfair : Fair (c.now.mark (.cleaned runId)) (share runId .ended + c.frame) :=
      (h.fair.endCleanup (fun r => r) fun r => ⟨r.finalizing, rfl, id⟩).neutral hsame.symm rfl rfl rfl
    refine ⟨h.write hfair rfl (fun id he => ?_) h.calm, _, rfl⟩
    rw [show (c.now.mark (.cleaned runId)).log = c.now.log ++ [.cleaned runId] from rfl,
      executing_append, if_neg RunMark.noConfusion] at he
    split at he
    · cases he
    · exact he

theorem safe_cleaning {p : RunProc α} {f : α → RunProc β} {Q : Except ManagerExn β → ThreadCtx → Prop}
    (hp : Smooth call runId p) (h : Held (some runId) (share runId .finishing) c)
    (hf : ∀ a c', Held (some runId) (share runId .finishing) c' →
      fairness.Safe taskBackend call (asTask (some runId) (f a)) Q c') :
    fairness.Safe taskBackend call (asTask (some runId) (p.bind f)) Q c := by
  rw [asTask_bind]
  refine Safe.bind_iff.mpr (Safe.mono (fun res c' hres => ?_) (hp c h))
  obtain ⟨hheld, a, rfl⟩ := hres
  exact hf a c' hheld

/-- **The `finally` block.** -/
theorem safe_cleanup (ctx : RunContext) (threadId : String)
    (h : Held (some runId) (share runId .finishing) c) :
    fairness.Safe taskBackend call (asTask (some runId) (cleanup ctx policy runId threadId))
      (Ended runId) c := by
  refine safe_cleaning (.provided (.attempt _)) h fun _ c h => ?_
  refine safe_cleaning (.provided (.attempt _)) h fun _ c h => ?_
  refine safe_cleaning (.provided (.recordCompletion policy ctx)) h fun _ c h => ?_
  refine safe_cleaning (.provided (.titleInterrupted ctx threadId)) h fun _ c h => ?_
  refine safe_cleaning (.provided (.attempt _)) h fun _ c h => ?_
  refine safe_cleaning (.provided (.attempt _)) h fun _ c h => ?_
  refine safe_cleaning (.provided (.attempt _)) h fun _ c h => ?_
  rw [Coro.bind_def, asTask_bind]
  refine Safe.bind_iff.mpr (Safe.mono (fun res c hres => ?_) (safe_endCleanup h))
  obtain ⟨hheld, a, rfl⟩ := hres
  refine Safe.mono (fun res c hkept => ?_) (Steady.ask runId (owner .ended) .publishEnd c hheld)
  by_cases hcancelled : res = .error .cancelled
  · exact absurd (hkept.cut_of hcancelled).1 id
  · obtain ⟨hheld, -⟩ | ⟨-, -, -, hres, -⟩ := hkept
    · exact hheld
    · exact absurd hres hcancelled

theorem safe_runAgent (ctx : RunContext) {threadId : String}
    (h : Held (some runId) (share runId (.waiting threadId)) c) :
    fairness.Safe taskBackend call (asTask (some runId) (runAgent ctx policy runId threadId))
      (Ended runId) c := by
  rw [runAgent, tryFinally, asTask_bind, asTask_tryCatch]
  refine Safe.bind_iff.mpr (Safe.tryCatch_iff.mpr ?_)
  rw [asTask_tryCatch]
  refine Safe.tryCatch_iff.mpr (Safe.mono (fun res c hres => ?_) (safe_execute policy ctx h))
  -- however the body ends, the cleanup follows
  have hclean : ∀ (res : Except ManagerExn Unit) c, Finishing runId res c →
      Catch fairness taskBackend call (fun e => asTask (some runId)
        ((cleanup ctx policy runId threadId).bind fun _ => .raise e))
        (Then fairness taskBackend call (fun _ => asTask (some runId) (cleanup ctx policy runId threadId))
          (Ended runId)) res c := by
    intro res c hheld
    cases res with
    | ok a => exact safe_cleanup policy ctx threadId hheld
    | error e =>
      show fairness.Safe taskBackend call (asTask (some runId) (Coro.bind _ _)) _ c
      rw [asTask_bind]
      refine Safe.bind_iff.mpr (Safe.mono (fun res c hended => ?_)
        (safe_cleanup policy ctx threadId hheld))
      cases res with
      | ok | error => exact hended
  cases res with
  | ok a =>
    obtain hheld | ⟨_, _, -, hok, -⟩ := hres
    · exact hclean _ _ hheld
    · cases hok
  | error e => exact Safe.mono (fun res c hheld => hclean res c hheld) (safe_failRun policy hres)

theorem Held.ended (h : Held (some runId) (share runId .ended) c) :
    Held none 0 { c with now := c.now.done runId } := by
  have hplain : Held none (share runId .ended) c := ⟨h.fair, h.respects, by simp⟩
  refine hplain.write ?_ (c.now.faces_modifyTask runId _) (fun _ he => he) (by simp)
  rw [zero_add]
  exact h.fair.done

/-- **The task of a run.** -/
theorem safe_runTask (ctx : RunContext) (h : Held none 0 c) :
    fairness.Safe taskBackend call (asTask (some runId) (runTask ctx policy runId))
      (fun _ c' => Held none 0 c') c := by
  rw [runTask, tryFinally, asTask_bind, asTask_tryCatch]
  refine Safe.bind_iff.mpr (Safe.tryCatch_iff.mpr ?_)
  rw [Coro.bind_def, asTask_bind, ask, asTask_call]
  refine Safe.bind_iff.mpr (Safe.call 0 ⟨h.fair, h.respects, trivial⟩
    fun s frame out _ hinv ⟨hout, hreal, _⟩ => ?_)
  subst hout
  obtain ⟨r₀, hr₀, hid, t, ht, hbegun, hdone⟩ := RunWorld.unbegun_of_canBegin hreal
  show Then _ _ _ _ _ (TaskOp.perform ⟨some runId, .outside (.worker runId .begin)⟩ s).1
    ⟨c.close, some ⟨_, (TaskOp.perform ⟨some runId, .outside (.worker runId .begin)⟩ s).1⟩, s, frame,
      (TaskOp.perform ⟨some runId, .outside (.worker runId .begin)⟩ s).2⟩
  by_cases hpending : s.cancelPending runId
  · -- cancelled before it began
    have hperform : TaskOp.perform ⟨some runId, .outside (.worker runId .begin)⟩ s =
        (.error .cancelled, s.delivered runId) := if_pos hpending
    have hruns := s.modifyTask_modifyTask runId (fun t => { t with cancelRequested := false })
      fun t => { t with done := true }
    rw [hperform]
    show Held none 0 ⟨_, _, s, frame, (s.delivered runId).done runId⟩
    refine ⟨hinv.endUnbegun hr₀ hid ht hbegun (fun _ => rfl) (fun _ hc => by cases hc) hruns rfl rfl rfl,
      fun _ => ⟨?_, fun _ he => he⟩, by simp⟩
    exact (RunWorld.faces_modifyTask _ runId _).trans (s.faces_modifyTask runId _)
  · have hperform : TaskOp.perform ⟨some runId, .outside (.worker runId .begin)⟩ s =
        ((s.outside (.worker runId .begin)).mapError .other, s) := if_neg hpending
    rw [hperform]
    cases s.outside (.worker runId .begin) with
    | error text =>
      show Held none 0 ⟨_, _, s, frame, s.done runId⟩
      exact ⟨hinv.endUnbegun hr₀ hid ht hbegun (f := fun t => { t with done := true }) (fun _ => rfl)
          (fun _ hc => hc) rfl rfl rfl rfl, fun _ => ⟨s.faces_modifyTask runId _, fun _ he => he⟩, by simp⟩
    | ok _ =>
      rw [Except.mapError, then_ok, Coro.bind_def, asTask_get_bind]
      dsimp only
      rw [hinv.find?_eq hr₀ hid]
      have hsame := s.cancelPending_modify runId runId
        (f := RunRecord.mapTask fun t => { t with begun := true }) fun r =>
          ⟨rfl, by rw [RunRecord.cancelPending, RunRecord.cancelPending, RunRecord.mapTask]
                   cases r.task <;> rfl⟩
      rw [← hsame] at hpending
      rw [zero_add] at hinv
      refine Safe.mono (fun res c hheld => ?_) (safe_runAgent policy ctx
        ⟨hinv.begin hr₀ hid ht hbegun hdone,
          fun _ => ⟨s.faces_modifyTask runId _, fun _ he => he⟩, by rintro _ ⟨⟩; exact hpending⟩)
      cases res with
      | ok | error => exact hheld.ended

end Places

end Rules

end Turns

end AfterFlow.Runs
