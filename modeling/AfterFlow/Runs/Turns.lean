import AfterFlow.Runs.Worker

/-!
# Turns of a thread

A run is in execution from the moment it is marked running until its cleanup is over. What keeps two
runs of a thread apart is spread out: a start that finds a run in the way rejects, or interrupts it
and cancels its task; a cancelled run is flagged as finalizing until it has cleaned up; and a worker
waits until no older run is flagged.

Two gaps remain. A run can be interrupted before it has a task, and then nothing keeps the task it
gets from running. And a run that ended by itself cleans up without the flag, so a start does not
see it.

Each worker owns its place: waiting, cleared to run, active, finishing, or ended. A start owns the
run it creates until the task is attached. This module has the places, the invariant, and one lemma
for each thing that can happen to a run.

## Main results

* `Fair.change`, `Fair.move` — one run changes, and one run moves on
* `Fair.setRunning`, `Fair.interrupt`, `Fair.insert`, `Fair.settle` — the steps
* `Fair.noneBefore` — nobody to wait for
-/

namespace AfterFlow.Runs

open Coop Logic List Option List

/-! ### The statement -/

/-- Whether a run is between `set_status(running)` and the end of its cleanup. -/
def executing (log : List RunMark) (runId : ℕ) : Bool :=
  log.foldl (fun b m =>
    if m = .status runId .running then true else if m = .cleaned runId then false else b) false

/-- At most one run of a thread is in execution. -/
def OneAtATime (w : RunWorld) : Prop :=
  ∀ r ∈ w.runs, ∀ r' ∈ w.runs, r.threadId = r'.threadId → executing w.log r.runId →
    executing w.log r'.runId → r.runId = r'.runId

/-- The second of two events is not the return of an interrupted run. -/
def RunMark.Before (a b : RunMark) : Prop :=
  ∀ runId, a = .status runId .interrupted → b ≠ .status runId .running ∧ b ≠ .executes runId

/-- No run that was set to interrupted is set to running or executes its graph. -/
def NeverResumed (w : RunWorld) : Prop := w.log.Pairwise RunMark.Before

def RunRecord.IsOpen (r : RunRecord) : Prop := r.status = .pending ∨ r.status = .running

instance (r : RunRecord) : Decidable r.IsOpen := inferInstanceAs (Decidable (_ ∨ _))

/-- Whether a run has a task that has not begun. -/
def RunWorld.canBegin (w : RunWorld) (runId : ℕ) : Bool :=
  (w.find? runId).any fun r => r.task.any fun t => !t.begun && !t.done

/-- The lock is given to one call at a time, and the task of a run begins once it is attached. -/
@[grind =] def Realizable (w : RunWorld) : Option TaskOp → Prop
  | some ⟨task, .acquire⟩ => w.locked = false ∨ task.any w.cancelPending = true
  | some ⟨_, .never⟩ => False
  | some ⟨_, .outside (.worker runId .begin)⟩ => w.canBegin runId = true
  | _ => True

instance (w : RunWorld) (waits : Option TaskOp) : Decidable (Realizable w waits) := by
  simp only [Realizable]
  split <;> infer_instance

/-- Whether `create_or_reject` gives a thread a new run. -/
def RunWorld.admitsRun (w : RunWorld) (threadId : String) (strategy : Strategy) : Prop :=
  strategy ≠ .enqueue ∧ ¬ (strategy = .reject ∧ w.inflight threadId ≠ [])

instance (w : RunWorld) (threadId : String) (strategy : Strategy) :
    Decidable (w.admitsRun threadId strategy) := inferInstanceAs (Decidable (_ ∧ _))

/-- A task is attached to a pending run only, and no run is admitted while a run of the thread that
ended by itself is cleaning up. -/
@[grind =] def Orderly (w : RunWorld) : ThreadCall → Option TaskOp → Prop
  | .start .., some ⟨_, .outside (.internalOwner runId)⟩ =>
      ∀ r ∈ w.runs, r.runId = runId → r.status = .pending
  | .start threadId body _, some ⟨_, .acquire⟩ => w.admitsRun threadId body.multitaskStrategy →
      ∀ r ∈ w.runs, r.threadId = threadId → executing w.log r.runId → r.IsOpen ∨ r.finalizing
  | _, _ => True

instance (w : RunWorld) (call : ThreadCall) (waits : Option TaskOp) :
    Decidable (Orderly w call waits) := by
  simp only [Orderly]
  split <;> infer_instance

/-! ### The invariant -/

/-- Where a start or a worker is. -/
inductive Phase where
  | creating
  | starting
  | waiting (threadId : String)
  | cleared
  | active
  | finishing
  | ended

/-- Whether a cancellation may reach a worker there. -/
def Phase.Cancellable : Phase → Prop
  | waiting _ | cleared | active => True
  | creating | starting | finishing | ended => False

/-- The places of runs, and the lock. -/
abbrev Shares := Multiset (ℕ × Phase) × Multiset Unit

def share (runId : ℕ) (phase : Phase) : Shares := ({(runId, phase)}, 0)

/-- The resource of a run at a place, or at none. -/
def place (runId : ℕ) : Option Phase → Shares
  | none => 0
  | some phase => share runId phase

def lockShare : Shares := (0, {()})

/-- The place of a run, if it has one. -/
def PhaseOf (g : Shares) (runId : ℕ) : Option Phase → Prop
  | none => ∀ phase, (runId, phase) ∉ g.1
  | some phase => (runId, phase) ∈ g.1

theorem PhaseOf.congr {g g' : Shares} {runId : ℕ} {phase : Option Phase}
    (h : PhaseOf g' runId phase) (hsame : ∀ q, (runId, q) ∈ g'.1 ↔ (runId, q) ∈ g.1) :
    PhaseOf g runId phase := by
  cases phase with
  | none => exact fun q hq => h q ((hsame q).mpr hq)
  | some q => exact (hsame q).mp h

/-- The flags of a record fit together. -/
structure RunRecord.Consistent (log : List RunMark) (r : RunRecord) : Prop where
  cancelled : r.cancelPending → ¬ r.IsOpen ∧ r.finalizing
  finalizing : r.finalizing → ¬ r.IsOpen
  aborted : r.abortEvent → ¬ r.IsOpen
  unmarked : r.IsOpen → .status r.runId .interrupted ∉ log

/-- The run is open, or its task is about to learn that it is not. -/
def RunRecord.Live (r : RunRecord) : Prop := r.IsOpen ∨ r.cancelPending

def RunRecord.Working (r : RunRecord) : Prop :=
  ∃ t, r.task = some t ∧ t.begun = true ∧ t.done = false

/-- A record fits the place of its run. -/
def RunRecord.Placed (log : List RunMark) (r : RunRecord) : Option Phase → Prop
  | none => ¬ executing log r.runId ∧ ∀ t, r.task = some t → t.begun = false → t.done = false →
      r.Live
  | some .creating | some .starting => r.task = none ∧ ¬ executing log r.runId
  | some (.waiting threadId) => r.Working ∧ r.Live ∧ ¬ executing log r.runId ∧ r.threadId = threadId
  | some .cleared => r.Working ∧ r.Live ∧ ¬ executing log r.runId
  | some .active => r.Working ∧ r.Live
  | some .finishing => r.Working ∧ ¬ r.IsOpen ∧ ¬ r.cancelPending
  | some .ended => r.Working ∧ ¬ r.IsOpen ∧ ¬ r.cancelPending ∧ ¬ executing log r.runId

namespace RunRecord.Placed

variable {log : List RunMark} {r : RunRecord} {phase : Phase}

theorem working (h : r.Placed log (some phase)) (hphase : phase.Cancellable) : r.Working := by
  cases phase with
  | waiting | cleared | active => exact h.1
  | creating | starting | finishing | ended => cases hphase

theorem isOpen (h : r.Placed log (some phase)) (hphase : phase.Cancellable) (hcalm : ¬ r.cancelPending) :
    r.IsOpen := by
  have hlive : r.Live := by
    cases phase with
    | waiting | cleared => exact h.2.1
    | active => exact h.2
    | creating | starting | finishing | ended => cases hphase
  exact hlive.resolve_right hcalm

theorem congr {log' : List RunMark} {o : Option Phase} (h : r.Placed log o)
    (he : executing log' r.runId = executing log r.runId) : r.Placed log' o := by
  cases o with
  | none => exact ⟨by rw [he]; exact h.1, h.2⟩
  | some phase => cases phase with
    | creating | starting => exact ⟨h.1, by rw [he]; exact h.2⟩
    | waiting threadId => exact ⟨h.1, h.2.1, by rw [he]; exact h.2.2.1, h.2.2.2⟩
    | cleared => exact ⟨h.1, h.2.1, by rw [he]; exact h.2.2⟩
    | active | finishing => exact h
    | ended => exact ⟨h.1, h.2.1, h.2.2.1, by rw [he]; exact h.2.2.2⟩

theorem working_of_executing {o : Option Phase} (h : r.Placed log o) (he : executing log r.runId) :
    r.Working := by
  cases o with
  | none => exact absurd he h.1
  | some phase => cases phase with
    | creating | starting => exact absurd he h.2
    | waiting | cleared | active | finishing | ended => exact h.1

end RunRecord.Placed

/-- An older run of the thread of `r'`. -/
structure Older (log : List RunMark) (g : Shares) (r r' : RunRecord) : Prop where
  closed : ¬ r.IsOpen
  cleaning : executing log r.runId → r.finalizing
  alone : (r'.runId, .cleared) ∈ g.1 ∨ executing log r'.runId → ¬ executing log r.runId

def RunMark.runId : RunMark → ℕ
  | status runId _ => runId
  | executes runId => runId
  | cleaned runId => runId

structure Fair (w : RunWorld) (g : Shares) : Prop where
  lock : g.2.card = if w.locked then 1 else 0
  ids : (w.runs.map RunRecord.runId).Nodup
  fresh : ∀ r ∈ w.runs, r.runId < w.uuids
  shares : (g.1.map Prod.fst).Nodup
  known : ∀ p ∈ g.1, ∃ r ∈ w.runs, r.runId = p.1
  logged : ∀ m ∈ w.log, m.runId < w.uuids
  records : ∀ r ∈ w.runs, r.Consistent w.log ∧ ∀ phase, PhaseOf g r.runId phase → r.Placed w.log phase
  order : w.runs.Pairwise fun r r' => r.threadId = r'.threadId → (r'.runId, .creating) ∉ g.1 →
    Older w.log g r r'
  history : NeverResumed w

/-- What others see of a record while they hold the lock. -/
def RunRecord.face (r : RunRecord) : ℕ × String × RunStatus × Bool :=
  (r.runId, r.threadId, r.status, r.finalizing)

/-- What the holder of the lock relies on. -/
def Respecting (g : Shares) (w w' : RunWorld) : Prop :=
  g.2 ≠ 0 → w'.runs.map RunRecord.face = w.runs.map RunRecord.face ∧
    ∀ runId, executing w'.log runId → executing w.log runId

def fairness : Logic RunWorld TaskOp TaskOp.Reply ManagerExn Unit ThreadCall Shares where
  inv := Fair
  rel := Respecting
  link _ _ _ _ := True
  allowed call _ waits out w _ := out = .ok ∧ Realizable w waits ∧ Orderly w call waits
  done _ _ _ := True
  rel_refl _ _ := fun _ => ⟨rfl, fun _ h => h⟩
  rel_trans h₁ h₂ := fun hg => ⟨(h₂ hg).1.trans (h₁ hg).1, fun id h => (h₁ hg).2 id ((h₂ hg).2 id h)⟩
  rel_weaken h := fun hg => h fun h0 => hg (Multiset.le_zero.mp (h0 ▸ Multiset.le_add_right _ _))

/-! ### Events -/

theorem executing_append (log : List RunMark) (m : RunMark) (runId : ℕ) :
    executing (log ++ [m]) runId = if m = .status runId .running then true
      else if m = .cleaned runId then false else executing log runId := by
  rw [executing, foldl_append]
  rfl

theorem executing_append_of_ne (log : List RunMark) {m : RunMark} {runId : ℕ} (h : m.runId ≠ runId) :
    executing (log ++ [m]) runId = executing log runId := by
  rw [executing_append, if_neg, if_neg]
  · rintro rfl
    exact h rfl
  · rintro rfl
    exact h rfl

theorem executing_status (log : List RunMark) (runId id : ℕ) {status : RunStatus}
    (h : status ≠ .running) : executing (log ++ [.status runId status]) id = executing log id := by
  rw [executing_append, if_neg, if_neg RunMark.noConfusion]
  rintro ⟨⟩
  exact h rfl

theorem marked_of_executing {log : List RunMark} {runId : ℕ} (h : executing log runId) :
    ∃ m ∈ log, m.runId = runId := by
  by_contra hnot
  have hall : ∀ m ∈ log, m.runId ≠ runId := fun m hm he => hnot ⟨m, hm, he⟩
  clear hnot
  induction log using List.reverseRecOn with
  | nil => cases h
  | append_singleton log m ih =>
    rw [executing_append_of_ne log (hall m (by simp))] at h
    exact ih h fun m' hm' => hall m' (mem_append_left _ hm')

namespace Fair

variable {w w' : RunWorld} {g g' : Shares} {runId : ℕ}

theorem eq_of_runId (h : Fair w g) {r r' : RunRecord} (hr : r ∈ w.runs) (hr' : r' ∈ w.runs)
    (he : r.runId = r'.runId) : r = r' :=
  inj_on_of_nodup_map h.ids hr hr' he

theorem find?_eq (h : Fair w g) {r : RunRecord} (hr : r ∈ w.runs) (hid : r.runId = runId) :
    w.find? runId = some r := by
  rw [RunWorld.find?]
  cases hf : w.runs.find? fun r => r.runId = runId with
  | none => exact absurd (find?_eq_none.mp hf r hr) (by simp [hid])
  | some r' =>
    have hid' : r'.runId = runId := by
      simpa using find?_some hf
    rw [h.eq_of_runId (mem_of_find?_eq_some hf) hr (hid'.trans hid.symm)]

theorem cancelPending_eq (h : Fair w g) {r : RunRecord} (hr : r ∈ w.runs) (hid : r.runId = runId) :
    w.cancelPending runId = r.cancelPending := by
  rw [RunWorld.cancelPending, h.find?_eq hr hid]
  rfl

theorem mem_place {o : Option Phase} {id : ℕ} {q : Phase} :
    (id, q) ∈ (place runId o + g).1 ↔ (id = runId ∧ o = some q) ∨ (id, q) ∈ g.1 := by
  cases o with
  | none =>
    rw [show place runId none + g = g from zero_add g]
    simp
  | some phase =>
    rw [show (place runId (some phase) + g).1 = {(runId, phase)} + g.1 from rfl, Multiset.mem_add,
      Multiset.mem_singleton, Prod.mk.injEq, some.injEq, eq_comm (a := phase)]

theorem not_mem_rest {phase : Phase} (h : Fair w (share runId phase + g)) (q : Phase) :
    (runId, q) ∉ g.1 := by
  have hnodup : ((runId, phase) ::ₘ g.1).map Prod.fst |>.Nodup := h.shares
  rw [Multiset.map_cons, Multiset.nodup_cons] at hnodup
  exact fun hm => hnodup.1 (Multiset.mem_map.mpr ⟨_, hm, rfl⟩)

theorem phase_eq {o o' : Option Phase} (hrest : ∀ q, (runId, q) ∉ g.1)
    (ho : PhaseOf (place runId o + g) runId o') : o' = o := by
  cases o' with
  | none =>
    cases o with
    | none => rfl
    | some q => exact absurd (mem_place.mpr (.inl ⟨rfl, rfl⟩)) (ho q)
  | some q =>
    obtain ⟨-, rfl⟩ | hm := mem_place.mp ho
    · rfl
    · exact absurd hm (hrest q)

/-- No older run of the thread is in execution. -/
def NoneBefore (w : RunWorld) (runId : ℕ) : Prop :=
  w.runs.Pairwise fun r r' => r'.runId = runId → r.threadId = r'.threadId → ¬ executing w.log r.runId

/-- What it takes for one run to change: its record by `f`, its place, and what is noted about it. -/
structure Changes (w w' : RunWorld) (g g' : Shares) (runId : ℕ) (f : RunRecord → RunRecord)
    (marks : Option RunMark) (r₀ : RunRecord) : Prop where
  same : ∀ r, (f r).runId = r.runId ∧ (f r).threadId = r.threadId
  runs : w'.runs = (w.modify runId f).runs
  log : w'.log = w.log ++ marks.toList
  creating : (runId, .creating) ∈ g.1 → (runId, .creating) ∈ g'.1
  others : ∀ id, id ≠ runId → ∀ q, (id, q) ∈ g'.1 ↔ (id, q) ∈ g.1
  marked : ∀ m ∈ marks, m.runId = runId ∧ ((.status runId .interrupted ∈ w.log) →
    m ≠ .status runId .running ∧ m ≠ .executes runId)
  closed : ¬ r₀.IsOpen → ¬ (f r₀).IsOpen ∧ (executing w'.log runId → executing w.log runId) ∧
    ((executing w.log runId → r₀.finalizing) → executing w'.log runId → (f r₀).finalizing)
  alone : (runId, .cleared) ∈ g'.1 ∨ executing w'.log runId →
    ((runId, .cleared) ∈ g.1 ∨ executing w.log runId) ∨ NoneBefore w runId

namespace Changes

variable {f : RunRecord → RunRecord} {marks : Option RunMark} {r₀ : RunRecord}

theorem executing_eq (c : Changes w w' g g' runId f marks r₀) {id : ℕ} (hne : id ≠ runId) :
    executing w'.log id = executing w.log id := by
  rw [c.log]
  cases marks with
  | none => rw [toList_none, append_nil]
  | some m =>
    refine executing_append_of_ne _ fun he => hne ?_
    rw [← he, (c.marked m rfl).1]

theorem runIds (c : Changes w w' g g' runId f marks r₀) :
    w'.runs.map RunRecord.runId = w.runs.map RunRecord.runId := by
  rw [c.runs, RunWorld.modify, List.map_map]
  refine List.map_congr_left fun r _ => ?_
  show (if r.runId = runId then f r else r).runId = r.runId
  split
  · exact (c.same r).1
  · rfl

theorem mem_runs (c : Changes w w' g g' runId f marks r₀) (h : Fair w g) (hr₀ : r₀ ∈ w.runs)
    (hid : r₀.runId = runId) {r : RunRecord} (hr : r ∈ w'.runs) :
    (r = f r₀ ∧ r.runId = runId) ∨ (r ∈ w.runs ∧ r.runId ≠ runId) := by
  rw [c.runs] at hr
  obtain ⟨r₁, hr₁, rfl⟩ := mem_map.mp hr
  by_cases hr : r₁.runId = runId
  · rw [if_pos hr, h.eq_of_runId hr₁ hr₀ (hr.trans hid.symm)]
    exact .inl ⟨rfl, ((c.same r₀).1).trans hid⟩
  · rw [if_neg hr]
    exact .inr ⟨hr₁, hr⟩

/-- The runs before and behind the one that changes can live with it. -/
theorem order (c : Changes w w' g g' runId f marks r₀) (h : Fair w g) (hr₀ : r₀ ∈ w.runs)
    (hid : r₀.runId = runId) : w'.runs.Pairwise fun r r' =>
      r.threadId = r'.threadId → (r'.runId, .creating) ∉ g'.1 → Older w'.log g' r r' := by
  have hboth : w.runs.Pairwise fun r r' => (r.threadId = r'.threadId →
      (r'.runId, .creating) ∉ g.1 → Older w.log g r r') ∧ r.runId ≠ r'.runId ∧ (((runId, .cleared) ∈ g'.1 ∨
        executing w'.log runId) → ((runId, .cleared) ∈ g.1 ∨ executing w.log runId) ∨
          (r'.runId = runId → r.threadId = r'.threadId → ¬ executing w.log r.runId)) := by
    refine h.order.and (List.Pairwise.and (pairwise_map.mp h.ids) ?_)
    by_cases hc : (runId, .cleared) ∈ g'.1 ∨ executing w'.log runId
    · obtain hold | hnone := c.alone hc
      · exact pairwise_of_forall fun _ _ _ => .inl hold
      · exact hnone.imp fun hr _ => .inr hr
    · exact pairwise_of_forall fun _ _ h' => absurd h' hc
  rw [c.runs, RunWorld.modify, pairwise_map]
  refine List.Pairwise.imp_of_mem (fun {r r'} hr hr' hrel hthread hset => ?_) hboth
  obtain ⟨hold, hne, hal⟩ := hrel
  have hface : ∀ r : RunRecord, (if r.runId = runId then f r else r).runId = r.runId ∧
      (if r.runId = runId then f r else r).threadId = r.threadId := by
    intro r
    split
    · exact c.same r
    · exact ⟨rfl, rfl⟩
  rw [(hface r).2, (hface r').2] at hthread
  rw [(hface r').1] at hset
  have hset' : (r'.runId, .creating) ∉ g.1 := by
    intro hin
    by_cases he : r'.runId = runId
    · exact hset (he ▸ c.creating (he ▸ hin))
    · exact hset ((c.others _ he _).mpr hin)
  obtain ⟨hcl, hcn, hsole⟩ := hold hthread hset'
  by_cases h1 : r.runId = runId
  · -- the older run changed
    have hr0 : r = r₀ := h.eq_of_runId hr hr₀ (h1.trans hid.symm)
    subst hr0
    have h2 : r'.runId ≠ runId := fun he => hne (h1.trans he.symm)
    obtain ⟨hcl', hex', hcn'⟩ := c.closed hcl
    rw [if_pos h1, if_neg h2]
    rw [h1] at hcn hsole
    refine ⟨hcl', ?_, fun hc => ?_⟩
    · rw [(c.same r).1, h1]
      exact hcn' hcn
    · rw [(c.same r).1, h1]
      rw [c.executing_eq h2, c.others _ h2] at hc
      exact fun he => hsole hc (hex' he)
  · rw [if_neg h1]
    by_cases h2 : r'.runId = runId
    · rw [if_pos h2]
      refine ⟨hcl, by rw [c.executing_eq h1]; exact hcn, fun hc => ?_⟩
      rw [(c.same r').1, h2] at hc
      rw [c.executing_eq h1]
      obtain hc | hc := hal hc
      · exact hsole (h2.symm ▸ hc)
      · exact hc h2 hthread
    · rw [if_neg h2]
      refine ⟨hcl, by rw [c.executing_eq h1]; exact hcn, fun hc => ?_⟩
      rw [c.executing_eq h2, c.others _ h2] at hc
      rw [c.executing_eq h1]
      exact hsole hc

/-- No run that was interrupted goes on. -/
theorem neverResumed (c : Changes w w' g g' runId f marks r₀) (h : NeverResumed w) :
    NeverResumed w' := by
  rw [NeverResumed, c.log, pairwise_append]
  refine ⟨h, ?_, fun a ha b hb id he => ?_⟩
  · cases marks with
    | none => exact .nil
    | some m => exact pairwise_singleton _ _
  · have hb' := c.marked b (mem_toList.mp hb)
    by_cases heq : id = runId
    · subst heq
      exact hb'.2 (he ▸ ha)
    · refine ⟨?_, ?_⟩ <;> rintro rfl <;> exact heq hb'.1

end Changes

/-- **One run changes.** Its record, its place and what is noted about it change together, and the
rest of the thread can live with it. -/
theorem change (h : Fair w g) {r₀ : RunRecord} (hr₀ : r₀ ∈ w.runs) (hid : r₀.runId = runId)
    {f : RunRecord → RunRecord} (marks : Option RunMark) (c : Changes w w' g g' runId f marks r₀)
    (huuids : w'.uuids = w.uuids) (hlock : g'.2.card = if w'.locked then 1 else 0)
    (hshares : (g'.1.map Prod.fst).Nodup) (hknown : ∀ p ∈ g'.1, p.1 = runId ∨ p ∈ g.1)
    (hrecord : (f r₀).Consistent w'.log ∧
      ∀ phase, PhaseOf g' runId phase → (f r₀).Placed w'.log phase) : Fair w' g' := by
  have hids := c.runIds
  refine ⟨hlock, hids ▸ h.ids, fun r hr => ?_, hshares, fun p hp => ?_, fun m hm => ?_, fun r hr => ?_,
    c.order h hr₀ hid, c.neverResumed h.history⟩
  · rw [huuids]
    obtain ⟨rfl, hrid⟩ | ⟨hold, -⟩ := c.mem_runs h hr₀ hid hr
    · rw [hrid, ← hid]
      exact h.fresh r₀ hr₀
    · exact h.fresh r hold
  · have hex : ∃ r ∈ w.runs, r.runId = p.1 := by
      obtain he | hold := hknown p hp
      · exact ⟨r₀, hr₀, hid.trans he.symm⟩
      · exact h.known p hold
    obtain ⟨r, hr, hrp⟩ := hex
    have hin : p.1 ∈ w'.runs.map RunRecord.runId := by
      rw [hids, ← hrp]
      exact mem_map_of_mem hr
    obtain ⟨r', hr', he⟩ := mem_map.mp hin
    exact ⟨r', hr', he⟩
  · rw [huuids]
    rw [c.log] at hm
    obtain hm | hm := mem_append.mp hm
    · exact h.logged m hm
    · rw [(c.marked m (mem_toList.mp hm)).1, ← hid]
      exact h.fresh r₀ hr₀
  · obtain ⟨rfl, hrid⟩ | ⟨hold, hne⟩ := c.mem_runs h hr₀ hid hr
    · exact ⟨hrecord.1, fun phase hp => hrecord.2 phase (hrid ▸ hp)⟩
    · obtain ⟨hcons, hplaced⟩ := h.records r hold
      refine ⟨⟨hcons.cancelled, hcons.finalizing, hcons.aborted, fun hopen hmk => ?_⟩,
        fun phase hp => ?_⟩
      · rw [c.log] at hmk
        obtain hmk | hmk := mem_append.mp hmk
        · exact hcons.unmarked hopen hmk
        · exact hne (c.marked _ (mem_toList.mp hmk)).1
      · have hold : PhaseOf g r.runId phase := hp.congr (c.others _ hne)
        exact (hplaced phase hold).congr (c.executing_eq hne)

theorem record (h : Fair w g) {phase : Phase} (hm : (runId, phase) ∈ g.1) :
    ∃ r ∈ w.runs, r.runId = runId ∧ r.Consistent w.log ∧ r.Placed w.log (some phase) := by
  obtain ⟨r, hr, hid⟩ := h.known _ hm
  obtain ⟨hcons, hplaced⟩ := h.records r hr
  exact ⟨r, hr, hid, hcons, hplaced (some phase) (hid ▸ hm)⟩

theorem owned {phase : Phase} (h : Fair w (share runId phase + g)) :
    ∃ r ∈ w.runs, r.runId = runId ∧ r.Consistent w.log ∧ r.Placed w.log (some phase) :=
  h.record (mem_place.mpr (.inl ⟨rfl, rfl⟩) : (runId, phase) ∈ (place runId (some phase) + g).1)

/-- **A run moves to another place.** -/
theorem move (o o' : Option Phase) (h : Fair w (place runId o + g)) (hrest : ∀ q, (runId, q) ∉ g.1)
    (hset : o ≠ some .creating)
    {r₀ : RunRecord} (hr₀ : r₀ ∈ w.runs) (hid : r₀.runId = runId) (f : RunRecord → RunRecord)
    (marks : Option RunMark)
    (hf : ∀ r, (f r).runId = r.runId ∧ (f r).threadId = r.threadId)
    (hruns : w'.runs = (w.modify runId f).runs) (hlog : w'.log = w.log ++ marks.toList)
    (huuids : w'.uuids = w.uuids) (hlock : w'.locked = w.locked)
    (hmarks : ∀ m ∈ marks, m.runId = runId ∧ ((.status runId .interrupted ∈ w.log) →
      m ≠ .status runId .running ∧ m ≠ .executes runId))
    (hrecord : (f r₀).Consistent w'.log ∧ (f r₀).Placed w'.log o')
    (hclosed : ¬ r₀.IsOpen → ¬ (f r₀).IsOpen ∧ (executing w'.log runId → executing w.log runId) ∧
      ((executing w.log runId → r₀.finalizing) → executing w'.log runId → (f r₀).finalizing))
    (halone : o' = some .cleared ∨ executing w'.log runId →
      (o = some .cleared ∨ executing w.log runId) ∨ NoneBefore w runId) :
    Fair w' (place runId o' + g) := by
  have hsecond : ∀ o : Option Phase, (place runId o + g).2 = g.2 := by
    intro o
    cases o <;> exact zero_add g.2
  have hnot : runId ∉ g.1.map Prod.fst := by
    intro hm
    obtain ⟨⟨id, q⟩, hq, rfl⟩ := Multiset.mem_map.mp hm
    exact hrest q hq
  have hkeep : (g.1.map Prod.fst).Nodup := by
    have hall := h.shares
    rw [show (place runId o + g).1 = (place runId o).1 + g.1 from rfl, Multiset.map_add] at hall
    exact Multiset.nodup_of_le (Multiset.le_add_left _ _) hall
  refine h.change hr₀ hid marks ⟨hf, hruns, hlog, ?_, ?_, hmarks, hclosed, ?_⟩ huuids ?_ ?_ ?_
    ⟨hrecord.1, fun phase hp => ?_⟩
  · intro hm
    obtain ⟨-, ho⟩ | hm := mem_place.mp hm
    · exact absurd ho hset
    · exact absurd hm (hrest _)
  · intro id hne q
    rw [mem_place, mem_place]
    simp [hne]
  · rw [mem_place, mem_place]
    simpa [hrest] using halone
  · rw [hlock, ← h.lock, hsecond, hsecond]
  · cases o' with
    | none =>
      rw [show place runId none + g = g from zero_add g]
      exact hkeep
    | some phase =>
      rw [show (place runId (some phase) + g).1 = (runId, phase) ::ₘ g.1 from rfl, Multiset.map_cons,
        Multiset.nodup_cons]
      exact ⟨hnot, hkeep⟩
  · rintro ⟨id, q⟩ hp
    obtain ⟨rfl, -⟩ | hm := mem_place.mp hp
    · exact .inl rfl
    · exact .inr (mem_place.mpr (.inr hm))
  · rw [phase_eq hrest hp]
    exact hrecord.2

theorem relock (h : Fair w g) (hruns : w'.runs = w.runs) (hlog : w'.log = w.log)
    (huuids : w'.uuids = w.uuids) (hplaces : g'.1 = g.1)
    (hlock : g'.2.card = if w'.locked then 1 else 0) : Fair w' g' := by
  have hphase : ∀ {id phase}, PhaseOf g' id phase → PhaseOf g id phase := fun hp =>
    hp.congr fun q => by rw [hplaces]
  refine ⟨hlock, by rw [hruns]; exact h.ids, by rw [hruns, huuids]; exact h.fresh,
    by rw [hplaces]; exact h.shares, by rw [hruns, hplaces]; exact h.known,
    by rw [hlog, huuids]; exact h.logged, ?_, ?_, ?_⟩
  · rw [hruns, hlog]
    exact fun r hr => ⟨(h.records r hr).1, fun phase hp => (h.records r hr).2 phase (hphase hp)⟩
  · rw [hruns, hlog]
    refine h.order.imp fun hold hthread hset => ?_
    obtain ⟨hclosed, hcleaning, halone⟩ := hold hthread (by rwa [hplaces] at hset)
    exact ⟨hclosed, hcleaning, fun hc => halone (by rwa [hplaces] at hc)⟩
  · rw [NeverResumed, hlog]
    exact h.history

theorem neutral (h : Fair w g) (hruns : w'.runs = w.runs) (hlog : w'.log = w.log)
    (huuids : w'.uuids = w.uuids) (hlock : w'.locked = w.locked) : Fair w' g :=
  h.relock hruns hlog huuids rfl (by rw [hlock]; exact h.lock)

theorem card_lock : (lockShare + g).2.card = g.2.card + 1 := by
  rw [show (lockShare + g).2 = {()} + g.2 from rfl, Multiset.card_add, Multiset.card_singleton,
    Nat.add_comm]

theorem acquire (h : Fair w g) (hfree : w.locked = false) :
    Fair { w with locked := true } (lockShare + g) := by
  refine h.relock rfl rfl rfl (zero_add g.1) ?_
  rw [card_lock, h.lock, hfree]
  rfl

theorem rest_eq_zero (h : Fair w (lockShare + g)) : g.2 = 0 := by
  have hlock := h.lock
  rw [card_lock] at hlock
  refine Multiset.card_eq_zero.mp ?_
  split at hlock <;> omega

theorem release (h : Fair w (lockShare + g)) : Fair w.release g := by
  refine h.relock rfl rfl rfl (zero_add g.1).symm ?_
  rw [h.rest_eq_zero]
  rfl

/-! ### What a worker does -/

section Steps

variable {phase : Phase}

theorem deliver (h : Fair w (share runId phase + g)) (hphase : phase.Cancellable)
    (hpending : w.cancelPending runId) : Fair (w.delivered runId) (share runId .finishing + g) := by
  obtain ⟨r₀, hr₀, hid, hcons, hplaced⟩ := h.owned
  have hcancel : r₀.cancelPending := by
    rwa [← h.cancelPending_eq hr₀ hid]
  obtain ⟨hclosed, -⟩ := hcons.cancelled hcancel
  have hworking : r₀.Working := hplaced.working hphase
  have hnot : ¬ (r₀.mapTask fun t => { t with cancelRequested := false }).cancelPending := by
    rw [RunRecord.cancelPending, RunRecord.mapTask]
    cases r₀.task <;> exact Bool.false_ne_true
  have hne : some phase ≠ some .creating := by
    rintro ⟨⟩
    exact hphase
  obtain ⟨t, ht, hbegun, hdone⟩ := hworking
  refine h.move (some phase) (some .finishing) h.not_mem_rest hne hr₀ hid
    (RunRecord.mapTask fun t => { t with cancelRequested := false }) none (fun r => ⟨rfl, rfl⟩) rfl
    (append_nil _).symm rfl rfl (by simp)
    ⟨⟨fun hc => absurd hc hnot, hcons.finalizing, hcons.aborted, hcons.unmarked⟩,
      ⟨{ t with cancelRequested := false }, by rw [RunRecord.mapTask, ht]; rfl, hbegun, hdone⟩, hclosed,
      hnot⟩
    (fun _ => ⟨hclosed, fun he => he, fun hf he => hf he⟩) (fun hc => .inl ?_)
  exact hc.imp (fun h => by cases h) fun h => h

theorem unplaced (h : Fair w g) {r₀ : RunRecord} (hr₀ : r₀ ∈ w.runs) (hid : r₀.runId = runId)
    {t : RunTask} (ht : r₀.task = some t) (hbegun : t.begun = false) (q : Phase) : (runId, q) ∉ g.1 := by
  intro hq
  have hplaced := (h.records r₀ hr₀).2 (some q) (show (r₀.runId, q) ∈ g.1 by rwa [hid])
  have hworking : ¬ r₀.Working := by
    rintro ⟨t', ht', hb, -⟩
    rw [ht] at ht'
    cases ht'
    rw [hbegun] at hb
    cases hb
  cases q with
  | creating =>
    have hnone := hplaced.1
    rw [ht] at hnone
    cases hnone
  | starting =>
    have hnone := hplaced.1
    rw [ht] at hnone
    cases hnone
  | waiting | cleared | active | finishing | ended => exact hworking hplaced.1

theorem place_none : place runId none + g = g := zero_add g

theorem begin (h : Fair w g) {r₀ : RunRecord} (hr₀ : r₀ ∈ w.runs) (hid : r₀.runId = runId)
    {t : RunTask} (ht : r₀.task = some t) (hbegun : t.begun = false) (hdone : t.done = false) :
    Fair (w.begun runId) (share runId (.waiting r₀.threadId) + g) := by
  have hrest := h.unplaced hr₀ hid ht hbegun
  obtain ⟨hcons, hplaced⟩ := h.records r₀ hr₀
  obtain ⟨hidle, hlive⟩ := hplaced none (fun q hq => hrest q (hid ▸ hq))
  have hcancel : ∀ r : RunRecord,
      (r.mapTask fun t => { t with begun := true }).cancelPending = r.cancelPending := by
    intro r
    rw [RunRecord.cancelPending, RunRecord.cancelPending, RunRecord.mapTask]
    cases r.task <;> rfl
  refine Fair.move none (some (.waiting r₀.threadId)) (place_none.symm ▸ h) hrest (by simp) hr₀ hid
    (RunRecord.mapTask fun t => { t with begun := true })
    none (fun r => ⟨rfl, rfl⟩) rfl (append_nil _).symm rfl rfl (by simp)
    ⟨⟨fun hc => hcons.cancelled (by rwa [← hcancel]), hcons.finalizing, hcons.aborted, hcons.unmarked⟩,
      ⟨{ t with begun := true }, by rw [RunRecord.mapTask, ht]; rfl, rfl, hdone⟩, ?_, hidle, rfl⟩
    (fun hc => ⟨hc, fun he => he, fun hf he => hf he⟩) (fun hc => .inl ?_)
  · exact (hlive t ht hbegun hdone).imp (fun h => h) fun h => by rw [hcancel]; exact h
  · exact hc.imp (fun h => by cases h) fun h => h

/-- The task of a run ends before it began. -/
theorem endUnbegun (h : Fair w g) {r₀ : RunRecord} (hr₀ : r₀ ∈ w.runs) (hid : r₀.runId = runId)
    {t : RunTask} (ht : r₀.task = some t) (hbegun : t.begun = false) {f : RunTask → RunTask}
    (hdone : ∀ t, (f t).done = true) (hcancel : ∀ t, (f t).cancelRequested = true → t.cancelRequested = true)
    (hruns : w'.runs = (w.modifyTask runId f).runs) (hlog : w'.log = w.log) (huuids : w'.uuids = w.uuids)
    (hlock : w'.locked = w.locked) : Fair w' g := by
  have hrest := h.unplaced hr₀ hid ht hbegun
  obtain ⟨hcons, hplaced⟩ := h.records r₀ hr₀
  obtain ⟨hidle, -⟩ := hplaced none (fun q hq => hrest q (hid ▸ hq))
  have hpending : (r₀.mapTask f).cancelPending → r₀.cancelPending := by
    rw [RunRecord.cancelPending, RunRecord.cancelPending, RunRecord.mapTask, ht]
    exact hcancel t
  have hmoved : Fair w' (place runId none + g) := by
    refine Fair.move none none (place_none.symm ▸ h) hrest (by simp) hr₀ hid (RunRecord.mapTask f) none
      (fun r => ⟨rfl, rfl⟩) hruns (hlog.trans (append_nil _).symm) huuids hlock (by simp)
      ⟨?_, ?_, fun t' ht' _ hnot => ?_⟩ (fun hc => ⟨hc, fun he => hlog ▸ he, fun hf he => hf (hlog ▸ he)⟩)
      (fun hc => .inl (hc.imp (fun h => by cases h) fun he => hlog ▸ he))
    · rw [hlog]
      exact ⟨fun hc => hcons.cancelled (hpending hc), hcons.finalizing, hcons.aborted, hcons.unmarked⟩
    · rw [hlog]
      exact hidle
    · rw [RunRecord.mapTask, ht] at ht'
      cases ht'
      rw [hdone] at hnot
      cases hnot
  rwa [place_none] at hmoved

theorem done (h : Fair w (share runId .ended + g)) : Fair (w.done runId) g := by
  obtain ⟨r₀, hr₀, hid, hcons, ⟨t, ht, hbegun, -⟩, hclosed, hcalm, hidle⟩ := h.owned
  have hpending : (r₀.mapTask fun t => { t with done := true }).cancelPending = r₀.cancelPending := by
    rw [RunRecord.cancelPending, RunRecord.cancelPending, RunRecord.mapTask, ht]
    rfl
  have hmoved : Fair (w.done runId) (place runId none + g) := by
    refine h.move (some .ended) none h.not_mem_rest (by simp) hr₀ hid
      (RunRecord.mapTask fun t => { t with done := true }) none
      (fun r => ⟨rfl, rfl⟩) rfl (append_nil _).symm rfl rfl (by simp)
      ⟨⟨fun hc => hcons.cancelled (by rwa [← hpending]), hcons.finalizing, hcons.aborted, hcons.unmarked⟩,
        hidle, fun t' ht' hnot _ => ?_⟩ (fun hc => ⟨hc, fun he => he, fun hf he => hf he⟩)
      (fun hc => .inl (hc.imp (fun h => by cases h) fun he => he))
    rw [RunRecord.mapTask, ht] at ht'
    cases ht'
    rw [show ({ t with done := true } : RunTask).begun = t.begun from rfl, hbegun] at hnot
    cases hnot
  rwa [place_none] at hmoved

theorem attach (h : Fair w (share runId .starting + g))
    (hpending : ∀ r ∈ w.runs, r.runId = runId → r.status = .pending) : Fair (w.attach runId) g := by
  obtain ⟨r₀, hr₀, hid, hcons, htask, hidle⟩ := h.owned
  have hopen : r₀.IsOpen := .inl (hpending r₀ hr₀ hid)
  have hmoved : Fair (w.attach runId) (place runId none + g) := by
    refine h.move (some .starting) none h.not_mem_rest (by simp) hr₀ hid (fun r => { r with task := some {} }) none
      (fun r => ⟨rfl, rfl⟩) rfl (append_nil _).symm rfl rfl (by simp)
      ⟨⟨fun hc => ?_, hcons.finalizing, hcons.aborted, hcons.unmarked⟩, hidle, fun _ _ _ _ => .inl hopen⟩
      (fun hc => absurd hopen hc) (fun hc => .inl (hc.imp (fun h => by cases h) fun he => he))
    cases hc
  rwa [place_none] at hmoved

theorem clear {threadId : String} (h : Fair w (share runId (.waiting threadId) + g))
    (hnone : NoneBefore w runId) : Fair w (share runId .cleared + g) := by
  obtain ⟨r₀, hr₀, hid, hcons, hplaced⟩ := h.owned
  have hsame : (w.modify runId fun r => r).runs = w.runs := by
    simp [RunWorld.modify]
  exact h.move (some (.waiting threadId)) (some .cleared) h.not_mem_rest (by simp) hr₀ hid (fun r => r) none
    (fun r => ⟨rfl, rfl⟩) hsame.symm (append_nil _).symm rfl rfl (by simp)
    ⟨hcons, hplaced.1, hplaced.2.1, hplaced.2.2.1⟩
    (fun hc => ⟨hc, fun he => he, fun hf he => hf he⟩) (fun _ => .inr hnone)

/-- The part of `set_status` under the lock. -/
abbrev statusSet (w : RunWorld) (runId : ℕ) (status : RunStatus) (error : Option String) : RunWorld :=
  w.transition runId status fun r => { r with error := error.orElse fun _ => r.error }

theorem setRunning (h : Fair w (share runId .cleared + g)) (hcalm : ¬ w.cancelPending runId)
    (error : Option String) : Fair (statusSet w runId .running error) (share runId .active + g) := by
  obtain ⟨r₀, hr₀, hid, hcons, hplaced⟩ := h.owned
  rw [h.cancelPending_eq hr₀ hid] at hcalm
  have hopen := hplaced.isOpen trivial hcalm
  have hunmarked : .status runId .interrupted ∉ w.log := by
    rw [← hid]
    exact hcons.unmarked hopen
  refine h.move (some .cleared) (some .active) h.not_mem_rest (by simp) hr₀ hid
    (fun r => { r with error := error.orElse fun _ => r.error, status := .running })
    (some (.status runId .running)) (fun r => ⟨rfl, rfl⟩) rfl rfl rfl rfl ?_
    ⟨⟨fun hc => absurd hc hcalm, fun hf => absurd hopen (hcons.finalizing hf),
      fun ha => absurd hopen (hcons.aborted ha), fun _ hm => ?_⟩, hplaced.1, .inl (.inr rfl)⟩
    (fun hc => absurd hopen hc) (fun _ => .inl (.inl rfl))
  · rintro m ⟨⟩
    exact ⟨rfl, fun hm => absurd hm hunmarked⟩
  · rw [show (statusSet w runId .running error).log = w.log ++ [.status runId .running] from rfl,
      mem_append, mem_singleton] at hm
    obtain hm | hm := hm
    · exact hcons.unmarked hopen hm
    · cases hm

/-- A worker sets how its run ended. -/
theorem setTerminal (h : Fair w (share runId phase + g)) (hcalm : ¬ w.cancelPending runId)
    (hphase : phase.Cancellable ∨ phase = .finishing) {status : RunStatus} (hpending : status ≠ .pending)
    (hrunning : status ≠ .running) (error : Option String) :
    Fair (statusSet w runId status error) (share runId .finishing + g) := by
  obtain ⟨r₀, hr₀, hid, hcons, hplaced⟩ := h.owned
  rw [h.cancelPending_eq hr₀ hid] at hcalm
  have hworking : r₀.Working := by
    obtain hphase | rfl := hphase
    · exact hplaced.working hphase
    · exact hplaced.1
  have hclosed : ∀ error, ¬ RunRecord.IsOpen { r₀ with error, status } := by
    rintro error (hs | hs)
    · exact hpending hs
    · exact hrunning hs
  have hexec := executing_status w.log runId runId hrunning
  have hne : some phase ≠ some .creating := by
    rintro ⟨⟩
    obtain hphase | hphase := hphase <;> cases hphase
  refine h.move (some phase) (some .finishing) h.not_mem_rest hne hr₀ hid
    (fun r => { r with error := error.orElse fun _ => r.error, status := status })
    (some (.status runId status)) (fun r => ⟨rfl, rfl⟩) rfl rfl rfl rfl ?_
    ⟨⟨fun hc => absurd hc hcalm, fun _ => hclosed _, fun _ => hclosed _,
      fun ho => absurd ho (hclosed _)⟩, hworking, hclosed _, hcalm⟩
    (fun _ => ⟨hclosed _, fun he => hexec ▸ he, fun hf he => hf (hexec ▸ he)⟩)
    (fun hc => .inl (hc.imp (fun h => by cases h) fun he => hexec ▸ he))
  rintro m ⟨⟩
  refine ⟨rfl, fun _ => ⟨?_, RunMark.noConfusion⟩⟩
  rintro ⟨⟩
  exact hrunning rfl

theorem setFinalizing (h : Fair w (share runId .finishing + g)) :
    Fair (w.modify runId fun r => { r with finalizing := true }) (share runId .finishing + g) := by
  obtain ⟨r₀, hr₀, hid, hcons, hworking, hclosed, hcalm⟩ := h.owned
  exact h.move (some .finishing) (some .finishing) h.not_mem_rest (by simp) hr₀ hid
    (fun r => { r with finalizing := true }) none (fun r => ⟨rfl, rfl⟩) rfl (append_nil _).symm rfl
    rfl (by simp) ⟨⟨fun hc => absurd hc hcalm, fun _ => hclosed, hcons.aborted, hcons.unmarked⟩, hworking,
      hclosed, hcalm⟩ (fun _ => ⟨hclosed, fun he => he, fun _ _ => rfl⟩)
    (fun hc => .inl (hc.imp (fun h => by cases h) fun he => he))

/-- The cleanup is over. -/
theorem endCleanup (h : Fair w (share runId .finishing + g)) (f : RunRecord → RunRecord)
    (hf : ∀ r, ∃ finalizing, f r = { r with finalizing } ∧ (finalizing = true → r.finalizing = true)) :
    Fair ((w.modify runId f).mark (.cleaned runId)) (share runId .ended + g) := by
  obtain ⟨r₀, hr₀, hid, hcons, hworking, hclosed, hcalm⟩ := h.owned
  have hexec : ¬ executing (w.log ++ [.cleaned runId]) runId := by
    rw [executing_append, if_neg RunMark.noConfusion, if_pos rfl]
    exact Bool.false_ne_true
  obtain ⟨finalizing, he, hfin⟩ := hf r₀
  refine h.move (some .finishing) (some .ended) h.not_mem_rest (by simp) hr₀ hid f (some (.cleaned runId))
    (fun r => ?_) rfl rfl rfl rfl ?_ ?_ (fun _ => ?_) (fun hc => ?_)
  · obtain ⟨_, hr, -⟩ := hf r
    rw [hr]
    exact ⟨rfl, rfl⟩
  · rintro m ⟨⟩
    exact ⟨rfl, fun _ => ⟨RunMark.noConfusion, RunMark.noConfusion⟩⟩
  · rw [he]
    refine ⟨⟨fun hc => absurd hc hcalm, fun _ => hclosed, hcons.aborted, fun ho => absurd ho hclosed⟩,
      hworking, hclosed, hcalm, ?_⟩
    show ¬ executing (w.log ++ [.cleaned runId]) r₀.runId
    rwa [hid]
  · refine ⟨?_, fun he => absurd he hexec, fun _ he => absurd he hexec⟩
    rw [he]
    exact hclosed
  · obtain hc | hc := hc
    · cases hc
    · exact absurd hc hexec

theorem executes (h : Fair w (share runId .active + g)) (hcalm : ¬ w.cancelPending runId) :
    Fair (w.mark (.executes runId)) (share runId .active + g) := by
  obtain ⟨r₀, hr₀, hid, hcons, hplaced⟩ := h.owned
  rw [h.cancelPending_eq hr₀ hid] at hcalm
  have hopen := hplaced.isOpen trivial hcalm
  have hunmarked : .status runId .interrupted ∉ w.log := by
    rw [← hid]
    exact hcons.unmarked hopen
  have hsame : (w.modify runId fun r => r).runs = w.runs := by
    simp [RunWorld.modify]
  have hexec : executing (w.log ++ [.executes runId]) runId = executing w.log runId := by
    rw [executing_append, if_neg RunMark.noConfusion, if_neg RunMark.noConfusion]
  refine h.move (some .active) (some .active) h.not_mem_rest (by simp) hr₀ hid (fun r => r)
    (some (.executes runId)) (fun r => ⟨rfl, rfl⟩) hsame.symm rfl rfl rfl ?_
    ⟨⟨hcons.cancelled, hcons.finalizing, hcons.aborted, fun _ hm => ?_⟩, hplaced⟩
    (fun hc => absurd hopen hc) (fun hc => .inl (hc.imp (fun h => by cases h) fun he => hexec ▸ he))
  · rintro m ⟨⟩
    exact ⟨rfl, fun hm => absurd hm hunmarked⟩
  · obtain hm | hm := mem_append.mp hm
    · exact hcons.unmarked hopen hm
    · cases mem_singleton.mp hm

end Steps

/-! ### What the manager does -/

section Manager

theorem complete (h : Fair w g) (data : CompletionData) : Fair (w.complete runId data).2 g := by
  by_cases hex : ∃ r ∈ w.runs, r.runId = runId
  · obtain ⟨r₀, hr₀, hid⟩ := hex
    obtain ⟨hcons, hplaced⟩ := h.records r₀ hr₀
    refine h.change hr₀ hid (f := fun r => r.complete data) none
      ⟨fun r => ⟨rfl, rfl⟩, rfl, (append_nil _).symm, fun hm => hm, fun _ _ _ => Iff.rfl, by simp,
        fun hc => ⟨hc, fun he => he, fun hf he => hf he⟩, .inl⟩ rfl h.lock h.shares
      (fun _ hp => .inr hp)
      ⟨⟨hcons.cancelled, hcons.finalizing, hcons.aborted, hcons.unmarked⟩, fun phase hp => ?_⟩
    have hold := hplaced phase (hid ▸ hp)
    cases phase with
    | none => exact hold
    | some q => cases q <;> exact hold
  · refine h.neutral ?_ rfl rfl rfl
    refine (map_congr_left fun r hr => ?_).trans (map_id _)
    exact if_neg fun hid => hex ⟨r, hr, hid⟩

/-- An open run is interrupted, wherever it is. -/
theorem interrupt (h : Fair w g) {r₀ : RunRecord} (hr₀ : r₀ ∈ w.runs) (hid : r₀.runId = runId)
    (hopen : r₀.IsOpen) (action : AbortAction) : Fair (w.interrupt runId action) g := by
  subst hid
  obtain ⟨hcons, hplaced⟩ := h.records r₀ hr₀
  have hcalm : ¬ r₀.cancelPending := fun hc => (hcons.cancelled hc).1 hopen
  have hclosed : ¬ RunRecord.IsOpen { r₀.abort action with status := .interrupted } := by
    rintro (hs | hs) <;> cases hs
  have hexec : executing (w.log ++ [.status r₀.runId .interrupted]) r₀.runId =
      executing w.log r₀.runId := executing_status _ _ _ RunStatus.noConfusion
  -- a task that is not done learns of it
  have htold : ∀ t, r₀.task = some t → t.done = false →
      (r₀.abort action).task = some { t with cancelRequested := true } ∧
        (r₀.abort action).finalizing = true := by
    intro t ht hdone
    simp [RunRecord.abort, ht, hdone]
  have hworking : r₀.Working → RunRecord.Working { r₀.abort action with status := .interrupted } ∧
      RunRecord.Live { r₀.abort action with status := .interrupted } := by
    rintro ⟨t, ht, hbegun, hdone⟩
    refine ⟨⟨_, (htold t ht hdone).1, hbegun, hdone⟩, .inr ?_⟩
    show (r₀.abort action).task.any RunTask.cancelRequested
    rw [(htold t ht hdone).1]
    rfl
  refine h.change hr₀ rfl (f := fun r => { r.abort action with status := .interrupted })
    (some (.status r₀.runId .interrupted))
    ⟨fun r => ⟨rfl, rfl⟩, rfl, rfl, fun hm => hm, fun _ _ _ => Iff.rfl, ?_, fun hc => absurd hopen hc,
      fun hc => .inl (hc.imp (fun h => h) fun he => hexec.symm.trans he)⟩ rfl h.lock h.shares
    (fun _ hp => .inr hp)
    ⟨⟨fun hc => ⟨hclosed, ?_⟩, fun _ => hclosed, fun _ => hclosed, fun ho => absurd ho hclosed⟩,
      fun phase hp => ?_⟩
  · rintro m ⟨⟩
    exact ⟨rfl, fun _ => ⟨by rintro ⟨⟩, RunMark.noConfusion⟩⟩
  · -- a cancellation is only requested of a task that is not done
    show (r₀.abort action).finalizing = true
    by_contra hnot
    refine hcalm ?_
    have hsame : (r₀.abort action).task = r₀.task := by
      simp only [RunRecord.abort] at hnot ⊢
      rw [if_neg hnot]
    rw [RunRecord.cancelPending, ← hsame]
    exact hc
  · have hold := hplaced phase hp
    have hidle : ¬ executing w.log r₀.runId →
        ¬ executing (w.log ++ [.status r₀.runId .interrupted]) r₀.runId := by
      rw [hexec]
      exact fun h => h
    cases phase with
    | none =>
      refine ⟨hidle hold.1, fun t ht hbegun hdone => .inr ?_⟩
      show (r₀.abort action).task.any RunTask.cancelRequested
      simp only [RunRecord.abort] at ht ⊢
      split at ht
      · rename_i hactive
        rw [if_pos hactive]
        obtain ⟨t₀, ht₀, rfl⟩ := map_eq_some_iff.mp ht
        rw [ht₀]
        rfl
      · rename_i hidle
        rw [ht] at hidle
        simp [hdone] at hidle
    | some q => cases q with
      | creating =>
        refine ⟨?_, hidle hold.2⟩
        simp [RunRecord.abort, hold.1]
      | starting =>
        refine ⟨?_, hidle hold.2⟩
        simp [RunRecord.abort, hold.1]
      | waiting threadId =>
        exact ⟨(hworking hold.1).1, (hworking hold.1).2, hidle hold.2.2.1, hold.2.2.2⟩
      | cleared => exact ⟨(hworking hold.1).1, (hworking hold.1).2, hidle hold.2.2⟩
      | active => exact hworking hold.1
      | finishing | ended => exact absurd hopen hold.2.1

/-- A run is created under the lock. -/
theorem insert (h : Fair w (lockShare + g)) (info : RunInfo) :
    Fair (w.insertRecord info).2 (share w.uuids .creating + (lockShare + g)) := by
  have hnew : w.uuids ∉ g.1.map Prod.fst := by
    intro hm
    obtain ⟨⟨id, q⟩, hq, hid⟩ := Multiset.mem_map.mp hm
    have hin : (id, q) ∈ (lockShare + g).1 := Multiset.mem_add.mpr (.inr hq)
    obtain ⟨r, hr, hrid⟩ := h.known _ hin
    exact (h.fresh r hr).ne (hrid.trans hid)
  have hidle : ¬ executing w.log w.uuids := by
    intro he
    obtain ⟨m, hm, hid⟩ := marked_of_executing he
    exact (h.logged m hm).ne hid
  have hplaces : ∀ {id : ℕ} {q : Phase}, id ≠ w.uuids →
      ((id, q) ∈ (share w.uuids .creating + (lockShare + g)).1 ↔
        (id, q) ∈ (lockShare + g).1) := by
    intro id q hne
    refine (mem_place (o := some .creating)).trans ⟨?_, .inr⟩
    rintro (⟨hid, -⟩ | hm)
    · exact absurd hid hne
    · exact hm
  have hcases : ∀ {r}, r ∈ (w.insertRecord info).2.runs →
      (r ∈ w.runs ∧ r.runId ≠ w.uuids) ∨ r = (w.insertRecord info).1 := by
    intro r hr
    obtain hr | hr := mem_append.mp hr
    · exact .inl ⟨hr, (h.fresh r hr).ne⟩
    · exact .inr (mem_singleton.mp hr)
  refine ⟨?_, ?_, fun r hr => ?_, ?_, ?_, fun m hm => (h.logged m hm).trans (Nat.lt_succ_self _),
    fun r hr => ?_, ?_, h.history⟩
  · rw [show (share w.uuids .creating + (lockShare + g)).2 = (lockShare + g).2 from zero_add _]
    exact h.lock
  · rw [show (w.insertRecord info).2.runs = w.runs ++ [(w.insertRecord info).1] from rfl, map_append,
      nodup_append]
    refine ⟨h.ids, nodup_singleton _, fun id hid id' hid' => ?_⟩
    obtain ⟨r, hr, rfl⟩ := mem_map.mp hid
    rw [map_singleton, mem_singleton] at hid'
    rw [hid']
    exact (h.fresh r hr).ne
  · obtain ⟨hr, -⟩ | rfl := hcases hr
    · exact (h.fresh r hr).trans (Nat.lt_succ_self _)
    · exact Nat.lt_succ_self _
  · show (((w.uuids, Phase.creating) ::ₘ (lockShare + g).1).map Prod.fst).Nodup
    rw [Multiset.map_cons, Multiset.nodup_cons, show (lockShare + g).1 = g.1 from zero_add _]
    refine ⟨hnew, ?_⟩
    have hshares := h.shares
    rwa [show (lockShare + g).1 = g.1 from zero_add _] at hshares
  · rintro ⟨id, q⟩ hp
    by_cases hid : id = w.uuids
    · exact ⟨(w.insertRecord info).1, mem_append_right _ (mem_singleton_self _), hid.symm⟩
    · obtain ⟨r, hr, hrid⟩ := h.known _ ((hplaces hid).mp hp)
      exact ⟨r, mem_append_left _ hr, hrid⟩
  · obtain ⟨hr, hne⟩ | rfl := hcases hr
    · exact ⟨(h.records r hr).1, fun phase hp =>
        (h.records r hr).2 phase (hp.congr fun _ => hplaces hne)⟩
    · refine ⟨⟨fun hc => (by cases hc), fun hc => (by cases hc), fun hc => (by cases hc), fun _ hm => ?_⟩,
        fun phase hp => ?_⟩
      · exact (h.logged _ hm).ne rfl
      · have hrest : ∀ q, (w.uuids, q) ∉ (lockShare + g).1 := by
          intro q hq
          rw [show (lockShare + g).1 = g.1 from zero_add _] at hq
          exact hnew (Multiset.mem_map.mpr ⟨_, hq, rfl⟩)
        rw [phase_eq (o := some .creating) hrest hp]
        exact ⟨rfl, hidle⟩
  · rw [show (w.insertRecord info).2.runs = w.runs ++ [(w.insertRecord info).1] from rfl,
      pairwise_append]
    refine ⟨?_, pairwise_singleton _ _, fun r _ r' hr' _ hset => ?_⟩
    · refine List.Pairwise.imp_of_mem (fun {r r'} hr hr' hold hthread hset => ?_) h.order
      have hne : r'.runId ≠ w.uuids := (h.fresh r' hr').ne
      obtain ⟨hclosed, hcleaning, halone⟩ := hold hthread fun hin => hset ((hplaces hne).mpr hin)
      exact ⟨hclosed, hcleaning, fun hc => halone (hc.imp (hplaces hne).mp fun he => he)⟩
    · refine absurd ?_ hset
      rw [mem_singleton.mp hr']
      exact (mem_place (o := some .creating)).mpr (.inl ⟨rfl, rfl⟩)

/-- The runs before the new one are closed, and those in execution are finalizing. -/
def Cleared (w : RunWorld) (threadId : String) (runId : ℕ) : Prop :=
  ∀ r ∈ w.runs, r.runId ≠ runId → r.threadId = threadId →
    ¬ r.IsOpen ∧ (executing w.log r.runId → r.finalizing)

/-- The runs in the way of a new run have been dealt with. -/
theorem settle (h : Fair w (share runId .creating + g)) {threadId : String}
    (hthread : ∀ r ∈ w.runs, r.runId = runId → r.threadId = threadId)
    (hcleared : Cleared w threadId runId) : Fair w (share runId .starting + g) := by
  obtain ⟨r₀, hr₀, hid, -, htask, hidle⟩ := h.owned
  have hplaces : ∀ {id : ℕ} {q : Phase}, id ≠ runId →
      ((id, q) ∈ (share runId .starting + g).1 ↔ (id, q) ∈ (share runId .creating + g).1) := by
    intro id q hne
    refine (mem_place (o := some .starting)).trans (Iff.trans ?_ (mem_place (o := some .creating)).symm)
    simp [hne]
  have halone : ¬ ((runId, .cleared) ∈ (share runId .starting + g).1 ∨ executing w.log runId) := by
    rintro (hm | he)
    · obtain ⟨-, hc⟩ | hm := (mem_place (o := some .starting)).mp hm
      · cases hc
      · exact h.not_mem_rest _ hm
    · rw [hid] at hidle
      exact hidle he
  have hshares : ((share runId .starting + g).1.map Prod.fst) =
      (share runId .creating + g).1.map Prod.fst := by
    rw [show (share runId .starting + g).1 = (runId, .starting) ::ₘ g.1 from rfl,
      show (share runId .creating + g).1 = (runId, .creating) ::ₘ g.1 from rfl, Multiset.map_cons,
      Multiset.map_cons]
  refine ⟨h.lock, h.ids, h.fresh, hshares ▸ h.shares, ?_, h.logged, fun r hr => ?_, ?_, h.history⟩
  · rintro ⟨id, q⟩ hp
    by_cases hne : id = runId
    · exact ⟨r₀, hr₀, hid.trans hne.symm⟩
    · exact h.known _ ((hplaces hne).mp hp)
  · refine ⟨(h.records r hr).1, fun phase hp => ?_⟩
    by_cases hne : r.runId = runId
    · rw [hne] at hp
      rw [phase_eq (o := some .starting) h.not_mem_rest hp, h.eq_of_runId hr hr₀ (hne.trans hid.symm)]
      exact ⟨htask, hidle⟩
    · exact (h.records r hr).2 phase (hp.congr fun _ => hplaces hne)
  · refine List.Pairwise.imp_of_mem (fun {r r'} hr hr' hold hsame hset => ?_)
      (h.order.and (pairwise_map.mp h.ids))
    obtain ⟨hold, hne⟩ := hold
    by_cases hr'id : r'.runId = runId
    · obtain ⟨hclosed, hcleaning⟩ := hcleared r hr (fun he => hne (he.trans hr'id.symm))
        (hsame.trans (hthread r' hr' hr'id))
      exact ⟨hclosed, hcleaning, fun hc => absurd (hr'id ▸ hc) halone⟩
    · obtain ⟨hclosed, hcleaning, hsole⟩ := hold hsame fun hin => hset ((hplaces hr'id).mpr hin)
      exact ⟨hclosed, hcleaning, fun hc => hsole (hc.imp (hplaces hr'id).mp fun he => he)⟩

theorem working (h : Fair w g) {r : RunRecord} (hr : r ∈ w.runs) (he : executing w.log r.runId) :
    r.Working := by
  by_cases hplace : ∃ q, (r.runId, q) ∈ g.1
  · obtain ⟨q, hq⟩ := hplace
    exact ((h.records r hr).2 (some q) hq).working_of_executing he
  · exact ((h.records r hr).2 none fun q hq => hplace ⟨q, hq⟩).working_of_executing he

/-- The runs in the way are closed, and those in execution are finalizing; the others stay. -/
theorem interrupted (action : AbortAction) {ids : List ℕ} (h : Fair w g) (hnodup : ids.Nodup)
    (hway : ∀ r ∈ w.runs, r.runId ∈ ids → r.IsOpen ∨ r.finalizing) :
    Fair (interruptAll action ids w).2 g ∧
      (∀ id, executing (interruptAll action ids w).2.log id = executing w.log id) ∧
      ∀ r' ∈ (interruptAll action ids w).2.runs, ∃ r ∈ w.runs, r'.runId = r.runId ∧
        r'.threadId = r.threadId ∧ ((r.runId ∉ ids ∧ r' = r) ∨
          r.runId ∈ ids ∧ ¬ r'.IsOpen ∧ (executing w.log r.runId → r'.finalizing)) := by
  induction ids generalizing w with
  | nil => exact ⟨h, fun _ => rfl, fun r hr => ⟨r, hr, rfl, rfl, .inl ⟨not_mem_nil, rfl⟩⟩⟩
  | cons id ids ih =>
    obtain ⟨hfirst, hrest⟩ := nodup_cons.mp hnodup
    have hlater : ∀ r ∈ w.runs, r.runId ∈ ids → r.IsOpen ∨ r.finalizing :=
      fun r hr hin => hway r hr (mem_cons_of_mem _ hin)
    rw [interruptAll]
    cases hf : w.find? id with
    | none =>
      obtain ⟨hfair, hexec, hruns⟩ := ih h hrest hlater
      refine ⟨hfair, hexec, fun r' hr' => ?_⟩
      obtain ⟨r, hr, hid, hthread, hout | hin⟩ := hruns r' hr'
      · refine ⟨r, hr, hid, hthread, .inl ⟨fun hin => ?_, hout.2⟩⟩
        obtain he | hin := mem_cons.mp hin
        · rw [h.find?_eq hr he] at hf
          cases hf
        · exact hout.1 hin
      · exact ⟨r, hr, hid, hthread, .inr ⟨mem_cons_of_mem _ hin.1, hin.2⟩⟩
    | some r₀ =>
      have hr₀ : r₀ ∈ w.runs := mem_of_find?_eq_some hf
      have hid₀ : r₀.runId = id := by
        simpa using find?_some hf
      dsimp only
      split
      · rename_i hfinalizing
        obtain ⟨hfair, hexec, hruns⟩ := ih h hrest hlater
        refine ⟨hfair, hexec, fun r' hr' => ?_⟩
        obtain ⟨r, hr, hid, hthread, hout | hin⟩ := hruns r' hr'
        · by_cases he : r.runId = id
          · rw [h.eq_of_runId hr hr₀ (he.trans hid₀.symm)] at hid hthread hout
            rw [hout.2]
            exact ⟨r₀, hr₀, rfl, rfl, .inr ⟨hid₀ ▸ mem_cons_self,
              (h.records r₀ hr₀).1.finalizing hfinalizing, fun _ => hfinalizing⟩⟩
          · exact ⟨r, hr, hid, hthread, .inl ⟨not_mem_cons_of_ne_of_not_mem he hout.1, hout.2⟩⟩
        · exact ⟨r, hr, hid, hthread, .inr ⟨mem_cons_of_mem _ hin.1, hin.2⟩⟩
      · rename_i hquiet
        have hopen : r₀.IsOpen :=
          (hway r₀ hr₀ (hid₀ ▸ mem_cons_self)).resolve_right hquiet
        have hexec₁ : ∀ x, executing (w.interrupt id action).log x = executing w.log x :=
          fun x => executing_status _ _ _ RunStatus.noConfusion
        have hlater₁ : ∀ r ∈ (w.interrupt id action).runs, r.runId ∈ ids → r.IsOpen ∨ r.finalizing := by
          intro r hr hin
          obtain ⟨r₁, hr₁, rfl⟩ := mem_map.mp hr
          by_cases he : r₁.runId = id
          · rw [if_pos he] at hin
            exact absurd (he ▸ hin) hfirst
          · rw [if_neg he] at hin ⊢
            exact hlater r₁ hr₁ hin
        obtain ⟨hfair, hexec, hruns⟩ := ih (h.interrupt hr₀ hid₀ hopen action) hrest hlater₁
        refine ⟨hfair, fun x => (hexec x).trans (hexec₁ x), fun r' hr' => ?_⟩
        obtain ⟨r₁, hr₁, hid, hthread, hcases⟩ := hruns r' hr'
        obtain ⟨r, hr, rfl⟩ := mem_map.mp hr₁
        by_cases he : r.runId = id
        · -- the run that was just interrupted
          rw [if_pos he] at hid hthread hcases
          refine ⟨r, hr, hid, hthread, .inr ⟨he ▸ mem_cons_self, ?_⟩⟩
          obtain ⟨-, rfl⟩ | hin := hcases
          · constructor
            · intro ho
              obtain ho | ho := ho <;> cases ho
            · intro hex
              obtain ⟨t, ht, -, hdone⟩ := h.working hr hex
              simp [RunRecord.abort, ht, hdone]
          · exact absurd (he ▸ hin.1) hfirst
        · rw [if_neg he] at hid hthread hcases
          refine ⟨r, hr, hid, hthread, hcases.imp (fun hout => ?_) fun hin => ?_⟩
          · exact ⟨not_mem_cons_of_ne_of_not_mem he hout.1, hout.2⟩
          · exact ⟨mem_cons_of_mem _ hin.1, hin.2.1, fun hex => hin.2.2 ((hexec₁ _).trans hex)⟩

end Manager

/-! ### Waiting -/

theorem pairwise_of_priorFinalizing {l : List RunRecord} (h : priorFinalizing runId l = false)
    (hnodup : (l.map RunRecord.runId).Nodup) :
    l.Pairwise fun r r' => r'.runId = runId → r.finalizing = false := by
  induction l with
  | nil => exact .nil
  | cons r rs ih =>
    rw [map_cons, nodup_cons] at hnodup
    rw [priorFinalizing] at h
    split at h
    · rename_i he
      have hnot : ∀ r' ∈ rs, r'.runId ≠ runId :=
        fun r' hr' he' => hnodup.1 (he.trans he'.symm ▸ mem_map_of_mem hr')
      refine List.Pairwise.cons (fun r' hr' he' => absurd he' (hnot r' hr')) ?_
      exact List.Pairwise.imp_of_mem (fun _ hr' _ he' => absurd he' (hnot _ hr'))
        (pairwise_of_forall fun _ _ => trivial : rs.Pairwise fun _ _ => True)
    · rw [Bool.or_eq_false_iff] at h
      exact List.Pairwise.cons (fun _ _ _ => h.1) (ih h.2 hnodup.2)

/-- **Nobody to wait for.** -/
theorem noneBefore {threadId : String} (h : Fair w (share runId (.waiting threadId) + g))
    (hwait : w.mustWait threadId runId = false) : NoneBefore w runId := by
  obtain ⟨r₀, hr₀, hid, -, hplaced⟩ := h.owned
  have hthread : r₀.threadId = threadId := hplaced.2.2.2
  have hin : r₀ ∈ w.threadRecords threadId := mem_filter.mpr ⟨hr₀, decide_eq_true hthread⟩
  have hprior : priorFinalizing runId (w.threadRecords threadId) = false := by
    have hknown : (w.threadRecords threadId).any (fun r => r.runId = runId) = true :=
      any_eq_true.mpr ⟨r₀, hin, decide_eq_true hid⟩
    rw [RunWorld.mustWait, hknown] at hwait
    simpa using hwait
  have hpair := pairwise_of_priorFinalizing hprior
    (h.ids.sublist (filter_sublist.map _))
  rw [RunWorld.threadRecords, pairwise_filter] at hpair
  refine List.Pairwise.imp_of_mem (fun {r r'} hr hr' hold he hsame hex => ?_) (h.order.and hpair)
  have hr'₀ : r' = r₀ := h.eq_of_runId hr' hr₀ (he.trans hid.symm)
  have hquiet := hold.2 (decide_eq_true (hsame.trans (hr'₀ ▸ hthread)))
    (decide_eq_true (hr'₀ ▸ hthread)) he
  have hset : (r'.runId, .creating) ∉ (share runId (.waiting threadId) + g).1 := by
    rw [he]
    intro hin
    obtain ⟨-, hc⟩ | hin := (mem_place (o := some (.waiting threadId))).mp hin
    · cases hc
    · exact h.not_mem_rest _ hin
  have hfinalizing := (hold.1 hsame hset).cleaning hex
  rw [hquiet] at hfinalizing
  cases hfinalizing




end Fair

/-! ### The registry -/

theorem RunWorld.cancelPending_modify (w : RunWorld) (runId x : ℕ) {f : RunRecord → RunRecord}
    (hf : ∀ r, (f r).runId = r.runId ∧ (f r).cancelPending = r.cancelPending) :
    (w.modify runId f).cancelPending x = w.cancelPending x := by
  have hsame : (fun r : RunRecord => decide (r.runId = x)) ∘
      (fun r => if r.runId = runId then f r else r) = fun r => decide (r.runId = x) := by
    funext r
    show decide ((if r.runId = runId then f r else r).runId = x) = _
    split
    · rw [(hf r).1]
    · rfl
  rw [RunWorld.cancelPending, RunWorld.cancelPending, RunWorld.find?, RunWorld.find?, RunWorld.modify,
    find?_map, hsame, Option.any_map]
  refine congrArg (fun p => Option.any p _) (funext fun r => ?_)
  show RunRecord.cancelPending (if r.runId = runId then f r else r) = _
  split
  · exact (hf r).2
  · rfl

theorem RunWorld.faces_modify (w : RunWorld) (runId : ℕ) {f : RunRecord → RunRecord}
    (hf : ∀ r, (f r).face = r.face) :
    (w.modify runId f).runs.map RunRecord.face = w.runs.map RunRecord.face := by
  rw [RunWorld.modify, List.map_map]
  refine List.map_congr_left fun r _ => ?_
  show RunRecord.face (if r.runId = runId then f r else r) = _
  split
  · exact hf r
  · rfl

theorem RunWorld.modifyTask_modifyTask (w : RunWorld) (runId : ℕ) (f f' : RunTask → RunTask) :
    ((w.modifyTask runId f).modifyTask runId f').runs =
      (w.modifyTask runId fun t => f' (f t)).runs := by
  simp only [RunWorld.modifyTask, RunWorld.modify, List.map_map]
  refine List.map_congr_left fun r _ => ?_
  show (if (if r.runId = runId then r.mapTask f else r).runId = runId then
    RunRecord.mapTask f' (if r.runId = runId then r.mapTask f else r)
      else (if r.runId = runId then r.mapTask f else r)) = _
  by_cases hr : r.runId = runId
  · rw [if_pos hr, if_pos hr, if_pos (show (r.mapTask f).runId = runId from hr)]
    simp [RunRecord.mapTask, Option.map_map, Function.comp_def]
  · rw [if_neg hr, if_neg hr, if_neg hr]

theorem RunWorld.faces_modifyTask (w : RunWorld) (runId : ℕ) (f : RunTask → RunTask) :
    (w.modifyTask runId f).runs.map RunRecord.face = w.runs.map RunRecord.face :=
  w.faces_modify runId fun _ => rfl

theorem RunWorld.unbegun_of_canBegin {w : RunWorld} {runId : ℕ} (h : w.canBegin runId = true) :
    ∃ r ∈ w.runs, r.runId = runId ∧ ∃ t, r.task = some t ∧ t.begun = false ∧ t.done = false := by
  obtain ⟨r, hr, htask⟩ := (any_eq_true _ _).mp h
  obtain ⟨t, ht, hfresh⟩ := (any_eq_true _ _).mp htask
  refine ⟨r, mem_of_find?_eq_some hr, by simpa using find?_some hr, t, ht, ?_⟩
  simpa using hfresh

/-- A call of `cancel` leaves everything as it is, or interrupts an open run. -/
theorem RunWorld.cancel_cases (w : RunWorld) (runId : ℕ) (action : AbortAction) :
    (∃ known, w.cancel runId action = (.error known, w)) ∨
      ∃ r ∈ w.runs, r.runId = runId ∧ r.IsOpen ∧
        w.cancel runId action = (.ok r, w.interrupt runId action) := by
  rw [RunWorld.cancel]
  cases hf : w.find? runId with
  | none => exact .inl ⟨false, rfl⟩
  | some r =>
    dsimp only
    split
    · exact .inl ⟨true, rfl⟩
    · split
      · exact .inl ⟨false, rfl⟩
      · rename_i hactive
        refine .inr ⟨r, mem_of_find?_eq_some hf, by simpa using find?_some hf, ?_, rfl⟩
        rw [RunRecord.IsOpen]
        tauto

end AfterFlow.Runs
