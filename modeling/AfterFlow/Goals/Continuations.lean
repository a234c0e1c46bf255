import AfterFlow.Goals.Evaluations

/-!
# Goal continuations are bounded

Whatever the evaluator says, the agent writes and the user does: for one goal there are at most as
many continuations as it allows, each is started with the gate open for the goal that was stored,
and a run stops after so many in a row without new evidence.

The worker looks at goal and conversation once more before it starts a continuation, but it reads
one after the other. What is cleared, replaced or said between these reads, or while the evaluation
is being written, goes unseen, and what is cleared or replaced while a turn is streamed is undone by
the turn. If nothing happens just then, no continuation is started after the goal was cleared or
replaced, or after a newer message.

## Main results

* `continuations_bounded` — the bounds, in any run, and what is heeded in runs that are undisturbed
* `continuations_bounded_unheeded` — a clear and a message that go unseen, a clear that is undone
-/

namespace AfterFlow.Goals

open Coop Coro Logic List

section Loop

variable {sha256 : List Char → List Char} {strict : Prop} {r : GoalReq} {c : GoalCtx}
  {runId : List Char} {k : Continuation}

theorem link_streaming (input : Option Continuation) (loaded : Option GoalState) :
    Link (some (.stream input loaded)) {.streaming loaded} := by
  refine ⟨?_, fun goal h => ?_, fun h => Hold.noConfusion (Multiset.mem_singleton.1 h),
    fun h => Hold.noConfusion (Multiset.mem_singleton.1 h)⟩
  · rintro _ _ ⟨⟩
    exact Multiset.mem_singleton_self _
  · obtain rfl := Hold.streaming.inj (Multiset.mem_singleton.1 h)
    exact ⟨input, rfl⟩

/-- The state of the thread is read for a turn. -/
theorem Owning.load (h : Owning sha256 strict {.evaluating} c) :
    Owning sha256 strict {.streaming c.now.goal?} c := by
  have hidle := h.consistent.frame_runs (Multiset.mem_singleton_self Hold.evaluating) rfl
  have hmem : ∀ loaded, .streaming loaded ∈ {.streaming c.now.goal?} + c.frame →
      c.now.goal? = loaded := by
    intro loaded hloaded
    rcases Multiset.mem_add.1 hloaded with hloaded | hloaded
    · exact (Hold.streaming.inj (Multiset.mem_singleton.1 hloaded)).symm
    · cases hidle _ hloaded
  refine ⟨⟨?_, ?_, h.consistent.stored, h.consistent.sound,
    fun goal hgoal => h.consistent.sound.stored goal (hmem _ hgoal), h.consistent.watchful,
    fun _ => hmem⟩, h.respects⟩
  · rw [← h.consistent.locked, countP_locks_add_of_not _ rfl, countP_locks_add_of_not _ rfl]
  · rw [← h.consistent.running, countP_runs_add _ rfl, countP_runs_add _ rfl]

/-- **A turn is streamed.** What was pinned when its state was read stays so. -/
theorem safe_streamOnce {input : Option Continuation} (h : Owning sha256 strict {.evaluating} c)
    (hrecent : c.now.Recent) :
    GoalSafe sha256 strict r (streamOnce input)
      (fun res c' => Owning sha256 strict {.evaluating} c' ∧ (res = .ok () → c'.now.Recent)) c := by
  refine Safe.bind_iff.mpr (Safe.bind_iff.mpr (safe_look rfl h (link_evaluating fun _ _ => nofun)
    (fun _ _ hown => ⟨hown, nofun⟩) fun c₁ hr₁ hown₁ => ?_))
  refine safe_look rfl hown₁.load (link_streaming input c₁.now.goal?)
    (fun c₂ _ hown₂ => ⟨hown₂.run_cast rfl rfl rfl, nofun⟩) fun c₂ hr₂ hown₂ =>
      ⟨hown₂.run_cast rfl rfl rfl, fun _ => ?_⟩
  exact (hrecent.respects hr₁ rfl nofun).respects hr₂ rfl fun _ => id

/-- **A continuation is started.** -/
theorem Owning.start (h : Owning sha256 strict {.evaluating} c) (hk : c.now.Ready sha256 strict k) :
    Owning sha256 strict {.evaluating} { c with now := c.now.start k } := by
  have hwritten : k.updated.inst = k.goal.inst := by
    obtain ⟨runId, hupdated⟩ := hk.justified.written
    rw [hupdated]
    rfl
  have hidle := h.consistent.frame_runs (Multiset.mem_singleton_self Hold.evaluating) rfl
  refine h.write (fun hc => ⟨hc.locked, hc.running, hc.stored, ?_, fun goal hg => ?_, fun hs => ?_,
    hc.unchanged⟩) ?_
  · exact hc.sound.start hk.pinned hk.justified hk.capped hk.spent hk.stalled
  · rcases Multiset.mem_add.1 hg with hg | hg
    · cases Multiset.mem_singleton.1 hg
    · cases hidle _ hg
  · obtain ⟨hevaluating, hstored, hsignature⟩ := hk.watched hs
    exact (hc.watchful hs).start hevaluating hstored hwritten hsignature
  · exact .idle hidle rfl rfl

theorem Thread.Ready.recent (hk : c.now.Ready sha256 strict k) : (c.now.start k).Recent := by
  rintro older ⟨⟩ -
  exact ⟨hk.pinned.known, hk.pinned.same⟩

/-- **The loop** over continuations. -/
theorem safe_goalLoop (n : ℕ) (h : Owning sha256 strict {.evaluating} c) (hrecent : c.now.Recent) :
    GoalSafe sha256 strict r (goalLoop sha256 runId n)
      (fun _ c' => Owning sha256 strict {.evaluating} c') c := by
  induction n generalizing c with
  | zero => exact h
  | succ n ih =>
    show GoalSafe sha256 strict r (if (c.now.aborted || c.now.fellBack) = true then _ else _) _ c
    split
    · exact h
    · refine Safe.bind_iff.mpr (Safe.mono (fun res c₁ hres => ?_)
        (safe_prepareGoalContinuationInput h hrecent))
      obtain ⟨hown₁, found, rfl, hfound⟩ := hres
      cases found with
      | none => exact hown₁
      | some k =>
        have hready := hfound k rfl
        show GoalSafe sha256 strict r (if c₁.now.aborted then _ else _) _ c₁
        split
        · exact hown₁
        · refine Safe.bind_iff.mpr (safe_modify.mpr (Safe.bind_iff.mpr (Safe.mono
            (fun res c₂ hres => ?_) (safe_streamOnce (hown₁.start hready) hready.recent))))
          obtain ⟨hown₂, hrecent₂⟩ := hres
          cases res with
          | error e => exact hown₂
          | ok _ => exact ih hown₂ (hrecent₂ rfl)

/-- **A run.** -/
theorem safe_runAgent (turns : ℕ) (h : Owning sha256 strict 0 c) :
    GoalSafe sha256 strict r (runAgent sha256 runId turns) ((goalLogic sha256 strict).Final r)
      c := by
  refine safe_withLock.mpr
    (safe_call h (link_zero fun _ _ => nofun) (fun _ _ hown => hown.final _) ?_)
  intro c₁ w hr hcons hallowed hstart hnow
  have hnobody : c₁.frame.countP (fun h => h.runs = true) = 0 := by
    have hcount := hcons.running
    rwa [hallowed.startRun rfl, if_neg Bool.false_ne_true, zero_add] at hcount
  have hidle : ∀ h ∈ c₁.frame, h.runs = false := fun h hh =>
    Bool.eq_false_iff.2 (Multiset.countP_eq_zero.1 hnobody h hh)
  have hnone : ∀ loaded, Hold.streaming loaded ∉ {.evaluating} + c₁.frame := by
    intro loaded hmem
    rcases Multiset.mem_add.1 hmem with hmem | hmem
    · cases Multiset.mem_singleton.1 hmem
    · cases hidle _ hmem
  have hown : Owning sha256 strict {.evaluating} c₁ := by
    constructor
    · rw [hnow]
      refine ⟨?_, ?_, hcons.stored, ?_, fun goal hg => absurd hg (hnone _), fun hs => ?_,
        fun _ loaded hg => absurd hg (hnone loaded)⟩
      · rw [countP_locks_add_of_not .evaluating rfl, ← zero_add c₁.frame]
        exact hcons.locked
      · rw [countP_runs_add .evaluating rfl, hnobody]
        rfl
      · exact hcons.sound.congr hcons.sound.stored rfl rfl rfl (Nat.le_succ _)
      · exact (hcons.watchful hs).congr rfl rfl rfl rfl rfl rfl rfl
    · rw [hstart, hnow]
      exact .idle hidle rfl rfl
  have hrecent : c₁.now.Recent := by
    intro older holder hrun
    rw [hnow] at holder hrun
    have hle : older.run ≤ w.runs := hcons.sound.runs older (mem_of_mem_head? holder)
    have hsucc : older.run = w.runs + 1 := hrun
    omega
  refine Safe.mono (fun res c' hown => ?_) (?_ : GoalSafe sha256 strict r _
    (fun _ c' => Owning sha256 strict {.evaluating} c') c₁)
  · have halike : c'.now.Alike { c'.now with running := false } :=
      ⟨rfl, rfl, rfl, rfl, rfl, rfl, rfl, rfl⟩
    refine Owning.final (hown.write (fun hc => hc.alike halike ?_ ?_ fun _ hg =>
      Multiset.mem_add.2 (.inr (zero_add c'.frame ▸ hg))) halike.respects) res
    · rw [zero_add, ← countP_locks_add_of_not .evaluating rfl]
      exact hc.locked
    · have hone := hc.running
      rw [countP_runs_add .evaluating rfl] at hone
      show Multiset.countP _ (0 + c'.frame) = 0
      rw [zero_add]
      split at hone <;> omega
  · refine Safe.bind_iff.mpr (Safe.mono (fun res c₂ hres => ?_) (safe_streamOnce hown hrecent))
    obtain ⟨hown₂, hrecent₂⟩ := hres
    cases res with
    | error e => exact hown₂
    | ok _ => exact safe_goalLoop turns hown₂ (hrecent₂ rfl)

theorem goal_safe (sha256 : List Char → List Char) (strict : Prop) (r : GoalReq) :
    SafeHandler (goalLogic sha256 strict) goalBackend r ((goalProgram sha256).handler r) := by
  refine ⟨link_zero fun _ _ => nofun, fun w frame hinv => ?_⟩
  have hown : Owning sha256 strict 0 ⟨[], none, w, frame, w⟩ := ⟨hinv, .refl⟩
  cases r with
  | run runId turns => exact safe_runAgent turns hown
  | set objective maxContinuations now => exact safe_setThreadGoal hown
  | clear => exact safe_clearThreadGoal hown
  | say text => exact safe_say hown
  | speak loaded messages pendingWrites => exact safe_speak hown

end Loop

/-! ### Runs -/

abbrev GoalSys : Type := Sys Thread GoalOp GoalOp.Reply GoalExn Unit GoalReq

/-- A turn is streamed. -/
def GoalOp.isStream : GoalOp → Bool
  | .stream _ _ => true
  | _ => false

/-- A turn is streamed that has read this goal. -/
def GoalOp.hasRead (goal : Option GoalState) : GoalOp → Bool
  | .stream _ loaded => loaded = goal
  | _ => false

/-- An evaluation is written that lets the goal be continued. -/
def GoalOp.writesOn : GoalOp → Bool
  | .put .goalEvaluator cp => cp.continues
  | _ => false

/-- The lock is taken while it is free, one run at a time, a goal is set at a new time, and the
agent writes while a turn is streamed, with the goal that this turn has read. -/
def GoalOp.orderly (s : GoalSys) : GoalOp → Bool
  | .lock => !s.world.locked
  | .startRun => !s.world.running
  | .put .goal cp => cp.goal.all fun new => new.createdAt ∉ s.world.known
  | .speak loaded _ _ => s.tasks.any fun t => t.pending.any (GoalOp.hasRead loaded)
  | _ => true

/-- The user does not write the goal while a turn is streamed or the worker awaits its last look at
the checkpoint, sends no message while an evaluation is written that lets the goal be continued, and
what the user sends can be seen. -/
def GoalOp.undisturbed (s : GoalSys) : GoalOp → Bool
  | .put .goal _ => s.tasks.all fun t =>
      t.pending ≠ some (.getTuple .guardCheckpoint) && !t.pending.any GoalOp.isStream
  | .append m => s.world.notices m && s.tasks.all fun t => !t.pending.any GoalOp.writesOn
  | _ => true

/-- A step that works is as `allowed` says. -/
def Steady (allowed : GoalSys → GoalOp → Bool) (s : GoalSys) : Label GoalReq GoalEnv → Prop
  | .resume i .ok => ((s.tasks[i]?.bind Task.pending).all fun op => allowed s op) = true
  | _ => True

theorem Steady.mono {allowed allowed' : GoalSys → GoalOp → Bool} {s : GoalSys}
    {l : Label GoalReq GoalEnv} (h : Steady allowed s l)
    (hmono : ∀ s op, allowed s op = true → allowed' s op = true) : Steady allowed' s l := by
  cases l with
  | spawn | env => trivial
  | resume i out =>
    cases out with
    | fault => trivial
    | ok =>
      rw [Steady, Option.all_eq_true] at h ⊢
      exact fun op hop => hmono s op (h op hop)

instance (allowed : GoalSys → GoalOp → Bool) (s : GoalSys) (l : Label GoalReq GoalEnv) :
    Decidable (Steady allowed s l) :=
  match l with
  | .resume i .ok =>
    inferInstanceAs
      (Decidable (((s.tasks[i]?.bind Task.pending).all fun op => allowed s op) = true))
  | .spawn _ | .env _ | .resume _ .fault => .isTrue trivial

def Orderly : GoalSys → Label GoalReq GoalEnv → Prop := Steady fun s op => op.orderly s

def Undisturbed : GoalSys → Label GoalReq GoalEnv → Prop :=
  Steady fun s op => op.orderly s && op.undisturbed s

instance (s : GoalSys) (l : Label GoalReq GoalEnv) : Decidable (Orderly s l) :=
  inferInstanceAs (Decidable (Steady _ s l))

instance (s : GoalSys) (l : Label GoalReq GoalEnv) : Decidable (Undisturbed s l) :=
  inferInstanceAs (Decidable (Steady _ s l))

section Runs

variable {sha256 : List Char → List Char} {strict : Prop} {s s' : GoalSys} {w : Thread}
  {ts : List (Task Thread GoalOp GoalOp.Reply GoalExn Unit GoalReq)} {gs : List (Multiset Hold)}
  {t : Task Thread GoalOp GoalOp.Reply GoalExn Unit GoalReq} {h : Hold}
  {C : GoalSys → Label GoalReq GoalEnv → Prop}

theorem exists_of_mem_sum (hlink : List.Forall₂ (fun t g => Link t.pending g) ts gs)
    (hh : h ∈ gs.sum) : ∃ t ∈ ts, ∃ g, Link t.pending g ∧ h ∈ g := by
  induction hlink with
  | nil => exact (Multiset.notMem_zero h hh).elim
  | @cons t g ts gs ht _ ih =>
    rw [sum_cons, Multiset.mem_add] at hh
    obtain hg | hrest := hh
    · exact ⟨t, mem_cons_self, g, ht, hg⟩
    · obtain ⟨t', ht', hg'⟩ := ih hrest
      exact ⟨t', mem_cons_of_mem t ht', hg'⟩

theorem mem_sum_of_link (hlink : List.Forall₂ (fun t g => Link t.pending g) ts gs) (ht : t ∈ ts)
    (hh : ∀ g, Link t.pending g → h ∈ g) : h ∈ gs.sum := by
  induction hlink with
  | nil => cases ht
  | @cons t' g ts gs hlink _ ih =>
    rw [sum_cons, Multiset.mem_add]
    obtain rfl | hmem := mem_cons.1 ht
    · exact .inl (hh g hlink)
    · exact .inr (ih hmem)

/-- **What is assumed of steps is what the tasks rely on.** -/
theorem goal_admits (horderly : ∀ s l, C s l → Orderly s l)
    (hundisturbed : strict → ∀ s l, C s l → Undisturbed s l) :
    Admits (goalLogic sha256 strict) (goalProgram sha256) C where
  spawn s r _ := goal_safe sha256 strict r
  env s e g _ hinv := by
    have halike : s.world.Alike ((goalProgram sha256).tick e s.world) := by
      cases e <;> exact ⟨rfl, rfl, rfl, rfl, rfl, rfl, rfl, rfl⟩
    refine ⟨hinv.alike halike ?_ ?_ fun _ => id, halike.respects⟩
    · cases e <;> exact hinv.locked
    · cases e <;> exact hinv.running
  resume s out l₁ t l₂ gs₁ gs₂ hC htasks hlink₁ hlink₂ op hop hout := by
    subst hout
    have hpending : s.tasks[l₁.length]?.bind Task.pending = some op := by
      rw [htasks, getElem?_append_right (Nat.le_refl _), Nat.sub_self]
      exact hop
    have hfound {k : Hold} (hk : k ∈ gs₁.sum + gs₂.sum) :
        ∃ t' ∈ s.tasks, ∃ g, Link t'.pending g ∧ k ∈ g := by
      rw [htasks]
      obtain hk | hk := Multiset.mem_add.1 hk
      · obtain ⟨t', ht', hg⟩ := exists_of_mem_sum hlink₁ hk
        exact ⟨t', mem_append_left _ ht', hg⟩
      · obtain ⟨t', ht', hg⟩ := exists_of_mem_sum hlink₂ hk
        exact ⟨t', mem_append_right _ (mem_cons_of_mem t ht'), hg⟩
    have hsteady {allowed : GoalSys → GoalOp → Bool}
        (h : Steady allowed s (.resume l₁.length .ok)) : allowed s op = true := by
      rw [Steady, hpending] at h
      exact h
    have hready : op.orderly s = true := hsteady (horderly s _ hC)
    have hquiet (hs : strict) : op.undisturbed s = true :=
      (Bool.and_eq_true_iff.1 (hsteady (hundisturbed hs s _ hC))).2
    constructor
    · rintro rfl
      exact Bool.not_eq_eq_eq_not.1 hready
    · rintro rfl
      exact Bool.not_eq_eq_eq_not.1 hready
    · rintro cp rfl new hnew
      exact of_decide_eq_true ((Option.all_eq_true _ _).1 hready new hnew)
    · rintro hs cp rfl
      have hall : ∀ t' ∈ s.tasks, t'.pending ≠ some (.getTuple .guardCheckpoint) ∧
          t'.pending.any GoalOp.isStream = false := by
        intro t' ht'
        have hboth := all_eq_true.1 (hquiet hs) t' ht'
        rw [Bool.and_eq_true, decide_eq_true_eq, Bool.not_eq_true'] at hboth
        exact hboth
      refine ⟨fun hchecking => ?_, fun loaded hstreaming => ?_⟩
      · obtain ⟨t', ht', g, hlink, hg⟩ := hfound hchecking
        exact (hall t' ht').1 (hlink.checking hg)
      · obtain ⟨t', ht', g, hlink, hg⟩ := hfound hstreaming
        obtain ⟨input, hwaits⟩ := hlink.streams loaded hg
        have hnot := (hall t' ht').2
        rw [hwaits] at hnot
        cases hnot
    · rintro hs m rfl
      obtain ⟨hnotices, hnone⟩ := Bool.and_eq_true_iff.1 (hquiet hs)
      refine ⟨fun hwriting => ?_, hnotices⟩
      obtain ⟨t', ht', g, hlink, hg⟩ := hfound hwriting
      obtain ⟨cp, hwaits, hcontinues⟩ := hlink.writing hg
      have hnot := all_eq_true.1 hnone t' ht'
      rw [hwaits, Bool.not_eq_true', Option.any_some, GoalOp.writesOn, hcontinues] at hnot
      cases hnot
    · rintro loaded messages pendingWrites rfl
      obtain ⟨t', ht', hstreams⟩ := any_eq_true.1 hready
      obtain ⟨waits, hwaits, hstream⟩ := (Option.any_eq_true _ _).1 hstreams
      cases waits with
      | stream input goal =>
        obtain rfl : goal = loaded := of_decide_eq_true hstream
        rw [htasks, mem_append, mem_cons] at ht'
        obtain ht' | rfl | ht' := ht'
        · exact Multiset.mem_add.2 (.inl (mem_sum_of_link hlink₁ ht' fun g hlink =>
            hlink.streaming input goal hwaits))
        · cases hop.symm.trans hwaits
        · exact Multiset.mem_add.2 (.inr (mem_sum_of_link hlink₂ ht' fun g hlink =>
            hlink.streaming input goal hwaits))
      | _ => cases hstream

/-- A thread on which nothing runs, with a goal that was set with at most eight continuations. -/
structure Thread.Idle (w : Thread) : Prop where
  stored : w.checkpoint.isSome = true
  locked : w.locked = false
  running : w.running = false
  evaluating : w.evaluating = none
  started : w.started = []
  changed : w.changed = []
  goal : ∀ goal, w.goal? = some goal → goal.createdAt ∈ w.known ∧
    goal.maxContinuations ≤ defaultMaxGoalContinuations

theorem Thread.Idle.consistent (hw : w.Idle) : Consistent sha256 strict w 0 where
  locked := by rw [hw.locked]; rfl
  running := by rw [hw.running]; rfl
  stored := hw.stored
  sound := by
    constructor
    · intro goal hgoal
      obtain ⟨hknown, hcapped⟩ := hw.goal goal hgoal
      exact ⟨hknown, hcapped, hw.started ▸ fun _ hc => by cases hc⟩
    · exact hw.changed ▸ fun _ hc => by cases hc
    · exact hw.started ▸ fun _ hc => by cases hc
    · exact hw.started ▸ fun _ hc => by cases hc
    · rw [hw.started]
      exact ⟨forall_mem_nil _, forall_mem_nil _, .nil, .nil⟩
  loaded goal hg := absurd hg (Multiset.notMem_zero _)
  unchanged _ loaded hg := absurd hg (Multiset.notMem_zero _)
  watchful _ := by
    constructor
    · exact hw.started ▸ fun _ hc => by cases hc
    · exact fun _ _ => hw.changed ▸ not_mem_nil
    · exact fun _ _ _ he => by cases hw.evaluating.symm.trans he

/-- **What holds in any run.** -/
theorem consistent_run (strict : Prop) (hw : w.Idle) (horderly : ∀ s l, C s l → Orderly s l)
    (hundisturbed : strict → ∀ s l, C s l → Undisturbed s l)
    (hrun : Steps (goalProgram sha256) C ⟨w, []⟩ s) :
    ∃ g, Consistent sha256 strict s.world g := by
  obtain ⟨⟨gs, -, hinv⟩, -⟩ := sound (goal_admits horderly hundisturbed)
    (Good.init (L := goalLogic sha256 strict) hw.consistent) hrun
  exact ⟨_, hinv⟩

end Runs

/-- **Goal continuations.** Whatever the evaluator answers, the agent writes and the user sets,
clears or says, and whichever awaited operations fail: for each goal at most as many continuations
are started as it allows, and at most eight; each is started with the gate open for the goal that is
stored when the evaluation is written; and a run starts no more in a row on the same evidence than
the goal allows. If the user moreover writes no goal while a turn is streamed or the worker awaits its
last look at the checkpoint, and sends no message while an evaluation is written that lets the goal be continued,
then none is started for a goal that was cleared or replaced, or after a newer message. -/
theorem continuations_bounded (sha256 : List Char → List Char) (w : Thread) (hw : w.Idle)
    (s : GoalSys) :
    (Steps (goalProgram sha256) Orderly ⟨w, []⟩ s → Bounded s.world.started) ∧
      (Steps (goalProgram sha256) Undisturbed ⟨w, []⟩ s →
        Bounded s.world.started ∧ Heeds s.world.started) := by
  have hweaken (s : GoalSys) (l : Label GoalReq GoalEnv) (h : Undisturbed s l) : Orderly s l :=
    h.mono fun _ _ hallowed => (Bool.and_eq_true_iff.1 hallowed).1
  constructor
  · intro hrun
    obtain ⟨g, hcons⟩ := consistent_run False hw (fun _ _ => id) False.elim hrun
    exact hcons.sound.ledger.bounded
  · intro hrun
    obtain ⟨g, hcons⟩ := consistent_run True hw hweaken (fun _ _ _ => id) hrun
    exact ⟨hcons.sound.ledger.bounded, (hcons.watchful trivial).heeds⟩

/-- A goal, and an answer that does not meet it. -/
def unmetThread : Thread where
  checkpoint := some {
    id := 0
    goal := some ⟨['s', 'h', 'i', 'p'], 1, 0, 8, 0, 2, none⟩
    messages := [⟨.human, false, ['g', 'o']⟩, ⟨.ai, false, ['h', 'a', 'l', 'f']⟩]
    pendingWrites := false }
  nextId := 1
  locked := false
  running := false
  aborted := false
  fellBack := false
  verdict := some ⟨false, .goalNotMetYet, [], []⟩
  runs := 0
  asked := 0
  known := [1]
  changed := []
  evaluating := none
  replaced := none
  started := []

theorem unmetThread_idle : unmetThread.Idle := by
  refine ⟨rfl, rfl, rfl, rfl, rfl, rfl, ?_⟩
  rintro goal ⟨⟩
  decide

/-- A run, as far as its steps go. -/
def runFor (steps : ℕ) : List (Label GoalReq GoalEnv) :=
  .spawn (.run ['r'] 2) :: List.replicate steps (.resume 0 .ok)

/-- A continuation is started. -/
theorem continuations_bounded_once : ∃ s : GoalSys, s.world.started.length = 1 ∧
    Bounded s.world.started ∧ Heeds s.world.started := by
  have hrun : (runWith (goalProgram id) Undisturbed ⟨unmetThread, []⟩ (runFor 16)).isSome = true :=
    rfl
  exact ⟨_, rfl, (continuations_bounded id unmetThread unmetThread_idle _).2
    (Steps.of_runWith_get hrun)⟩

/-- The goal is cleared between the last two reads, and continued. A message that is sent while the
evaluation is written is lost, and the goal is continued. The goal is cleared while a turn is
streamed; the turn writes it back, and it is continued. -/
theorem continuations_bounded_unheeded :
    (∃ s : GoalSys, Steps (goalProgram id) Orderly ⟨unmetThread, []⟩ s ∧ s.world.goal? = none ∧
      ¬ Heeds s.world.started) ∧
    (∃ s : GoalSys, Steps (goalProgram id) Orderly ⟨unmetThread, []⟩ s ∧ s.world.asked = 1 ∧
      s.world.messages = unmetThread.messages ∧ ¬ Heeds s.world.started) ∧
    ∃ s : GoalSys, Steps (goalProgram id) Orderly ⟨unmetThread, []⟩ s ∧
      s.world.goal?.isSome = true ∧ ¬ Heeds s.world.started := by
  refine ⟨?_, ?_, ?_⟩
  · have hrun : (runWith (goalProgram id) Orderly ⟨unmetThread, []⟩
        (runFor 15 ++ .spawn .clear :: List.replicate 4 (.resume 1 .ok) ++
          [.resume 0 .ok])).isSome = true := rfl
    refine ⟨_, Steps.of_runWith_get hrun, rfl, fun hheeds => ?_⟩
    cases (hheeds _ mem_cons_self).1
  · have hrun : (runWith (goalProgram id) Orderly ⟨unmetThread, []⟩
        (runFor 12 ++ .spawn (.say ['s', 't', 'o', 'p']) :: List.replicate 2 (.resume 1 .ok) ++
          List.replicate 4 (.resume 0 .ok))).isSome = true := rfl
    refine ⟨_, Steps.of_runWith_get hrun, rfl, rfl, fun hheeds => ?_⟩
    cases (hheeds _ mem_cons_self).2
  · have hrun : (runWith (goalProgram id) Orderly ⟨unmetThread, []⟩
        (runFor 3 ++ .spawn .clear :: List.replicate 4 (.resume 1 .ok) ++
          .spawn (.speak unmetThread.goal? unmetThread.messages false) ::
            List.replicate 2 (.resume 2 .ok) ++ List.replicate 13 (.resume 0 .ok))).isSome = true :=
      rfl
    refine ⟨_, Steps.of_runWith_get hrun, rfl, fun hheeds => ?_⟩
    cases (hheeds _ mem_cons_self).1

end AfterFlow.Goals
