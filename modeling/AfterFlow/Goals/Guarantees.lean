import AfterFlow.Goals.Ledger

/-!
# Who may change what

A run owns the thread's run, and where it is in it: while the agent streams it may write messages and
the goal that it has read, while it evaluates the evaluated conversation stays the same, while it writes a goal that
goes on it also has the lock of the goal, and while it checks the thread for the last time nobody
may write a goal. Whoever writes a goal owns the lock.

That nothing slips through is assumed only under a condition, `strict`.

## Main results

* `safe_look`, `safe_withGoalLock`, `safe_writeThreadGoal` — the rules for what is awaited
-/

namespace AfterFlow.Goals

open Coop Coro Logic

inductive Hold where
  | goalLock
  | streaming (loaded : Option GoalState)
  | evaluating
  | writing
  | checking
  deriving DecidableEq

def Hold.locks : Hold → Bool
  | .goalLock | .writing => true
  | .streaming _ | .evaluating | .checking => false

def Hold.runs : Hold → Bool
  | .goalLock => false
  | .streaming _ | .evaluating | .writing | .checking => true

def Hold.streams : Hold → Bool
  | .streaming _ => true
  | .goalLock | .evaluating | .writing | .checking => false

/-- The goal that a turn has read. -/
def Hold.loaded : Hold → Option GoalState
  | .streaming loaded => loaded
  | .goalLock | .evaluating | .writing | .checking => none

/-- What the others keep for the owner. -/
structure Hold.Keeps (strict : Prop) (h : Hold) (w w' : Thread) : Prop where
  started : h.runs = true → w'.started = w.started
  runs : h.runs = true → w'.runs = w.runs
  replaced : h.runs = true → w'.replaced = w.replaced
  moves : h.runs = true → w.Moves h.loaded w'
  evaluating : h.runs = true → h.streams = false → w'.evaluating = w.evaluating
  messages : strict → h = .writing → w'.messages = w.messages
  checked : strict → h = .checking → w'.goal? = w.goal?

/-- What the others keep. Who has the lock of the goal and the run, and does not stream, has the
goal to himself. -/
structure Respects (strict : Prop) (g : Multiset Hold) (w w' : Thread) : Prop where
  known : w.known ⊆ w'.known
  goal : (∃ h ∈ g, h.locks = true) → (∃ h ∈ g, h.runs = true ∧ h.streams = false) →
    w'.goal? = w.goal?
  keeps : ∀ h ∈ g, h.Keeps strict w w'

/-- Lock and run are owned by one task at most. -/
structure Consistent (sha256 : List Char → List Char) (strict : Prop) (w : Thread)
    (g : Multiset Hold) : Prop where
  locked : g.countP (fun h => h.locks = true) = if w.locked then 1 else 0
  running : g.countP (fun h => h.runs = true) = if w.running then 1 else 0
  stored : w.checkpoint.isSome = true
  sound : w.Sound sha256
  loaded : ∀ goal, .streaming (some goal) ∈ g → w.Fits goal
  watchful : strict → w.Watchful
  unchanged : strict → ∀ loaded, .streaming loaded ∈ g → w.goal? = loaded

/-- What is awaited tells where a run is. -/
structure Link (waits : Option GoalOp) (g : Multiset Hold) : Prop where
  streaming : ∀ input loaded, waits = some (.stream input loaded) → .streaming loaded ∈ g
  streams : ∀ loaded, .streaming loaded ∈ g → ∃ input, waits = some (.stream input loaded)
  writing : .writing ∈ g → ∃ cp, waits = some (.put .goalEvaluator cp) ∧ cp.continues = true
  checking : .checking ∈ g → waits = some (.getTuple .guardCheckpoint)

/-- What is assumed of a step that works. -/
structure Allowed (strict : Prop) (op : GoalOp) (w : Thread) (frame : Multiset Hold) : Prop where
  lock : op = .lock → w.locked = false
  startRun : op = .startRun → w.running = false
  set : ∀ cp, op = .put .goal cp → ∀ new, cp.goal = some new → new.createdAt ∉ w.known
  put : strict → ∀ cp, op = .put .goal cp → .checking ∉ frame ∧ ∀ loaded, .streaming loaded ∉ frame
  append : strict → ∀ m, op = .append m → .writing ∉ frame ∧ w.notices m = true
  speak : ∀ loaded messages pendingWrites, op = .speak loaded messages pendingWrites →
    .streaming loaded ∈ frame

/-- Only flags differ, or what is numbered or answered next. -/
structure Thread.Alike (w w' : Thread) : Prop where
  checkpoint : w'.checkpoint = w.checkpoint
  known : w'.known = w.known
  changed : w'.changed = w.changed
  started : w'.started = w.started
  runs : w'.runs = w.runs
  replaced : w'.replaced = w.replaced
  asked : w'.asked = w.asked
  evaluating : w'.evaluating = w.evaluating

theorem Thread.Alike.goal? {w w' : Thread} (h : w.Alike w') : w'.goal? = w.goal? :=
  congrArg (·.bind Checkpoint.goal) h.checkpoint

theorem Thread.Alike.messages {w w' : Thread} (h : w.Alike w') : w'.messages = w.messages :=
  congrArg (·.elim [] Checkpoint.messages) h.checkpoint

section Respects

variable {strict : Prop} {g g' : Multiset Hold} {w w' w'' : Thread} {h h' : Hold} {goal : GoalState}

theorem Hold.Keeps.refl : h.Keeps strict w w :=
  ⟨fun _ => rfl, fun _ => rfl, fun _ => rfl, fun _ => .of_eq rfl, fun _ _ => rfl, fun _ _ => rfl,
    fun _ _ => rfl⟩

theorem Respects.refl : Respects strict g w w :=
  ⟨List.Subset.refl _, fun _ _ => rfl, fun _ _ => Hold.Keeps.refl⟩

theorem Respects.trans (hr : Respects strict g w w') (hr' : Respects strict g w' w'') :
    Respects strict g w w'' := by
  refine ⟨List.Subset.trans hr.known hr'.known,
    fun hl hrun => (hr'.goal hl hrun).trans (hr.goal hl hrun), fun h hg => ?_⟩
  have hk := hr.keeps h hg
  have hk' := hr'.keeps h hg
  constructor
  · exact fun hl => (hk'.started hl).trans (hk.started hl)
  · exact fun hl => (hk'.runs hl).trans (hk.runs hl)
  · exact fun hl => (hk'.replaced hl).trans (hk.replaced hl)
  · exact fun hl => (hk.moves hl).trans hr.known (hk'.moves hl)
  · exact fun hl hne => (hk'.evaluating hl hne).trans (hk.evaluating hl hne)
  · exact fun hs hh => (hk'.messages hs hh).trans (hk.messages hs hh)
  · exact fun hs hh => (hk'.checked hs hh).trans (hk.checked hs hh)

theorem Respects.mono (hr : Respects strict g w w') (hg : ∀ h ∈ g', h ∈ g) :
    Respects strict g' w w' :=
  ⟨hr.known, fun ⟨h, hh, hl⟩ ⟨h', hh', hrun⟩ => hr.goal ⟨h, hg h hh, hl⟩ ⟨h', hg h' hh', hrun⟩,
    fun h hh => hr.keeps h (hg h hh)⟩

/-- A run that does not stream relies on whatever a run relies on that evaluates. -/
theorem Respects.evaluating (hr : Respects strict g w w') (hg : h ∈ g) (hruns : h.runs = true)
    (hne : h.streams = false) : Respects strict {.evaluating} w w' := by
  refine ⟨hr.known, ?_, fun h' hh' => ?_⟩
  · rintro ⟨h', hh', hl⟩ -
    rw [Multiset.mem_singleton.1 hh'] at hl
    cases hl
  rw [Multiset.mem_singleton] at hh'
  subst hh'
  have hk := hr.keeps h hg
  have hnone : h.loaded = none := by
    cases h <;> first | rfl | cases hne
  constructor
  · exact fun _ => hk.started hruns
  · exact fun _ => hk.runs hruns
  · exact fun _ => hk.replaced hruns
  · have hmoves := hk.moves hruns
    rw [hnone] at hmoves
    exact fun _ => hmoves
  · exact fun _ _ => hk.evaluating hruns hne
  · exact fun _ hh => by cases hh
  · exact fun _ hh => by cases hh

theorem Thread.Alike.respects (h : w.Alike w') : Respects strict g w w' :=
  ⟨h.known ▸ List.Subset.refl _, fun _ _ => h.goal?, fun _ _ => ⟨fun _ => h.started,
    fun _ => h.runs, fun _ => h.replaced, fun _ => .of_eq h.goal?, fun _ _ => h.evaluating,
    fun _ _ => h.messages, fun _ _ => h.goal?⟩⟩

end Respects

section Consistent

variable {sha256 : List Char → List Char} {strict : Prop} {g g' frame : Multiset Hold}
  {w w' : Thread} {h : Hold}

theorem Consistent.alike (hc : Consistent sha256 strict w g) (h : w.Alike w')
    (hlocked : g'.countP (fun h => h.locks = true) = if w'.locked then 1 else 0)
    (hrunning : g'.countP (fun h => h.runs = true) = if w'.running then 1 else 0)
    (hstreams : ∀ loaded, .streaming loaded ∈ g' → .streaming loaded ∈ g) :
    Consistent sha256 strict w' g' where
  locked := hlocked
  running := hrunning
  stored := h.checkpoint ▸ hc.stored
  sound := hc.sound.congr (fun goal hgoal => hc.sound.stored goal (h.goal? ▸ hgoal)) h.known h.changed
    h.started (Nat.le_of_eq h.runs.symm)
  loaded goal hg := (hc.loaded goal (hstreams _ hg)).mono (fun _ hmem => h.known ▸ hmem) h.started
  watchful hs :=
    (hc.watchful hs).congr h.goal? h.messages h.known h.changed h.asked h.evaluating h.started
  unchanged hs loaded hg := h.goal?.trans (hc.unchanged hs loaded (hstreams _ hg))

theorem countP_locks_add (k : Hold) (hk : k.locks = true) (g : Multiset Hold) :
    ({k} + g).countP (fun h => h.locks = true) = g.countP (fun h => h.locks = true) + 1 := by
  rw [Multiset.singleton_add]
  exact Multiset.countP_cons_of_pos g hk

theorem countP_locks_add_of_not (k : Hold) (hk : k.locks = false) (g : Multiset Hold) :
    ({k} + g).countP (fun h => h.locks = true) = g.countP fun h => h.locks = true := by
  rw [Multiset.singleton_add]
  exact Multiset.countP_cons_of_neg g (hk ▸ Bool.false_ne_true)

theorem countP_runs_add (k : Hold) (hk : k.runs = true) (g : Multiset Hold) :
    ({k} + g).countP (fun h => h.runs = true) = g.countP (fun h => h.runs = true) + 1 := by
  rw [Multiset.singleton_add]
  exact Multiset.countP_cons_of_pos g hk

theorem countP_runs_add_of_not (k : Hold) (hk : k.runs = false) (g : Multiset Hold) :
    ({k} + g).countP (fun h => h.runs = true) = g.countP fun h => h.runs = true := by
  rw [Multiset.singleton_add]
  exact Multiset.countP_cons_of_neg g (hk ▸ Bool.false_ne_true)

theorem countP_eq_zero_of_le_one {p : Hold → Prop} [DecidablePred p]
    (hle : (g + frame).countP p ≤ 1) (hg : h ∈ g) (hh : p h) : ∀ h' ∈ frame, ¬ p h' := by
  rw [Multiset.countP_add] at hle
  have hpos : 0 < g.countP p := Multiset.countP_pos.2 ⟨h, hg, hh⟩
  exact Multiset.countP_eq_zero.1 (by omega)

theorem Consistent.frame_locks (hc : Consistent sha256 strict w (g + frame)) (hg : h ∈ g)
    (hlocks : h.locks = true) : ∀ h' ∈ frame, h'.locks = false := by
  have hle : (g + frame).countP (fun h => h.locks = true) ≤ 1 := by
    rw [hc.locked]
    split <;> omega
  intro h' hh'
  exact Bool.eq_false_iff.2 (countP_eq_zero_of_le_one hle hg hlocks h' hh')

theorem Consistent.frame_runs (hc : Consistent sha256 strict w (g + frame)) (hg : h ∈ g)
    (hruns : h.runs = true) : ∀ h' ∈ frame, h'.runs = false := by
  have hle : (g + frame).countP (fun h => h.runs = true) ≤ 1 := by
    rw [hc.running]
    split <;> omega
  intro h' hh'
  exact Bool.eq_false_iff.2 (countP_eq_zero_of_le_one hle hg hruns h' hh')

end Consistent

/-! ### The assertions -/

def goalLogic (sha256 : List Char → List Char) (strict : Prop) :
    Logic Thread GoalOp GoalOp.Reply GoalExn Unit GoalReq (Multiset Hold) where
  inv := Consistent sha256 strict
  rel := Respects strict
  link _ _ := Link
  allowed _ _ waits out w frame := ∀ op, waits = some op → out = .ok → Allowed strict op w frame
  done _ _ _ := True
  rel_refl _ _ := Respects.refl
  rel_trans := Respects.trans
  rel_weaken hr := hr.mono fun _ hh => Multiset.mem_add.2 (.inl hh)

abbrev GoalCtx : Type := Ctx Thread GoalOp GoalOp.Reply GoalExn (Multiset Hold)

abbrev GoalSafe {α : Type} (sha256 : List Char → List Char) (strict : Prop) (r : GoalReq)
    (p : GoalProc α) (Q : Except GoalExn α → GoalCtx → Prop) (c : GoalCtx) : Prop :=
  (goalLogic sha256 strict).Safe goalBackend r p Q c

/-- A task that owns `g` may be suspended here. -/
structure Owning (sha256 : List Char → List Char) (strict : Prop) (g : Multiset Hold)
    (c : GoalCtx) : Prop where
  consistent : Consistent sha256 strict c.now (g + c.frame)
  respects : Respects strict c.frame c.start c.now

/-- What the operations do that only look at the thread. -/
def GoalOp.looks : GoalOp → Bool
  | .getTuple _ | .evaluate | .publish | .stream _ _ => true
  | _ => false

section Rules

variable {sha256 : List Char → List Char} {strict : Prop} {r : GoalReq} {c : GoalCtx}
  {g g' : Multiset Hold} {op : GoalOp} {α : Type}

theorem Owning.yield (h : Owning sha256 strict g c) {waits : Option GoalOp} (hlink : Link waits g) :
    (goalLogic sha256 strict).Yield r c waits g :=
  ⟨h.consistent, h.respects, hlink⟩

theorem Owning.cast (h : Owning sha256 strict g c)
    (hlocks : g'.countP (fun h => h.locks = true) = g.countP fun h => h.locks = true)
    (hruns : g'.countP (fun h => h.runs = true) = g.countP fun h => h.runs = true)
    (hstreams : ∀ loaded, .streaming loaded ∉ g') : Owning sha256 strict g' c := by
  have hmem : ∀ loaded, .streaming loaded ∈ g' + c.frame → .streaming loaded ∈ g + c.frame :=
    fun loaded hg => Multiset.mem_add.2 (.inr ((Multiset.mem_add.1 hg).resolve_left (hstreams loaded)))
  refine ⟨⟨?_, ?_, h.consistent.stored, h.consistent.sound,
    fun goal hg => h.consistent.loaded goal (hmem _ hg), h.consistent.watchful,
    fun hs loaded hg => h.consistent.unchanged hs loaded (hmem _ hg)⟩, h.respects⟩
  · rw [← h.consistent.locked, Multiset.countP_add, Multiset.countP_add, hlocks]
  · rw [← h.consistent.running, Multiset.countP_add, Multiset.countP_add, hruns]

theorem Owning.write (h : Owning sha256 strict g c) {w : Thread}
    (hcons : Consistent sha256 strict c.now (g + c.frame) →
      Consistent sha256 strict w (g' + c.frame))
    (hresp : Respects strict c.frame c.now w) : Owning sha256 strict g' { c with now := w } :=
  ⟨hcons h.consistent, h.respects.trans hresp⟩

theorem safe_call {Q : Except GoalExn op.Reply → GoalCtx → Prop} (h : Owning sha256 strict g c)
    (hlink : Link (some op) g)
    (hfault : ∀ c', Respects strict g c.now c'.now → Owning sha256 strict g c' →
      Q (.error .failed) c')
    (hok : ∀ c' w, Respects strict g c.now w → Consistent sha256 strict w (g + c'.frame) →
      Allowed strict op w c'.frame → c'.start = w → c'.now = (goalBackend.perform op w).2 →
      Q (goalBackend.perform op w).1 c') : GoalSafe sha256 strict r (call op) Q c := by
  refine Safe.call g (h.yield hlink) fun w frame out hresp hcons hallowed => ?_
  cases out with
  | fault =>
    exact hfault ⟨c.close, some ⟨op, .error .failed⟩, w, frame, w⟩ hresp ⟨hcons, Respects.refl⟩
  | ok => exact hok _ w hresp hcons (hallowed op rfl rfl) rfl rfl

/-- **Looking at the thread.** -/
theorem safe_look {Q : Except GoalExn op.Reply → GoalCtx → Prop} (hop : op.looks = true)
    (h : Owning sha256 strict g c) (hlink : Link (some op) g)
    (hfault : ∀ c', Respects strict g c.now c'.now → Owning sha256 strict g c' →
      Q (.error .failed) c')
    (hok : ∀ c', Respects strict g c.now c'.now → Owning sha256 strict g c' →
      Q (goalBackend.perform op c'.now).1 c') : GoalSafe sha256 strict r (call op) Q c := by
  refine safe_call h hlink hfault fun c' w hresp hcons _ hstart hnow => ?_
  have hsame : (goalBackend.perform op w).2 = w := by
    cases op <;> first | rfl | exact absurd hop Bool.false_ne_true
  rw [hsame] at hnow
  subst hnow
  exact hok c' hresp ⟨hcons, hstart ▸ Respects.refl⟩

/-- **The lock of the goal.** -/
theorem safe_withGoalLock {body : GoalProc α} {P : Except GoalExn α → Thread → Prop}
    {Q : Except GoalExn α → GoalCtx → Prop} (h : Owning sha256 strict g c)
    (hlink : Link (some .lock) g)
    (hfault : ∀ c', Respects strict g c.now c'.now → Owning sha256 strict g c' →
      Q (.error .failed) c')
    (hbody : ∀ c', Respects strict g c.now c'.now → Owning sha256 strict ({.goalLock} + g) c' →
      GoalSafe sha256 strict r body
        (fun res c' => Owning sha256 strict ({.goalLock} + g) c' ∧ P res c'.now) c')
    (hpost : ∀ res c' w, P res w → w.Alike c'.now → Owning sha256 strict g c' → Q res c') :
    GoalSafe sha256 strict r (withGoalLock body) Q c := by
  refine safe_withLock.mpr
    (safe_call h hlink hfault fun c' w hresp hcons hallowed hstart hnow => ?_)
  have halike : w.Alike c'.now := by
    rw [hnow]
    exact ⟨rfl, rfl, rfl, rfl, rfl, rfl, rfl, rfl⟩
  have hfree : (g + c'.frame).countP (fun h => h.locks = true) = 0 := by
    rw [hcons.locked, hallowed.lock rfl, if_neg Bool.false_ne_true]
  have hstreams (frame : Multiset Hold) (loaded : Option GoalState) :
      Hold.streaming loaded ∈ {.goalLock} + g + frame ↔ Hold.streaming loaded ∈ g + frame := by
    simp
  have hlocked : Owning sha256 strict ({.goalLock} + g) c' := by
    refine ⟨hcons.alike halike ?_ ?_ fun loaded => (hstreams _ loaded).1, hstart ▸ halike.respects⟩
    · rw [add_assoc, countP_locks_add .goalLock rfl, hfree, hnow]
      rfl
    · rw [add_assoc, countP_runs_add_of_not .goalLock rfl, hcons.running, hnow]
      rfl
  refine Safe.mono (fun res c'' hres => ?_) (hbody c' (hresp.trans halike.respects) hlocked)
  obtain ⟨hown, hP⟩ := hres
  refine hpost res _ c''.now hP ⟨rfl, rfl, rfl, rfl, rfl, rfl, rfl, rfl⟩ ?_
  refine hown.write (fun hc => hc.alike ⟨rfl, rfl, rfl, rfl, rfl, rfl, rfl, rfl⟩ ?_ ?_
      fun loaded => (hstreams _ loaded).2)
    (Thread.Alike.respects ⟨rfl, rfl, rfl, rfl, rfl, rfl, rfl, rfl⟩)
  · have hone := hc.locked
    rw [add_assoc, countP_locks_add .goalLock rfl] at hone
    show _ = 0
    split at hone <;> omega
  · have hone := hc.running
    rwa [add_assoc, countP_runs_add_of_not .goalLock rfl] at hone

/-- **Writing a goal**: the task looks at the thread with `g`, and writes it with `g'`. -/
theorem safe_writeThreadGoal {goal : Option GoalState} {node : Node} {expected : Option ℕ}
    {Q : Except GoalExn Unit → GoalCtx → Prop} (h : Owning sha256 strict g c)
    (hlink : Link (some (.getTuple .write)) g)
    (hcast : ∀ c', Owning sha256 strict g c' → Owning sha256 strict g' c')
    (hput : ∀ cp, cp.goal = goal → Link (some (.put node cp)) g')
    (herror : ∀ e c', Respects strict g c.now c'.now → Owning sha256 strict g c' → Q (.error e) c')
    (hfault : ∀ w c', Respects strict g c.now w → Respects strict g' w c'.now →
      Owning sha256 strict g' c' → Q (.error .failed) c')
    (hok : ∀ w₁ w cp c', Respects strict g c.now w₁ → cp.goal = goal → cp.messages = w₁.messages →
      Respects strict g' w₁ w → Consistent sha256 strict w (g' + c'.frame) →
      Allowed strict (.put node cp) w c'.frame → c'.start = w → c'.now = w.putGoal node cp →
      Q (.ok ()) c') : GoalSafe sha256 strict r (writeThreadGoal goal node expected) Q c := by
  refine Safe.bind_iff.mpr (safe_look rfl h hlink (fun c' hresp hown => herror _ c' hresp hown)
    fun c₁ hresp hown => ?_)
  show GoalSafe sha256 strict r _ Q c₁
  cases hcheckpoint : c₁.now.checkpoint with
  | none => exact herror _ c₁ hresp hown
  | some cp =>
    dsimp only
    split
    · exact herror _ c₁ hresp hown
    · have halike : c₁.now.Alike { c₁.now with nextId := c₁.now.nextId + 1 } :=
        ⟨rfl, rfl, rfl, rfl, rfl, rfl, rfl, rfl⟩
      have hnumbered := (hcast c₁ hown).write
        (fun hc => hc.alike halike hc.locked hc.running fun _ => id) halike.respects
      have hmessages : cp.messages = c₁.now.messages := by rw [Thread.messages, hcheckpoint]; rfl
      refine Safe.bind_iff.mpr (safe_update.mpr (safe_call hnumbered (hput _ rfl)
        (fun c' hresp' hown' => ?_) fun c' w hresp' hcons hallowed hstart hnow => ?_))
      · exact hfault c₁.now c' hresp (halike.respects.trans hresp') hown'
      · exact hok c₁.now w ⟨_, goal, cp.messages, false⟩ c' hresp rfl hmessages
          (halike.respects.trans hresp') hcons hallowed hstart hnow

/-! ### The user -/

theorem link_of_no_run {waits : Option GoalOp}
    (hwaits : ∀ input loaded, waits ≠ some (.stream input loaded)) (hg : ∀ h ∈ g, h = .goalLock) :
    Link waits g :=
  ⟨fun input loaded h => absurd h (hwaits input loaded), fun _ h => Hold.noConfusion (hg _ h),
    fun h => Hold.noConfusion (hg _ h), fun h => Hold.noConfusion (hg _ h)⟩

/-- The user has set or cleared the goal. -/
theorem Owning.set {cp : Checkpoint} {w : Thread} (hg : .goalLock ∈ g)
    (hstreams : ∀ loaded, .streaming loaded ∉ g)
    (hcons : Consistent sha256 strict w (g + c.frame))
    (hallowed : Allowed strict (.put .goal cp) w c.frame)
    (hcapped : ∀ new, cp.goal = some new → new.maxContinuations ≤ defaultMaxGoalContinuations)
    (hstart : c.start = w) (hnow : c.now = w.putGoal .goal cp) : Owning sha256 strict g c := by
  have hfresh := hallowed.set cp rfl
  constructor
  · rw [hnow]
    refine ⟨hcons.locked, hcons.running, rfl, ?_, fun goal hmem => ?_, fun hs => ?_,
      fun hs loaded hmem => ?_⟩
    · exact hcons.sound.put fun new hnew => .inl ⟨hfresh new hnew, hcapped new hnew⟩
    · exact (hcons.loaded goal hmem).mono Thread.putGoal_known rfl
    · refine (hcons.watchful hs).put (fun new hnew hmem => ?_) fun _ => .inl hfresh
      exact hfresh new hnew (hcons.sound.changed _ hmem)
    · exact absurd ((Multiset.mem_add.1 hmem).resolve_left (hstreams loaded))
        ((hallowed.put hs cp rfl).2 loaded)
  · rw [hstart, hnow]
    refine ⟨Thread.putGoal_known, ?_, fun h hh => ?_⟩
    · rintro ⟨h, hh, hl⟩ -
      exact absurd hl (hcons.frame_locks hg rfl h hh ▸ Bool.false_ne_true)
    constructor
    · exact fun _ => rfl
    · exact fun _ => rfl
    · exact fun _ => rfl
    · exact fun _ new hnew => .inr (.inr (hfresh new hnew))
    · exact fun _ _ => rfl
    · rintro - rfl
      cases hcons.frame_locks hg rfl _ hh
    · rintro hs rfl
      exact absurd hh (hallowed.put hs cp rfl).1

theorem link_locked {waits : Option GoalOp} (hwaits : ∀ input loaded, waits ≠ some (.stream input loaded)) :
    Link waits ({.goalLock} + 0) :=
  link_of_no_run hwaits fun h hh => by simpa using hh

theorem safe_userWrite {goal : Option GoalState} (h : Owning sha256 strict ({.goalLock} + 0) c)
    (hcapped : ∀ new, goal = some new → new.maxContinuations ≤ defaultMaxGoalContinuations) :
    GoalSafe sha256 strict r (writeThreadGoal goal .goal none)
      (fun _ c' => Owning sha256 strict ({.goalLock} + 0) c' ∧ True) c := by
  refine safe_writeThreadGoal h (link_locked fun _ _ => nofun) (fun _ => id)
    (fun _ _ => link_locked fun _ _ => nofun) (fun _ _ _ hown => ⟨hown, trivial⟩)
    (fun _ _ _ _ hown => ⟨hown, trivial⟩) ?_
  rintro w₁ w cp c' - rfl - - hcons hallowed hstart hnow
  exact ⟨.set (by simp) (by simp) hcons hallowed hcapped hstart hnow, trivial⟩

theorem safe_ensureThreadCheckpoint (h : Owning sha256 strict g c)
    (hlink : Link (some (.getTuple .write)) g) : GoalSafe sha256 strict r ensureThreadCheckpoint
      (fun _ c' => Owning sha256 strict g c') c := by
  refine Safe.bind_iff.mpr (safe_look rfl h hlink (fun _ _ hown => hown) fun c₁ _ hown => ?_)
  show GoalSafe sha256 strict r _ _ c₁
  obtain ⟨cp, hcheckpoint⟩ := Option.isSome_iff_exists.1 hown.consistent.stored
  rw [hcheckpoint]
  exact hown

theorem link_zero {waits : Option GoalOp} (hwaits : ∀ input loaded, waits ≠ some (.stream input loaded)) :
    Link waits 0 :=
  link_of_no_run hwaits fun _ hh => (Multiset.notMem_zero _ hh).elim

theorem Owning.final (h : Owning sha256 strict 0 c) (res : Except GoalExn Unit) :
    (goalLogic sha256 strict).Final r res c :=
  ⟨⟨0, h.yield (link_zero fun _ _ => nofun)⟩, trivial⟩

/-- **The user sets a goal.** -/
theorem safe_setThreadGoal {objective : List Char} {maxContinuations now : ℕ}
    (h : Owning sha256 strict 0 c) :
    GoalSafe sha256 strict r (setThreadGoal objective maxContinuations now)
      ((goalLogic sha256 strict).Final r) c := by
  refine Safe.bind_iff.mpr (Safe.mono (fun res c₁ hown => ?_)
    (safe_ensureThreadCheckpoint h (link_zero fun _ _ => nofun)))
  cases res with
  | error e => exact hown.final _
  | ok _ =>
    show GoalSafe sha256 strict r _ _ c₁
    cases hbuild : buildGoalState objective maxContinuations now with
    | error e => exact hown.final _
    | ok goal =>
      refine safe_withGoalLock (P := fun _ _ => True) hown (link_zero fun _ _ => nofun)
        (fun _ _ hown => hown.final _) (fun c₂ _ hown => ?_) fun res _ _ _ _ hown => hown.final res
      refine Safe.bind_iff.mpr (Safe.mono (fun res c₃ hown => ?_)
        (safe_ensureThreadCheckpoint hown (link_locked fun _ _ => nofun)))
      cases res with
      | error e => exact ⟨hown, trivial⟩
      | ok _ =>
        refine safe_userWrite hown fun new hnew => ?_
        cases hnew
        exact (buildGoalState_ok hbuild).2.2.2

/-- **The user clears the goal.** -/
theorem safe_clearThreadGoal (h : Owning sha256 strict 0 c) :
    GoalSafe sha256 strict r clearThreadGoal ((goalLogic sha256 strict).Final r) c := by
  refine safe_withGoalLock (P := fun _ _ => True) h (link_zero fun _ _ => nofun)
    (fun _ _ hown => hown.final _) (fun c₁ _ hown => ?_) fun res _ _ _ _ hown => hown.final res
  exact safe_userWrite hown fun _ => nofun

/-- A checkpoint with other messages is written. -/
theorem Owning.messages {w w' : Thread} (hstart : c.start = w) (hnow : c.now = w')
    (hcons : Consistent sha256 strict w (g + c.frame)) (hresp : Respects strict c.frame w w')
    (hstored : w'.checkpoint.isSome = true) (hlocked : w'.locked = w.locked)
    (hrunning : w'.running = w.running) (hgoal : ∀ goal, w'.goal? = some goal → w.Fits goal)
    (hknown : w'.known = w.known) (hchanged : w'.changed = w.changed)
    (hstarted : w'.started = w.started) (hruns : w'.runs = w.runs)
    (hwatch : strict → w'.Watchful ∧ w'.goal? = w.goal?) : Owning sha256 strict g c := by
  constructor
  · rw [hnow]
    refine ⟨hlocked ▸ hcons.locked, hrunning ▸ hcons.running, hstored, ?_, fun goal hg => ?_,
      fun hs => (hwatch hs).1, fun hs loaded hg => ?_⟩
    · exact hcons.sound.congr hgoal hknown hchanged hstarted (Nat.le_of_eq hruns.symm)
    · exact (hcons.loaded goal hg).mono (fun _ hmem => hknown ▸ hmem) hstarted
    · exact (hwatch hs).2.trans (hcons.unchanged hs loaded hg)
  · rw [hstart, hnow]
    exact hresp

/-- **The user sends a message.** -/
theorem safe_say {text : List Char} (h : Owning sha256 strict 0 c) :
    GoalSafe sha256 strict r (call (GoalOp.append ⟨.human, false, text⟩))
      ((goalLogic sha256 strict).Final r) c := by
  refine safe_call h (link_zero fun _ _ => nofun) (fun _ _ hown => hown.final _) ?_
  intro c' w _ hcons hallowed hstart hnow
  refine Owning.final (.messages hstart hnow hcons ⟨fun _ => id, fun _ _ => rfl, fun h hh => ?_⟩ rfl
    rfl rfl hcons.sound.stored rfl rfl rfl rfl fun hs => ⟨?_, rfl⟩) _
  · constructor
    · exact fun _ => rfl
    · exact fun _ => rfl
    · exact fun _ => rfl
    · exact fun _ => .of_eq rfl
    · exact fun _ _ => rfl
    · rintro hs rfl
      exact absurd hh (hallowed.append hs _ rfl).1
    · exact fun _ _ => rfl
  · exact (hcons.watchful hs).append rfl rfl (hallowed.append hs _ rfl).2

/-- **The agent writes**, with the goal that its turn has read. -/
theorem safe_speak {loaded : Option GoalState} {messages : List Message} {pendingWrites : Bool}
    (h : Owning sha256 strict 0 c) :
    GoalSafe sha256 strict r (call (GoalOp.speak loaded messages pendingWrites))
      ((goalLogic sha256 strict).Final r) c := by
  refine safe_call h (link_zero fun _ _ => nofun) (fun _ _ hown => hown.final _) ?_
  intro c' w _ hcons hallowed hstart hnow
  have hstreams := hallowed.speak _ _ _ rfl
  have honly : ∀ h ∈ c'.frame, h.runs = true → h = .streaming loaded := by
    intro h hh hruns
    obtain ⟨others, hothers⟩ := Multiset.exists_cons_of_mem hstreams
    rw [hothers, ← Multiset.singleton_add, zero_add] at hcons
    rw [hothers, Multiset.mem_cons] at hh
    refine hh.resolve_right fun hmem => ?_
    have hnone := hcons.frame_runs (Multiset.mem_singleton_self (Hold.streaming loaded)) rfl h hmem
    exact absurd hruns (hnone ▸ Bool.false_ne_true)
  have hmem : Hold.streaming loaded ∈ 0 + c'.frame := (zero_add c'.frame).symm ▸ hstreams
  refine Owning.final (.messages hstart hnow hcons ⟨fun _ => id, ?_, fun h hh => ?_⟩ rfl rfl rfl
    (fun goal hgoal => ?_) rfl rfl rfl rfl fun hs => ?_) _
  · rintro - ⟨h, hh, hruns, hnot⟩
    rw [honly h hh hruns] at hnot
    cases hnot
  · constructor
    · exact fun _ => rfl
    · exact fun _ => rfl
    · exact fun _ => rfl
    · intro hruns goal hgoal
      rw [honly h hh hruns]
      exact .inr (.inl hgoal)
    · intro hruns hnot
      rw [honly h hh hruns] at hnot
      cases hnot
    · rintro - rfl
      cases honly _ hh rfl
    · rintro - rfl
      cases honly _ hh rfl
  · have hloaded : loaded = some goal := hgoal
    exact hcons.loaded goal (hloaded ▸ hmem)
  · have hsame := hcons.unchanged hs loaded hmem
    exact ⟨(hcons.watchful hs).speak hsame messages pendingWrites, hsame.symm⟩

end Rules

end AfterFlow.Goals
