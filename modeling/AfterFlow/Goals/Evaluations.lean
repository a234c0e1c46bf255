import AfterFlow.Goals.Guarantees

/-!
# What the worker does between two turns

The worker reads the goal, has it evaluated, writes the evaluation back and looks again. While it
does so the goal may be cleared or replaced, but a goal that is stored under the same name is still
the one that was read, with the same counters: only the worker itself changes those.

## Main results

* `safe_persistGoalEvaluation` — the evaluation is attached to the goal that was read
* `safe_prepareGoalContinuationInput` — what comes out is ready
-/

namespace AfterFlow.Goals

open Coop Coro Logic Option

/-- What is known of a goal that the worker has read. -/
structure Thread.Chosen (w : Thread) (goal : GoalState) : Prop where
  pinned : w.Pinned goal
  capped : goal.maxContinuations ≤ defaultMaxGoalContinuations
  spent : ∀ older ∈ w.started, older.goal.inst = goal.inst →
    older.goal.continuationCount < goal.continuationCount ∧
      older.goal.maxContinuations = goal.maxContinuations
  recent : ∀ older ∈ w.started.head?, older.run = w.runs → older.goal.inst = goal.inst →
    goal = older.updated

/-- Where the last continuation of this run was for a goal that is stored, the goal is as it was
written back then. -/
def Thread.Recent (w : Thread) : Prop :=
  ∀ older ∈ w.started.head?, older.run = w.runs → w.Pinned older.updated

/-- A continuation may be started. -/
structure Thread.Ready (sha256 : List Char → List Char) (strict : Prop) (w : Thread)
    (k : Continuation) : Prop where
  pinned : w.Pinned k.updated
  justified : Started.Justified sha256
    ⟨k, w.runs, w.replaced, w.asked, w.changed.contains k.goal.inst⟩
  capped : k.goal.maxContinuations ≤ defaultMaxGoalContinuations
  spent : ∀ older ∈ w.started, older.goal.inst = k.goal.inst →
    older.goal.continuationCount < k.goal.continuationCount ∧
      older.goal.maxContinuations = k.goal.maxContinuations
  stalled : ∀ older ∈ w.started.head?, older.run = w.runs → older.goal.inst = k.goal.inst →
    older.text = k.text → k.noProgressCount = older.noProgressCount + 1
  watched : strict → w.evaluating = some (k.goal, k.messages, k.asked) ∧
    w.goal? = some k.updated ∧
      visibleConversationSignature w.messages = visibleConversationSignature k.messages

/-- What is known when an evaluation has been written, or could not be. -/
structure Persisted (goal updated : GoalState) (standDown : Option StandDown) (before : Thread)
    (res : Except GoalExn (Option GoalState)) (after : Thread) : Prop where
  started : after.started = before.started
  runs : after.runs = before.runs
  written : ∀ u, res = .ok (some u) → u = updated ∧ after.replaced = some goal ∧ after.Pinned u ∧
    (standDown = none → after.evaluating = before.evaluating)

section Facts

variable {strict : Prop} {g : Multiset Hold} {w w' w'' : Thread} {goal updated : GoalState}
  {standDown : Option StandDown} {res : Except GoalExn (Option GoalState)} {h : Hold}

theorem Respects.hold (hr : Respects strict {h} w w') : h.Keeps strict w w' :=
  hr.keeps h (Multiset.mem_singleton_self h)

theorem Thread.Pinned.respects (hp : w.Pinned goal) (hr : Respects strict {.evaluating} w w') :
    w'.Pinned goal :=
  hp.moves hr.known (hr.hold.moves rfl) fun _ hnone => by cases hnone

theorem Thread.Chosen.congr (hc : w.Chosen goal) (hpinned : w'.Pinned goal)
    (hstarted : w'.started = w.started) (hruns : w'.runs = w.runs) : w'.Chosen goal :=
  ⟨hpinned, hc.capped, hstarted ▸ hc.spent, hstarted ▸ hruns ▸ hc.recent⟩

theorem Thread.Chosen.respects (hc : w.Chosen goal) (hr : Respects strict {.evaluating} w w') :
    w'.Chosen goal :=
  hc.congr (hc.pinned.respects hr) (hr.hold.started rfl) (hr.hold.runs rfl)

theorem Thread.Sound.chosen {sha256 : List Char → List Char} (hs : w.Sound sha256)
    (hrecent : w.Recent) (hgoal : w.goal? = some goal) : w.Chosen goal := by
  have hfits := hs.stored goal hgoal
  refine ⟨hs.pinned hgoal, hfits.capped, hfits.spent, fun older holder hrun hinst => ?_⟩
  obtain ⟨runId, hupdated⟩ := (hs.ledger.justified older (List.mem_of_mem_head? holder)).written
  refine (hrecent older holder hrun).same goal hgoal ?_
  rw [hupdated]
  exact hinst.symm

theorem Persisted.of_not (hstarted : w'.started = w.started) (hruns : w'.runs = w.runs)
    (hres : ∀ u, res ≠ .ok (some u)) : Persisted goal updated standDown w res w' :=
  ⟨hstarted, hruns, fun u hu => absurd hu (hres u)⟩

theorem Respects.persisted (hr : Respects strict g w w') (hg : h ∈ g) (hruns : h.runs = true)
    (hres : ∀ u, res ≠ .ok (some u)) : Persisted goal updated standDown w res w' :=
  .of_not ((hr.keeps h hg).started hruns) ((hr.keeps h hg).runs hruns) hres

theorem Persisted.respects (hp : Persisted goal updated standDown w res w')
    (hr : Respects strict {.evaluating} w' w'') : Persisted goal updated standDown w res w'' where
  started := (hr.hold.started rfl).trans hp.started
  runs := (hr.hold.runs rfl).trans hp.runs
  written u hu := by
    obtain ⟨hupdated, hreplaced, hpinned, hevaluating⟩ := hp.written u hu
    refine ⟨hupdated, (hr.hold.replaced rfl).trans hreplaced, hpinned.respects hr, fun hs => ?_⟩
    exact (hr.hold.evaluating rfl rfl).trans (hevaluating hs)

end Facts

section Worker

variable {sha256 : List Char → List Char} {strict : Prop} {r : GoalReq} {c : GoalCtx}
  {g : Multiset Hold} {goal updated : GoalState} {evaluation : GoalEvaluation} {runId : List Char}

theorem link_of_evaluating {waits : Option GoalOp}
    (hwaits : ∀ input loaded, waits ≠ some (.stream input loaded))
    (hg : ∀ h ∈ g, h = .goalLock ∨ h = .evaluating) : Link waits g :=
  ⟨fun input loaded h => absurd h (hwaits input loaded), fun _ h => (hg _ h).elim nofun nofun,
    fun h => (hg _ h).elim nofun nofun, fun h => (hg _ h).elim nofun nofun⟩

theorem link_evaluating {waits : Option GoalOp}
    (hwaits : ∀ input loaded, waits ≠ some (.stream input loaded)) :
    Link waits {.evaluating} :=
  link_of_evaluating hwaits fun _ hh => .inr (Multiset.mem_singleton.1 hh)

theorem link_evaluating_locked {waits : Option GoalOp}
    (hwaits : ∀ input loaded, waits ≠ some (.stream input loaded)) :
    Link waits ({.goalLock} + {.evaluating}) :=
  link_of_evaluating hwaits fun h hh => by simpa using hh

/-! ### Writing a goal back -/

/-- The evaluator has written a goal. Nobody else has the lock or runs. -/
theorem Owning.evaluated {cp : Checkpoint} {w : Thread} {h h' : Hold} (hg : h ∈ g)
    (hlocks : h.locks = true) (hg' : h' ∈ g) (hruns : h'.runs = true)
    (hstreams : ∀ loaded, .streaming loaded ∉ g)
    (hcons : Consistent sha256 strict w (g + c.frame))
    (haccepts : ∀ new, cp.goal = some new → w.Accepts new)
    (hwatch : strict → (w.putGoal .goalEvaluator cp).Watchful) (hstart : c.start = w)
    (hnow : c.now = w.putGoal .goalEvaluator cp) : Owning sha256 strict g c := by
  have hnone : ∀ loaded, .streaming loaded ∉ g + c.frame := fun loaded hmem =>
    (Multiset.mem_add.1 hmem).elim (hstreams loaded) fun hframe =>
      Bool.false_ne_true (hcons.frame_runs hg' hruns _ hframe).symm
  constructor
  · rw [hnow]
    exact ⟨hcons.locked, hcons.running, rfl, hcons.sound.put haccepts,
      fun goal hmem => absurd hmem (hnone _), hwatch, fun _ loaded hmem => absurd hmem (hnone loaded)⟩
  · rw [hstart, hnow]
    refine ⟨Thread.putGoal_known, ?_, fun k hk => ?_⟩
    · rintro ⟨k, hk, hl⟩ -
      exact absurd hl (hcons.frame_locks hg hlocks k hk ▸ Bool.false_ne_true)
    have hfree := hcons.frame_locks hg hlocks k hk
    have hidle := hcons.frame_runs hg' hruns k hk
    cases k with
    | goalLock => cases hfree
    | streaming | evaluating | writing | checking => cases hidle

/-- What is awaited while the evaluation of a goal is written. -/
def writingHolds (standDown : Option StandDown) : Multiset Hold :=
  if standDown.isNone then {.writing} else {.goalLock} + {.evaluating}

theorem Owning.writing (standDown : Option StandDown)
    (h : Owning sha256 strict ({.goalLock} + {.evaluating}) c) :
    Owning sha256 strict (writingHolds standDown) c := by
  cases standDown with
  | none => exact h.cast rfl rfl (by simp [writingHolds])
  | some reason => exact h

theorem Owning.of_writing {standDown : Option StandDown}
    (h : Owning sha256 strict (writingHolds standDown) c) :
    Owning sha256 strict ({.goalLock} + {.evaluating}) c := by
  cases standDown with
  | none => exact h.cast rfl rfl (by simp)
  | some reason => exact h

theorem mem_writingHolds (standDown : Option StandDown) :
    (∃ h ∈ writingHolds standDown, h.locks = true) ∧
      (∃ h ∈ writingHolds standDown, h.runs = true ∧ h.streams = false) ∧
        ∀ loaded, .streaming loaded ∉ writingHolds standDown := by
  cases standDown with
  | none =>
    exact ⟨⟨.writing, Multiset.mem_singleton_self _, rfl⟩,
      ⟨.writing, Multiset.mem_singleton_self _, rfl, rfl⟩, by simp [writingHolds]⟩
  | some reason =>
    exact ⟨⟨.goalLock, by simp [writingHolds], rfl⟩,
      ⟨.evaluating, by simp [writingHolds], rfl, rfl⟩, by simp [writingHolds]⟩

theorem link_writing {standDown : Option StandDown} {cp : Checkpoint}
    (hcontinues : cp.continues = standDown.isNone) :
    Link (some (.put .goalEvaluator cp)) (writingHolds standDown) := by
  cases standDown with
  | none =>
    exact ⟨fun _ _ => nofun, fun _ h => Hold.noConfusion (Multiset.mem_singleton.1 h),
      fun _ => ⟨cp, rfl, hcontinues⟩, fun h => Hold.noConfusion (Multiset.mem_singleton.1 h)⟩
  | some reason => exact link_evaluating_locked fun _ _ => nofun

/-- **The evaluation is written**, for the goal that is stored. -/
theorem safe_evaluatorWrite {expected n : Option ℕ} {noProgressCount : ℕ}
    {standDown : Option StandDown} {evidence : List Char}
    (h : Owning sha256 strict ({.goalLock} + {.evaluating}) c) (hgoal : c.now.goal? = some goal)
    (hcount : ∀ m, n = some m → goal.continuationCount ≤ m) :
    GoalSafe sha256 strict r
      (writeThreadGoal (some (attachGoalEvaluation goal evaluation runId n (some noProgressCount)
        standDown evidence)) .goalEvaluator expected)
      (fun res c' => Owning sha256 strict ({.goalLock} + {.evaluating}) c' ∧
        c'.now.started = c.now.started ∧ c'.now.runs = c.now.runs ∧ (res = .ok () →
          c'.now.replaced = some goal ∧ c'.now.goal? = some (attachGoalEvaluation goal evaluation
            runId n (some noProgressCount) standDown evidence) ∧
          (standDown = none → c'.now.evaluating = c.now.evaluating))) c := by
  obtain ⟨⟨lock, hlockMem, hlocks⟩, ⟨run, hrunMem, hruns, hne⟩, hstreams⟩ :=
    mem_writingHolds standDown
  have hlock : .goalLock ∈ ({.goalLock} + {.evaluating} : Multiset Hold) := by simp
  have heval : .evaluating ∈ ({.goalLock} + {.evaluating} : Multiset Hold) := by simp
  have hcontinues (cp : Checkpoint) (hcp : cp.goal = some (attachGoalEvaluation goal evaluation
      runId n (some noProgressCount) standDown evidence)) : cp.continues = standDown.isNone := by
    rw [Checkpoint.continues, hcp]
    rfl
  refine safe_writeThreadGoal h (link_evaluating_locked fun _ _ => nofun)
    (fun _ => Owning.writing standDown) (fun cp hcp => link_writing (hcontinues cp hcp)) ?_ ?_ ?_
  · rintro e c' hresp hown
    exact ⟨hown, (hresp.keeps _ heval).started rfl, (hresp.keeps _ heval).runs rfl, nofun⟩
  · rintro w c' hresp hresp' hown
    exact ⟨hown.of_writing,
      ((hresp'.keeps _ hrunMem).started hruns).trans ((hresp.keeps _ heval).started rfl),
      ((hresp'.keeps _ hrunMem).runs hruns).trans ((hresp.keeps _ heval).runs rfl), nofun⟩
  · rintro w₁ w cp c' hresp hcp hmessages hresp' hcons - hstart hnow
    have hk := hresp.keeps _ heval
    have hk' := hresp'.keeps _ hrunMem
    have hstored : w.goal? = some goal :=
      ((hresp'.goal ⟨lock, hlockMem, hlocks⟩ ⟨run, hrunMem, hruns, hne⟩).trans
        (hresp.goal ⟨_, hlock, rfl⟩ ⟨_, heval, rfl, rfl⟩)).trans hgoal
    have hown : Owning sha256 strict (writingHolds standDown) c' := by
      refine .evaluated hlockMem hlocks hrunMem hruns hstreams hcons (fun new hnew => ?_)
        (fun hs => ?_) hstart hnow
      · obtain rfl := some.inj (hcp.symm.trans hnew)
        refine .inr ⟨goal, hstored, rfl, rfl, ?_⟩
        cases n with
        | none => exact Nat.le_refl _
        | some m => exact hcount m rfl
      · refine (hcons.watchful hs).put (fun new hnew => ?_)
          fun hgoesOn => .inr ⟨?_, fun new hnew => ?_⟩
        · obtain rfl := some.inj (hcp.symm.trans hnew)
          exact (hcons.watchful hs).current goal hstored
        · cases standDown with
          | none =>
            have hsame := hresp'.keeps .writing (Multiset.mem_singleton_self _)
            exact hmessages.trans (hsame.messages hs rfl).symm
          | some reason =>
            exact absurd (Thread.putGoal_evaluating_of_not (hcontinues cp hcp)) hgoesOn
        · obtain rfl := some.inj (hcp.symm.trans hnew)
          exact ⟨goal, hstored, rfl⟩
    rw [hnow]
    refine ⟨hown.of_writing, (hk'.started hruns).trans (hk.started rfl),
      (hk'.runs hruns).trans (hk.runs rfl), fun _ => ⟨hstored, hcp, ?_⟩⟩
    rintro rfl
    rw [Thread.putGoal_evaluating (hcontinues cp hcp)]
    exact (hk'.evaluating hruns hne).trans (hk.evaluating rfl rfl)

theorem goalInstanceMatches_some {left right : GoalState} :
    goalInstanceMatches (some left) (some right) = true ↔ left.inst = right.inst :=
  decide_eq_true_iff

/-- **An evaluation is persisted**, for the goal that was read if that is still the instance. -/
theorem safe_persistGoalEvaluation {n : Option ℕ} {noProgressCount : ℕ}
    {standDown : Option StandDown} {evidence : List Char} (h : Owning sha256 strict {.evaluating} c)
    (hpinned : c.now.Pinned goal) (hcount : ∀ m, n = some m → goal.continuationCount ≤ m) :
    GoalSafe sha256 strict r
      (persistGoalEvaluation runId goal evaluation noProgressCount n standDown evidence)
      (fun res c' => Owning sha256 strict {.evaluating} c' ∧ (∃ o, res = .ok o) ∧
        Persisted goal (attachGoalEvaluation goal evaluation runId n (some noProgressCount)
          standDown evidence) standDown c.now res c'.now) c := by
  have heval := Multiset.mem_singleton_self Hold.evaluating
  refine Safe.tryCatch_iff.mpr (Safe.bind_iff.mpr (safe_withGoalLock
    (P := fun res w => Persisted goal (attachGoalEvaluation goal evaluation runId n
      (some noProgressCount) standDown evidence) standDown c.now res w) h
    (link_evaluating fun _ _ => nofun) ?_ ?_ ?_))
  · rintro c' hresp hown
    exact ⟨hown, ⟨none, rfl⟩, hresp.persisted heval rfl fun _ hu => by cases hu⟩
  · rintro c₁ hresp₁ hown₁
    have hboth {w : Thread} (hr : Respects strict ({.goalLock} + {.evaluating}) c₁.now w) :
        Respects strict {.evaluating} c.now w :=
      hresp₁.trans (hr.mono fun h hh => Multiset.mem_add.2 (.inr hh))
    refine Safe.bind_iff.mpr (safe_look rfl hown₁ (link_evaluating_locked fun _ _ => nofun)
      (fun c₂ hresp hown => ⟨hown, (hboth hresp).persisted heval rfl fun _ hu => by cases hu⟩)
      fun c₂ hresp₂ hown₂ => ?_)
    show GoalSafe sha256 strict r _ _ c₂
    cases hcheckpoint : c₂.now.checkpoint with
    | none => exact ⟨hown₂, (hboth hresp₂).persisted heval rfl fun _ hu => by cases hu⟩
    | some cp =>
      dsimp only
      cases hcurrent : cp.goal with
      | none => exact ⟨hown₂, (hboth hresp₂).persisted heval rfl fun _ hu => by cases hu⟩
      | some current =>
        dsimp only
        split
        · rename_i hmatches
          have hstored : c₂.now.goal? = some current := by
            rw [Thread.goal?, hcheckpoint]
            exact hcurrent
          have hsame : current = goal := (hpinned.respects (hboth hresp₂)).same current hstored
            (goalInstanceMatches_some.1 hmatches).symm
          rw [hsame] at hstored ⊢
          refine Safe.bind_iff.mpr (Safe.mono (fun res c₃ hres => ?_)
            (safe_evaluatorWrite hown₂ hstored hcount))
          obtain ⟨hown₃, hstarted, hruns, hwritten⟩ := hres
          have hstarted := hstarted.trans ((hboth hresp₂).hold.started rfl)
          have hruns := hruns.trans ((hboth hresp₂).hold.runs rfl)
          cases res with
          | error e => exact ⟨hown₃, .of_not hstarted hruns fun _ hu => by cases hu⟩
          | ok _ =>
            obtain ⟨hreplaced, hgoal, hevaluating⟩ := hwritten rfl
            refine ⟨hown₃, hstarted, hruns, fun u hu => ?_⟩
            obtain rfl := some.inj (Except.ok.inj hu)
            refine ⟨rfl, hreplaced, hown₃.consistent.sound.pinned hgoal, fun hs => ?_⟩
            exact (hevaluating hs).trans ((hboth hresp₂).hold.evaluating rfl rfl)
        · exact ⟨hown₂, (hboth hresp₂).persisted heval rfl fun _ hu => by cases hu⟩
  · rintro res c' w hp halike hown
    have hr : Respects strict {.evaluating} w c'.now := halike.respects
    have hp := hp.respects hr
    cases res with
    | error e => exact ⟨hown, ⟨none, rfl⟩, .of_not hp.started hp.runs fun _ hu => by cases hu⟩
    | ok o =>
      cases o with
      | none => exact ⟨hown, ⟨none, rfl⟩, hp⟩
      | some u =>
        refine Safe.bind_iff.mpr (safe_look rfl hown (link_evaluating fun _ _ => nofun)
          (fun c'' hr hown => ⟨hown, ⟨none, rfl⟩, ?_⟩)
          fun c'' hr hown => ⟨hown, ⟨some u, rfl⟩, hp.respects hr⟩)
        exact .of_not (hp.respects hr).started (hp.respects hr).runs fun _ hu => by cases hu

/-- The worker goes on with what is `P`, or stands down. -/
def Decides (sha256 : List Char → List Char) (strict : Prop) {α : Type} (P : α → Thread → Prop)
    (res : Except GoalExn (Option α)) (c : GoalCtx) : Prop :=
  Owning sha256 strict {.evaluating} c ∧ ∃ found, res = .ok found ∧ ∀ a, found = some a → P a c.now

theorem Owning.standsDown {α : Type} {P : α → Thread → Prop}
    (h : Owning sha256 strict {.evaluating} c) : Decides sha256 strict P (.ok none) c :=
  ⟨h, none, rfl, fun _ hfound => by cases hfound⟩

theorem Owning.notReady (h : Owning sha256 strict {.evaluating} c) :
    Decides sha256 strict (fun k w => w.Ready sha256 strict k) (.ok none) c :=
  h.standsDown

theorem safe_standDown {α : Type} {P : α → Thread → Prop} {n : Option ℕ} {noProgressCount : ℕ}
    {standDown : Option StandDown} {evidence : List Char} (h : Owning sha256 strict {.evaluating} c)
    (hpinned : c.now.Pinned goal) (hcount : ∀ m, n = some m → goal.continuationCount ≤ m) :
    GoalSafe sha256 strict r
      ((persistGoalEvaluation runId goal evaluation noProgressCount n standDown evidence).bind
        fun _ => .pure none) (Decides sha256 strict P) c := by
  refine Safe.bind_iff.mpr (Safe.mono (fun res c' hres => ?_)
    (safe_persistGoalEvaluation h hpinned hcount))
  obtain ⟨hown, ⟨o, rfl⟩, -⟩ := hres
  exact hown.standsDown

/-- **A satisfied goal is cleared**, if it is still the instance. -/
theorem safe_clearSatisfiedGoal (h : Owning sha256 strict {.evaluating} c) :
    GoalSafe sha256 strict r (clearSatisfiedGoal goal)
      (fun res c' => Owning sha256 strict {.evaluating} c' ∧ ∃ u, res = .ok u) c := by
  have hlock : .goalLock ∈ ({.goalLock} + {.evaluating} : Multiset Hold) := by simp
  have heval : .evaluating ∈ ({.goalLock} + {.evaluating} : Multiset Hold) := by simp
  refine Safe.tryCatch_iff.mpr (Safe.bind_iff.mpr (safe_withGoalLock (P := fun _ _ => True) h
    (link_evaluating fun _ _ => nofun) (fun _ _ hown => ⟨hown, (), rfl⟩) ?_ ?_))
  · rintro c₁ - hown₁
    refine Safe.bind_iff.mpr (safe_look rfl hown₁ (link_evaluating_locked fun _ _ => nofun)
      (fun _ _ hown => ⟨hown, trivial⟩) fun c₂ _ hown₂ => ?_)
    show GoalSafe sha256 strict r _ _ c₂
    cases c₂.now.checkpoint with
    | none => exact ⟨hown₂, trivial⟩
    | some cp =>
      dsimp only
      split
      · refine Safe.bind_iff.mpr (safe_writeThreadGoal hown₂ (link_evaluating_locked fun _ _ => nofun)
          (fun _ => id) (fun _ _ => link_evaluating_locked fun _ _ => nofun)
          (fun _ _ _ hown => ⟨hown, trivial⟩) (fun _ _ _ _ hown => ⟨hown, trivial⟩) ?_)
        rintro w₁ w new c' - hnew - - hcons - hstart hnow
        have hcontinues : new.continues = false := by
          rw [Checkpoint.continues, hnew]
          rfl
        refine ⟨.evaluated hlock rfl heval rfl (by simp) hcons (fun _ hsome => ?_) (fun hs => ?_)
          hstart hnow, trivial⟩
        · cases hnew.symm.trans hsome
        · refine (hcons.watchful hs).put (fun _ hsome => ?_) fun hgoesOn =>
            absurd (Thread.putGoal_evaluating_of_not hcontinues) hgoesOn
          cases hnew.symm.trans hsome
      · exact ⟨hown₂, trivial⟩
  · rintro res c' w - - hown
    cases res with
    | error e => exact ⟨hown, (), rfl⟩
    | ok cleared =>
      show GoalSafe sha256 strict r _ _ c'
      dsimp only
      split
      · exact safe_look rfl hown (link_evaluating fun _ _ => nofun) (fun _ _ hown => ⟨hown, (), rfl⟩)
          fun _ _ hown => ⟨hown, (), rfl⟩
      · exact ⟨hown, (), rfl⟩

/-! ### Looking again -/

theorem Owning.run_cast {k k' : Hold} (h : Owning sha256 strict {k} c) (hlocks : k'.locks = k.locks)
    (hruns : k'.runs = k.runs) (hstreams : k'.streams = false) : Owning sha256 strict {k'} c := by
  refine h.cast ?_ ?_ fun loaded hmem => ?_
  · rw [← Multiset.cons_zero, ← Multiset.cons_zero, Multiset.countP_cons, Multiset.countP_cons,
      hlocks]
  · rw [← Multiset.cons_zero, ← Multiset.cons_zero, Multiset.countP_cons, Multiset.countP_cons,
      hruns]
  · rw [← Multiset.mem_singleton.1 hmem] at hstreams
    cases hstreams

/-- **Goal and checkpoint are read again**, one after the other: when the checkpoint is read, only
what a run relies on that does `k` is left of what was known when the goal was. -/
theorem safe_rereadGoalAndCheckpoint {first second : Site} {k : Hold}
    (h : Owning sha256 strict {.evaluating} c) (hlink : Link (some (.getTuple second)) {k})
    (hlocks : k.locks = false) (hruns : k.runs = true) (hne : k.streams = false) :
    GoalSafe sha256 strict r (rereadGoalAndCheckpoint first second)
      (fun res c' => Owning sha256 strict {.evaluating} c' ∧
        Respects strict {.evaluating} c.now c'.now ∧ ∃ found, res = .ok found ∧
          ∀ current tuple, found = some (current, tuple) → tuple = c'.now.checkpoint ∧
            ∃ w, Respects strict {.evaluating} c.now w ∧ w.goal? = current ∧
              Respects strict {k} w c'.now) c := by
  refine Safe.tryCatch_iff.mpr (Safe.bind_iff.mpr (Safe.bind_iff.mpr (safe_look rfl h
    (link_evaluating fun _ _ => nofun) ?_ ?_)))
  · intro c' hr hown
    refine ⟨hown, hr, none, rfl, fun _ _ hfound => ?_⟩
    cases hfound
  · intro c₁ hr₁ hown₁
    have hback {w : Thread} (hr : Respects strict {k} c₁.now w) :
        Respects strict {.evaluating} c.now w :=
      hr₁.trans (hr.evaluating (Multiset.mem_singleton_self k) hruns hne)
    refine Safe.bind_iff.mpr (safe_look rfl (hown₁.run_cast hlocks hruns hne) hlink ?_ ?_)
    · intro c' hr hown
      refine ⟨hown.run_cast hlocks.symm hruns.symm rfl, hback hr, none, rfl, fun _ _ hfound => ?_⟩
      cases hfound
    · intro c' hr hown
      refine ⟨hown.run_cast hlocks.symm hruns.symm rfl, hback hr, some (c₁.now.goal?, _), rfl, ?_⟩
      rintro current tuple ⟨⟩
      exact ⟨rfl, c₁.now, hr₁, rfl, hr⟩

/-! ### Evaluating -/

theorem Respects.idle {w w' : Thread} {frame : Multiset Hold} (hidle : ∀ h ∈ frame, h.runs = false)
    (hknown : w'.known = w.known) (hgoal : w'.goal? = w.goal?) : Respects strict frame w w' := by
  refine ⟨hknown ▸ List.Subset.refl _, fun _ _ => hgoal, fun h hh => ?_⟩
  have hnot : h.runs = true → False := fun hruns =>
    Bool.false_ne_true ((hidle h hh).symm.trans hruns)
  constructor
  · exact fun hruns => (hnot hruns).elim
  · exact fun hruns => (hnot hruns).elim
  · exact fun hruns => (hnot hruns).elim
  · exact fun hruns => (hnot hruns).elim
  · exact fun hruns _ => (hnot hruns).elim
  · rintro - rfl
    exact (hnot rfl).elim
  · rintro - rfl
    exact (hnot rfl).elim

theorem Owning.read {messages : List Message} (h : Owning sha256 strict {.evaluating} c)
    (hknown : goal.createdAt ∈ c.now.known) (hanswered : Answered messages) :
    Owning sha256 strict {.evaluating} { c with now := c.now.read goal messages } := by
  refine h.write (fun hc => ⟨hc.locked, hc.running, hc.stored, ?_, fun goal hg => ?_, fun hs => ?_,
    hc.unchanged⟩) ?_
  · exact hc.sound.congr hc.sound.stored rfl rfl rfl (Nat.le_refl _)
  · exact (hc.loaded goal hg).mono (fun _ => id) rfl
  · exact (hc.watchful hs).read hknown hanswered
  · exact .idle (h.consistent.frame_runs (Multiset.mem_singleton_self Hold.evaluating) rfl) rfl rfl

theorem answered_of_receipt {cp : Checkpoint} (h : hasDurableGoalTurnReceipt cp = true) :
    Answered cp.messages :=
  (Bool.and_eq_true_iff.1 h).2

theorem safe_evaluateGoalCompletion {messages : List Message}
    (h : Owning sha256 strict {.evaluating} c) :
    GoalSafe sha256 strict r (evaluateGoalCompletion messages)
      (fun _ c' => Owning sha256 strict {.evaluating} c' ∧
        Respects strict {.evaluating} c.now c'.now) c := by
  rw [evaluateGoalCompletion]
  split
  · exact safe_look rfl h (link_evaluating fun _ _ => nofun) (fun _ hr hown => ⟨hown, hr⟩)
      fun _ hr hown => ⟨hown, hr⟩
  · exact ⟨h, .refl⟩

/-- **The goal is evaluated** on the conversation that is remembered. -/
theorem safe_evaluateGoal (h : Owning sha256 strict {.evaluating} c) (hc : c.now.Chosen goal) :
    GoalSafe sha256 strict r (evaluateGoal sha256 runId goal)
      (Decides sha256 strict fun e w =>
        w.Chosen goal ∧ w.evaluating = some (goal, e.1.messages, e.2.1)) c := by
  let P (e : Checkpoint × ℕ × GoalEvaluation) (w : Thread) : Prop :=
    w.Chosen goal ∧ w.evaluating = some (goal, e.1.messages, e.2.1)
  have hdown {c' : GoalCtx} (hown : Owning sha256 strict {.evaluating} c') :
      Decides sha256 strict P (.ok none) c' := hown.standsDown
  refine Safe.tryCatch_iff.mpr (Safe.bind_iff.mpr (safe_look rfl h (link_evaluating fun _ _ => nofun)
    (fun _ _ hown => hdown hown) ?_))
  intro c₁ hr₁ hown₁
  have hc₁ := hc.respects hr₁
  show GoalSafe sha256 strict r _ _ c₁
  cases c₁.now.checkpoint with
  | none => exact hdown hown₁
  | some cp =>
    dsimp only
    split
    · rename_i hdurable
      have hread := hown₁.read hc₁.pinned.known (answered_of_receipt hdurable)
      have hchosen : (c₁.now.read goal cp.messages).Chosen goal :=
        hc₁.congr ⟨hc₁.pinned.known, hc₁.pinned.same⟩ rfl rfl
      show GoalSafe sha256 strict r (if (c₁.now.read goal cp.messages).aborted then _ else _) _
        { c₁ with now := c₁.now.read goal cp.messages }
      split
      · exact hdown hread
      · refine Safe.bind_iff.mpr (Safe.mono (fun res c₂ hres => ?_)
          (safe_evaluateGoalCompletion hread))
        obtain ⟨hown₂, hr₂⟩ := hres
        cases res with
        | error e => exact hdown hown₂
        | ok evaluation =>
          show GoalSafe sha256 strict r (if c₂.now.aborted then _ else _) _ c₂
          split
          · exact hdown hown₂
          · refine ⟨hown₂, _, rfl, fun _ hfound => ?_⟩
            cases hfound
            exact ⟨hchosen.respects hr₂, hr₂.hold.evaluating rfl rfl⟩
    · refine Safe.mono (fun res c₂ hres => ?_) (safe_standDown (P := P) hown₁ hc₁.pinned nofun)
      obtain ⟨hown₂, found, rfl, hfound⟩ := hres
      exact ⟨hown₂, found, rfl, hfound⟩

/-! ### Deciding -/

theorem Thread.Chosen.stalled {w : Thread} {k : Continuation} (hc : w.Chosen k.goal)
    (hs : w.Sound sha256)
    (hgate : shouldContinueGoal k.goal k.evaluation (some k.noProgressCount) = true)
    (hprogress : k.noProgressCount = computeNoProgressCount k.goal k.evaluation
      (latestVisibleAssistantSignature sha256 k.messages)) :
    ∀ older ∈ w.started.head?, older.run = w.runs → older.goal.inst = k.goal.inst →
      older.text = k.text → k.noProgressCount = older.noProgressCount + 1 := by
  intro older holder hrun hinst htext
  have hold := hs.ledger.justified older (List.mem_of_mem_head? holder)
  obtain ⟨runId, hupdated⟩ := hold.written
  have hsignature : latestVisibleAssistantSignature sha256 older.messages =
      latestVisibleAssistantSignature sha256 k.messages :=
    congrArg (fun text => text.elim [] sha256) htext
  rw [hprogress, hc.recent older holder hrun hinst, hupdated, hsignature]
  exact computeNoProgressCount_attach (blocker_of_shouldContinueGoal hgate)
    (blocker_of_shouldContinueGoal hold.gate)

theorem link_checking : Link (some (.getTuple .guardCheckpoint)) {.checking} :=
  ⟨fun _ _ => nofun, fun _ h => Hold.noConfusion (Multiset.mem_singleton.1 h),
    fun h => Hold.noConfusion (Multiset.mem_singleton.1 h), fun _ => rfl⟩

/-- **A continuation is queued** if thread and goal still are as they were. -/
theorem safe_queueContinuation {cp : Checkpoint} {asked noProgressCount : ℕ}
    (h : Owning sha256 strict {.evaluating} c) (hc : c.now.Chosen goal)
    (hevaluating : c.now.evaluating = some (goal, cp.messages, asked))
    (hgate : shouldContinueGoal goal evaluation (some noProgressCount) = true)
    (hprogress : noProgressCount = computeNoProgressCount goal evaluation
      (latestVisibleAssistantSignature sha256 cp.messages)) :
    GoalSafe sha256 strict r
      (queueContinuation sha256 runId goal cp asked evaluation noProgressCount)
      (Decides sha256 strict fun k w => w.Ready sha256 strict k) c := by
  refine Safe.bind_iff.mpr (Safe.mono (fun res c₁ hres => ?_)
    (safe_persistGoalEvaluation h hc.pinned fun m hm => ?_))
  · obtain ⟨hown₁, ⟨o, rfl⟩, hp⟩ := hres
    cases o with
    | none => exact hown₁.notReady
    | some updated =>
      obtain ⟨hupdated, hreplaced, hpinned, hsame⟩ := hp.written updated rfl
      refine Safe.bind_iff.mpr (Safe.mono (fun res c₂ hres => ?_)
        (safe_rereadGoalAndCheckpoint hown₁ link_checking rfl rfl rfl))
      obtain ⟨hown₂, hr₂, found, rfl, hfound⟩ := hres
      have hstarted : c₂.now.started = c.now.started := (hr₂.hold.started rfl).trans hp.started
      have hruns : c₂.now.runs = c.now.runs := (hr₂.hold.runs rfl).trans hp.runs
      obtain _ | ⟨_ | latestGoal, _ | latestCheckpoint⟩ := found
      · exact hown₂.notReady
      · exact hown₂.notReady
      · exact hown₂.notReady
      · exact hown₂.notReady
      · obtain ⟨htuple, w, hw, hlatest, hchecked⟩ := hfound _ _ rfl
        show GoalSafe sha256 strict r
          (if goalInstanceMatches (some updated) (some latestGoal) = true then _ else _) _ c₂
        split
        · rename_i hmatches
          have hsameGoal : latestGoal = updated := (hpinned.respects hw).same latestGoal hlatest
            (goalInstanceMatches_some.1 hmatches).symm
          rw [hsameGoal] at hlatest ⊢
          have hmessages : c₂.now.messages = latestCheckpoint.messages := by
            rw [Thread.messages, ← htuple]
            rfl
          split
          · rename_i hsignature
            refine ⟨hown₂, _, rfl, fun k hk => ?_⟩
            cases hk
            refine ⟨hpinned.respects hr₂, ⟨?_, hgate, hprogress, runId, hupdated⟩, hc.capped,
              hstarted ▸ hc.spent, hstarted ▸ hruns ▸ ?_, fun hs => ⟨?_, ?_, ?_⟩⟩
            · exact (hr₂.hold.replaced rfl).trans hreplaced
            · exact Thread.Chosen.stalled (k := ⟨goal, cp.messages, evaluation, noProgressCount,
                updated, asked⟩) hc h.consistent.sound hgate hprogress
            · exact ((hr₂.hold.evaluating rfl rfl).trans (hsame rfl)).trans hevaluating
            · exact (hchecked.hold.checked hs rfl).trans hlatest
            · rw [hmessages]
              exact hsignature
          · refine safe_standDown hown₂ (hpinned.respects hr₂) fun m hm => ?_
            rw [← some.inj hm, hupdated]
            exact Nat.le_refl _
        · exact hown₂.notReady
  · obtain rfl := some.inj hm
    exact Nat.le_succ _

/-- **The gates decide.** -/
theorem safe_decideContinuation {cp : Checkpoint} {asked : ℕ}
    (h : Owning sha256 strict {.evaluating} c) (hc : c.now.Chosen goal)
    (hevaluating : c.now.evaluating = some (goal, cp.messages, asked)) :
    GoalSafe sha256 strict r (decideContinuation sha256 runId goal cp asked evaluation)
      (Decides sha256 strict fun k w => w.Ready sha256 strict k) c := by
  refine Safe.bind_iff.mpr (Safe.mono (fun res c₁ hres => ?_)
    (safe_rereadGoalAndCheckpoint h (link_evaluating fun _ _ => nofun) rfl rfl rfl))
  obtain ⟨hown₁, hr₁, found, rfl, hfound⟩ := hres
  obtain _ | ⟨_ | currentGoal, _ | currentCheckpoint⟩ := found
  · exact hown₁.notReady
  · exact hown₁.notReady
  · exact hown₁.notReady
  · exact hown₁.notReady
  · obtain ⟨-, w, hw, hcurrent, -⟩ := hfound _ _ rfl
    have hc₁ := hc.respects hr₁
    show GoalSafe sha256 strict r
      (if goalInstanceMatches (some goal) (some currentGoal) = true then _ else _) _ c₁
    split
    · rename_i hmatches
      have hsameGoal : currentGoal = goal := (hc.pinned.respects hw).same currentGoal hcurrent
        (goalInstanceMatches_some.1 hmatches).symm
      rw [hsameGoal]
      split
      · exact safe_standDown hown₁ hc₁.pinned nofun
      · split
        · refine Safe.bind_iff.mpr (Safe.mono (fun res c₂ hres => ?_)
            (safe_clearSatisfiedGoal hown₁))
          obtain ⟨hown₂, u, rfl⟩ := hres
          exact hown₂.notReady
        · split
          · exact safe_standDown hown₁ hc₁.pinned nofun
          · rename_i hopen
            refine safe_queueContinuation hown₁ hc₁
              ((hr₁.hold.evaluating rfl rfl).trans hevaluating) ?_ rfl
            exact Bool.of_not_eq_false fun hshut => hopen (.inr hshut)
    · exact hown₁.notReady

theorem Thread.Recent.respects {w w' : Thread} {k : Hold} (h : w.Recent)
    (hr : Respects strict {k} w w') (hruns : k.runs = true)
    (hloaded : ∀ goal, k.loaded = some goal → w.goal? = some goal) : w'.Recent := by
  intro older holder hrun
  rw [hr.hold.started hruns] at holder
  rw [hr.hold.runs hruns] at hrun
  have hpinned := h older holder hrun
  exact hpinned.moves hr.known (hr.hold.moves hruns) fun goal hgoal =>
    hpinned.same goal (hloaded goal hgoal)

/-- **What comes out is ready.** -/
theorem safe_prepareGoalContinuationInput (h : Owning sha256 strict {.evaluating} c)
    (hrecent : c.now.Recent) :
    GoalSafe sha256 strict r (prepareGoalContinuationInput sha256 runId)
      (Decides sha256 strict fun k w => w.Ready sha256 strict k) c := by
  show GoalSafe sha256 strict r (if c.now.aborted then _ else _) _ c
  split
  · exact h.notReady
  · refine Safe.bind_iff.mpr (Safe.tryCatch_iff.mpr (Safe.bind_iff.mpr (safe_look rfl h
      (link_evaluating fun _ _ => nofun) ?_ ?_)))
    · intro c₁ _ hown₁
      exact hown₁.notReady
    · intro c₁ hr₁ hown₁
      show GoalSafe sha256 strict r _ _ c₁
      dsimp only
      rw [show c₁.now.checkpoint.bind Checkpoint.goal = c₁.now.goal? from rfl]
      cases hgoal : c₁.now.goal? with
      | none => exact hown₁.notReady
      | some goal =>
        have hc₁ := hown₁.consistent.sound.chosen (hrecent.respects hr₁ rfl nofun) hgoal
        refine Safe.bind_iff.mpr (Safe.mono (fun res c₂ hres => ?_) (safe_evaluateGoal hown₁ hc₁))
        obtain ⟨hown₂, found, rfl, hfound⟩ := hres
        obtain _ | ⟨cp, asked, evaluation⟩ := found
        · exact hown₂.notReady
        · obtain ⟨hc₂, hevaluating⟩ := hfound _ rfl
          exact safe_decideContinuation hown₂ hc₂ hevaluating

end Worker

end AfterFlow.Goals
