import AfterFlow.Goals.Worker

/-!
# What is known of a thread with a goal

The continuations of one goal were started with ever larger counts, so there are no more of them
than the goal allows. Continuations of one run without new evidence were started with counts that go
up by one, so there are no more of them in a row than the goal allows either.

This is kept by everything that is awaited, and by the start of a continuation if the goal that was
written back for it is the only goal that the thread may still have under that name.

What the user has changed is noticed as long as the evaluated conversation differs from the one of
the thread, or the evaluated goal from the stored one.
-/

namespace AfterFlow.Goals

open List Option

/-! ### Continuations -/

/-- The evidence that a continuation was started on. -/
def Continuation.text (c : Continuation) : Option (List Char) :=
  latestVisibleAssistantText c.messages

/-- The gate was open for the goal that was stored, and the counters were written back. -/
structure Started.Justified (sha256 : List Char → List Char) (c : Started) : Prop where
  stored : c.replaced = some c.goal
  gate : shouldContinueGoal c.goal c.evaluation (some c.noProgressCount) = true
  progress : c.noProgressCount = computeNoProgressCount c.goal c.evaluation
    (latestVisibleAssistantSignature sha256 c.messages)
  written : ∃ runId, c.updated = attachGoalEvaluation c.goal c.evaluation runId
    (some (c.goal.continuationCount + 1)) (some c.noProgressCount) none
    (latestVisibleAssistantSignature sha256 c.messages)

/-- The newer one of two continuations of a goal has a larger count. -/
def Started.After (newer older : Started) : Prop :=
  newer.goal.inst = older.goal.inst → older.goal.continuationCount < newer.goal.continuationCount ∧
    older.goal.maxContinuations = newer.goal.maxContinuations

/-- Two continuations of one goal in one run, on the same evidence. -/
def Started.Stalls (newer older : Started) : Prop :=
  older.run = newer.run ∧ older.goal.inst = newer.goal.inst ∧ older.text = newer.text

/-- What is known of the continuations, the newest first. -/
structure Ledger (sha256 : List Char → List Char) (started : List Started) : Prop where
  justified : ∀ c ∈ started, c.Justified sha256
  capped : ∀ c ∈ started, c.goal.maxContinuations ≤ defaultMaxGoalContinuations
  spent : started.Pairwise Started.After
  stalled : started.IsChain fun newer older =>
    newer.Stalls older → newer.noProgressCount = older.noProgressCount + 1

/-- For each goal there are at most as many continuations as it allows, and at most eight; each was
started with the gate open for the goal that was stored; and a run starts only so many in a row on
the same evidence. -/
structure Bounded (started : List Started) : Prop where
  few : ∀ c ∈ started,
    (started.filter fun d => d.goal.inst = c.goal.inst).length ≤ c.goal.maxContinuations ∧
      c.goal.maxContinuations ≤ defaultMaxGoalContinuations
  gate : ∀ c ∈ started, c.replaced = some c.goal ∧
    shouldContinueGoal c.goal c.evaluation (some c.noProgressCount) = true
  advances : ∀ c rest, c :: rest <:+: started → (∀ d ∈ rest, c.Stalls d) →
    (c :: rest).length ≤ c.goal.maxNoProgressContinuations

/-- Nothing was started for a goal that was cleared or replaced, or after a newer message. -/
def Heeds (started : List Started) : Prop :=
  ∀ c ∈ started, c.gone = false ∧ c.askedThen = c.asked

theorem length_le_of_decreasing {l : List ℕ} (h : l.Pairwise fun a b => b < a) {m : ℕ}
    (hm : ∀ a ∈ l, a < m) : l.length ≤ m := by
  induction l generalizing m with
  | nil => exact Nat.zero_le m
  | cons a l ih =>
    obtain ⟨ha, hl⟩ := pairwise_cons.1 h
    have hlength : l.length ≤ a := ih hl ha
    have ham : a < m := hm a mem_cons_self
    rw [length_cons]
    omega

section Ledger

variable {sha256 : List Char → List Char} {started : List Started} {c : Started}

theorem Started.Justified.counts (h : c.Justified sha256) :
    c.goal.continuationCount < c.goal.maxContinuations ∧
      c.noProgressCount < c.goal.maxNoProgressContinuations :=
  of_shouldContinueGoal h.gate

/-- A row of continuations without new evidence is no longer than the count of the newest allows. -/
theorem length_le_of_stalls {rest : List Started}
    (hchain : (c :: rest).IsChain fun newer older =>
      newer.Stalls older → newer.noProgressCount = older.noProgressCount + 1)
    (h : ∀ d ∈ rest, c.Stalls d) : (c :: rest).length ≤ c.noProgressCount + 1 := by
  induction rest generalizing c with
  | nil => exact Nat.succ_le_succ (Nat.zero_le _)
  | cons d rest ih =>
    obtain ⟨hd, hrest⟩ := isChain_cons_cons.1 hchain
    have hcd : c.Stalls d := h d mem_cons_self
    have hlength := ih hrest fun e he => by
      obtain ⟨hrun, hinst, htext⟩ := h e (mem_cons_of_mem d he)
      exact ⟨hrun.trans hcd.1.symm, hinst.trans hcd.2.1.symm, htext.trans hcd.2.2.symm⟩
    have hcount := hd hcd
    rw [length_cons]
    omega

theorem Ledger.same (h : Ledger sha256 started) {d : Started} (hd : d ∈ started) (hc : c ∈ started)
    (hinst : d.goal.inst = c.goal.inst) : d.goal.maxContinuations = c.goal.maxContinuations := by
  let R (a b : Started) : Prop :=
    a.goal.inst = b.goal.inst → a.goal.maxContinuations = b.goal.maxContinuations
  have hR : started.Pairwise R := h.spent.imp fun hafter hab => (hafter hab).2.symm
  have hflip : started.Pairwise (flip R) := h.spent.imp fun hafter hba => (hafter hba.symm).2
  exact hR.forall_of_forall_of_flip (fun _ _ _ => rfl) hflip hd hc hinst

/-- **The bounds.** -/
theorem Ledger.bounded (h : Ledger sha256 started) : Bounded started := by
  constructor
  · intro c hc
    refine ⟨?_, h.capped c hc⟩
    rw [← length_map fun d : Started => d.goal.continuationCount]
    refine length_le_of_decreasing ?_ fun n hn => ?_
    · rw [pairwise_map]
      refine (h.spent.filter _).imp_of_mem fun hnewer holder hafter => ?_
      have hinst := of_decide_eq_true (mem_filter.1 hnewer).2
      exact (hafter (hinst.trans (of_decide_eq_true (mem_filter.1 holder).2).symm)).1
    · obtain ⟨d, hd, rfl⟩ := mem_map.1 hn
      obtain ⟨hmem, hinst⟩ := mem_filter.1 hd
      rw [← h.same hmem hc (of_decide_eq_true hinst)]
      exact (h.justified d hmem).counts.1
  · exact fun c hc => ⟨(h.justified c hc).stored, (h.justified c hc).gate⟩
  · intro c rest hrun hstalls
    have hlength := length_le_of_stalls ( List.IsChain.infix h.stalled hrun) hstalls
    have hcount := (h.justified c (hrun.subset mem_cons_self)).counts.2
    omega

/-- A continuation is added, if the older ones of its goal have smaller counts and the newest one
allows it. -/
theorem Ledger.cons (h : Ledger sha256 started) (hc : c.Justified sha256)
    (hcapped : c.goal.maxContinuations ≤ defaultMaxGoalContinuations)
    (hafter : ∀ older ∈ started, c.After older)
    (hstalled : ∀ older ∈ started.head?, c.Stalls older →
      c.noProgressCount = older.noProgressCount + 1) : Ledger sha256 (c :: started) where
  justified := forall_mem_cons.2 ⟨hc, h.justified⟩
  capped := forall_mem_cons.2 ⟨hcapped, h.capped⟩
  spent := pairwise_cons.2 ⟨hafter, h.spent⟩
  stalled := isChain_cons.2 ⟨hstalled, h.stalled⟩

end Ledger

/-! ### Goals -/

/-- What is known of a goal that is stored. -/
structure Thread.Fits (w : Thread) (goal : GoalState) : Prop where
  known : goal.createdAt ∈ w.known
  capped : goal.maxContinuations ≤ defaultMaxGoalContinuations
  spent : ∀ c ∈ w.started, c.goal.inst = goal.inst →
    c.goal.continuationCount < goal.continuationCount ∧
      c.goal.maxContinuations = goal.maxContinuations

/-- What is known of goals and continuations at any time. -/
structure Thread.Sound (sha256 : List Char → List Char) (w : Thread) : Prop where
  stored : ∀ goal, w.goal? = some goal → w.Fits goal
  changed : ∀ inst ∈ w.changed, inst.2 ∈ w.known
  known : ∀ c ∈ w.started, c.goal.createdAt ∈ w.known
  runs : ∀ c ∈ w.started, c.run ≤ w.runs
  ledger : Ledger sha256 w.started

/-- The goal is the same, or it is gone, or it is the one that a turn has read, or a goal is stored
that was set later. -/
def Thread.Moves (loaded : Option GoalState) (w w' : Thread) : Prop :=
  ∀ goal, w'.goal? = some goal →
    w.goal? = some goal ∨ loaded = some goal ∨ goal.createdAt ∉ w.known

/-- If this goal is stored at all, then as it is here. -/
structure Thread.Pinned (goal : GoalState) (w : Thread) : Prop where
  known : goal.createdAt ∈ w.known
  same : ∀ stored, w.goal? = some stored → stored.inst = goal.inst → stored = goal

/-- What the evaluator may write for a goal, and what the user may. -/
def Thread.Accepts (w : Thread) (new : GoalState) : Prop :=
  new.createdAt ∉ w.known ∧ new.maxContinuations ≤ defaultMaxGoalContinuations ∨
    ∃ goal, w.goal? = some goal ∧ new.inst = goal.inst ∧
      new.maxContinuations = goal.maxContinuations ∧
        goal.continuationCount ≤ new.continuationCount

section Goals

variable {sha256 : List Char → List Char} {w w' w'' : Thread} {goal new : GoalState}
  {loaded : Option GoalState} {cp : Checkpoint} {node : Node} {c : Continuation}

theorem Thread.Moves.of_eq (h : w'.goal? = w.goal?) : w.Moves loaded w' :=
  fun _ hgoal => .inl (h ▸ hgoal)

theorem Thread.Moves.trans (h : w.Moves loaded w') (hknown : w.known ⊆ w'.known)
    (h' : w'.Moves loaded w'') : w.Moves loaded w'' := by
  intro goal hgoal
  obtain hsame | hloaded | hnew := h' goal hgoal
  · exact h goal hsame
  · exact .inr (.inl hloaded)
  · exact .inr (.inr fun hmem => hnew (hknown hmem))

theorem Thread.Pinned.moves (h : w.Pinned goal) (hknown : w.known ⊆ w'.known)
    (hmoves : w.Moves loaded w')
    (hloaded : ∀ stored, loaded = some stored → stored.inst = goal.inst → stored = goal) :
    w'.Pinned goal := by
  refine ⟨hknown h.known, fun stored hstored hinst => ?_⟩
  obtain hsame | hread | hnew := hmoves stored hstored
  · exact h.same stored hsame hinst
  · exact hloaded stored hread hinst
  · have hcreated : stored.createdAt = goal.createdAt := congrArg Prod.snd hinst
    exact absurd (hcreated ▸ h.known) hnew

theorem Thread.Fits.mono (h : w.Fits goal) (hknown : w.known ⊆ w'.known)
    (hstarted : w'.started = w.started) : w'.Fits goal :=
  ⟨hknown h.known, h.capped, hstarted ▸ h.spent⟩

theorem Thread.Sound.pinned (h : w.Sound sha256) (hgoal : w.goal? = some goal) : w.Pinned goal := by
  refine ⟨(h.stored goal hgoal).known, fun stored hstored _ => ?_⟩
  exact some.inj (hstored.symm.trans hgoal)

theorem Thread.Sound.congr (h : w.Sound sha256) (hgoal : ∀ goal, w'.goal? = some goal → w.Fits goal)
    (hknown : w'.known = w.known) (hchanged : w'.changed = w.changed)
    (hstarted : w'.started = w.started) (hruns : w.runs ≤ w'.runs) : w'.Sound sha256 where
  stored goal hstored := (hgoal goal hstored).mono (fun _ hmem => hknown ▸ hmem) hstarted
  changed := hchanged ▸ hknown ▸ h.changed
  known := hstarted ▸ hknown ▸ h.known
  runs := hstarted ▸ fun c hc => (h.runs c hc).trans hruns
  ledger := hstarted ▸ h.ledger

@[simp] theorem Thread.putGoal_messages : (w.putGoal node cp).messages = cp.messages := rfl

theorem Thread.putGoal_evaluating_of_not (h : cp.continues = false) :
    (w.putGoal .goalEvaluator cp).evaluating = none :=
  if_pos ⟨rfl, h⟩

theorem Thread.putGoal_evaluating (h : cp.continues = true) :
    (w.putGoal .goalEvaluator cp).evaluating = w.evaluating :=
  if_neg fun hstop => Bool.false_ne_true (hstop.2.symm.trans h)

theorem Thread.mem_putGoal_known {n : ℕ} :
    n ∈ (w.putGoal node cp).known ↔
      (∃ new, cp.goal = some new ∧ new.createdAt = n) ∨ n ∈ w.known := by
  show n ∈ (cp.goal.map GoalState.createdAt).toList ++ w.known ↔ _
  rw [mem_append, mem_toList, map_eq_some_iff]

theorem Thread.mem_putGoal_changed {inst : List Char × ℕ} :
    inst ∈ (w.putGoal node cp).changed ↔ (∃ goal, w.goal? = some goal ∧ goal.inst = inst ∧
      ∀ new, cp.goal = some new → new.inst ≠ inst) ∨ inst ∈ w.changed := by
  show inst ∈ List.map GoalState.inst _ ++ w.changed ↔ _
  rw [List.mem_append, List.mem_map]
  refine or_congr_left ⟨?_, ?_⟩
  · rintro ⟨goal, hgoal, rfl⟩
    rw [Option.mem_toList, Option.filter_eq_some_iff, Option.all_eq_true] at hgoal
    exact ⟨goal, hgoal.1, rfl, fun new hnew => of_decide_eq_true (hgoal.2 new hnew)⟩
  · rintro ⟨goal, hgoal, rfl, hnew⟩
    refine ⟨goal, ?_, rfl⟩
    rw [Option.mem_toList, Option.filter_eq_some_iff, Option.all_eq_true]
    exact ⟨hgoal, fun new hcp => decide_eq_true (hnew new hcp)⟩

theorem Thread.putGoal_known : w.known ⊆ (w.putGoal node cp).known :=
  fun _ hmem => Thread.mem_putGoal_known.2 (.inr hmem)

/-- **A goal is written.** -/
theorem Thread.Sound.put (h : w.Sound sha256) (hnew : ∀ new, cp.goal = some new → w.Accepts new) :
    (w.putGoal node cp).Sound sha256 where
  stored new hstored := by
    obtain ⟨hfresh, hcapped⟩ | ⟨goal, hgoal, hinst, hmax, hcount⟩ := hnew new hstored
    · refine ⟨?_, hcapped, fun c hc hcinst => ?_⟩
      · exact Thread.mem_putGoal_known.2 (.inl ⟨new, hstored, rfl⟩)
      · have hcreated : c.goal.createdAt = new.createdAt := congrArg Prod.snd hcinst
        exact absurd (hcreated ▸ h.known c hc) hfresh
    · obtain ⟨hknown, hcapped, hspent⟩ := h.stored goal hgoal
      refine ⟨?_, hmax ▸ hcapped, fun c hc hcinst => ?_⟩
      · exact Thread.mem_putGoal_known.2 (.inl ⟨new, hstored, rfl⟩)
      · obtain ⟨hlt, hsame⟩ := hspent c hc (hcinst.trans hinst)
        exact ⟨hlt.trans_le hcount, hsame.trans hmax.symm⟩
  changed inst hinst := by
    obtain ⟨goal, hgoal, rfl, -⟩ | hmem := Thread.mem_putGoal_changed.1 hinst
    · exact Thread.putGoal_known (h.stored goal hgoal).known
    · exact Thread.putGoal_known (h.changed inst hmem)
  known c hc := Thread.putGoal_known (h.known c hc)
  runs := h.runs
  ledger := h.ledger

/-- **A continuation is started.** -/
theorem Thread.Sound.start (h : w.Sound sha256) (hpinned : w.Pinned c.updated)
    (hjust : Started.Justified sha256
      ⟨c, w.runs, w.replaced, w.asked, w.changed.contains c.goal.inst⟩)
    (hcapped : c.goal.maxContinuations ≤ defaultMaxGoalContinuations)
    (hspent : ∀ older ∈ w.started, older.goal.inst = c.goal.inst →
      older.goal.continuationCount < c.goal.continuationCount ∧
        older.goal.maxContinuations = c.goal.maxContinuations)
    (hstalled : ∀ older ∈ w.started.head?, older.run = w.runs → older.goal.inst = c.goal.inst →
      older.text = c.text → c.noProgressCount = older.noProgressCount + 1) :
    (w.start c).Sound sha256 where
  stored goal hgoal := by
    obtain ⟨hknown, hmax, hold⟩ := h.stored goal hgoal
    refine ⟨hknown, hmax, forall_mem_cons.2 ⟨fun hinst => ?_, hold⟩⟩
    obtain ⟨runId, hupdated⟩ := hjust.written
    have hgoalInst : goal.inst = c.updated.inst := hinst.symm.trans (by rw [hupdated]; rfl)
    rw [hpinned.same goal hgoal hgoalInst, hupdated]
    exact ⟨Nat.lt_succ_self _, rfl⟩
  changed := h.changed
  known := by
    obtain ⟨runId, hupdated⟩ := hjust.written
    have hknown : c.updated.createdAt = c.goal.createdAt := by rw [hupdated]; rfl
    exact forall_mem_cons.2 ⟨hknown ▸ hpinned.known, h.known⟩
  runs := forall_mem_cons.2 ⟨Nat.le_refl _, h.runs⟩
  ledger := h.ledger.cons hjust hcapped (fun older holder hinst => hspent older holder hinst.symm)
    fun older holder hstalls => hstalled older holder hstalls.1 hstalls.2.1 hstalls.2.2

end Goals

/-! ### Messages -/

/-- The last visible message with text is of the assistant. -/
def Answered (messages : List Message) : Prop :=
  (messages.filter fun m => m.isVisible && m.stripped ≠ []).getLast?.any fun m => m.role = .ai

/-- A conversation that is being evaluated: it was all that the user had said, or the thread shows
the difference, or the goal is not the stored one anymore. -/
structure Thread.Evaluated (w : Thread) (goal : GoalState) (messages : List Message) (asked : ℕ) :
    Prop where
  known : goal.createdAt ∈ w.known
  answered : Answered messages
  noticed : asked = w.asked ∨
    visibleConversationSignature w.messages ≠ visibleConversationSignature messages ∨
      ∀ stored, w.goal? = some stored → stored.inst ≠ goal.inst

/-- What else is known if nothing slips through. -/
structure Thread.Watchful (w : Thread) : Prop where
  heeds : Heeds w.started
  current : ∀ goal, w.goal? = some goal → goal.inst ∉ w.changed
  evaluating : ∀ goal messages asked, w.evaluating = some (goal, messages, asked) →
    w.Evaluated goal messages asked

/-- A message of the user has text, or it can be seen in the last visible messages. -/
def Thread.notices (w : Thread) (m : Message) : Bool :=
  m.stripped ≠ [] || w.evaluating.all fun e =>
    visibleConversationSignature (w.messages ++ [m]) ≠ visibleConversationSignature e.2.1

section Messages

variable {w w' : Thread} {goal : GoalState} {cp : Checkpoint} {node : Node} {c : Continuation}
  {messages l : List Message} {m : Message}

theorem getLast?_lastOf {α : Type} {n : ℕ} (hn : 0 < n) (l : List α) :
    (lastOf n l).getLast? = l.getLast? := by
  rw [lastOf, getLast?_drop]
  split
  · have hempty : l.length = 0 := by omega
    rw [length_eq_zero_iff.1 hempty, getLast?_nil]
  · rfl

theorem getLast?_filter_of_pos {α : Type} {p : α → Bool} {l : List α} {a : α}
    (h : l.getLast? = some a) (ha : p a = true) : (l.filter p).getLast? = some a := by
  obtain ⟨front, rfl⟩ := getLast?_eq_some_iff.1 h
  rw [filter_append, filter_cons_of_pos ha, filter_nil, getLast?_concat]

/-- **A message of the user with text never goes unnoticed**, whatever was written in between. -/
theorem signature_ne_of_text (h : Answered messages) (hrole : m.role = .human)
    (hvisible : m.isVisible = true) (htext : m.stripped ≠ []) :
    visibleConversationSignature (l ++ [m]) ≠ visibleConversationSignature messages := by
  intro heq
  have hlast := congrArg getLast? heq
  rw [visibleConversationSignature, visibleConversationSignature, getLast?_lastOf (by decide),
    getLast?_lastOf (by decide), filter_append, filter_cons_of_pos hvisible,
    filter_nil, map_append, map_singleton, getLast?_concat,
    getLast?_map] at hlast
  obtain ⟨last, hlast, heq⟩ := map_eq_some_iff.1 hlast.symm
  injection heq with hlastRole hlastText
  have hfilter := getLast?_filter_of_pos (p := fun m => m.stripped ≠ []) hlast
    (decide_eq_true (hlastText ▸ htext))
  have hboth : messages.filter (fun m => m.isVisible && m.stripped ≠ []) =
      (messages.filter Message.isVisible).filter fun m => m.stripped ≠ [] := by
    rw [List.filter_filter]
    simp only [Bool.and_comm]
  rw [Answered, hboth, hfilter, Option.any_some, decide_eq_true_eq, hlastRole, hrole] at h
  cases h

theorem Thread.Watchful.congr (h : w.Watchful) (hgoal : w'.goal? = w.goal?)
    (hmessages : w'.messages = w.messages) (hknown : w'.known = w.known)
    (hchanged : w'.changed = w.changed) (hasked : w'.asked = w.asked)
    (hevaluating : w'.evaluating = w.evaluating) (hstarted : w'.started = w.started) :
    w'.Watchful where
  heeds := hstarted ▸ h.heeds
  current := hgoal ▸ hchanged ▸ h.current
  evaluating goal messages asked he := by
    obtain ⟨hmem, hanswered, hnoticed⟩ := h.evaluating goal messages asked (hevaluating ▸ he)
    exact ⟨hknown ▸ hmem, hanswered, hasked ▸ hmessages ▸ hgoal ▸ hnoticed⟩

theorem Thread.Watchful.append (h : w.Watchful) (hrole : m.role = .human)
    (hvisible : m.isVisible = true) (hm : w.notices m = true) :
    Thread.Watchful { w.write w.goal? (w.messages ++ [m]) false with asked := w.asked + 1 } where
  heeds := h.heeds
  current := h.current
  evaluating goal messages asked he := by
    obtain ⟨hmem, hanswered, -⟩ := h.evaluating goal messages asked he
    refine ⟨hmem, hanswered, .inr (.inl ?_)⟩
    rw [Thread.notices, Bool.or_eq_true, decide_eq_true_eq] at hm
    obtain htext | hdiffers := hm
    · exact signature_ne_of_text hanswered hrole hvisible htext
    · rw [show w.evaluating = some (goal, messages, asked) from he, all_some] at hdiffers
      exact of_decide_eq_true hdiffers

/-- A turn writes, if the goal that it has read is still stored. -/
theorem Thread.Watchful.speak (h : w.Watchful) {loaded : Option GoalState} (hloaded : w.goal? = loaded)
    (messages : List Message) (pendingWrites : Bool) :
    Thread.Watchful { w.write loaded messages pendingWrites with evaluating := none } where
  heeds := h.heeds
  current := hloaded ▸ h.current
  evaluating _ _ _ he := by cases he

/-- **A goal is written.** If the evaluation goes on, the goal was set just now, or conversation and
goal are the stored ones. -/
theorem Thread.Watchful.put (h : w.Watchful) (hcurrent : ∀ new, cp.goal = some new →
      new.inst ∉ w.changed)
    (hput : (w.putGoal node cp).evaluating ≠ none →
      (∀ new, cp.goal = some new → new.createdAt ∉ w.known) ∨
        cp.messages = w.messages ∧
          ∀ new, cp.goal = some new → ∃ old, w.goal? = some old ∧ new.inst = old.inst) :
    (w.putGoal node cp).Watchful where
  heeds := h.heeds
  current new hnew hmem := by
    rw [Thread.mem_putGoal_changed] at hmem
    obtain ⟨_, -, -, hne⟩ | hmem := hmem
    · exact hne new hnew rfl
    · exact hcurrent new hnew hmem
  evaluating goal messages asked he := by
    have hsame : (w.putGoal node cp).evaluating = w.evaluating := by
      rw [Thread.putGoal] at he ⊢
      dsimp only at he ⊢
      split at he
      · cases he
      · rename_i hnot
        rw [if_neg hnot]
    obtain ⟨hmem, hanswered, hnoticed⟩ := h.evaluating goal messages asked (hsame ▸ he)
    refine ⟨Thread.putGoal_known hmem, hanswered, ?_⟩
    obtain hfresh | ⟨hmessages, hinst⟩ := hput (by rw [he]; exact some_ne_none _)
    · refine .inr (.inr fun stored hstored hinst => ?_)
      have hcreated : stored.createdAt = goal.createdAt := congrArg Prod.snd hinst
      exact hfresh stored hstored (hcreated ▸ hmem)
    · refine hnoticed.imp id (Or.imp ?_ fun hgone stored hstored => ?_)
      · rw [Thread.putGoal_messages, hmessages]
        exact id
      · obtain ⟨old, hold, heq⟩ := hinst stored hstored
        exact heq ▸ hgone old hold

theorem Thread.Watchful.read (h : w.Watchful) (hknown : goal.createdAt ∈ w.known)
    (hanswered : Answered messages) : Thread.Watchful (w.read goal messages) where
  heeds := h.heeds
  current := h.current
  evaluating goal messages asked he := by
    cases he
    exact ⟨hknown, hanswered, .inl rfl⟩

/-- **A continuation is started.** -/
theorem Thread.Watchful.start (h : w.Watchful)
    (he : w.evaluating = some (c.goal, c.messages, c.asked))
    (hstored : w.goal? = some c.updated) (hinst : c.updated.inst = c.goal.inst)
    (hsignature : visibleConversationSignature w.messages =
      visibleConversationSignature c.messages) : (w.start c).Watchful where
  heeds := by
    refine forall_mem_cons.2 ⟨⟨?_, ?_⟩, h.heeds⟩
    · have hcurrent := h.current _ hstored
      rw [hinst] at hcurrent
      show w.changed.contains c.goal.inst = false
      rw [contains_eq_mem]
      exact decide_eq_false hcurrent
    · obtain ⟨-, -, hasked | hdiffers | hgone⟩ := h.evaluating _ _ _ he
      · exact hasked.symm
      · exact absurd hsignature hdiffers
      · exact absurd hinst (hgone _ hstored)
  current := h.current
  evaluating goal messages asked he := by
    obtain ⟨hmem, hanswered, hnoticed⟩ := h.evaluating goal messages asked he
    exact ⟨hmem, hanswered, hnoticed⟩

end Messages

end AfterFlow.Goals
