import AfterFlow.Agents.Compaction

/-!
# Edits of a thread's checkpoints

A goal is written, a thread is compacted or renamed by a call that reads the latest checkpoint,
changes a copy and puts it as a new one. A run reads once and puts what it has in memory from then
on. Which checkpoint is the latest is decided by the ids, which a call makes before it puts.

Goal writes, compactions and the creation of runs take turns by the lock of the thread, and a
compaction refuses while a run is in flight. Renames take no lock, and a run's puts take none
either, so a copy may be put in the place of a checkpoint that it does not know. It loses no message
where the messages that were read are still those of the latest checkpoint.

## History

`World.seen`, `summarised`, `given`, `goalWrites` and `updates` are proof-only.

## Main results

* `Stage.Told.frame` — what a call knows outlives what the others do
* `checkpoint_edits_kept` — the invariant of the runs
* `answer_lost` — a rename that loses a message
-/

namespace AfterFlow.Threads.CheckpointEdits

open Agents.DynamicContext Transition
open Agents (Summarizer prepareCompaction prepareCompaction_perm)

/-! ### Checkpoints -/

/-- `GoalState`, as far as the writes look at it. -/
structure Goal where
  objective : String
  status : String
  createdAt : String
  updatedAt : String
  continuationCount : ℕ
  noProgressCount : ℕ
  lastEvaluation : Option String
  deriving DecidableEq

/-- What the evaluator says of a goal that is not met. -/
structure Evaluation where
  continuationCount : Option ℕ
  noProgressCount : Option ℕ
  text : String
  now : String
  deriving DecidableEq

/-- `attach_goal_evaluation`. -/
def attachGoalEvaluation (goal : Goal) (evaluation : Evaluation) : Goal :=
  { goal with
    continuationCount := evaluation.continuationCount.getD goal.continuationCount
    noProgressCount := evaluation.noProgressCount.getD goal.noProgressCount
    updatedAt := evaluation.now
    lastEvaluation := some evaluation.text }

/-- `_goal_instance_matches`. -/
def goalInstanceMatches (left right : Goal) : Bool :=
  left.status = "active" && right.status = "active" && left.objective = right.objective &&
    left.createdAt = right.createdAt

/-- A checkpoint; the ids are made in order. -/
structure Checkpoint where
  id : ℕ
  messages : List Message
  summaryText : Option String
  goal : Option Goal
  /-- The other channels, such as the title. -/
  others : String → Option Json

/-- `empty_checkpoint`. -/
def emptyCheckpoint (id : ℕ) : Checkpoint := ⟨id, [], none, none, fun _ => none⟩

/-- The checkpoint with the greater id. -/
def newer (best : Option Checkpoint) (c : Checkpoint) : Option Checkpoint :=
  if best.any fun b => c.id < b.id then best else some c

def messagesOf (c : Option Checkpoint) : List Message := (c.map Checkpoint.messages).getD []

def idsOf (messages : List Message) : List String := messages.map Message.id

/-! ### Calls -/

inductive Call where
  | setThreadGoal (goal : Goal)
  | clearThreadGoal
  /-- `_persist_goal_evaluation` of the goal that was evaluated, or its removal where it is met. -/
  | evaluateGoal (goal : Goal) (evaluation : Option Evaluation)
  | compactThread (force : Bool)
  | updateThreadState (values : List (String × Json))
  | run

/-- What a put is for. `since` is how many goals had been written when an evaluator read the
goal. -/
inductive Purpose where
  | goal (since : Option ℕ)
  | compaction (messagesToSummarize : List Message)
  | values

inductive Stage where
  | called
  /-- The call has the lock. -/
  | locked
  /-- No run is in flight. -/
  | checked
  | creating (c : Checkpoint)
  /-- The thread has a checkpoint. -/
  | ensured
  /-- The goal is still the one that was evaluated. -/
  | matched (expectedCheckpointId : ℕ) (goal : Option Goal) (since : ℕ)
  /-- The model is to summarise. -/
  | asked (c : Checkpoint) (messagesToSummarize preservedMessages : List Message)
  /-- The copy is about to be put. -/
  | writing (read : List Message) (c : Checkpoint) (purpose : Purpose)
  /-- A run that has not read the thread. -/
  | started
  | running (c : Checkpoint)
  | appending (c : Checkpoint)
  | done (ok : Bool)

structure World (I : Type) where
  checkpoints : List Checkpoint
  /-- The next id. -/
  ids : ℕ
  /-- Who holds `goal_thread_lock`. -/
  lock : Option I
  inflight : Option I
  stage : I → Stage
  /-- The ids of the messages that have been in the latest checkpoint. -/
  seen : List String
  /-- The ids of the messages that compactions have summarised. -/
  summarised : List String
  /-- The ids that messages have had. -/
  given : List String
  /-- How many goals have been written. -/
  goalWrites : ℕ
  /-- How many goals had been written when an evaluator read and when it wrote. -/
  updates : List (ℕ × ℕ)

inductive Act (I : Type) where
  | acquire (i : I)
  /-- `has_inflight`, and the creation of a run. -/
  | check (i : I)
  /-- `ensure_thread_checkpoint`. -/
  | ensure (i : I)
  | read (i : I)
  /-- The model has summarised, or failed to. -/
  | answer (i : I) (summary : Option String)
  /-- A step of the graph gives its messages to the reducer. -/
  | advance (i : I) (updates : List Message)
  | put (i : I)
  | finish (i : I)
  /-- What the call awaits raises. -/
  | fail (i : I)

section Steps

variable {I : Type} [DecidableEq I] (s : Summarizer) (calls : I → Call)

def World.latest (w : World I) : Option Checkpoint := w.checkpoints.foldl newer none

/-- The messages of the thread. -/
def World.messages (w : World I) : List Message := messagesOf w.latest

def World.goTo (w : World I) (i : I) (stage : Stage) : World I :=
  { w with stage := Function.update w.stage i stage }

/-- The call is over, and leaves the lock. -/
def World.close (w : World I) (i : I) (ok : Bool) : World I :=
  { w with
    lock := if w.lock = some i then none else w.lock
    inflight := if w.inflight = some i then none else w.inflight }.goTo i (.done ok)

/-- The call is about to put a copy of the latest checkpoint, with a new id. -/
def World.prepare (w : World I) (i : I) (read : List Message) (c : Checkpoint) (purpose : Purpose) :
    World I :=
  { w with ids := w.ids + 1 }.goTo i (.writing read { c with id := w.ids } purpose)

/-- `aput`. -/
def World.store (w : World I) (c : Checkpoint) : World I :=
  let w' := { w with checkpoints := w.checkpoints ++ [c] }
  { w' with seen := w.seen ++ idsOf w'.messages }

/-- What the history keeps of a put. -/
def World.note (w : World I) : Purpose → World I
  | .goal since =>
    { w with
      goalWrites := w.goalWrites + 1
      updates := w.updates ++ (since.map fun n => (n, w.goalWrites)).toList }
  | .compaction messagesToSummarize =>
    { w with summarised := w.summarised ++ idsOf messagesToSummarize }
  | .values => w

/-- `write_thread_goal` on the latest checkpoint. -/
def World.writeGoal (w : World I) (i : I) (goal : Option Goal)
    (expectedCheckpointId since : Option ℕ) :
    World I :=
  match w.latest with
  | none => w.close i false
  | some c =>
    if expectedCheckpointId.any fun id => c.id ≠ id then w.close i false
    else w.prepare i c.messages { c with goal } (.goal since)

/-- What a call makes of the latest checkpoint. -/
@[grind =] def World.onRead (w : World I) (i : I) : Option (World I) :=
  match calls i, w.stage i with
  | .setThreadGoal goal, .ensured => some (w.writeGoal i (some goal) none none)
  | .clearThreadGoal, .locked => some (w.writeGoal i none none none)
  | .evaluateGoal goal evaluation, .locked =>
    match w.latest with
    | none => some (w.close i false)
    | some c =>
      match c.goal.filter (goalInstanceMatches goal) with
      | none => some (w.close i false)
      | some currentGoal => some (w.goTo i
          (.matched c.id (evaluation.map (attachGoalEvaluation currentGoal)) w.goalWrites))
  | .evaluateGoal _ _, .matched expectedCheckpointId goal since =>
    some (w.writeGoal i goal (some expectedCheckpointId) (some since))
  | .compactThread force, .checked =>
    match w.latest with
    | none => some (w.close i false)
    | some c =>
      match prepareCompaction s force c.messages c.summaryText with
      | none => some (w.close i true)
      | some parts => some (w.goTo i (.asked c parts.1 parts.2))
  | .updateThreadState values, .called =>
    match w.latest with
    | none => some (w.close i false)
    | some c => some (w.prepare i c.messages
        { c with others := fun name => (values.lookup name).or (c.others name) } .values)
  | .run, .started => some (w.goTo i (.running (w.latest.getD (emptyCheckpoint 0))))
  | _, _ => none

/-- One act of a call, if it is the call's turn to do it. -/
@[grind =] def step (w : World I) : Act I → Option (World I)
  | .acquire i =>
    match calls i, w.stage i, w.lock with
    | .updateThreadState _, _, _ => none
    | _, .called, none => some ({ w with lock := some i }.goTo i .locked)
    | _, _, _ => none
  | .check i =>
    match calls i, w.stage i with
    | .compactThread _, .locked =>
      if w.inflight.isSome then some (w.close i false) else some (w.goTo i .checked)
    | .run, .locked =>
      if w.inflight.isSome then some (w.close i false)
      else some ({ w with lock := none, inflight := some i }.goTo i .started)
    | _, _ => none
  | .ensure i =>
    match calls i, w.stage i with
    | .setThreadGoal _, .locked =>
      if w.latest.isSome then some (w.goTo i .ensured)
      else some ({ w with ids := w.ids + 1 }.goTo i (.creating (emptyCheckpoint w.ids)))
    | _, _ => none
  | .read i => w.onRead s calls i
  | .answer i summary =>
    match w.stage i with
    | .asked c messagesToSummarize preservedMessages =>
      match summary with
      | none => some (w.close i true)
      | some text => some (w.prepare i c.messages
          { c with messages := preservedMessages, summaryText := some text }
          (.compaction messagesToSummarize))
    | _ => none
  | .advance i updates =>
    match w.stage i with
    | .running c =>
      -- the ids of new messages are new
      if ∀ m ∈ updates, m.id ∈ idsOf c.messages ∨ m.id ∉ w.given then
        some ({ w with ids := w.ids + 1, given := w.given ++ idsOf updates }.goTo i
          (.appending { c with id := w.ids, messages := addMessages c.messages updates }))
      else none
    | _ => none
  | .put i =>
    match w.stage i with
    | .creating c => some ((w.store c).goTo i .ensured)
    | .writing _ c purpose => some (((w.store c).note purpose).close i true)
    | .appending c => some ((w.store c).goTo i (.running c))
    | _ => none
  | .finish i =>
    match w.stage i with
    | .running _ => some (w.close i true)
    | _ => none
  | .fail i =>
    match w.stage i with
    | .done _ => none
    | _ => some (w.close i false)

/-- The messages that were read are still those of the thread, and no later checkpoint is there. -/
structure World.Fits (w : World I) (read : List Message) (c : Checkpoint) : Prop where
  messages : w.messages = read
  id : ∀ b ∈ w.latest, b.id < c.id

/-- The checkpoint that a call other than a run puts, and the messages that it was made of. -/
def World.puts (w : World I) : Act I → Option (List Message × Checkpoint)
  | .put i =>
    match w.stage i with
    | .creating c => some ([], c)
    | .writing read c _ => some (read, c)
    | _ => none
  | _ => none

/-- No call but a run puts a checkpoint that is made of other messages than the latest. -/
def Orderly (w : World I) (a : Act I) : Prop := ∀ p ∈ w.puts a, w.Fits p.1 p.2

/-- No call has begun. -/
structure World.Begins (w : World I) : Prop where
  distinct : (idsOf w.messages).Nodup
  lock : w.lock = none
  inflight : w.inflight = none
  called : ∀ i, w.stage i = .called
  seen : w.seen = idsOf w.messages
  summarised : w.summarised = []
  given : ∀ id ∈ idsOf w.messages, id ∈ w.given
  updates : w.updates = []

/-- No message is lost. -/
structure World.Kept (w : World I) : Prop where
  /-- A message that was in the latest checkpoint is there, or a compaction has summarised it. -/
  seen : ∀ id ∈ w.seen, id ∈ idsOf w.messages ∨ id ∈ w.summarised
  /-- No message is summarised twice. -/
  once : w.summarised.Nodup
  /-- Between the read and the put of an evaluator no goal is written. -/
  goals : ∀ u ∈ w.updates, u.1 = u.2

/-! ### The reducer and the store -/

variable {s calls} {w w' : World I} {i j : I} {c : Checkpoint}
  {read messages updates : List Message}
  {purpose : Purpose} {stage : Stage} {id : String}

theorem idsOf_addMessage (messages : List Message) (m : Message) :
    idsOf (addMessage messages m) =
      if m.id ∈ idsOf messages then idsOf messages else idsOf messages ++ [m.id] := by
  by_cases hm : m.id ∈ idsOf messages
  · have hm' : m.id ∈ messages.map Message.id := hm
    rw [if_pos hm, addMessage, if_pos hm', idsOf, List.map_map]
    refine List.map_congr_left fun x _ => ?_
    rw [Function.comp_apply]
    split
    · exact Eq.symm ‹_›
    · rfl
  · rw [if_neg hm, addMessage_fresh hm, idsOf, List.map_append]
    rfl

/-- The reducer keeps the ids that are there and adds those that are given to it. -/
theorem idsOf_addMessages (messages updates : List Message) :
    (∀ id, id ∈ idsOf (addMessages messages updates) ↔ id ∈ idsOf messages ∨ id ∈ idsOf updates) ∧
      ((idsOf messages).Nodup → (idsOf (addMessages messages updates)).Nodup) := by
  induction updates generalizing messages with
  | nil => exact ⟨fun id => by simp [addMessages, idsOf], fun h => h⟩
  | cons m updates ih =>
    have hone : ∀ id, id ∈ idsOf (addMessage messages m) ↔ id ∈ idsOf messages ∨ id = m.id := by
      intro id
      rw [idsOf_addMessage]
      split
      · exact ⟨.inl, fun h => h.elim (fun h => h) fun h => h ▸ ‹_›⟩
      · rw [List.mem_append, List.mem_singleton]
    refine ⟨fun id => ?_, fun h => (ih (addMessage messages m)).2 ?_⟩
    · show id ∈ idsOf (addMessages (addMessage messages m) updates) ↔ _
      rw [(ih (addMessage messages m)).1, hone, idsOf, idsOf, idsOf, List.map_cons, List.mem_cons,
        or_assoc]
    · rw [idsOf_addMessage]
      split
      · exact h
      · exact List.nodup_append.mpr ⟨h, List.nodup_singleton _, fun a ha b hb hab =>
          ‹m.id ∉ idsOf messages› (List.mem_singleton.mp hb ▸ hab ▸ ha)⟩

section

omit [DecidableEq I]

theorem World.latest_store : (w.store c).latest = newer w.latest c := by
  simp [World.latest, World.store]

theorem World.messages_store :
    (w.store c).messages = c.messages ∨ (w.store c).messages = w.messages := by
  rw [World.messages, World.latest_store, newer]
  split
  · exact .inr rfl
  · exact .inl rfl

theorem World.Fits.messages_store (h : w.Fits read c) : (w.store c).messages = c.messages := by
  have hnot : ¬ (w.latest.any fun b => c.id < b.id) = true := by
    rw [Option.any_eq_true]
    rintro ⟨b, hb, hlt⟩
    exact absurd (h.id b hb) (Nat.not_lt.mpr (of_decide_eq_true hlt).le)
  rw [World.messages, World.latest_store, newer, if_neg hnot]
  rfl

end

/-! ### What each step keeps -/

/-- What a run has in memory: every message of the thread, none that was summarised. -/
structure World.Covers (w : World I) (messages : List Message) : Prop where
  thread : ∀ id ∈ idsOf w.messages, id ∈ idsOf messages
  distinct : (idsOf messages).Nodup
  apart : ∀ id ∈ w.summarised, id ∉ idsOf messages
  given : ∀ id ∈ idsOf messages, id ∈ w.given

/-- What a call knows. -/
def Stage.Told (w : World I) (i : I) : Stage → Prop
  | .called | .done _ => True
  | .locked | .ensured => w.lock = some i
  | .checked => w.lock = some i ∧ w.inflight = none
  | .creating c => w.lock = some i ∧ c.messages = []
  | .matched _ _ since => w.lock = some i ∧ since = w.goalWrites
  | .asked c messagesToSummarize preservedMessages =>
    (w.lock = some i ∧ w.inflight = none) ∧
      (messagesToSummarize ++ preservedMessages).Perm c.messages
  | .writing read c (.goal since) =>
    (w.lock = some i ∧ ∀ n ∈ since, n = w.goalWrites) ∧ c.messages = read
  | .writing read c (.compaction messagesToSummarize) =>
    (w.lock = some i ∧ w.inflight = none) ∧ (messagesToSummarize ++ c.messages).Perm read
  | .writing read c .values => c.messages = read
  | .started => w.inflight = some i
  | .running c | .appending c => w.inflight = some i ∧ w.Covers c.messages

/-- The invariant. -/
structure World.Told (w : World I) : Prop where
  stages : ∀ i, (w.stage i).Told w i
  distinct : (idsOf w.messages).Nodup
  apart : ∀ id ∈ w.summarised, id ∉ idsOf w.messages
  given : ∀ id, id ∈ idsOf w.messages ∨ id ∈ w.summarised → id ∈ w.given
  kept : w.Kept

omit [DecidableEq I] in
/-- **What a call knows outlives what the others do**, since they change nothing that its lock or
its place in flight stands for. -/
theorem Stage.Told.frame (h : stage.Told w j) (hlock : w.lock = some j → w'.lock = some j)
    (hinflight : w.inflight = some j → w'.inflight = some j)
    (hquiet : w.lock = some j → w.inflight = none → w'.inflight = none)
    (hgoals : w.lock = some j → w'.goalWrites = w.goalWrites)
    (hcovers : ∀ messages, w.inflight = some j → w.Covers messages → w'.Covers messages) :
    stage.Told w' j := by
  cases stage with
  | locked | ensured => exact hlock h
  | checked => exact ⟨hlock h.1, hquiet h.1 h.2⟩
  | creating c => exact ⟨hlock h.1, h.2⟩
  | matched _ _ since => exact ⟨hlock h.1, h.2.trans (hgoals h.1).symm⟩
  | asked c a p => exact ⟨⟨hlock h.1.1, hquiet h.1.1 h.1.2⟩, h.2⟩
  | writing read c purpose =>
    cases purpose with
    | goal since => exact ⟨⟨hlock h.1.1, fun n hn => (h.1.2 n hn).trans (hgoals h.1.1).symm⟩, h.2⟩
    | compaction a => exact ⟨⟨hlock h.1.1, hquiet h.1.1 h.1.2⟩, h.2⟩
    | values => exact h
  | started => exact hinflight h
  | running | appending => exact ⟨hinflight h.1, hcovers _ h.1 h.2⟩
  | _ => trivial

/-! #### The world after an act -/

theorem World.close_lock (hj : j ≠ i) (ok : Bool) (h : w.lock = some j) :
    (w.close i ok).lock = some j := by
  show (if w.lock = some i then none else w.lock) = some j
  rw [h, if_neg fun hij => hj (Option.some.inj hij)]

theorem World.close_inflight (hj : j ≠ i) (ok : Bool) (h : w.inflight = some j) :
    (w.close i ok).inflight = some j := by
  show (if w.inflight = some i then none else w.inflight) = some j
  rw [h, if_neg fun hij => hj (Option.some.inj hij)]

theorem World.close_quiet (ok : Bool) (h : w.inflight = none) : (w.close i ok).inflight = none := by
  show (if w.inflight = some i then none else w.inflight) = none
  rw [h]
  rfl

omit [DecidableEq I] in
theorem World.Covers.of_eq (h : w.Covers messages) (hmessages : w'.messages = w.messages)
    (hsummarised : w'.summarised = w.summarised) (hgiven : ∀ id ∈ w.given, id ∈ w'.given) :
    w'.Covers messages where
  thread := hmessages ▸ h.thread
  distinct := h.distinct
  apart := hsummarised ▸ h.apart
  given id hid := hgiven id (h.given id hid)

/-- The call goes on in the world that it leaves, where the others know what they knew. -/
theorem World.Told.moves (h : w.Told) (stage : Stage)
    (hstage : w'.stage = Function.update w.stage i stage) (hself : stage.Told w' i)
    (hothers : ∀ j ≠ i, ∀ st : Stage, st.Told w j → st.Told w' j)
    (hmessages : w'.messages = w.messages) (hsummarised : w'.summarised = w.summarised)
    (hgiven : ∀ id ∈ w.given, id ∈ w'.given) (hkept : w'.Kept) : w'.Told where
  stages j := by
    rw [hstage]
    by_cases hj : j = i
    · subst hj
      rwa [Function.update_self]
    · rw [Function.update_of_ne hj]
      exact hothers j hj _ (h.stages j)
  distinct := hmessages ▸ h.distinct
  apart := hmessages ▸ hsummarised ▸ h.apart
  given id hid := hgiven id (h.given id (hmessages ▸ hsummarised ▸ hid))
  kept := hkept

theorem World.Told.goTo (h : w.Told) (hself : stage.Told w i) : (w.goTo i stage).Told := by
  have hframe : ∀ (j : I) (st : Stage), st.Told w j → st.Told (w.goTo i stage) j := fun _ _ hst =>
    hst.frame (fun h => h) (fun h => h) (fun _ h => h) (fun _ => rfl) fun _ _ h =>
      h.of_eq rfl rfl fun _ h => h
  exact h.moves _ rfl (hframe i stage hself) (fun j _ st => hframe j st) rfl rfl (fun _ h => h)
    ⟨h.kept.seen, h.kept.once, h.kept.goals⟩

theorem World.Told.close (h : w.Told) (ok : Bool) : (w.close i ok).Told := by
  refine h.moves (.done ok) rfl trivial (fun j hj st hst => ?_) rfl rfl (fun _ h => h)
    ⟨h.kept.seen, h.kept.once, h.kept.goals⟩
  exact hst.frame (World.close_lock hj ok) (World.close_inflight hj ok)
    (fun _ => World.close_quiet ok) (fun _ => rfl) fun _ _ h => h.of_eq rfl rfl fun _ h => h

omit [DecidableEq I] in
theorem World.Told.nextId (h : w.Told) : World.Told { w with ids := w.ids + 1 } where
  stages j := (h.stages j).frame (fun h => h) (fun h => h) (fun _ h => h) (fun _ => rfl)
    fun _ _ h => h.of_eq rfl rfl fun _ h => h
  distinct := h.distinct
  apart := h.apart
  given := h.given
  kept := ⟨h.kept.seen, h.kept.once, h.kept.goals⟩

theorem World.Told.prepare (h : w.Told)
    (hself : (Stage.writing read { c with id := w.ids } purpose).Told w i) :
    (w.prepare i read c purpose).Told :=
  h.nextId.goTo (hself.frame (fun h => h) (fun h => h) (fun _ h => h) (fun _ => rfl)
    fun _ _ h => h.of_eq rfl rfl fun _ h => h)

theorem World.Told.advance (h : w.Told) (htold : w.inflight = some i ∧ w.Covers c.messages)
    (hfresh : ∀ m ∈ updates, m.id ∈ idsOf c.messages ∨ m.id ∉ w.given) :
    ({ w with ids := w.ids + 1, given := w.given ++ idsOf updates }.goTo i
      (.appending { c with id := w.ids, messages := addMessages c.messages updates })).Told := by
  obtain ⟨hmem, hdistinct⟩ := idsOf_addMessages c.messages updates
  have hkeep : ∀ id ∈ w.given, id ∈ w.given ++ idsOf updates := fun id hid =>
    List.mem_append_left _ hid
  refine h.moves _ rfl ⟨htold.1, fun id hid => ?_, hdistinct htold.2.distinct, fun id hid => ?_,
    fun id hid => ?_⟩ (fun j _ st hst => ?_) rfl rfl hkeep ⟨h.kept.seen, h.kept.once, h.kept.goals⟩
  · exact (hmem id).mpr (.inl (htold.2.thread id hid))
  · intro hadded
    rcases (hmem id).mp hadded with hin | hin
    · exact htold.2.apart id hid hin
    · obtain ⟨m, hm, rfl⟩ := List.mem_map.mp hin
      rcases hfresh m hm with hin | hnew
      · exact htold.2.apart _ hid hin
      · exact hnew (h.given _ (.inr hid))
  · rcases (hmem id).mp hid with hin | hin
    · exact hkeep id (htold.2.given id hin)
    · exact List.mem_append_right _ hin
  · exact hst.frame (fun h => h) (fun h => h) (fun _ h => h) (fun _ => rfl) fun _ _ h =>
      h.of_eq rfl rfl hkeep

theorem World.Told.writeGoal {goal : Option Goal} {expected since : Option ℕ} (h : w.Told)
    (hlock : w.lock = some i) (hsince : ∀ n ∈ since, n = w.goalWrites) :
    (w.writeGoal i goal expected since).Told := by
  rw [World.writeGoal]
  split
  · exact h.close false
  · split
    · exact h.close false
    · exact h.prepare ⟨⟨hlock, hsince⟩, rfl⟩

omit [DecidableEq I] in
theorem World.Told.covers (h : w.Told) : w.Covers w.messages where
  thread _ hid := hid
  distinct := h.distinct
  apart := h.apart
  given id hid := h.given id (.inl hid)

/-- A call reads the latest checkpoint. -/
theorem World.Told.onRead (h : w.Told) (hread : w.onRead s calls i = some w') : w'.Told := by
  have htold := h.stages i
  rw [World.onRead] at hread
  split at hread
  · rename_i hstage
    rw [hstage] at htold
    cases hread
    exact h.writeGoal htold fun n hn => by cases hn
  · rename_i hstage
    rw [hstage] at htold
    cases hread
    exact h.writeGoal htold fun n hn => by cases hn
  · rename_i hstage
    rw [hstage] at htold
    split at hread
    · cases hread
      exact h.close false
    · split at hread <;> cases hread
      · exact h.close false
      · exact h.goTo ⟨htold, rfl⟩
  · rename_i hstage
    rw [hstage] at htold
    cases hread
    refine h.writeGoal htold.1 fun n hn => ?_
    rw [← Option.some.inj hn]
    exact htold.2
  · rename_i hstage
    rw [hstage] at htold
    split at hread
    · cases hread
      exact h.close false
    · split at hread <;> cases hread
      · exact h.close true
      · exact h.goTo ⟨htold, prepareCompaction_perm ‹_›⟩
  · split at hread <;> cases hread
    · exact h.close false
    · exact h.prepare rfl
  · rename_i hstage
    rw [hstage] at htold
    cases hread
    have hloaded : (w.latest.getD (emptyCheckpoint 0)).messages = w.messages := by
      rw [World.messages]
      cases w.latest <;> rfl
    exact h.goTo ⟨htold, hloaded.symm ▸ h.covers⟩
  · cases hread

/-! #### Puts -/

section

omit [DecidableEq I]

theorem World.Told.store (h : w.Told) (hsame : (w.store c).messages = w.messages) :
    (w.store c).Told where
  stages j := (h.stages j).frame (fun h => h) (fun h => h) (fun _ h => h) (fun _ => rfl)
    fun _ _ hcovers => hcovers.of_eq hsame rfl fun _ h => h
  distinct := hsame ▸ h.distinct
  apart := hsame ▸ h.apart
  given := hsame ▸ h.given
  kept := by
    refine ⟨fun id hid => ?_, h.kept.once, h.kept.goals⟩
    rw [hsame]
    rcases List.mem_append.mp hid with hid | hid
    · exact h.kept.seen id hid
    · exact .inl (hsame ▸ hid)

theorem World.Told.append (h : w.Told) (hstage : w.stage i = .appending c) : (w.store c).Told := by
  have htold := h.stages i
  rw [hstage] at htold
  rcases World.messages_store (w := w) (c := c) with hnew | hsame
  · refine ⟨fun j => ?_, ?_, ?_, fun id hid => ?_, fun id hid => ?_, h.kept.once, h.kept.goals⟩
    · by_cases hj : j = i
      · subst hj
        show (w.stage j).Told (w.store c) j
        rw [hstage]
        exact ⟨htold.1, fun id hid => hnew ▸ hid, htold.2.distinct, htold.2.apart, htold.2.given⟩
      · refine (h.stages j).frame (fun h => h) (fun h => h) (fun _ h => h) (fun _ => rfl) ?_
        intro _ hinflight _
        exact absurd (Option.some.inj (hinflight.symm.trans htold.1)) hj
    · exact hnew ▸ htold.2.distinct
    · exact hnew ▸ htold.2.apart
    · rcases hid with hid | hid
      · exact htold.2.given id (hnew ▸ hid)
      · exact h.given id (.inr hid)
    · rw [hnew]
      rcases List.mem_append.mp hid with hid | hid
      · exact (h.kept.seen id hid).imp_left (htold.2.thread id)
      · exact .inl (hnew ▸ hid)
  · exact h.store hsame

end

theorem World.Told.noteGoal {since : Option ℕ} (h : w.Told) (hlock : w.lock = some i)
    (hsince : ∀ n ∈ since, n = w.goalWrites) : ((w.note (.goal since)).close i true).Told := by
  refine h.moves (.done true) rfl trivial (fun j hj st hst => ?_) rfl rfl (fun _ h => h)
    ⟨h.kept.seen, h.kept.once, fun u hu => ?_⟩
  · refine hst.frame (World.close_lock hj true) (World.close_inflight hj true)
      (fun _ => World.close_quiet true) (fun hj' => ?_) fun _ _ h => h.of_eq rfl rfl fun _ h => h
    exact absurd (Option.some.inj (hj'.symm.trans hlock)) hj
  · rcases List.mem_append.mp hu with hu | hu
    · exact h.kept.goals u hu
    · obtain ⟨n, hn, rfl⟩ := Option.map_eq_some_iff.mp (Option.mem_toList.mp hu)
      exact hsince n hn

/-- A compaction is put in the place of the checkpoint that it has read. -/
theorem World.Told.compact {a : List Message} (h : w.Told) (hquiet : w.inflight = none)
    (hperm : (a ++ c.messages).Perm read) (hfits : w.Fits read c) :
    (((w.store c).note (.compaction a)).close i true).Told := by
  have hnew : (((w.store c).note (.compaction a)).close i true).messages = c.messages :=
    hfits.messages_store
  have hids : (idsOf a ++ idsOf c.messages).Perm (idsOf w.messages) := by
    rw [hfits.messages, idsOf, idsOf, ← List.map_append]
    exact hperm.map _
  obtain ⟨hdistinct, hdistinct', hdisjoint⟩ :=
    List.nodup_append.mp (hids.nodup_iff.mpr h.distinct)
  have hold : ∀ id, id ∈ idsOf a ∨ id ∈ idsOf c.messages ↔ id ∈ idsOf w.messages := fun id => by
    rw [← hids.mem_iff, List.mem_append]
  refine ⟨fun j => ?_, hnew ▸ hdistinct', fun id hid => ?_, fun id hid => ?_, fun id hid => ?_, ?_,
    h.kept.goals⟩
  · by_cases hj : j = i
    · subst hj
      have hself : (((w.store c).note (.compaction a)).close j true).stage j = .done true :=
        Function.update_self ..
      rw [hself]
      trivial
    · have hother : (((w.store c).note (.compaction a)).close i true).stage j = w.stage j :=
        Function.update_of_ne hj ..
      rw [hother]
      refine (h.stages j).frame (World.close_lock hj true) (World.close_inflight hj true)
        (fun _ => World.close_quiet true) (fun _ => rfl) fun _ hinflight => ?_
      rw [hquiet] at hinflight
      cases hinflight
  · rw [hnew]
    rcases List.mem_append.mp hid with hid | hid
    · exact fun hc => h.apart id hid ((hold id).mp (.inr hc))
    · exact fun hc => hdisjoint id hid id hc rfl
  · rw [hnew] at hid
    rcases hid with hid | hid
    · exact h.given id (.inl ((hold id).mp (.inr hid)))
    · rcases List.mem_append.mp hid with hid | hid
      · exact h.given id (.inr hid)
      · exact h.given id (.inl ((hold id).mp (.inl hid)))
  · rw [hnew]
    rcases List.mem_append.mp hid with hid | hid
    · rcases h.kept.seen id hid with hid | hid
      · exact ((hold id).mpr hid).elim (fun ha => .inr (List.mem_append_right _ ha)) .inl
      · exact .inr (List.mem_append_left _ hid)
    · exact .inl (hnew ▸ hid)
  · refine List.nodup_append.mpr ⟨h.kept.once, hdistinct, fun x hx y hy hxy => ?_⟩
    exact h.apart x hx ((hold x).mp (.inl (hxy ▸ hy)))

/-! #### Steps -/

/-- A call takes the free lock. -/
theorem World.Told.acquire (h : w.Told)
    (hstep : step s calls w (.acquire i) = some w') : w'.Told := by
  simp only [CheckpointEdits.step] at hstep
  split at hstep
  · cases hstep
  · rename_i hlock hnot
    cases hstep
    refine h.moves .locked rfl rfl (fun j hj st hst => ?_) rfl rfl (fun _ h => h)
      ⟨h.kept.seen, h.kept.once, h.kept.goals⟩
    refine hst.frame (fun hj' => ?_) (fun h => h) (fun _ h => h) (fun _ => rfl) fun _ _ h =>
      h.of_eq rfl rfl fun _ h => h
    rw [hlock] at hj'
    cases hj'
  · cases hstep

/-- A call asks for a run in flight. -/
theorem World.Told.check (h : w.Told)
    (hstep : step s calls w (.check i) = some w') : w'.Told := by
  have htold := h.stages i
  simp only [CheckpointEdits.step] at hstep
  split at hstep
  · rename_i hstage
    rw [hstage] at htold
    split at hstep <;> cases hstep
    · exact h.close false
    · exact h.goTo ⟨htold, Option.not_isSome_iff_eq_none.mp ‹_›⟩
  · rename_i hstage
    rw [hstage] at htold
    split at hstep <;> cases hstep
    · exact h.close false
    · have hquiet := Option.not_isSome_iff_eq_none.mp ‹¬ w.inflight.isSome = true›
      refine h.moves .started rfl rfl (fun j hj st hst => ?_) rfl rfl (fun _ h => h)
        ⟨h.kept.seen, h.kept.once, h.kept.goals⟩
      have hnot : w.lock ≠ some j := fun hj' => hj (Option.some.inj (hj'.symm.trans htold))
      refine hst.frame (fun hj' => absurd hj' hnot) (fun hj' => ?_) (fun hj' => absurd hj' hnot)
        (fun _ => rfl) fun _ _ h => h.of_eq rfl rfl fun _ h => h
      rw [hquiet] at hj'
      cases hj'
  · cases hstep

/-- A checkpoint is put in the place of the one that it was read from. -/
theorem World.Told.put (h : w.Told) (horderly : Orderly w (.put i))
    (hstep : step s calls w (.put i) = some w') : w'.Told := by
  have htold := h.stages i
  simp only [CheckpointEdits.step] at hstep
  split at hstep
  · rename_i c hstage
    rw [hstage] at htold
    cases hstep
    have hfits : w.Fits [] c := horderly ([], c) (by simp [World.puts, hstage])
    have hsame : (w.store c).messages = w.messages := by
      rw [hfits.messages_store, hfits.messages, htold.2]
    exact (h.store hsame).goTo htold.1
  · rename_i read c purpose hstage
    rw [hstage] at htold
    cases hstep
    have hfits : w.Fits read c := horderly (read, c) (by simp [World.puts, hstage])
    cases purpose with
    | goal since =>
      have hsame : (w.store c).messages = w.messages := by
        rw [hfits.messages_store, hfits.messages, htold.2]
      exact (h.store hsame).noteGoal htold.1.1 htold.1.2
    | compaction messagesToSummarize => exact h.compact htold.1.2 htold.2 hfits
    | values =>
      have hsame : (w.store c).messages = w.messages := by
        rw [hfits.messages_store, hfits.messages]
        exact htold
      exact (h.store hsame).close true
  · rename_i c hstage
    cases hstep
    have happend := h.append hstage
    have hmine := happend.stages i
    change (w.stage i).Told (w.store c) i at hmine
    rw [hstage] at hmine
    exact happend.goTo hmine
  · cases hstep

/-- **Every act keeps the invariant.** -/
theorem World.Told.step {a : Act I} (h : w.Told) (horderly : Orderly w a)
    (hstep : step s calls w a = some w') : w'.Told := by
  cases a with
  | acquire i => exact h.acquire hstep
  | check i => exact h.check hstep
  | ensure i =>
    have htold := h.stages i
    simp only [CheckpointEdits.step] at hstep
    split at hstep
    · rename_i hstage
      rw [hstage] at htold
      split at hstep <;> cases hstep
      · exact h.goTo htold
      · exact h.nextId.goTo ⟨htold, rfl⟩
    · cases hstep
  | read i => exact h.onRead hstep
  | answer i summary =>
    have htold := h.stages i
    simp only [CheckpointEdits.step] at hstep
    split at hstep
    · rename_i hstage
      rw [hstage] at htold
      split at hstep <;> cases hstep
      · exact h.close true
      · exact h.prepare htold
    · cases hstep
  | advance i updates =>
    have htold := h.stages i
    simp only [CheckpointEdits.step] at hstep
    split at hstep
    · rename_i hstage
      rw [hstage] at htold
      split at hstep <;> cases hstep
      rename_i hfresh
      exact h.advance htold hfresh
    · cases hstep
  | put i => exact h.put horderly hstep
  | finish i =>
    simp only [CheckpointEdits.step] at hstep
    split at hstep <;> cases hstep
    exact h.close true
  | fail i =>
    simp only [CheckpointEdits.step] at hstep
    split at hstep <;> cases hstep
    exact h.close false

omit [DecidableEq I] in
theorem World.Begins.told (h : w.Begins) : w.Told where
  stages i := by
    rw [h.called i]
    trivial
  distinct := h.distinct
  apart id hid := by
    rw [h.summarised] at hid
    cases hid
  given id hid := by
    rw [h.summarised] at hid
    exact hid.elim (h.given id) fun hid => by cases hid
  kept := by
    refine ⟨fun id hid => .inl (h.seen ▸ hid), ?_, fun u hu => ?_⟩
    · rw [h.summarised]
      exact List.nodup_nil
    · rw [h.updates] at hu
      cases hu

/-- **No message is lost**, where no call but a run puts a checkpoint that is made of other messages
than the latest. -/
theorem checkpoint_edits_kept {s : Summarizer} {calls : I → Call} {w₀ w : World I}
    (hbegins : w₀.Begins) (hrun : Runs (step s calls) Orderly w₀ w) : w.Kept :=
  (hrun.invariant hbegins.told fun _ _ _ h horderly hstep => h.step horderly hstep).kept

/-! ### A message that is lost -/

instance (w : World I) (read : List Message) (c : Checkpoint) : Decidable (w.Fits read c) :=
  decidable_of_iff (w.messages = read ∧ ∀ b ∈ w.latest, b.id < c.id)
    ⟨fun h => ⟨h.1, h.2⟩, fun h => ⟨h.messages, h.id⟩⟩

instance (w : World I) (a : Act I) : Decidable (Orderly w a) :=
  inferInstanceAs (Decidable (∀ p ∈ w.puts a, _))

end Steps

inductive DemoCaller where
  | run
  | rename
  | compact
  deriving DecidableEq

/-- All but the last message are summarised. -/
def demoSummarizer : Summarizer where
  shouldSummarize _ _ := true
  determineCutoffIndex messages := messages.length - 1

def demoCalls : DemoCaller → Call
  | .run => .run
  | .rename => .updateThreadState [("title", .str "Tea")]
  | .compact => .compactThread true

def demoMessage (id : String) : Message := ⟨id, .other, none, .text [], ⟨false, false, none, []⟩⟩

/-- A thread with a question. -/
def demoWorld : World DemoCaller where
  checkpoints := [{ emptyCheckpoint 0 with messages := [demoMessage "question"] }]
  ids := 1
  lock := none
  inflight := none
  stage _ := .called
  seen := ["question"]
  summarised := []
  given := ["question"]
  goalWrites := 0
  updates := []

theorem demoWorld_begins : demoWorld.Begins where
  distinct := by decide
  lock := rfl
  inflight := rfl
  called _ := rfl
  seen := rfl
  summarised := rfl
  given := by decide
  updates := rfl

/-- The thread is renamed, answered and compacted, one after the other. -/
theorem checkpoint_edits_kept_demo : ∃ w : World DemoCaller,
    runWith (step demoSummarizer demoCalls) Orderly demoWorld
      [.read .rename, .put .rename, .acquire .run, .check .run, .read .run,
        .advance .run [demoMessage "answer"], .put .run, .finish .run, .acquire .compact,
        .check .compact, .read .compact, .answer .compact (some "tea"), .put .compact] = some w ∧
      w.Kept := by
  obtain ⟨w, hw⟩ : ∃ w, runWith (step demoSummarizer demoCalls) Orderly demoWorld
      [.read .rename, .put .rename, .acquire .run, .check .run, .read .run,
        .advance .run [demoMessage "answer"], .put .run, .finish .run, .acquire .compact,
        .check .compact, .read .compact, .answer .compact (some "tea"), .put .compact] = some w :=
    Option.isSome_iff_exists.mp (by decide +kernel)
  exact ⟨w, hw, checkpoint_edits_kept demoWorld_begins (runs_of_runWith hw)⟩

/-- **An answer is lost** when the thread is renamed while the run puts it. -/
theorem answer_lost : ¬∀ w : World DemoCaller,
    Runs (step demoSummarizer demoCalls) (fun _ _ => True) demoWorld w → w.Kept := by
  intro h
  have hlast : ((runWith (step demoSummarizer demoCalls) (fun _ _ => True) demoWorld
      [.acquire .run, .check .run, .read .run, .advance .run [demoMessage "answer"], .read .rename,
        .put .run, .put .rename]).any fun w =>
      "answer" ∈ w.seen ∧ "answer" ∉ idsOf w.messages ∧ "answer" ∉ w.summarised) = true := by
    decide +kernel
  obtain ⟨w, hw, hend⟩ := (Option.any_eq_true _ _).mp hlast
  obtain ⟨hseen, hgone, hnot⟩ := of_decide_eq_true hend
  exact ((h w (runs_of_runWith hw)).seen _ hseen).elim hgone hnot

end AfterFlow.Threads.CheckpointEdits
