import AfterFlow.Words

/-!
# Goals

A thread may have a goal, which an evaluator judges after each turn of the agent. A goal that is not
met is pursued in hidden turns, the continuations: only so many for one goal, and only as long as
the visible conversation advances.

The times at which goals are updated and evaluated are left out. Of a message there are its type,
whether it is hidden from the user, and its text.
-/

namespace AfterFlow.Goals

inductive Blocker where
  | none
  | missingEvidence
  | needsUserInput
  | runFailed
  | externalWait
  | goalNotMetYet
  deriving DecidableEq

structure GoalEvaluation where
  satisfied : Bool
  blocker : Blocker
  reason : List Char
  evidenceSummary : List Char
  deriving DecidableEq

/-- `compute_goal_progress_key`. -/
structure ProgressKey where
  satisfied : Bool
  blocker : Blocker
  evidenceSignature : List Char
  deriving DecidableEq

/-- Why no continuation follows. -/
inductive StandDown where
  | blocked (blocker : Blocker)
  | maxContinuationsReached
  | noProgressDetected
  | noDurableEndOfTurn
  | threadChangedAfterEvaluation
  | threadChangedBeforeContinuation
  deriving DecidableEq

structure LastEvaluation where
  evaluation : GoalEvaluation
  runId : List Char
  progressKey : ProgressKey
  standDown : Option StandDown
  deriving DecidableEq

/-- A goal. Its status is always active. -/
structure GoalState where
  objective : List Char
  createdAt : ℕ
  continuationCount : ℕ
  maxContinuations : ℕ
  noProgressCount : ℕ
  maxNoProgressContinuations : ℕ
  lastEvaluation : Option LastEvaluation
  deriving DecidableEq

def defaultMaxGoalContinuations : ℕ := 8

def defaultMaxNoProgressContinuations : ℕ := 2

def maxGoalObjectiveChars : ℕ := 4000

inductive GoalError where
  /-- "Goal objective must not be empty." -/
  | emptyObjective
  /-- "Goal objective must be at most 4000 characters." -/
  | longObjective
  deriving DecidableEq

/-- `normalize_goal_objective`. -/
def normalizeGoalObjective (objective : List Char) : Except GoalError (List Char) :=
  let normalized := PyStr.joinWords (PyStr.words objective)
  if normalized = [] then .error .emptyObjective
  else if maxGoalObjectiveChars < normalized.length then .error .longObjective
  else .ok normalized

/-- `build_goal_state`, with the default for continuations without progress. -/
def buildGoalState (objective : List Char) (maxContinuations now : ℕ) :
    Except GoalError GoalState := do
  let objective ← normalizeGoalObjective objective
  return {
    objective := objective
    createdAt := now
    continuationCount := 0
    maxContinuations := min maxContinuations defaultMaxGoalContinuations
    noProgressCount := 0
    maxNoProgressContinuations := defaultMaxNoProgressContinuations
    lastEvaluation := none }

/-! ### Messages -/

inductive Role where
  | human
  | ai
  | other
  deriving DecidableEq

structure Message where
  role : Role
  hidden : Bool
  text : List Char
  deriving DecidableEq

def Message.stripped (m : Message) : List Char := PyStr.stripList PyStr.isSpace m.text

/-- `_is_visible_message`. -/
def Message.isVisible (m : Message) : Bool := !m.hidden && m.role != .other

def maxGoalConversationMessages : ℕ := 30

/-- `l[-n:]`. -/
def lastOf {α : Type} (n : ℕ) (l : List α) : List α := l.drop (l.length - n)

/-- `visible_conversation_signature`: roles and texts of the last visible messages. -/
def visibleConversationSignature (messages : List Message) : List (Role × List Char) :=
  lastOf maxGoalConversationMessages
    ((messages.filter Message.isVisible).map fun m => (m.role, m.stripped))

/-- The text of the latest visible assistant message that has one. -/
def latestVisibleAssistantText (messages : List Message) : Option (List Char) :=
  (messages.reverse.filter fun m => m.isVisible && m.role = .ai).findSome? fun m =>
    if m.stripped = [] then none else some m.stripped

/-- `latest_visible_assistant_signature`, with the hash of a text. -/
def latestVisibleAssistantSignature (sha256 : List Char → List Char) (messages : List Message) :
    List Char :=
  (latestVisibleAssistantText messages).elim [] sha256

/-- `has_visible_assistant_evidence`. -/
def hasVisibleAssistantEvidence (messages : List Message) : Bool :=
  messages.any fun m => m.isVisible && m.role = .ai && m.stripped ≠ []

/-- Whether `format_visible_conversation` gives a text that is not empty. -/
def hasVisibleConversation (messages : List Message) : Bool :=
  (lastOf maxGoalConversationMessages (messages.filter Message.isVisible)).any fun m =>
    m.stripped ≠ []

/-! ### Gates and counters -/

/-- `should_continue_goal`. -/
def shouldContinueGoal (goal : GoalState) (evaluation : GoalEvaluation)
    (noProgressCount : Option ℕ) : Bool :=
  if evaluation.satisfied then false
  else if evaluation.blocker ≠ .goalNotMetYet then false
  else if goal.maxContinuations ≤ goal.continuationCount then false
  else noProgressCount.getD goal.noProgressCount < goal.maxNoProgressContinuations

/-- `_stand_down_reason`. -/
def standDownReason (goal : GoalState) (evaluation : GoalEvaluation) (noProgressCount : ℕ) :
    Option StandDown :=
  if evaluation.satisfied then none
  else if evaluation.blocker ≠ .goalNotMetYet then some (.blocked evaluation.blocker)
  else if goal.maxContinuations ≤ goal.continuationCount then some .maxContinuationsReached
  else if goal.maxNoProgressContinuations ≤ noProgressCount then some .noProgressDetected
  else none

def computeGoalProgressKey (evaluation : GoalEvaluation) (evidenceSignature : List Char) :
    ProgressKey :=
  ⟨evaluation.satisfied, evaluation.blocker, evidenceSignature⟩

/-- `compute_no_progress_count`. -/
def computeNoProgressCount (goal : GoalState) (evaluation : GoalEvaluation)
    (evidenceSignature : List Char) : ℕ :=
  if evaluation.satisfied then 0
  else if goal.lastEvaluation.any fun previous =>
      previous.progressKey = computeGoalProgressKey evaluation evidenceSignature then
    goal.noProgressCount + 1
  else 0

/-- `attach_goal_evaluation`. -/
def attachGoalEvaluation (goal : GoalState) (evaluation : GoalEvaluation) (runId : List Char)
    (continuationCount noProgressCount : Option ℕ) (standDown : Option StandDown)
    (evidenceSignature : List Char) : GoalState :=
  { goal with
    continuationCount := continuationCount.getD goal.continuationCount
    noProgressCount := noProgressCount.getD goal.noProgressCount
    lastEvaluation := some {
      evaluation := evaluation
      runId := runId
      progressKey := computeGoalProgressKey evaluation evidenceSignature
      standDown := standDown } }

/-- What tells goals of a thread apart: the objective, and when it was set. -/
def GoalState.inst (goal : GoalState) : List Char × ℕ := (goal.objective, goal.createdAt)

/-- `_goal_instance_matches`. -/
def goalInstanceMatches (left right : Option GoalState) : Bool :=
  match left, right with
  | some left, some right => left.inst = right.inst
  | _, _ => false

variable {goal : GoalState} {evaluation : GoalEvaluation} {n : ℕ} {objective : List Char}

/-- **The two gates agree.** -/
theorem shouldContinueGoal_iff : shouldContinueGoal goal evaluation (some n) = true ↔
    evaluation.satisfied = false ∧ standDownReason goal evaluation n = none := by
  rw [shouldContinueGoal, standDownReason, Option.getD_some]
  cases evaluation.satisfied with
  | true => simp
  | false =>
    simp only [Bool.false_eq_true, ↓reduceIte, true_and]
    split
    · simp
    · split
      · simp
      · simp

theorem of_shouldContinueGoal (h : shouldContinueGoal goal evaluation (some n) = true) :
    goal.continuationCount < goal.maxContinuations ∧ n < goal.maxNoProgressContinuations := by
  rw [shouldContinueGoal, Option.getD_some] at h
  split at h
  · cases h
  · split at h
    · cases h
    · split at h
      · cases h
      · rename_i hcount
        exact ⟨Nat.lt_of_not_le hcount, of_decide_eq_true h⟩

theorem blocker_of_shouldContinueGoal (h : shouldContinueGoal goal evaluation (some n) = true) :
    evaluation.satisfied = false ∧ evaluation.blocker = .goalNotMetYet := by
  obtain ⟨hnot, hreason⟩ := shouldContinueGoal_iff.1 h
  refine ⟨hnot, ?_⟩
  rw [standDownReason, hnot, if_neg Bool.false_ne_true] at hreason
  by_contra hblocker
  rw [if_pos hblocker] at hreason
  cases hreason

/-- **Progress is counted** from the evaluation before: the same evidence once more adds one. -/
theorem computeNoProgressCount_attach {runId evidence : List Char} {count m : Option ℕ}
    {later : GoalEvaluation} (h : later.satisfied = false ∧ later.blocker = .goalNotMetYet)
    (hbefore : evaluation.satisfied = false ∧ evaluation.blocker = .goalNotMetYet) :
    computeNoProgressCount (attachGoalEvaluation goal evaluation runId count m none evidence) later
      evidence = m.getD goal.noProgressCount + 1 := by
  have hkey : computeGoalProgressKey evaluation evidence =
      computeGoalProgressKey later evidence := by
    rw [computeGoalProgressKey, computeGoalProgressKey, h.1, h.2, hbefore.1, hbefore.2]
  rw [computeNoProgressCount, h.1, if_neg Bool.false_ne_true]
  exact if_pos (decide_eq_true hkey)

theorem buildGoalState_ok {max now : ℕ} (h : buildGoalState objective max now = .ok goal) :
    goal.createdAt = now ∧ goal.continuationCount = 0 ∧ goal.lastEvaluation = none ∧
      goal.maxContinuations ≤ defaultMaxGoalContinuations := by
  rw [buildGoalState] at h
  cases hnormal : normalizeGoalObjective objective with
  | error e =>
    rw [hnormal] at h
    cases h
  | ok normalized =>
    rw [hnormal] at h
    cases h
    exact ⟨rfl, rfl, rfl, Nat.min_le_right _ _⟩

end AfterFlow.Goals
