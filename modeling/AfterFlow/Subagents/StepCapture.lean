import Mathlib.Data.List.Induction
import Mathlib.Data.List.Nodup

/-!
# The captured steps of a subagent

A subagent streams the whole list of its messages again with every chunk. The cursor says how many
of them have been looked at: behind it everything is new, and when nothing is behind it the last
message is looked at again. A compaction makes the list shorter, and then the cursor goes back.

What keeps this right is that a shorter list holds nothing new, so the cursor is always the length
of the last list, and whatever is before it has been looked at already.

## Main results

* `steps_captured_once` — every step once, in the order of appearance
-/

namespace AfterFlow.Subagents.Steps

open List

inductive MessageType where
  | human
  | ai
  | tool
  | system
  deriving DecidableEq

/-- A message as `model_dump` has it. The content is whatever there is beside the type and the id. -/
structure BaseMessage (C : Type) where
  type : MessageType
  id : Option String
  content : C
  deriving DecidableEq

variable {C : Type} [DecidableEq C]

/-- `isinstance(message, (AIMessage, ToolMessage))`. -/
def BaseMessage.isStep (m : BaseMessage C) : Bool := m.type = .ai || m.type = .tool

/-- The id, if it is not empty. -/
def BaseMessage.messageId (m : BaseMessage C) : Option String := m.id.filter (· ≠ "")

structure Capture (C : Type) where
  captured : List (BaseMessage C)
  seenIds : List String

/-- `capture_step_message`, and whether the message was appended. -/
def captureStepMessage (m : BaseMessage C) (c : Capture C) : Capture C × Bool :=
  if m.isStep then
    match m.messageId with
    | some id =>
      if id ∈ c.seenIds then (c, false) else (⟨c.captured ++ [m], c.seenIds ++ [id]⟩, true)
    | none => if m ∈ c.captured then (c, false) else (⟨c.captured ++ [m], c.seenIds⟩, true)
  else (c, false)

/-- `capture_new_step_messages`, and the new cursor. -/
def captureNewStepMessages (messages : List (BaseMessage C)) (c : Capture C) (processedCount : ℕ) :
    Capture C × ℕ :=
  let total := messages.length
  let processedCount := if total < processedCount then total else processedCount
  if processedCount < total then
    ((messages.drop processedCount).foldl (fun c m => (captureStepMessage m c).1) c, total)
  else
    match messages.getLast? with
    | some m => ((captureStepMessage m c).1, max processedCount total)
    | none => (c, max processedCount total)

/-- The snapshots of a run, one after the other. -/
def captureAll (snapshots : List (List (BaseMessage C))) : Capture C × ℕ :=
  snapshots.foldl (fun s messages => captureNewStepMessages messages s.1 s.2) (⟨[], []⟩, 0)

/-! ### What the stream may show -/

/-- A list after another: with more messages, the same, or a shorter one of messages that were seen
before. -/
def Follows (seen prev next : List (BaseMessage C)) : Prop :=
  prev <+: next ∨ next.length < prev.length ∧ next ⊆ seen

/-- Every list of the stream follows the one before it. -/
def Streamed (seen prev : List (BaseMessage C)) : List (List (BaseMessage C)) → Prop
  | [] => True
  | next :: rest => Follows seen prev next ∧ Streamed (seen ++ next) next rest

/-- Two messages with one id are one message. -/
def DistinctIds (messages : List (BaseMessage C)) : Prop :=
  ∀ m ∈ messages, ∀ n ∈ messages, m.messageId ≠ none → m.messageId = n.messageId → m = n

instance (messages : List (BaseMessage C)) : Decidable (DistinctIds messages) :=
  inferInstanceAs (Decidable (∀ m ∈ messages, _))

/-- The steps among the messages, each at its first appearance. -/
def firstSteps (messages : List (BaseMessage C)) : List (BaseMessage C) :=
  (messages.filter BaseMessage.isStep).eraseDups

variable {c : Capture C} {seen prev next : List (BaseMessage C)} {m : BaseMessage C}

theorem mem_firstSteps : m ∈ firstSteps seen ↔ m ∈ seen ∧ m.isStep = true := by
  rw [firstSteps, mem_eraseDups, mem_filter]

theorem firstSteps_concat (seen : List (BaseMessage C)) (m : BaseMessage C) :
    firstSteps (seen ++ [m]) =
      if m.isStep = true ∧ m ∉ seen then firstSteps seen ++ [m] else firstSteps seen := by
  rw [firstSteps, filter_append, eraseDups_append, ← firstSteps]
  by_cases hstep : m.isStep = true <;> by_cases hmem : m ∈ seen <;>
    simp [List.removeAll, hstep, hmem, eraseDups_cons]

theorem nodup_firstSteps (seen : List (BaseMessage C)) : (firstSteps seen).Nodup := by
  induction seen using List.reverseRecOn with
  | nil => exact nodup_nil
  | append_singleton seen m ih =>
    rw [firstSteps_concat]
    split
    · rename_i hnew
      exact ih.append (nodup_singleton m) (by simp [mem_firstSteps, hnew.2])
    · exact ih

theorem firstSteps_of_subset (h : next ⊆ seen) : firstSteps (seen ++ next) = firstSteps seen := by
  induction next using List.reverseRecOn with
  | nil => rw [append_nil]
  | append_singleton next m ih =>
    obtain ⟨hnext, hm⟩ := append_subset.1 h
    rw [← append_assoc, firstSteps_concat, if_neg, ih hnext]
    exact fun hnew => hnew.2 (mem_append_left _ (hm mem_cons_self))

/-! ### What is captured -/

/-- The messages that were seen have been looked at. -/
structure Looked (seen : List (BaseMessage C)) (c : Capture C) : Prop where
  captured : c.captured = firstSteps seen
  seenIds : ∀ id, id ∈ c.seenIds ↔ ∃ m ∈ c.captured, m.messageId = some id

theorem captureStepMessage_looked (h : Looked seen c) (hids : DistinctIds (seen ++ [m])) :
    Looked (seen ++ [m]) (captureStepMessage m c).1 := by
  have hcaptured : m.isStep = true → (m ∈ c.captured ↔ m ∈ seen) := fun hstep => by
    rw [h.captured, mem_firstSteps, and_iff_left hstep]
  by_cases hstep : m.isStep = true
  · rw [captureStepMessage, if_pos hstep]
    split
    · rename_i id hid
      -- the id was seen with this very message
      have hseen : id ∈ c.seenIds ↔ m ∈ seen := by
        rw [h.seenIds]
        constructor
        · rintro ⟨n, hn, hnid⟩
          rw [h.captured, mem_firstSteps] at hn
          rw [hids m (by simp) n (mem_append_left _ hn.1) (by simp [hid]) (by rw [hid, hnid])]
          exact hn.1
        · exact fun hmem => ⟨m, (hcaptured hstep).2 hmem, hid⟩
      split
      · rename_i hold
        exact ⟨by rw [h.captured, firstSteps_concat, if_neg (by simp [hseen.1 hold])], h.seenIds⟩
      · rename_i hnew
        refine ⟨?_, fun i => ?_⟩
        · rw [firstSteps_concat, if_pos ⟨hstep, fun hmem => hnew (hseen.2 hmem)⟩, h.captured]
        · simp [h.seenIds, or_and_right, exists_or, hid, eq_comm]
    · rename_i hid
      split
      · rename_i hold
        have hmem := (hcaptured hstep).1 hold
        exact ⟨by rw [h.captured, firstSteps_concat, if_neg (by simp [hmem])], h.seenIds⟩
      · rename_i hnew
        have hmem : m ∉ seen := fun hmem => hnew ((hcaptured hstep).2 hmem)
        refine ⟨by rw [firstSteps_concat, if_pos ⟨hstep, hmem⟩, h.captured], fun i => ?_⟩
        simp [h.seenIds, or_and_right, exists_or, hid]
  · rw [captureStepMessage, if_neg hstep]
    exact ⟨by rw [h.captured, firstSteps_concat, if_neg (by simp [hstep])], h.seenIds⟩

theorem Looked.again (h : Looked seen c) (hids : DistinctIds seen) (hm : m ∈ seen) :
    Looked seen (captureStepMessage m c).1 := by
  have hids' : DistinctIds (seen ++ [m]) := by
    have hmem : ∀ n, n ∈ seen ++ [m] → n ∈ seen := fun n hn => by
      rcases mem_append.1 hn with hn | hn
      · exact hn
      · rwa [mem_singleton.1 hn]
    exact fun n hn k hk => hids n (hmem n hn) k (hmem k hk)
  obtain ⟨hcaptured, hseenIds⟩ := captureStepMessage_looked h hids'
  exact ⟨by rw [hcaptured, firstSteps_of_subset (by simpa using hm)], hseenIds⟩

theorem Looked.foldl (messages : List (BaseMessage C)) (h : Looked seen c)
    (hids : DistinctIds (seen ++ messages)) :
    Looked (seen ++ messages) (messages.foldl (fun c m => (captureStepMessage m c).1) c) := by
  induction messages generalizing seen c with
  | nil => rwa [append_nil]
  | cons m messages ih =>
    rw [append_cons] at hids ⊢
    refine ih (captureStepMessage_looked h ?_) hids
    exact fun n hn k hk => hids n (mem_append_left _ hn) k (mem_append_left _ hk)

theorem captureNewStepMessages_of_lt {processedCount : ℕ} (h : processedCount < next.length) :
    captureNewStepMessages next c processedCount =
      ((next.drop processedCount).foldl (fun c m => (captureStepMessage m c).1) c, next.length) := by
  simp [captureNewStepMessages, h, Nat.not_lt_of_lt h]

theorem captureNewStepMessages_of_le {processedCount : ℕ} (h : next.length ≤ processedCount) :
    captureNewStepMessages next c processedCount =
      (next.getLast?.elim c fun m => (captureStepMessage m c).1, next.length) := by
  have hcursor : (if next.length < processedCount then next.length else processedCount) =
      next.length := by
    split <;> omega
  simp only [captureNewStepMessages, hcursor, Nat.lt_irrefl, if_false, Nat.max_self]
  cases next.getLast? <;> rfl

/-- What is behind the cursor is captured, and nothing before it is captured again. -/
theorem Looked.snapshot (h : Looked seen c) (hids : DistinctIds (seen ++ next)) (hprev : prev ⊆ seen)
    (hnext : Follows seen prev next) :
    (captureNewStepMessages next c prev.length).2 = next.length ∧
      Looked (seen ++ next) (captureNewStepMessages next c prev.length).1 := by
  by_cases hle : next.length ≤ prev.length
  · rw [captureNewStepMessages_of_le hle]
    refine ⟨rfl, ?_⟩
    -- nothing is behind the cursor, and all that the list has was seen
    have hmem : next ⊆ seen := by
      rcases hnext with hprefix | ⟨-, hmem⟩
      · rwa [← hprefix.eq_of_length_le hle]
      · exact hmem
    have hlast : Looked seen (next.getLast?.elim c fun m => (captureStepMessage m c).1) := by
      cases hget : next.getLast? with
      | none => exact h
      | some m =>
        refine h.again (fun n hn k hk => ?_) (hmem (mem_of_getLast? hget))
        exact hids n (mem_append_left _ hn) k (mem_append_left _ hk)
    exact ⟨by rw [firstSteps_of_subset hmem, hlast.captured], hlast.seenIds⟩
  · have hlt := Nat.lt_of_not_le hle
    rw [captureNewStepMessages_of_lt hlt]
    refine ⟨rfl, ?_⟩
    obtain ⟨new, rfl⟩ : prev <+: next := hnext.resolve_right fun hshort => by omega
    -- the messages before the cursor are of the list before
    rw [drop_left]
    rw [← append_assoc] at hids
    have hseen : Looked (seen ++ prev) c :=
      ⟨by rw [firstSteps_of_subset hprev, h.captured], h.seenIds⟩
    rw [← append_assoc]
    exact hseen.foldl new hids

/-- **The cursor is the length of the last list, and everything was looked at.** -/
theorem Looked.stream (snapshots : List (List (BaseMessage C))) (h : Looked seen c)
    (hids : DistinctIds (seen ++ snapshots.flatten)) (hprev : prev ⊆ seen)
    (hstream : Streamed seen prev snapshots) :
    Looked (seen ++ snapshots.flatten)
      (snapshots.foldl (fun s messages => captureNewStepMessages messages s.1 s.2)
        (c, prev.length)).1 := by
  induction snapshots generalizing seen prev c with
  | nil => simpa using h
  | cons next rest ih =>
    rw [flatten_cons, ← append_assoc] at hids ⊢
    have hids' : DistinctIds (seen ++ next) := fun n hn k hk =>
      hids n (mem_append_left _ hn) k (mem_append_left _ hk)
    obtain ⟨hcursor, hlooked⟩ := h.snapshot hids' hprev hstream.1
    rw [foldl_cons, ← Prod.eta (captureNewStepMessages _ _ _), hcursor]
    exact ih hlooked hids (subset_append_right _ _) hstream.2

/-- **Every step is captured once, in the order of first appearance, and nothing else is.** -/
theorem steps_captured_once (snapshots : List (List (BaseMessage C)))
    (hstream : Streamed [] [] snapshots) (hids : DistinctIds snapshots.flatten) :
    (captureAll snapshots).1.captured = firstSteps snapshots.flatten ∧
      (captureAll snapshots).1.captured.Nodup := by
  have hempty : Looked ([] : List (BaseMessage C)) ⟨[], []⟩ := ⟨rfl, fun id => by simp⟩
  have hlooked := hempty.stream snapshots (by simpa using hids) (List.Subset.refl _) hstream
  have hcaptured : (captureAll snapshots).1.captured = firstSteps snapshots.flatten := by
    simpa [captureAll] using hlooked.captured
  exact ⟨hcaptured, hcaptured ▸ nodup_firstSteps _⟩

/-- Two tools at once, and a compaction. -/
def demoSnapshots : List (List (BaseMessage ℕ)) :=
  let ask := ⟨.human, some "h", 0⟩
  let call := ⟨.ai, some "a", 1⟩
  [[ask], [ask, call, ⟨.tool, none, 2⟩, ⟨.tool, none, 3⟩], [call], [call, ⟨.tool, none, 4⟩]]

theorem demo_steps_captured_once :
    (captureAll demoSnapshots).1.captured =
      [⟨.ai, some "a", 1⟩, ⟨.tool, none, 2⟩, ⟨.tool, none, 3⟩, ⟨.tool, none, 4⟩] := by
  have hstream : Streamed [] [] demoSnapshots :=
    ⟨.inl (by decide), .inl (by decide), .inr (by decide), .inl (by decide), trivial⟩
  exact (steps_captured_once demoSnapshots hstream (by decide)).1

end AfterFlow.Subagents.Steps
