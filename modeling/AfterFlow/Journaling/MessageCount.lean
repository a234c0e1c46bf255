import AfterFlow.Journaling.Callbacks

/-!
# The message count

Every callback that puts a message event into the buffer also counts the message, with one
exception: when `on_llm_end` comes again for a run id, the messages of its response are put again,
and not counted. So the count is the number of message events as long as a repeated `on_llm_end`
brings no messages, and only then does it add no event.

## Main results

* `message_count_iff` — exact iff a repeated `on_llm_end` brings no messages
-/

namespace AfterFlow.Journaling

open Events RunJournal List Option

/-! ### Events -/

section

variable {ε : Type} (n : ℕ) (loop : Bool) (s : Journal ε)

@[simp] theorem recorded_flushSync : (s.flushSync loop).recorded = s.recorded := by
  rw [Journal.flushSync]
  split <;> rfl

@[simp] theorem recorded_put (event : ε) :
    (s.put n loop event).recorded = s.recorded ++ [event] := by
  rw [Journal.put]
  split
  · rw [recorded_flushSync]
    rfl
  · rfl

theorem recorded_flushLoop : (s.flushLoop n).recorded = s.recorded := by
  rw [Journal.flushLoop]
  split <;> rfl

variable {n s} {s' : Journal ε} {ok : Bool}

theorem recorded_taskStep (h : s.taskStep ok = some s') : s'.recorded = s.recorded := by
  obtain ⟨t, -, hstage⟩ := bind_eq_some_iff.1 h
  split at hstage
  · obtain rfl := some.inj hstage
    rfl
  · split at hstage
    · obtain rfl := some.inj hstage
      rfl
    · obtain rfl := some.inj hstage
      rfl
  · obtain rfl := some.inj hstage
    rfl
  · obtain rfl := some.inj hstage
    rfl

theorem recorded_flushStep (h : s.flushStep n ok = some s') : s'.recorded = s.recorded := by
  rw [Journal.flushStep] at h
  split at h
  · split at h
    · cases h
    · obtain rfl := some.inj h
      rfl
  · obtain rfl := some.inj h
    exact recorded_flushLoop n s
  · split at h
    · obtain rfl := some.inj h
      rfl
    · obtain rfl := some.inj h
      rfl
  · obtain rfl := some.inj h
    exact recorded_flushLoop n s
  · cases h

/-- **Only callbacks record.** -/
theorem recorded_step {l : JournalLabel ε} (hput : ∀ event loop, l ≠ .put event loop)
    (h : Events.step n s l = some s') : s'.recorded = s.recorded := by
  cases l with
  | put event loop => exact absurd rfl (hput event loop)
  | flushSync loop =>
    obtain rfl := some.inj h
    exact recorded_flushSync loop s
  | task ok => exact recorded_taskStep h
  | flush =>
    rw [Events.step] at h
    split at h
    · cases h
    · obtain rfl := some.inj h
      rfl
  | flushStep ok => exact recorded_flushStep h

end

/-! ### In step -/

/-- The number of messages that are counted and the number of message events have grown by the
same, and the same run ids are known as before. -/
structure InStep (s s' : RunJournal) : Prop where
  grown : s'.messageEvents + s.messageCount = s.messageEvents + s'.messageCount
  known : s'.countedMessageLlmRunIds = s.countedMessageLlmRunIds

section

variable {cfg : Config} {loop : Bool} {s s' s'' : RunJournal}

theorem InStep.refl : InStep s s := ⟨rfl, rfl⟩

theorem InStep.trans (h : InStep s s') (h' : InStep s' s'') : InStep s s'' := by
  obtain ⟨hgrown, hknown⟩ := h
  obtain ⟨hgrown', hknown'⟩ := h'
  exact ⟨by omega, hknown'.trans hknown⟩

theorem InStep.foldl {α : Type} {f : RunJournal → α → RunJournal}
    (hf : ∀ s a, InStep s (f s a)) (as : List α) : InStep s (as.foldl f s) :=
  List.foldlRecOn as f (motive := fun s' => InStep s s') .refl fun s' h a _ => h.trans (hf s' a)

theorem InStep.of_eq (hlog : s'.log.recorded = s.log.recorded) (hcount : s'.msgCount = s.msgCount)
    (hknown : s'.countedMessageLlmRunIds = s.countedMessageLlmRunIds) : InStep s s' := by
  refine ⟨?_, hknown⟩
  rw [messageEvents, messageEvents, messageCount, messageCount, hlog, hcount]

theorem messageEvents_put (event : Event) : (s.put cfg loop event).messageEvents =
    s.messageEvents + if event.category = .message then 1 else 0 := by
  rw [messageEvents, messageEvents, RunJournal.put, recorded_put, countP_append]
  by_cases h : event.category = .message <;> simp [h]

theorem inStep_put {event : Event} (h : event.category ≠ .message) :
    InStep s (s.put cfg loop event) := by
  refine ⟨?_, rfl⟩
  rw [messageEvents_put, if_neg h]
  rfl

theorem inStep_message {e : Event} (h : e.category = .message)
    (hlog : s'.log = (s.put cfg loop e).log) (hcount : s'.msgCount = s.msgCount + 1)
    (hknown : s'.countedMessageLlmRunIds = s.countedMessageLlmRunIds) : InStep s s' := by
  have hevents : s'.messageEvents = (s.put cfg loop e).messageEvents := by
    rw [messageEvents, messageEvents, hlog]
  refine ⟨?_, hknown⟩
  rw [hevents, messageEvents_put, if_pos h, messageCount, messageCount, hcount]
  omega

theorem inStep_flushSync : InStep s (s.flushSync loop) :=
  .of_eq (recorded_flushSync loop s.log) rfl rfl

theorem inStep_persistToolResultMessage {m : Message} :
    InStep s (s.persistToolResultMessage cfg loop m) :=
  inStep_message (e := ⟨"llm.tool.result", .message, .message m, {}⟩) rfl rfl rfl rfl

theorem inStep_captureHumanInput {caller : String} {batch : List Message} :
    InStep s (s.captureHumanInput cfg loop caller batch) := by
  rw [captureHumanInput]
  split
  · exact .refl
  · exact (InStep.of_eq rfl rfl rfl).trans (inStep_message rfl rfl rfl rfl)

theorem inStep_captureHumanInputs {caller : String} {batches : List (List Message)} :
    InStep s (captureHumanInputs cfg loop caller batches s) := by
  induction batches generalizing s with
  | nil => exact .refl
  | cons batch batches ih =>
    rw [captureHumanInputs]
    split
    · exact inStep_captureHumanInput
    · exact inStep_captureHumanInput.trans ih

theorem inStep_onChatModelStart {messages : List (List Message)} {runId : String}
    {tags : Option (List (Option String))} :
    InStep s (s.onChatModelStart cfg loop messages runId tags) := by
  rw [onChatModelStart]
  split
  · have hstarted : InStep s { s with
        llmCallIndex := s.llmCallIndex + 1
        seenLlmStarts := insert runId s.seenLlmStarts } := .of_eq rfl rfl rfl
    exact hstarted.trans inStep_captureHumanInputs
  · exact .of_eq rfl rfl rfl

theorem inStep_onChainEnd {outputs : Outputs} {parentRunId : Option String} :
    InStep s (s.onChainEnd cfg loop outputs parentRunId) := by
  rw [onChainEnd]
  split
  · exact .refl
  · have hreconcile : InStep s (s.reconcileFinalToolMessages cfg loop outputs) := by
      refine InStep.foldl (fun s m => ?_) _
      split
      · exact inStep_persistToolResultMessage
      · exact .refl
    exact (hreconcile.trans (inStep_put (by simp))).trans inStep_flushSync

theorem inStep_onToolEnd {output : ToolOutput} : InStep s (s.onToolEnd cfg loop output) := by
  cases output with
  | message m =>
    rw [onToolEnd]
    split
    · exact inStep_persistToolResultMessage
    · exact .refl
  | command messages => exact .foldl (fun _ _ => inStep_persistToolResultMessage) _
  | other => exact .refl

/-! ### The end of a model call -/

/-- No message is put or counted, and the same run ids are known. -/
structure Silent (s s' : RunJournal) : Prop where
  events : s'.messageEvents = s.messageEvents
  count : s'.messageCount = s.messageCount
  known : s'.countedMessageLlmRunIds = s.countedMessageLlmRunIds

theorem Silent.refl : Silent s s := ⟨rfl, rfl, rfl⟩

theorem Silent.trans (h : Silent s s') (h' : Silent s' s'') : Silent s s'' :=
  ⟨h'.events.trans h.events, h'.count.trans h.count, h'.known.trans h.known⟩

theorem Silent.inStep (h : Silent s s') : InStep s s' :=
  ⟨by rw [h.events, h.count], h.known⟩

theorem silent_prepared (s : RunJournal) (m : Message) (runId caller : String) :
    Silent s (((s.rememberCurrentRunToolCalls m caller).noteErrorFallback m).resolveCallIndex
      runId) := by
  have hremember : Silent s (s.rememberCurrentRunToolCalls m caller) := by
    rw [rememberCurrentRunToolCalls]
    split
    · exact .refl
    · exact ⟨rfl, rfl, rfl⟩
  have hfallback : ∀ s : RunJournal, Silent s (s.noteErrorFallback m) := by
    intro s
    rw [noteErrorFallback]
    split
    · exact ⟨rfl, rfl, rfl⟩
    · exact .refl
  have hindex : ∀ s : RunJournal, Silent s (s.resolveCallIndex runId) := by
    intro s
    rw [resolveCallIndex]
    split
    · exact .refl
    · exact ⟨rfl, rfl, rfl⟩
  exact (hremember.trans (hfallback _)).trans (hindex _)

theorem silent_countTokens (s : RunJournal) (m : Message) (runId caller : String) :
    Silent s (s.countTokens cfg runId caller m) := by
  rw [countTokens]
  split
  · exact ⟨rfl, rfl, rfl⟩
  · exact .refl

variable {m : Message} {runId caller : String}

theorem inStep_putResponse (h : runId ∉ s.countedMessageLlmRunIds) :
    InStep s (s.putResponse cfg loop runId caller m) := by
  rw [putResponse]
  split
  · rename_i hknown
    exact absurd hknown h
  · exact inStep_message rfl rfl rfl rfl

theorem messageEvents_putResponse :
    (s.putResponse cfg loop runId caller m).messageEvents = s.messageEvents + 1 := by
  rw [putResponse]
  split <;> exact messageEvents_put _

theorem known_putResponse : (s.putResponse cfg loop runId caller m).countedMessageLlmRunIds =
    s.countedMessageLlmRunIds := by
  rw [putResponse]
  split <;> rfl

theorem inStep_onLlmMessage (h : runId ∉ s.countedMessageLlmRunIds) :
    InStep s (onLlmMessage cfg loop runId caller s m) := by
  have hprepared := silent_prepared s m runId caller
  rw [← hprepared.known] at h
  rw [onLlmMessage]
  exact (hprepared.inStep.trans (inStep_putResponse h)).trans
    (silent_countTokens _ m runId caller).inStep

theorem messageEvents_onLlmMessage :
    (onLlmMessage cfg loop runId caller s m).messageEvents = s.messageEvents + 1 := by
  rw [onLlmMessage, (silent_countTokens _ m runId caller).events, messageEvents_putResponse,
    (silent_prepared s m runId caller).events]

theorem known_onLlmMessage : (onLlmMessage cfg loop runId caller s m).countedMessageLlmRunIds =
    s.countedMessageLlmRunIds := by
  rw [onLlmMessage, (silent_countTokens _ m runId caller).known, known_putResponse,
    (silent_prepared s m runId caller).known]

theorem inStep_onLlmMessages (messages : List Message) (h : runId ∉ s.countedMessageLlmRunIds) :
    InStep s (messages.foldl (onLlmMessage cfg loop runId caller) s) := by
  induction messages generalizing s with
  | nil => exact .refl
  | cons m messages ih =>
    refine (inStep_onLlmMessage h).trans (ih ?_)
    rwa [known_onLlmMessage]

theorem messageEvents_onLlmMessages (messages : List Message) :
    (messages.foldl (onLlmMessage cfg loop runId caller) s).messageEvents =
      s.messageEvents + messages.length := by
  induction messages generalizing s with
  | nil => rfl
  | cons m messages ih =>
    rw [foldl_cons, ih, messageEvents_onLlmMessage, length_cons]
    omega

theorem known_onLlmMessages (messages : List Message) :
    (messages.foldl (onLlmMessage cfg loop runId caller) s).countedMessageLlmRunIds =
      s.countedMessageLlmRunIds :=
  List.foldlRecOn messages _ (motive := fun (s' : RunJournal) =>
    s'.countedMessageLlmRunIds = s.countedMessageLlmRunIds) rfl fun _ h _ _ => known_onLlmMessage.trans h

variable {generations : List (List (Option Message))} {tags : Option (List (Option String))}

/-- **`on_llm_end` puts every message of its response.** -/
theorem messageEvents_onLlmEnd : (s.onLlmEnd cfg loop generations runId tags).messageEvents =
    s.messageEvents + (messagesOf generations).length := by
  rw [onLlmEnd]
  split <;> exact messageEvents_onLlmMessages _

theorem grown_onLlmEnd (h : runId ∈ s.countedMessageLlmRunIds → messagesOf generations = []) :
    (s.onLlmEnd cfg loop generations runId tags).messageEvents + s.messageCount =
      s.messageEvents + (s.onLlmEnd cfg loop generations runId tags).messageCount := by
  rw [onLlmEnd]
  split
  · rename_i hnil
    rw [hnil]
    rfl
  · rename_i hmessages
    exact (inStep_onLlmMessages _ fun hknown => hmessages (h hknown)).grown

theorem known_onLlmEnd : (s.onLlmEnd cfg loop generations runId tags).countedMessageLlmRunIds ⊆
    insert runId s.countedMessageLlmRunIds := by
  rw [onLlmEnd]
  split
  · rw [known_onLlmMessages]
    exact Finset.subset_insert _ _
  · exact Finset.insert_subset_insert _ (known_onLlmMessages _).subset

/-- **A callback that is no `on_llm_end`** counts what it puts. -/
theorem inStep_callback {c : Callback} (h : ∀ generations runId tags,
    c ≠ .llmEnd generations runId tags) : InStep s (s.callback cfg loop c) := by
  cases c with
  | chainStart name parentRunId tags =>
    rw [RunJournal.callback, onChainStart]
    split
    · exact inStep_put (by simp)
    · exact .refl
  | chainEnd outputs parentRunId => exact inStep_onChainEnd
  | chainError error errorType => exact (inStep_put (by simp)).trans inStep_flushSync
  | chatModelStart messages runId tags => exact inStep_onChatModelStart
  | llmStart => exact .refl
  | llmEnd generations runId tags => exact absurd rfl (h generations runId tags)
  | llmError error => exact inStep_put (by simp)
  | toolStart => exact .refl
  | toolEnd output => exact inStep_onToolEnd
  | externalUsage records =>
    rw [RunJournal.callback, recordExternalLlmUsageRecords]
    split
    · exact .of_eq rfl rfl rfl
    · exact .refl
  | middleware tag name hook action changes => exact inStep_put (by simp)

theorem inStep_work {l : JournalLabel Event} (h : ∀ event loop, l ≠ .put event loop) :
    InStep s (s.work cfg l) := by
  refine .of_eq ?_ rfl rfl
  cases hstep : Events.step cfg.flushThreshold s.log l with
  | none => rw [RunJournal.work, hstep, getD_none]
  | some log =>
    rw [RunJournal.work, hstep, getD_some]
    exact recorded_step h hstep

end

/-! ### Histories -/

/-- The run ids that had an `on_llm_end`. -/
def endedRuns (history : List Label) : List String :=
  history.filterMap fun l => match l with
    | .callback (.llmEnd _ runId _) _ => some runId
    | _ => none

/-- The count is the number of message events. -/
def MessagesCounted (cfg : Config) (history : List Label) : Prop :=
  (RunJournal.after cfg history).messageCount = (RunJournal.after cfg history).messageEvents

/-- In a history there is a repeated `on_llm_end`, with this response, after these steps. -/
def Repeats (history before : List Label) (l : Label)
    (generations : List (List (Option Message))) : Prop :=
  ∃ runId tags loop rest, l = .callback (.llmEnd generations runId tags) loop ∧
    history = before ++ l :: rest ∧ runId ∈ endedRuns before

/-- A repeated `on_llm_end` adds no message event. -/
def RepeatsAddNothing (cfg : Config) (history : List Label) : Prop :=
  ∀ before l generations, Repeats history before l generations →
    (RunJournal.after cfg (before ++ [l])).messageEvents =
      (RunJournal.after cfg before).messageEvents

/-- A repeated `on_llm_end` has no message in its response. -/
def RepeatsEmpty (history : List Label) : Prop :=
  ∀ before l generations, Repeats history before l generations → messagesOf generations = []

variable {cfg : Config} {history : List Label}

theorem RepeatsEmpty.of_concat {l : Label} (h : RepeatsEmpty (history ++ [l])) :
    RepeatsEmpty history := by
  rintro before l' generations ⟨runId, tags, loop, rest, hl, rfl, hended⟩
  exact h before l' generations ⟨runId, tags, loop, rest ++ [l], hl, by simp, hended⟩

theorem inStep_next (s : RunJournal) (l : Label) :
    (∃ generations runId tags loop, l = .callback (.llmEnd generations runId tags) loop) ∨
      InStep s (s.next cfg l) := by
  cases l with
  | callback c loop =>
    by_cases hend : ∃ generations runId tags, c = .llmEnd generations runId tags
    · obtain ⟨generations, runId, tags, rfl⟩ := hend
      exact .inl ⟨generations, runId, tags, loop, rfl⟩
    · exact .inr (inStep_callback fun generations runId tags hc =>
        hend ⟨generations, runId, tags, hc⟩)
  | task | flush | flushStep => exact .inr (inStep_work (by simp))

theorem endedRuns_of_known {runId : String}
    (h : runId ∈ (RunJournal.after cfg history).countedMessageLlmRunIds) :
    runId ∈ endedRuns history := by
  induction history using List.reverseRecOn with
  | nil => simp [RunJournal.after] at h
  | append_singleton history l ih =>
    rw [endedRuns, filterMap_append, mem_append]
    rw [after_concat] at h
    rcases inStep_next (RunJournal.after cfg history) l with ⟨generations, r, tags, loop, rfl⟩ | hl
    · rcases Finset.mem_insert.1 (known_onLlmEnd h) with rfl | hold
      · exact .inr (by simp)
      · exact .inl (ih hold)
    · exact .inl (ih (hl.known ▸ h))

theorem messagesCounted (h : RepeatsEmpty history) : MessagesCounted cfg history := by
  induction history using List.reverseRecOn with
  | nil => rfl
  | append_singleton history l ih =>
    have hbefore : MessagesCounted cfg history := ih h.of_concat
    have hgrown : ((RunJournal.after cfg history).next cfg l).messageEvents +
        (RunJournal.after cfg history).messageCount =
          (RunJournal.after cfg history).messageEvents +
            ((RunJournal.after cfg history).next cfg l).messageCount := by
      rcases inStep_next (RunJournal.after cfg history) l with
        ⟨generations, runId, tags, loop, rfl⟩ | hl
      · exact grown_onLlmEnd fun hknown =>
          h history _ generations ⟨runId, tags, loop, [], rfl, rfl, endedRuns_of_known hknown⟩
      · exact hl.grown
    rw [MessagesCounted] at hbefore ⊢
    rw [after_concat]
    omega

/-- **The message count is exact as long as a repeated `on_llm_end` brings no messages**, and only
then does it add no message event. -/
theorem message_count_iff (cfg : Config) (history : List Label) :
    MessagesCounted cfg history ∧ RepeatsAddNothing cfg history ↔ RepeatsEmpty history := by
  constructor
  · rintro ⟨-, hnothing⟩ before l generations hrepeat
    have hadded := hnothing before l generations hrepeat
    obtain ⟨runId, tags, loop, rest, rfl, -, -⟩ := hrepeat
    rw [after_concat, RunJournal.next, RunJournal.callback, messageEvents_onLlmEnd] at hadded
    exact eq_nil_of_length_eq_zero (by omega)
  · intro h
    refine ⟨messagesCounted h, fun before l generations hrepeat => ?_⟩
    have hempty := h before l generations hrepeat
    obtain ⟨runId, tags, loop, rest, rfl, -, -⟩ := hrepeat
    rw [after_concat, RunJournal.next, RunJournal.callback, messageEvents_onLlmEnd, hempty]
    rfl

/-- A model call whose end is reported twice. -/
def endedTwice : List Label :=
  [.callback (.llmEnd [[some { type := .ai }]] "r" none) false,
    .callback (.llmEnd [[some { type := .ai }]] "r" none) false]

theorem message_count_endedTwice :
    ¬MessagesCounted ⟨true, 20⟩ endedTwice ∧ ¬RepeatsAddNothing ⟨true, 20⟩ endedTwice := by
  constructor
  · rw [MessagesCounted]
    decide
  · intro h
    have hadded := h [endedTwice.head (by decide)] (endedTwice.getLast (by decide)) _
      ⟨"r", none, false, [], rfl, rfl, by decide⟩
    revert hadded
    decide

end AfterFlow.Journaling
