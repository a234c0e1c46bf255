import AfterFlow.Agents.DynamicContext

/-!
# What a compaction keeps

`DeerFlowSummarizationMiddleware._prepare_compaction`: the messages before a cutoff are summarised
and those after it stay. Reminders and the messages that were split off them are taken out of the
first part and put before the second, so that no message is in both parts and none is in neither.

Where the cutoff is and whether it is time to summarise are decided by the package the middleware
extends.
-/

namespace AfterFlow.Agents

/-- What the package decides: whether it is time to summarise, and where. -/
structure Summarizer where
  /-- `_should_summarize`, with the summary there is. -/
  shouldSummarize : List DynamicContext.Message → Option String → Bool
  /-- `_determine_cutoff_index`. -/
  determineCutoffIndex : List DynamicContext.Message → ℕ

/-- `str.removesuffix`. -/
def removeSuffix (suffix s : List Char) : List Char :=
  if suffix <:+ s then s.take (s.length - suffix.length) else s

/-- The id that the parts of a split message have in common. -/
def baseId (id : String) : List Char :=
  removeSuffix "__user".toList (removeSuffix "__memory".toList id.toList)

/-- The ids of the reminders, without what was appended to them. -/
def reminderBaseIds (messages : List DynamicContext.Message) : List (List Char) :=
  ((messages.filter fun m => m.isReminder && m.id ≠ "").map DynamicContext.Message.id).map baseId

/-- A reminder, or a part of a message that was split for one. -/
def isRescued (bases : List (List Char)) (m : DynamicContext.Message) : Bool :=
  m.isReminder || (m.id ≠ "" && bases.any fun base => (base ++ "__".toList).isPrefixOf m.id.toList)

/-- `_preserve_dynamic_context_reminders`. -/
def preserveDynamicContextReminders
    (messagesToSummarize preservedMessages : List DynamicContext.Message) :
    List DynamicContext.Message × List DynamicContext.Message :=
  if messagesToSummarize.any DynamicContext.Message.isReminder then
    let rescued := isRescued (reminderBaseIds messagesToSummarize)
    (messagesToSummarize.filter fun m => !rescued m,
      messagesToSummarize.filter rescued ++ preservedMessages)
  else (messagesToSummarize, preservedMessages)

/-- `_prepare_compaction`: the messages to summarise and those to preserve. -/
def prepareCompaction (s : Summarizer) (force : Bool) (messages : List DynamicContext.Message)
    (previousSummary : Option String) :
    Option (List DynamicContext.Message × List DynamicContext.Message) :=
  if !force && !s.shouldSummarize messages previousSummary then none
  else
    let cutoffIndex := s.determineCutoffIndex messages
    if cutoffIndex = 0 then none
    else
      let parts := preserveDynamicContextReminders (messages.take cutoffIndex)
        (messages.drop cutoffIndex)
      if parts.1 = [] then none else some parts

variable {s : Summarizer} {force : Bool} {messages : List DynamicContext.Message}
  {previousSummary : Option String}
  {parts : List DynamicContext.Message × List DynamicContext.Message}

theorem preserve_perm (l l' : List DynamicContext.Message) :
    ((preserveDynamicContextReminders l l').1 ++ (preserveDynamicContextReminders l l').2).Perm
      (l ++ l') := by
  rw [preserveDynamicContextReminders]
  split
  · rw [← List.append_assoc]
    refine List.Perm.append_right _ (List.perm_append_comm.trans ?_)
    exact List.filter_append_perm _ l
  · exact List.Perm.refl _

/-- **The two parts are the messages.** -/
theorem prepareCompaction_perm
    (h : prepareCompaction s force messages previousSummary = some parts) :
    (parts.1 ++ parts.2).Perm messages := by
  rw [prepareCompaction] at h
  split at h
  · cases h
  · dsimp only at h
    split at h
    · cases h
    · split at h
      · cases h
      · obtain rfl := Option.some.inj h
        have hperm := preserve_perm (messages.take (s.determineCutoffIndex messages))
          (messages.drop (s.determineCutoffIndex messages))
        rwa [List.take_append_drop] at hperm

end AfterFlow.Agents
