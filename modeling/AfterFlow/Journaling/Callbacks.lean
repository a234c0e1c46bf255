import AfterFlow.Events.Journal
import AfterFlow.Json
import AfterFlow.Keyed.Dict
import AfterFlow.Keyed.Table
import AfterFlow.PyStr

/-!
# The callbacks of a run journal

`RunJournal` listens to a run. Its callbacks put events into the buffer of `Events.Journal`, and keep
totals beside them: tokens by kind of caller and by model, the number of messages, and the texts a
run row shows.

A model call may be reported more than once, under the same run id, so two sets of ids say which
calls have been counted: one for tokens and one for messages. Calls of subagents come as records,
with ids and a set of their own.

Times are left out, and so are the progress reports, which only read.

## Main definitions

* `Message`, `UsageRecord` — what callbacks bring
* `TokenTotals` — the token totals, with what a model call and a record add
* `RunJournal`, `Callback`, `RunJournal.callback` — the journal and its callbacks
* `Label`, `RunJournal.next` — a step: a callback, or work on the buffer
-/

namespace AfterFlow.Journaling

open Keyed Events PyStr

/-! ### Messages -/

/-- `usage_metadata`; a field that is missing, `None` or, for the cache, no number is `none`. -/
structure UsageMetadata where
  inputTokens : Option ℕ := none
  outputTokens : Option ℕ := none
  totalTokens : Option ℕ := none
  /-- `input_token_details.cache_read`. -/
  cacheRead : Option ℤ := none
  deriving DecidableEq

/-- The mapping under `human_input_response` in `additional_kwargs`; a value that is no string is
`none`. -/
structure RawResponse where
  version : ℤ
  kind : Option String
  source : Option String
  requestId : Option String
  value : Option String
  responseKind : Option String
  optionId : Option String
  deriving DecidableEq

/-- An item of a content that is a list: a string, or a mapping with what it has under `text` and
under `content`. -/
inductive Block where
  | string (s : String)
  | mapping (text content : Option String)
  deriving DecidableEq

inductive MessageContent where
  | string (s : String)
  | blocks (blocks : List Block)
  deriving DecidableEq

inductive MessageType where
  | human
  | ai
  | tool
  | other
  deriving DecidableEq

/-- A tool call; an id that is no string is `none`. -/
structure ToolCall where
  id : Option String
  name : Option String
  deriving DecidableEq

structure Message where
  type : MessageType
  name : Option String := none
  id : Option String := none
  toolCallId : Option String := none
  content : MessageContent := .string ""
  /-- The attribute `text`. -/
  text : String := ""
  toolCalls : List ToolCall := []
  usageMetadata : Option UsageMetadata := none
  /-- `response_metadata`, under `model_name` and under `model`. -/
  modelName : Option String := none
  model : Option String := none
  /-- `additional_kwargs`: whether `hide_from_ui` is `True`, -/
  hideFromUi : Bool := false
  humanInputResponse : Option RawResponse := none
  /-- whether `deerflow_error_fallback` is set, -/
  errorFallback : Bool := false
  /-- and the strings under `error_detail` and `error_reason`. -/
  errorDetail : Option String := none
  errorReason : Option String := none
  deriving DecidableEq

/-- `_non_empty_string`. -/
def nonEmptyString (value : Option String) : Option String :=
  value.filter fun s => strip s ≠ ""

/-- The source of `read_human_input_response`, if it finds a valid response. -/
def readHumanInputSource (raw : RawResponse) : Option String :=
  if raw.version ≠ 1 ∨ raw.kind ≠ some "human_input_response" then none
  else do
    let source ← nonEmptyString raw.source
    let _ ← nonEmptyString raw.requestId
    let _ ← nonEmptyString raw.value
    if raw.responseKind = some "text" then some source
    else if raw.responseKind = some "option" then do
      let _ ← nonEmptyString raw.optionId
      some source
    else none

/-- `_should_persist_human_input_message`. -/
def shouldPersistHumanInputMessage (m : Message) : Bool :=
  if m.type ≠ .human then false
  else if m.name = some "summary" then false
  else if m.hideFromUi = false then true
  else (m.humanInputResponse.bind readHumanInputSource) = some "ask_clarification"

/-- `_message_text`, which is `message_to_text` with the attribute `text` to fall back to. -/
def Message.messageText (m : Message) : String :=
  match m.content with
  | .string s => s
  | .blocks blocks => String.join (blocks.map fun b => match b with
    | .string s => s
    | .mapping (some text) _ => text
    | .mapping none content => content.getD "")

/-- `_message_identity`. -/
def messageIdentity (m : Message) : Option String :=
  match m.toolCallId.filter (· ≠ ""), m.id.filter (· ≠ "") with
  | some toolCallId, _ => some ("tool:" ++ toolCallId)
  | none, some id => some ("message:" ++ id)
  | none, none => none

/-! ### Callers -/

/-- Whose tokens they are. -/
inductive CallerKind where
  | leadAgent
  | subagent
  | middleware
  deriving DecidableEq

/-- `s.startswith(start)`. -/
def startsWith (start s : String) : Bool := start.toList.isPrefixOf s.toList

def callerKind (caller : String) : CallerKind :=
  if startsWith "subagent:" caller then .subagent
  else if startsWith "middleware:" caller then .middleware
  else .leadAgent

/-- `_identify_caller`; a tag that is no string is `none`. -/
def identifyCaller (tags : Option (List (Option String))) : String :=
  ((tags.getD []).reduceOption.find? fun tag =>
    startsWith "subagent:" tag || startsWith "middleware:" tag || tag = "lead_agent").getD
      "lead_agent"

/-! ### Token totals -/

/-- An entry of `_tokens_by_model`; the key for cache hits is there once there were any. -/
structure ModelUsage where
  model : String
  inputTokens : ℕ := 0
  outputTokens : ℕ := 0
  totalTokens : ℕ := 0
  cacheReadTokens : Option ℕ := none
  deriving DecidableEq

structure TokenTotals where
  totalInputTokens : ℕ := 0
  totalOutputTokens : ℕ := 0
  totalTokens : ℕ := 0
  llmCallCount : ℕ := 0
  leadAgentTokens : ℕ := 0
  subagentTokens : ℕ := 0
  middlewareTokens : ℕ := 0
  tokensByModel : Table String ModelUsage ModelUsage.model := .empty
  countedLlmRunIds : Finset String := ∅
  countedExternalSourceIds : Finset String := ∅

/-- `a or b` for strings that may be missing. -/
def pyOr (a b : Option String) : Option String := if a.getD "" = "" then b else a

/-- The key of a model in `_tokens_by_model`. -/
def modelKey (modelName : Option String) : String := (pyOr modelName none).getD "unknown"

/-- A bucket with the tokens of one more call. -/
def ModelUsage.add (bucket : ModelUsage) (input output total cacheRead : ℕ) : ModelUsage :=
  { bucket with
    inputTokens := bucket.inputTokens + input
    outputTokens := bucket.outputTokens + output
    totalTokens := bucket.totalTokens + total
    cacheReadTokens :=
      if 0 < cacheRead then some (bucket.cacheReadTokens.getD 0 + cacheRead)
      else bucket.cacheReadTokens }

/-- `_record_model_usage`. -/
def recordModelUsage (buckets : Table String ModelUsage ModelUsage.model)
    (modelName : Option String) (input output total cacheRead : ℕ) :
    Table String ModelUsage ModelUsage.model :=
  if total = 0 then buckets
  else
    match h : buckets.find? (modelKey modelName) with
    | some bucket => buckets.put (bucket.add input output total cacheRead)
    | none => buckets.insert (ModelUsage.add ⟨modelKey modelName, 0, 0, 0, none⟩ input output total
        cacheRead) h

/-- The tokens go to the total of their kind of caller. -/
def TokenTotals.addToCaller (t : TokenTotals) (kind : CallerKind) (total : ℕ) : TokenTotals :=
  match kind with
  | .subagent => { t with subagentTokens := t.subagentTokens + total }
  | .middleware => { t with middlewareTokens := t.middlewareTokens + total }
  | .leadAgent => { t with leadAgentTokens := t.leadAgentTokens + total }

/-- A total that is zero or missing is that of the input and the output. -/
def reportedTotal (input output total : ℕ) : ℕ := if total = 0 then input + output else total

/-- `_extract_cache_read`. -/
def extractCacheRead (usage : UsageMetadata) : ℕ := (usage.cacheRead.getD 0).toNat

/-- The token part of `on_llm_end`, for one message. -/
def TokenTotals.countMessage (t : TokenTotals) (runId caller : String) (m : Message) :
    TokenTotals :=
  let usage := m.usageMetadata.getD {}
  let input := usage.inputTokens.getD 0
  let output := usage.outputTokens.getD 0
  let total := reportedTotal input output (usage.totalTokens.getD 0)
  if 0 < total ∧ runId ∉ t.countedLlmRunIds then
    { t.addToCaller (callerKind caller) total with
      countedLlmRunIds := insert runId t.countedLlmRunIds
      totalInputTokens := t.totalInputTokens + input
      totalOutputTokens := t.totalOutputTokens + output
      totalTokens := t.totalTokens + total
      llmCallCount := t.llmCallCount + 1
      tokensByModel := recordModelUsage t.tokensByModel (pyOr m.modelName m.model) input output
        total (extractCacheRead usage) }
  else t

/-- A value of a usage record. -/
inductive Value where
  | none
  | int (n : ℕ)
  | str (s : String)
  deriving DecidableEq

/-- `str(value)`. -/
def Value.text : Value → String
  | .none => "None"
  | .int n => toString n
  | .str s => s

/-- A usage record of a subagent; a number that is missing or `None` is `none`. -/
structure UsageRecord where
  sourceRunId : Option Value := none
  caller : Option Value := none
  modelName : Option String := none
  inputTokens : Option ℕ := none
  outputTokens : Option ℕ := none
  totalTokens : Option ℕ := none
  cacheReadTokens : Option ℕ := none
  deriving DecidableEq

/-- `str(record.get(key, ""))`. -/
def getText (value : Option Value) : String := (value.map Value.text).getD ""

/-- The loop body of `record_external_llm_usage_records`. -/
def TokenTotals.countRecord (t : TokenTotals) (record : UsageRecord) : TokenTotals :=
  let sourceId := getText record.sourceRunId
  if sourceId = "" then t
  else if sourceId ∈ t.countedExternalSourceIds then t
  else
    let input := record.inputTokens.getD 0
    let output := record.outputTokens.getD 0
    let total := reportedTotal input output (record.totalTokens.getD 0)
    if total = 0 then t
    else { t.addToCaller (callerKind (getText record.caller)) total with
      countedExternalSourceIds := insert sourceId t.countedExternalSourceIds
      totalInputTokens := t.totalInputTokens + input
      totalOutputTokens := t.totalOutputTokens + output
      totalTokens := t.totalTokens + total
      tokensByModel := recordModelUsage t.tokensByModel record.modelName input output total
        (record.cacheReadTokens.getD 0) }

/-! ### Events -/

inductive Category where
  | trace
  | message
  | outputs
  | error
  | middleware
  deriving DecidableEq

/-- The messages in what a root chain returns; `none` if it is no mapping with a list of messages,
and an item that is no message is `none`. -/
abbrev Outputs := Option (List (Option Message))

inductive EventContent where
  | chain (name : String)
  | message (m : Message)
  | outputs (outputs : Outputs)
  | text (s : String)
  | change (name hook action : String) (changes : Json)

/-- The metadata of an event that the callbacks make themselves. -/
structure EventMetadata where
  caller : Option String := none
  usage : Option UsageMetadata := none
  llmCallIndex : Option ℕ := none
  status : Option String := none
  errorType : Option String := none
  deriving DecidableEq

structure Event where
  eventType : String
  category : Category
  content : EventContent
  metadata : EventMetadata := {}

/-! ### The journal -/

structure Config where
  trackTokens : Bool
  flushThreshold : ℕ

structure RunJournal where
  log : Journal Event := .new
  tokens : TokenTotals := {}
  countedMessageLlmRunIds : Finset String := ∅
  lastAiMsg : Option String := none
  firstHumanMsg : Option String := none
  msgCount : ℕ := 0
  hadLlmErrorFallback : Bool := false
  llmErrorFallbackMessage : Option String := none
  llmCallIndex : ℕ := 0
  seenLlmStarts : Finset String := ∅
  currentRunToolCallNames : Dict String String := ∅
  persistedToolMessageIdentities : Finset String := ∅

namespace RunJournal

/-- `_put`; `loop` says whether an event loop is running. -/
def put (cfg : Config) (loop : Bool) (event : Event) (s : RunJournal) : RunJournal :=
  { s with log := s.log.put cfg.flushThreshold loop event }

/-- `_flush_sync`. -/
def flushSync (loop : Bool) (s : RunJournal) : RunJournal :=
  { s with log := s.log.flushSync loop }

/-- The first 2000 characters. -/
def clip (s : String) : String := String.ofList (s.toList.take 2000)

/-- `_record_message_summary`. -/
def recordMessageSummary (m : Message) (caller : Option String) (s : RunJournal) : RunJournal :=
  { s with
    msgCount := s.msgCount + 1
    lastAiMsg :=
      if m.type = .ai ∧ (caller = none ∨ caller = some "lead_agent") ∧ strip m.messageText ≠ "" then
        some (clip (strip m.messageText))
      else s.lastAiMsg }

/-- `set_first_human_message`. -/
def setFirstHumanMessage (content : String) (s : RunJournal) : RunJournal :=
  { s with firstHumanMsg := if content = "" then none else some (clip content) }

/-- `on_chain_start`. -/
def onChainStart (cfg : Config) (loop : Bool) (name : String) (parentRunId : Option String)
    (tags : Option (List (Option String))) (s : RunJournal) : RunJournal :=
  if parentRunId = none then
    s.put cfg loop ⟨"run.start", .trace, .chain name, { caller := identifyCaller tags }⟩
  else s

/-- `_persist_tool_result_message`. -/
def persistToolResultMessage (cfg : Config) (loop : Bool) (m : Message) (s : RunJournal) :
    RunJournal :=
  let s := s.put cfg loop ⟨"llm.tool.result", .message, .message m, {}⟩
  let s := { s with persistedToolMessageIdentities :=
    match messageIdentity m with
    | some identity => insert identity s.persistedToolMessageIdentities
    | none => s.persistedToolMessageIdentities }
  s.recordMessageSummary m none

/-- `_should_reconcile_tool_message`. -/
def shouldReconcileToolMessage (s : RunJournal) (m : Message) : Bool :=
  if m.hideFromUi then false
  else
    match m.toolCallId.filter (· ≠ "") with
    | none => false
    | some toolCallId =>
      match s.currentRunToolCallNames.lookup toolCallId with
      | none => false
      | some toolCallName =>
        if m.name ≠ some "ask_clarification" ∧ toolCallName ≠ "ask_clarification" then false
        else (messageIdentity m).any fun identity => identity ∉ s.persistedToolMessageIdentities

/-- `_reconcile_final_tool_messages`. -/
def reconcileFinalToolMessages (cfg : Config) (loop : Bool) (outputs : Outputs) (s : RunJournal) :
    RunJournal :=
  (outputs.getD []).reduceOption.foldl (fun s m =>
    if m.type = .tool ∧ s.shouldReconcileToolMessage m then s.persistToolResultMessage cfg loop m
    else s) s

/-- `on_chain_end`. -/
def onChainEnd (cfg : Config) (loop : Bool) (outputs : Outputs) (parentRunId : Option String)
    (s : RunJournal) : RunJournal :=
  if parentRunId ≠ none then s
  else
    ((s.reconcileFinalToolMessages cfg loop outputs).put cfg loop
      ⟨"run.end", .outputs, .outputs outputs, { status := some "success" }⟩).flushSync loop

/-- `on_chain_error`. -/
def onChainError (cfg : Config) (loop : Bool) (error errorType : String) (s : RunJournal) :
    RunJournal :=
  (s.put cfg loop ⟨"run.error", .error, .text error, { errorType := some errorType }⟩).flushSync
    loop

/-- A batch in the loop of `on_chat_model_start`: its last message of the user is recorded. -/
@[grind =] def captureHumanInput (cfg : Config) (loop : Bool) (caller : String) (batch : List Message)
    (s : RunJournal) : RunJournal :=
  match batch.reverse.find? shouldPersistHumanInputMessage with
  | none => s
  | some m =>
    ((s.setFirstHumanMessage m.text).put cfg loop
      ⟨"llm.human.input", .message, .message m, { caller := some caller }⟩).recordMessageSummary m
        (some caller)

/-- The loop of `on_chat_model_start`, over the batches from the last to the first. It stops when
there is a first human message; a message without text does not make one. -/
@[grind =] def captureHumanInputs (cfg : Config) (loop : Bool) (caller : String) :
    List (List Message) → RunJournal → RunJournal
  | [], s => s
  | batch :: batches, s =>
    let s := s.captureHumanInput cfg loop caller batch
    if s.firstHumanMsg.isSome then s else captureHumanInputs cfg loop caller batches s

/-- `on_chat_model_start`. -/
def onChatModelStart (cfg : Config) (loop : Bool) (messages : List (List Message)) (runId : String)
    (tags : Option (List (Option String))) (s : RunJournal) : RunJournal :=
  let s := { s with
    llmCallIndex := s.llmCallIndex + 1
    seenLlmStarts := insert runId s.seenLlmStarts }
  let caller := identifyCaller tags
  if caller = "lead_agent" ∧ s.firstHumanMsg = none then
    captureHumanInputs cfg loop caller messages.reverse s
  else s

/-- `_remember_current_run_tool_calls`. -/
def rememberCurrentRunToolCalls (m : Message) (caller : String) (s : RunJournal) : RunJournal :=
  if caller ≠ "lead_agent" ∨ m.type ≠ .ai then s
  else { s with currentRunToolCallNames :=
    m.toolCalls.foldl (fun names call =>
      match call.id.filter (· ≠ "") with
      | some id => names.insert id (call.name.getD "")
      | none => names) s.currentRunToolCallNames }

/-- The part of `on_llm_end` that looks for the marker of an error fallback. -/
def noteErrorFallback (m : Message) (s : RunJournal) : RunJournal :=
  if m.errorFallback then
    { s with
      hadLlmErrorFallback := true
      llmErrorFallbackMessage :=
        match nonEmptyString m.errorDetail, nonEmptyString m.errorReason with
        | some detail, _ => some (strip detail)
        | none, some reason => some (strip reason)
        | none, none =>
          if strip m.messageText ≠ "" then some (clip (strip m.messageText))
          else s.llmErrorFallbackMessage }
  else s

/-- The part of `on_llm_end` that finds the call index of a run whose start was not reported. -/
def resolveCallIndex (runId : String) (s : RunJournal) : RunJournal :=
  if runId ∈ s.seenLlmStarts then s
  else { s with
    llmCallIndex := s.llmCallIndex + 1
    seenLlmStarts := insert runId s.seenLlmStarts }

/-- The part of `on_llm_end` that puts a message, and counts it unless its run id is known. -/
def putResponse (cfg : Config) (loop : Bool) (runId caller : String) (m : Message)
    (s : RunJournal) : RunJournal :=
  let s := s.put cfg loop ⟨"llm.ai.response", .message, .message m,
    { caller := some caller
      usage := some (m.usageMetadata.getD {})
      llmCallIndex := some s.llmCallIndex }⟩
  if runId ∈ s.countedMessageLlmRunIds then s else s.recordMessageSummary m (some caller)

/-- The part of `on_llm_end` that counts the tokens of a message. -/
def countTokens (cfg : Config) (runId caller : String) (m : Message) (s : RunJournal) : RunJournal :=
  if cfg.trackTokens then { s with tokens := s.tokens.countMessage runId caller m } else s

/-- The loop body of `on_llm_end`. -/
def onLlmMessage (cfg : Config) (loop : Bool) (runId caller : String) (s : RunJournal)
    (m : Message) : RunJournal :=
  ((((s.rememberCurrentRunToolCalls m caller).noteErrorFallback m).resolveCallIndex
    runId).putResponse cfg loop runId caller m).countTokens cfg runId caller m

/-- The messages of a response; a generation without one is `none`. -/
def messagesOf (generations : List (List (Option Message))) : List Message :=
  generations.flatten.reduceOption

/-- `on_llm_end`. -/
def onLlmEnd (cfg : Config) (loop : Bool) (generations : List (List (Option Message)))
    (runId : String) (tags : Option (List (Option String))) (s : RunJournal) : RunJournal :=
  let messages := messagesOf generations
  let s := messages.foldl (onLlmMessage cfg loop runId (identifyCaller tags)) s
  if messages = [] then s
  else { s with countedMessageLlmRunIds := insert runId s.countedMessageLlmRunIds }

/-- `on_llm_error`. -/
def onLlmError (cfg : Config) (loop : Bool) (error : String) (s : RunJournal) : RunJournal :=
  s.put cfg loop ⟨"llm.error", .trace, .text error, {}⟩

/-- What a tool returns: a message, or a command with the messages of its update, where `none` is
an update without `get`. -/
inductive ToolOutput where
  | message (m : Message)
  | command (messages : Outputs)
  | other

/-- `on_tool_end`. -/
@[grind =] def onToolEnd (cfg : Config) (loop : Bool) (output : ToolOutput) (s : RunJournal) : RunJournal :=
  match output with
  | .message m => if m.type = .tool then s.persistToolResultMessage cfg loop m else s
  | .command messages =>
    (messages.getD []).reduceOption.foldl (fun s m => s.persistToolResultMessage cfg loop m) s
  | .other => s

/-- `record_external_llm_usage_records`. -/
def recordExternalLlmUsageRecords (cfg : Config) (records : List UsageRecord) (s : RunJournal) :
    RunJournal :=
  if cfg.trackTokens then { s with tokens := records.foldl TokenTotals.countRecord s.tokens } else s

/-- `record_middleware`. -/
def recordMiddleware (cfg : Config) (loop : Bool) (tag name hook action : String) (changes : Json)
    (s : RunJournal) : RunJournal :=
  s.put cfg loop ⟨"middleware:" ++ tag, .middleware, .change name hook action changes, {}⟩

end RunJournal

open RunJournal

/-- A call of the journal. Starts of tools and of models that are not chat models only take the
time. -/
inductive Callback where
  | chainStart (name : String) (parentRunId : Option String) (tags : Option (List (Option String)))
  | chainEnd (outputs : Outputs) (parentRunId : Option String)
  | chainError (error errorType : String)
  | chatModelStart (messages : List (List Message)) (runId : String)
      (tags : Option (List (Option String)))
  | llmStart
  | llmEnd (generations : List (List (Option Message))) (runId : String)
      (tags : Option (List (Option String)))
  | llmError (error : String)
  | toolStart
  | toolEnd (output : ToolOutput)
  | externalUsage (records : List UsageRecord)
  | middleware (tag name hook action : String) (changes : Json)

@[grind =] def RunJournal.callback (cfg : Config) (loop : Bool) (s : RunJournal) : Callback → RunJournal
  | .chainStart name parentRunId tags => s.onChainStart cfg loop name parentRunId tags
  | .chainEnd outputs parentRunId => s.onChainEnd cfg loop outputs parentRunId
  | .chainError error errorType => s.onChainError cfg loop error errorType
  | .chatModelStart messages runId tags => s.onChatModelStart cfg loop messages runId tags
  | .llmStart => s
  | .llmEnd generations runId tags => s.onLlmEnd cfg loop generations runId tags
  | .llmError error => s.onLlmError cfg loop error
  | .toolStart => s
  | .toolEnd output => s.onToolEnd cfg loop output
  | .externalUsage records => s.recordExternalLlmUsageRecords cfg records
  | .middleware tag name hook action changes => s.recordMiddleware cfg loop tag name hook action changes

/-- A step: a callback, with or without a running event loop, or work on the buffer by its task or
by `flush`. -/
inductive Label where
  | callback (c : Callback) (loop : Bool)
  | task (ok : Bool)
  | flush
  | flushStep (ok : Bool)

/-- Work on the buffer; nothing happens if there is none to do. -/
def RunJournal.work (cfg : Config) (l : JournalLabel Event) (s : RunJournal) : RunJournal :=
  { s with log := (Events.step cfg.flushThreshold s.log l).getD s.log }

@[grind =] def RunJournal.next (cfg : Config) (s : RunJournal) : Label → RunJournal
  | .callback c loop => s.callback cfg loop c
  | .task ok => s.work cfg (.task ok)
  | .flush => s.work cfg .flush
  | .flushStep ok => s.work cfg (.flushStep ok)

/-- The journal after a history of steps. -/
def RunJournal.after (cfg : Config) (history : List Label) : RunJournal :=
  history.foldl (RunJournal.next cfg) {}

theorem RunJournal.after_concat (cfg : Config) (history : List Label) (l : Label) :
    RunJournal.after cfg (history ++ [l]) = (RunJournal.after cfg history).next cfg l :=
  List.foldl_concat ..

/-- `message_count` in `get_completion_data`. -/
def RunJournal.messageCount (s : RunJournal) : ℕ := s.msgCount

/-- The number of events of category `message` that were put into the buffer. -/
def RunJournal.messageEvents (s : RunJournal) : ℕ :=
  s.log.recorded.countP fun e => e.category = .message

end AfterFlow.Journaling
