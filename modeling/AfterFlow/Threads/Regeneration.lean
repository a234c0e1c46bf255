import AfterFlow.Agents.Compaction

/-!
# Regenerating an answer

`prepare_regenerate_run` looks for the question of the latest answer in the latest checkpoint, for
the last checkpoint before that question came, and for the run that gave the answer. A client starts
a run from that checkpoint with that question.

The question is the nearest message of the user before the answer. It is the wrong one where a
compaction has taken the question away and left an older one: the first question of a thread that
has a reminder is always left, however long ago it was.

A run goes through the middlewares of the agent one after another and writes a checkpoint after
each: its input is given to the reducer, uploads are put before it, the date and the memory are
injected, and what is too long is summarised. Then the model is called.

## History

`World.producer` and `World.calls` are proof-only.

## Main definitions

* `prepareRegeneratePayload` — the question, the checkpoint and the run of an answer
* `step` — runs, regenerations, edits and compactions of a thread
* `Orderly` — the condition on a step
* `Replay` — a payload replays the turn of an answer
-/

namespace AfterFlow.Threads.Regeneration

open Agents.DynamicContext Transition
open Agents (Summarizer prepareCompaction)

/-! ### Messages -/

/-- What the model of messages leaves out. -/
structure Reading where
  /-- Which of the messages that are neither a user's nor the system's are `AIMessage`s. -/
  isAi : Message → Bool
  /-- What `message_to_text` makes of a list of blocks. -/
  messageToText : ℕ → List Char
  /-- What `message_content_to_text` makes of one. -/
  messageContentToText : ℕ → List Char
  /-- A list of blocks with a text block before it. -/
  prepend : List Char → ℕ → Content

def originalUserContentKey : String := "original_user_content"

/-- `_message_id`. -/
def messageId (m : Message) : Option String := if m.id = "" then none else some m.id

/-- `_is_hidden_or_control_message`. -/
def isHiddenOrControlMessage (m : Message) : Bool := m.name = some "summary" || m.kwargs.hideFromUi

/-- `_is_visible_human_message`. -/
def isVisibleHumanMessage (m : Message) : Bool := m.kind = .human && !isHiddenOrControlMessage m

/-- The latest of the messages that the user sees as a user's. -/
def lastHuman (messages : List Message) : Option Message :=
  messages.reverse.find? isVisibleHumanMessage

def idsOf (messages : List Message) : List String := messages.map Message.id

namespace Reading

variable (R : Reading)

/-- `_is_visible_ai_message`. -/
def isVisibleAiMessage (m : Message) : Bool :=
  m.kind = .other && R.isAi m && !isHiddenOrControlMessage m

/-- `message_to_text`. -/
def messageText (m : Message) : List Char :=
  match m.content with
  | .text s => s
  | .blocks number _ => R.messageToText number

/-- `message_content_to_text`. -/
def contentText : Content → List Char
  | .text s => s
  | .blocks number _ => R.messageContentToText number

/-- `get_original_user_content_text`. -/
def getOriginalUserContentText (m : Message) : List Char :=
  match m.kwargs.others.lookup originalUserContentKey with
  | some text => text.toList
  | none => R.contentText m.content

/-- The latest answer, and the question that it is taken for the answer to. -/
def lastTurn (messages : List Message) : Option (String × Message) :=
  (splitLast R.isVisibleAiMessage messages).bind fun (pre, answer, _) =>
    (lastHuman pre).map fun question => (answer.id, question)

end Reading

/-- The message of a payload, whose content is one block with the text. -/
structure HumanInput where
  id : Option String
  name : Option String
  text : List Char
  kwargs : Kwargs
  deriving DecidableEq

/-- `_clean_human_message_for_regenerate`. -/
def Reading.cleanHumanMessageForRegenerate (R : Reading) (m : Message) : HumanInput where
  id := messageId m
  name := m.name.filter fun name => name ≠ ""
  text := R.getOriginalUserContentText m
  kwargs := { m.kwargs with
    hideFromUi := false
    others := m.kwargs.others.filter fun kv => kv.1 ≠ originalUserContentKey }

/-- The message that a run is given. One block with a text is read as the text. -/
def HumanInput.toMessage (input : HumanInput) : Message :=
  ⟨input.id.getD "", .human, input.name, .text input.text, input.kwargs⟩

/-! ### The thread -/

/-- The channels of a checkpoint that are read here. -/
structure Values where
  messages : List Message
  summaryText : Option String
  deriving DecidableEq

structure Checkpoint where
  checkpointId : Option ℕ
  values : Values
  deriving DecidableEq

/-- A row of the event store that `list_messages` gives. -/
structure EventRow where
  eventType : String
  /-- The id of the message that is its content. -/
  messageId : Option String
  runId : String
  deriving DecidableEq

structure RunRecord where
  runId : String
  status : String
  lastAiMessage : Option (List Char)
  deriving DecidableEq

/-- What the middlewares find when a run begins. -/
structure Context where
  /-- What `UploadsMiddleware` writes before the message, if there are uploads. -/
  files : Option (List Char)
  currentDate : ProperText
  memoryContext : List Char
  uuid : ProperText
  /-- The injection did not come in time. -/
  timedOut : Bool
  /-- What the model answers when it is asked for a summary. -/
  summary : Option String

/-- The last thing that a run has done. -/
inductive Stage where
  /-- The checkpoint that it begins from is written anew. -/
  | input
  | applied
  | attached
  | injected
  /-- The model has been called. -/
  | called
  deriving DecidableEq

@[grind =] def Stage.next : Stage → Stage
  | .input => .applied
  | .applied => .attached
  | .attached => .injected
  | .injected | .called => .called

structure ActiveRun where
  run : String
  /-- The messages that it begins from. -/
  before : List Message
  input : Message
  context : Context
  stage : Stage

/-- The first call of a run's model. -/
structure Call where
  before : List Message
  input : Message
  context : Context
  /-- The messages when the summary is about to be made. -/
  opened : List Message
  /-- The messages that the model is called with. -/
  messages : List Message

structure World where
  /-- The newest comes first. -/
  checkpoints : List Checkpoint
  /-- The oldest comes first. -/
  rows : List EventRow
  /-- The newest comes first. -/
  records : List RunRecord
  active : Option ActiveRun
  /-- Which run a message is of. -/
  producer : String → Option String
  calls : String → Option Call

namespace World

variable (w : World)

def values : Values := (w.checkpoints.head?.map Checkpoint.values).getD ⟨[], none⟩

/-- The messages of the thread. -/
def messages : List Message := w.values.messages

/-- A checkpoint is written; the ids are made in order. -/
def put (values : Values) : World :=
  { w with checkpoints := ⟨some w.checkpoints.length, values⟩ :: w.checkpoints }

/-- No message of the thread has had the id. -/
def IsNew (id : String) : Prop := ∀ c ∈ w.checkpoints, id ∉ idsOf c.values.messages

instance (id : String) : Decidable (w.IsNew id) :=
  inferInstanceAs (Decidable (∀ c ∈ w.checkpoints, id ∉ idsOf c.values.messages))

end World

/-! ### The payload -/

structure HttpError where
  statusCode : ℕ
  detail : String
  deriving DecidableEq

structure RegenerateMetadata where
  regenerateFromMessageId : String
  regenerateFromRunId : String
  regenerateCheckpointId : ℕ
  deriving DecidableEq

structure RegeneratePrepareResponse where
  input : HumanInput
  /-- The `checkpoint_id`. -/
  checkpoint : ℕ
  metadata : RegenerateMetadata
  targetRunId : String
  deriving DecidableEq

def regenerateHistoryScanLimit : ℕ := 200

/-- The loop of `_find_base_checkpoint_before_human`. -/
@[grind =] def scanForHuman (humanMessageId : String) : Option Checkpoint → List Checkpoint →
    Except HttpError Checkpoint
  | _, [] => .error ⟨409,
      "Could not locate target user message in recent checkpoint history (limit=200)"⟩
  | previousCheckpoint, c :: cs =>
    if some humanMessageId ∈ c.values.messages.map messageId then
      match previousCheckpoint with
      | none => .error ⟨409,
          "Could not find an addressable checkpoint before the target user message"⟩
      | some base => .ok base
    else
      scanForHuman humanMessageId (if c.checkpointId.isSome then some c else previousCheckpoint) cs

/-- `_find_base_checkpoint_before_human`. -/
def World.findBaseCheckpointBeforeHuman (w : World) (humanMessageId : String) :
    Except HttpError Checkpoint :=
  scanForHuman humanMessageId none (w.checkpoints.take regenerateHistoryScanLimit).reverse

def EventRow.isAnswer (row : EventRow) : Bool :=
  row.eventType = "ai_message" || row.eventType = "llm.ai.response"

/-- `_run_last_ai_matches_message`. -/
def Reading.runLastAiMatchesMessage (R : Reading) (record : RunRecord) (m : Message) : Bool :=
  let lastAiMessage := PyStr.stripList PyStr.isSpace (record.lastAiMessage.getD [])
  let targetText := PyStr.stripList PyStr.isSpace (R.messageText m)
  lastAiMessage ≠ [] && targetText ≠ [] && lastAiMessage = targetText.take lastAiMessage.length

/-- `_find_target_run_id`. -/
@[grind =] def World.findTargetRunId (R : Reading) (w : World) (messageId : String) (targetMessage : Message) :
    Except HttpError String :=
  match (w.rows.reverse.take regenerateHistoryScanLimit).find? fun row =>
      row.isAnswer && row.messageId = some messageId && row.runId ≠ "" with
  | some row => .ok row.runId
  | none =>
    match (w.records.take 10).find? fun record =>
        record.status = "success" && R.runLastAiMatchesMessage record targetMessage with
    | some record => .ok record.runId
    | none => .error ⟨409, "Could not find source run for assistant message"⟩

/-- `_prepare_regenerate_payload`. -/
@[grind =] def prepareRegeneratePayload (R : Reading) (threadId : String) (w : World) (target : String) :
    Except HttpError RegeneratePrepareResponse :=
  match w.checkpoints.head? with
  | none => .error ⟨404, "Thread " ++ threadId ++ " has no checkpoint"⟩
  | some latest =>
    match splitFirst (fun m => messageId m = some target) latest.values.messages with
    | none => .error ⟨404, "Message " ++ target ++ " not found"⟩
    | some (earlier, targetMessage, _) =>
      if !R.isVisibleAiMessage targetMessage then
        .error ⟨409, "Only visible assistant messages can be regenerated"⟩
      else if (latest.values.messages.reverse.find? R.isVisibleAiMessage).bind messageId ≠
          some target then
        .error ⟨409, "Only the latest assistant message can be regenerated"⟩
      else
        match lastHuman earlier with
        | none => .error ⟨409, "Could not find the user message for this assistant response"⟩
        | some previousHuman =>
          match messageId previousHuman with
          | none => .error ⟨409, "The source user message is missing an id"⟩
          | some previousHumanId =>
            (w.findBaseCheckpointBeforeHuman previousHumanId).bind fun base =>
            (w.findTargetRunId R target targetMessage).bind fun targetRunId =>
            match base.checkpointId with
            | none => .error ⟨409, "Checkpoint is missing checkpoint_id"⟩
            | some checkpoint => .ok
                { input := R.cleanHumanMessageForRegenerate previousHuman
                  checkpoint := checkpoint
                  metadata := ⟨target, targetRunId, checkpoint⟩
                  targetRunId := targetRunId }

/-- The checkpoint that a run is to begin from. -/
def World.checkpointWith (w : World) (id : ℕ) : Option Checkpoint :=
  w.checkpoints.find? fun c => c.checkpointId = some id

/-! ### The beginning of a run -/

/-- What `UploadsMiddleware` makes of the message. -/
def Reading.attach (R : Reading) (files : Option (List Char)) (m : Message) : Message :=
  match files with
  | none => m
  | some filesMessage => { m with
      content := match m.content with
        | .text s => .text (filesMessage ++ "\n\n".toList ++ s)
        | .blocks number _ => R.prepend (filesMessage ++ "\n\n".toList) number
      kwargs := { m.kwargs with
        others := if (m.kwargs.others.lookup originalUserContentKey).isSome then m.kwargs.others
          else m.kwargs.others ++
            [(originalUserContentKey, String.ofList (R.contentText m.content))] } }

/-- The input goes through the reducer. -/
def applied (messages : List Message) (input : Message) : List Message :=
  addMessages messages [input]

/-- `UploadsMiddleware.before_agent`. The messages that it does not change are the same. -/
def Reading.attached (R : Reading) (files : Option (List Char)) (messages : List Message) :
    List Message :=
  match messages.getLast? with
  | none => messages
  | some m => if m.kind = .human then addMessages messages [R.attach files m] else messages

/-- `DynamicContextMiddleware.before_agent`. -/
def injected (context : Context) (messages : List Message) : List Message :=
  if context.timedOut then messages
  else
    match inject messages context.currentDate context.memoryContext context.uuid with
    | none => messages
    | some updates => addMessages messages updates

/-- A compaction, with what the model answers. -/
def summarised (s : Summarizer) (force : Bool) (summary : Option String) (values : Values) :
    Values :=
  match prepareCompaction s force values.messages values.summaryText, summary with
  | some parts, some text => ⟨parts.2, some text⟩
  | _, _ => values

/-- The messages of a run before the first summary. -/
def Reading.opened (R : Reading) (messages : List Message) (input : Message) (context : Context) :
    List Message :=
  injected context (R.attached context.files (applied messages input))

/-- The messages that the first call of a run has. -/
def Reading.firstCall (s : Summarizer) (R : Reading) (values : Values) (input : Message)
    (context : Context) : List Message :=
  (summarised s false context.summary
    ⟨R.opened values.messages input context, values.summaryText⟩).messages

/-- What the next step at the beginning of a run writes. -/
def Reading.proceed (s : Summarizer) (R : Reading) (a : ActiveRun) (values : Values) : Values :=
  match a.stage with
  | .input => { values with messages := applied values.messages a.input }
  | .applied => { values with messages := R.attached a.context.files values.messages }
  | .attached => { values with messages := injected a.context values.messages }
  | .injected => summarised s false a.context.summary values
  | .called => values

/-! ### Steps -/

inductive Act where
  | start (run : String) (input : Message) (context : Context)
  /-- The answer is regenerated, by a run that begins as the payload says. -/
  | regenerate (run target : String) (context : Context)
  /-- The run goes on to its first call. -/
  | proceed
  /-- A later step of the run gives its messages to the reducer. -/
  | advance (updates : List Message)
  /-- The run summarises. -/
  | summarise (text : String)
  | compactThread (force : Bool) (text : String)
  | writeThreadGoal
  | updateThreadState (values : Values)
  /-- The journal of a run writes a row. -/
  | log (row : EventRow)
  /-- The run is over, or is cancelled. -/
  | finish (status : String) (lastAiMessage : Option (List Char))

namespace World

variable (w : World)

/-- A run can start, and its id is new. -/
def CanStart (run : String) : Prop :=
  w.active.isNone ∧ run ≠ "" ∧ run ∉ w.records.map RunRecord.runId

instance (run : String) : Decidable (w.CanStart run) :=
  inferInstanceAs (Decidable (_ ∧ _ ∧ _))

/-- The run begins from `values`, and writes them anew. -/
def startRun (run : String) (input : Message) (context : Context) (values : Values) : World :=
  { w.put values with
    records := ⟨run, "running", none⟩ :: w.records
    active := some ⟨run, values.messages, input, context, .input⟩ }

/-- The run takes its next step. -/
def proceed (s : Summarizer) (R : Reading) (a : ActiveRun) : World :=
  { w.put (R.proceed s a w.values) with
    active := some { a with stage := a.stage.next }
    calls := if a.stage = .injected then fun run => if run = a.run then some
        ⟨a.before, a.input, a.context, w.messages, (R.proceed s a w.values).messages⟩
        else w.calls run
      else w.calls }

/-- The messages of a later step, of which those with new ids are the run's. -/
def advance (a : ActiveRun) (updates : List Message) : World :=
  { w.put { w.values with messages := addMessages w.messages updates } with
    producer := fun id =>
      if id ∈ idsOf updates ∧ id ∉ idsOf w.messages then some a.run else w.producer id }

end World

/-- One step of the thread, if it can be taken. -/
@[grind =] def step (s : Summarizer) (R : Reading) (threadId : String) (w : World) : Act → Option World
  | .start run input context =>
    if w.CanStart run then some (w.startRun run input context w.values) else none
  | .regenerate run target context =>
    if w.CanStart run then
      match prepareRegeneratePayload R threadId w target with
      | .error _ => none
      | .ok payload => (w.checkpointWith payload.checkpoint).map fun base =>
          w.startRun run payload.input.toMessage context base.values
    else none
  | .proceed => (w.active.filter fun a => a.stage ≠ .called).map (w.proceed s R)
  | .advance updates => (w.active.filter fun a => a.stage = .called).map fun a =>
      w.advance a updates
  | .summarise text => (w.active.filter fun a => a.stage = .called).map fun _ =>
      w.put (summarised s false (some text) w.values)
  | .compactThread force text =>
    if w.active.isNone then
      match prepareCompaction s force w.messages w.values.summaryText with
      | none => some w
      | some _ => some (w.put (summarised s force (some text) w.values))
    else none
  | .writeThreadGoal => some (w.put w.values)
  | .updateThreadState values => if w.checkpoints = [] then none else some (w.put values)
  | .log row => some { w with rows := w.rows ++ [row] }
  | .finish status lastAiMessage => w.active.map fun a => { w with
      active := none
      records := w.records.map fun record =>
        if record.runId = a.run then { record with status, lastAiMessage } else record }

/-! ### The condition -/

def isText : Content → Bool
  | .text _ => true
  | .blocks _ _ => false

/-- The text of the message is its content, and no other text is noted. -/
structure Plain (m : Message) : Prop where
  text : isText m.content = true
  name : m.name ≠ some ""
  original : m.kwargs.others.lookup originalUserContentKey = none

/-- The run is to put a date before its input. -/
def Context.renews (context : Context) (messages : List Message) : Bool :=
  !context.timedOut && lastInjectedDate messages ≠ some context.currentDate.1

/-- There is no memory, or none is put into the thread. -/
def Context.Forgets (context : Context) (messages : List Message) : Prop :=
  lastInjectedDate messages = none → PyStr.stripList PyStr.isSpace context.memoryContext = []

/-- The second run finds what the first found: where the first has put a date before its input, so
does the second, and neither has a memory to put there; where not, the uploads are the same. -/
structure Alike (messages : List Message) (context first : Context) : Prop where
  renews : context.renews messages = first.renews messages
  forgets : first.renews messages = true → context.Forgets messages ∧ first.Forgets messages
  files : first.renews messages = false → context.files = first.files
  summary : context.summary.isSome = first.summary.isSome

/-- A run begins with a text that the user sees, with a new id, and before the first date no message
of the user is there. -/
structure World.Opens (w : World) (input : Message) (context : Context) : Prop where
  target : input.isTarget = true
  visible : isVisibleHumanMessage input = true
  plain : Plain input
  id_ne : input.id ≠ ""
  fresh : w.IsNew input.id
  user : w.IsNew (input.id ++ "__user")
  memory : w.IsNew (input.id ++ "__memory")
  first : context.renews w.messages = true → lastInjectedDate w.messages = none →
    ∀ m ∈ w.messages, m.isTarget = false

/-- The answer is found: the checkpoints that are not listed do not have the question, and the row
of the answer is listed, or its text begins with the last text of no other run. -/
structure World.Traced (R : Reading) (w : World) (target : String) : Prop where
  question : ∀ t ∈ R.lastTurn w.messages, ∀ c ∈ w.checkpoints.drop regenerateHistoryScanLimit,
    t.2.id ∉ idsOf c.values.messages
  run : (∃ row ∈ w.rows.reverse.take regenerateHistoryScanLimit,
      row.isAnswer = true ∧ row.messageId = some target ∧ row.runId ≠ "") ∨
    ∀ m ∈ w.messages, m.id = target → ∀ record ∈ w.records.take 10, record.status = "success" →
      R.runLastAiMatchesMessage record m = true → w.producer target = some record.runId

/-- A compaction leaves the latest answer with the question that it had or with none, and behind it
the latest question or none. -/
structure Keeps (R : Reading) (messages kept : List Message) : Prop where
  turn : ∀ t ∈ R.lastTurn kept, t ∈ R.lastTurn messages
  human : ∀ h ∈ lastHuman kept, h ∈ lastHuman messages

/-- A later step of a run changes no message that the user has sent and adds none; its new messages
have new ids. -/
structure World.Appends (R : Reading) (w : World) (a : ActiveRun) (updates : List Message) :
    Prop where
  distinct : (idsOf updates).Nodup
  human : ∀ m ∈ updates, isVisibleHumanMessage m = false
  new : ∀ m ∈ updates, m.id ∈ idsOf w.messages ∨ w.IsNew m.id
  /-- What is replaced is as visible as before. -/
  «over» : ∀ m ∈ updates, ∀ x ∈ w.messages, x.id = m.id →
    isVisibleHumanMessage x = false ∧ R.isVisibleAiMessage x = R.isVisibleAiMessage m
  rows : ∀ m ∈ updates, m.id ∉ idsOf w.messages → ∀ row ∈ w.rows,
    row.messageId = some m.id → row.runId = a.run

/-- The condition on a step. -/
def Orderly (s : Summarizer) (R : Reading) (w : World) : Act → Prop
  | .start _ input context => w.Opens input context
  | .regenerate _ target context => w.Traced R target ∧
      ∀ run ∈ w.producer target, ∀ call ∈ w.calls run, Alike call.before context call.context
  | .proceed => ∀ a ∈ w.active, a.stage = .injected →
      Keeps R w.messages (R.proceed s a w.values).messages ∧
        (lastHuman (R.proceed s a w.values).messages).isSome
  | .advance updates => ∀ a ∈ w.active, w.Appends R a updates
  | .summarise text => Keeps R w.messages (summarised s false (some text) w.values).messages
  | .compactThread force text =>
    Keeps R w.messages (summarised s force (some text) w.values).messages
  | .updateThreadState values => values = w.values
  | .log row => ∀ id ∈ row.messageId, ∀ run ∈ w.producer id, row.runId = run
  | .writeThreadGoal | .finish _ _ => True

/-- Nothing has been said in the thread. -/
structure World.Begins (w : World) : Prop where
  checkpoints : w.checkpoints = []
  active : w.active = none
  producer : ∀ id, w.producer id = none
  calls : ∀ run, w.calls run = none

/-! ### The promise -/

/-- The same message, but for the text of a reminder. -/
def SameMessage (m m' : Message) : Prop :=
  m = m' ∨ (m.isReminder = true ∧ m'.isReminder = true ∧ m.id = m'.id ∧ m.kind = m'.kind ∧
    m.name = m'.name)

/-- What the package decides of the one list it decides of the other. -/
def Agrees (s : Summarizer) (summaryText : Option String) (messages messages' : List Message) :
    Prop :=
  s.shouldSummarize messages summaryText = s.shouldSummarize messages' summaryText ∧
    s.determineCutoffIndex messages = s.determineCutoffIndex messages'

/-- The message that is sent again: under its own id, or under the one that the injection has given
it. -/
structure SameHuman (R : Reading) (input : HumanInput) (m : Message) : Prop where
  id : input.id = some m.id ∨ input.id = some (m.id ++ "__user")
  name : input.name = m.name
  text : input.text = R.getOriginalUserContentText m

/-- A text of the user under the id, or under the id that an injection has given the reminder. -/
def isTextUnder (id : String) (m : Message) : Bool :=
  m.isUserText && (m.id = id || m.id ++ "__user" = id)

def textsUnder (R : Reading) (id : String) (messages : List Message) : List (List Char) :=
  (messages.filter (isTextUnder id)).map R.getOriginalUserContentText

/-- The payload replays the turn of the answer: its input is what the run began with, and a run from
its checkpoint, with that input, calls the model with the messages that the run called it with. -/
structure Replay (s : Summarizer) (R : Reading) (w : World) (target : String)
    (payload : RegeneratePrepareResponse) (run : String) (call : Call) (base : Checkpoint) :
    Prop where
  produced : w.producer target = some run
  called : w.calls run = some call
  targetRunId : payload.targetRunId = run
  human : SameHuman R payload.input call.input
  located : w.checkpointWith payload.checkpoint = some base
  messages : ∀ context, Alike call.before context call.context →
    Agrees s base.values.summaryText
      (R.opened base.values.messages payload.input.toMessage context) call.opened →
    List.Forall₂ SameMessage (R.firstCall s base.values payload.input.toMessage context)
        call.messages ∧
      textsUnder R payload.input.toMessage.id
        (R.firstCall s base.values payload.input.toMessage context) = [payload.input.text]

end AfterFlow.Threads.Regeneration
