import AfterFlow.Keyed.Latest
import AfterFlow.PyStr
import AfterFlow.Transition.Runs

/-!
# What the chat shows

The page of a thread merges three copies of the conversation: the messages that the stream keeps
live, the history, and what a summarization has taken from the live ones. The last goes to the
history at some later render, and into a buffer at once, which each render lays over the history.
What the summarization takes is read off a cached copy of the live list, which a render replaces
only by one that is no shorter.

Messages are the same where their identities are.

## Scope

One thread is viewed, whose loaded history and superseded runs stay. The live list is the one
without the messages of superseded runs. Of a message there is what the merge reads, and its
content.

## History

`Entry.lastVisible` and `shown`, `World.gone` and `World.renders` are proof-only.
-/

namespace AfterFlow.Chat

open Keyed

/-! ### Messages -/

inductive MessageType where
  | human
  | ai
  | system
  | tool
  | remove
  deriving DecidableEq

structure Message where
  type : MessageType
  id : Option String
  toolCallId : Option String
  name : Option String
  /-- `additional_kwargs.hide_from_ui`. -/
  hideFromUi : Bool
  /-- The text is a slash-skill activation and nothing else. -/
  activation : Bool
  content : String
  /-- `additional_kwargs.turn_duration`. -/
  turnDuration : Option ℕ
  runId : Option String
  deriving DecidableEq

def hiddenControlMessageNames : List String :=
  ["summary", "loop_warning", "todo_reminder", "todo_completion_reminder"]

def isHiddenFromUIMessage (m : Message) : Bool :=
  m.hideFromUi || m.name.any (· ∈ hiddenControlMessageNames) || (m.type = .human && m.activation)

def messageIdentity (m : Message) : Option String :=
  match m.toolCallId.filter (· ≠ "") with
  | some toolCallId => some ("tool:" ++ toolCallId)
  | none => (m.id.filter (· ≠ "")).map ("message:" ++ ·)

/-- The identities of some messages. -/
def identities (messages : List Message) : List String := messages.filterMap messageIdentity

/-- The message, as the chat shows it: its identity and its content. -/
def Message.face (m : Message) : Option (String × String) :=
  if isHiddenFromUIMessage m then none else (messageIdentity m).map fun x => (x, m.content)

/-- What the chat shows of some messages. -/
def faces (messages : List Message) : List (String × String) := messages.filterMap Message.face

/-! ### The merge -/

/-- The last turn duration under an identity. -/
def turnDurationOf (messages : List Message) (identity : String) : Option ℕ :=
  ((messages.filter fun m => messageIdentity m = some identity).filterMap (·.turnDuration)).getLast?

/-- A turn duration that the message has not. -/
def Message.withDuration (durations : String → Option ℕ) (m : Message) : Message :=
  { m with turnDuration := m.turnDuration.or ((messageIdentity m).bind durations) }

/-- Whether a message stays, given all of them and those after it: the last visible one of its
identity, or the last one if none is visible. -/
def isKept (all : List Message) (m : Message) (after : List Message) : Bool :=
  match messageIdentity m with
  | none => true
  | some x =>
    if x ∈ keys (faces all) then !isHiddenFromUIMessage m && decide (x ∉ keys (faces after))
    else decide (x ∉ identities after)

def keptOf (all : List Message) : List Message → List Message
  | [] => []
  | m :: after => if isKept all m after then m :: keptOf all after else keptOf all after

def dedupeMessagesByIdentity (messages : List Message) : List Message :=
  (keptOf messages messages).map (Message.withDuration (turnDurationOf messages))

structure RunMessage where
  runId : String
  content : Message

def buildVisibleHistoryMessages (messageRows : List RunMessage) (supersededRunIds : List String)
    (appendedMessages : List Message) : List Message :=
  let visibleRows := messageRows.filter fun row => row.runId ∉ supersededRunIds
  dedupeMessagesByIdentity
    (visibleRows.map (fun row => { row.content with runId := some row.runId }) ++ appendedMessages)

/-- The chat shows the message, or another of its identity, among the live ones. -/
def isLive (threadMessages : List Message) (m : Message) : Bool :=
  (messageIdentity m).any (· ∈ keys (faces threadMessages))

def mergeMessages (historyMessages threadMessages optimisticMessages : List Message) :
    List Message :=
  -- history is cut where only messages follow that are live
  let cut := historyMessages.rdropWhile (isLive threadMessages)
  (dedupeMessagesByIdentity (cut ++ threadMessages ++ optimisticMessages)).map
    (Message.withDuration (turnDurationOf historyMessages))

/-! ### The rescue -/

def firstRetainedVisibleIdentity (summarizationMessages : List Message) : Option String :=
  (keys (faces (summarizationMessages.filter fun m => m.type ≠ .remove))).head?

/-- The messages before the first of the identity; all of them if there is none. -/
def before (first : Option String) (messages : List Message) : List Message :=
  messages.takeWhile fun m => first.isNone || messageIdentity m ≠ first

def computeSummarizationMovedMessages (currentMessages summarizationMessages : List Message)
    (summarizedMessageIds : List String) : List Message :=
  (before (firstRetainedVisibleIdentity summarizationMessages) currentMessages).filter fun m =>
    m.id.getD "" ∉ summarizedMessageIds

/-- The messages whose identities the history has not. -/
def missingFrom (history messages : List Message) : List Message :=
  messages.filter fun m => (messageIdentity m).any (· ∉ identities history)

def resolvePreservedHistory (visibleHistory pendingArchivedMessages : List Message) :
    List Message :=
  visibleHistory ++ missingFrom visibleHistory pendingArchivedMessages

def pruneConfirmedArchivedMessages (pendingArchivedMessages visibleHistory : List Message) :
    List Message :=
  pendingArchivedMessages.filter fun m => (messageIdentity m).all (· ∉ identities visibleHistory)

/-! ### The page -/

/-- A live message. -/
structure Entry where
  message : Message
  /-- The content of its last visible version. -/
  lastVisible : Option String
  /-- A render has shown it. -/
  shown : Bool
  deriving DecidableEq

namespace Entry

def identity (e : Entry) : Option String := messageIdentity e.message

def isVisible (e : Entry) : Bool := !isHiddenFromUIMessage e.message

/-- A message that comes to the live list. -/
def ofMessage (m : Message) : Entry :=
  ⟨m, if isHiddenFromUIMessage m then none else some m.content, false⟩

/-- A new version under the same identity. -/
def replace (e : Entry) (m : Message) : Entry :=
  ⟨m, if isHiddenFromUIMessage m then e.lastVisible else some m.content, e.shown⟩

/-- What the chat owes of a message that a render has shown. -/
def owed (e : Entry) : Option (String × String) :=
  if e.shown then e.identity.bind fun x => e.lastVisible.map fun content => (x, content) else none

def mark (e : Entry) : Entry := { e with shown := e.shown || e.isVisible }

end Entry

/-- What a render made of which live messages, and what it owed. -/
structure Render where
  live : List Message
  merged : List Message
  owed : List (String × String)

structure World where
  /-- `thread.messages`. -/
  live : List Entry
  /-- `messagesRef`. -/
  cached : List Message
  /-- `summarizedRef`. -/
  summarized : List String
  /-- `pendingArchivedMessagesRef`. -/
  pending : List Message
  appended : List Message
  /-- What `appendMessages` has queued. -/
  queue : List (List Message)
  /-- The visible history of the last render. -/
  history : List Message
  /-- The messages of a summarization whose values are still to come. -/
  arriving : Option (List Message)
  /-- What was shown of the messages that have left the live list. -/
  gone : List (String × String)
  renders : List Render

inductive Act where
  /-- A message is appended, or replaces the one of its identity. -/
  | update (m : Message)
  /-- `onUpdateEvent` of a summarization. -/
  | summarize (messages : List Message)
  /-- The values after the summarization. -/
  | values
  /-- A render, which applies the first `n` queued updates. -/
  | render (n : ℕ) (optimistic : List Message)
  /-- The effect after a render. -/
  | prune

section Steps

variable (rows : List RunMessage) (superseded : List String)

/-- The messages that the values carry. -/
def retained (messages : List Message) : List Message := messages.filter fun m => m.type ≠ .remove

def summaryIds (messages : List Message) : List String :=
  (messages.filter fun m => m.name = some "summary" && m.type = .human).map fun m => m.id.getD ""

namespace World

def messages (w : World) : List Message := w.live.map (·.message)

/-- What the chat owes: the messages that renders have shown, first those that have left the live
list. -/
def owed (w : World) : List (String × String) := w.gone ++ w.live.filterMap Entry.owed

def update (w : World) (m : Message) : World :=
  if messageIdentity m ∈ w.live.map Entry.identity then
    { w with
      live := w.live.map fun e => if e.identity = messageIdentity m then e.replace m else e }
  else { w with live := w.live ++ [Entry.ofMessage m] }

/-- What the summarization takes. -/
def moved (w : World) (messages : List Message) : List Message :=
  computeSummarizationMovedMessages w.cached messages (w.summarized ++ summaryIds messages)

def summarize (w : World) (messages : List Message) : World :=
  if messages.length ≥ 2 then
    { w with
      summarized := w.summarized ++ summaryIds messages
      pending := dedupeMessagesByIdentity (w.pending ++ w.moved messages)
      queue := w.queue ++ [w.moved messages]
      cached := []
      arriving := some messages }
  else { w with arriving := some messages }

/-- The entry of a message that is retained. -/
def carry (w : World) (m : Message) : Entry :=
  { Entry.ofMessage m with
    shown := !isHiddenFromUIMessage m &&
      w.live.any fun e => e.identity = messageIdentity m && e.shown }

def values (w : World) (messages : List Message) : World :=
  { w with
    live := (retained messages).map w.carry
    gone := w.gone ++
      (w.live.filterMap Entry.owed).filter fun p => p.1 ∉ keys (faces (retained messages))
    arriving := none }

/-- React applies the first queued updates. -/
def commit (w : World) (n : ℕ) : World :=
  let appended := (w.queue.take n).foldl (fun a q => dedupeMessagesByIdentity (a ++ q)) w.appended
  { w with
    appended := appended
    queue := w.queue.drop n
    history := buildVisibleHistoryMessages rows superseded appended }

/-- The rest of a render. -/
def paint (w : World) (optimistic : List Message) : World :=
  let live := w.live.map Entry.mark
  let shown := { w with
    live := live
    cached := if w.messages.length ≥ w.cached.length then w.messages else w.cached }
  { shown with
    renders := w.renders ++ [⟨w.messages, mergeMessages
      (resolvePreservedHistory w.history w.pending) w.messages optimistic, shown.owed⟩] }

end World

@[grind =] def step (w : World) : Act → Option World
  | .update m => if (messageIdentity m).isSome then some (w.update m) else none
  | .summarize messages => if w.arriving.isNone then some (w.summarize messages) else none
  | .values => w.arriving.map w.values
  | .render n optimistic => some ((w.commit rows superseded n).paint optimistic)
  | .prune => some { w with pending := pruneConfirmedArchivedMessages w.pending w.history }

/-! ### Conditions -/

/-- The history that was loaded. -/
def loaded : List Message :=
  (rows.filter fun row => row.runId ∉ superseded).map fun row =>
    { row.content with runId := some row.runId }

/-- Everything that summarizations have taken, committed or not. -/
def World.archive (w : World) : List Message := w.appended ++ w.queue.flatten

/-- The condition on a summarization.
* It retains something, so that its update has two messages.
* What it retains is, as far as the chat shows it, the live list from the first retained message on.
* Of the messages before that, the cached list has what the live list has.
* Retained messages have identities of their own. -/
structure World.Fits (w : World) (messages : List Message) : Prop where
  two : 2 ≤ messages.length
  tail : faces (before (firstRetainedVisibleIdentity messages) w.messages) ++
    faces (retained messages) = faces w.messages
  cached : faces (w.moved messages) =
    faces (before (firstRetainedVisibleIdentity messages) w.messages)
  known : ∀ x ∈ identities (w.moved messages),
    x ∈ identities (before (firstRetainedVisibleIdentity messages) w.messages)
  named : ∀ m ∈ retained messages, (messageIdentity m).isSome = true
  nodup : (identities (retained messages)).Nodup

/-- The condition on a step. An update does not come between the two events of a summarization,
brings back no message from the history, and does not hide what a render has shown. Optimistic
messages have identities of their own. -/
def Orderly (w : World) : Act → Prop
  | .update m => w.arriving = none ∧
      (∀ x ∈ messageIdentity m, x ∉ identities (loaded rows superseded ++ w.archive)) ∧
      (isHiddenFromUIMessage m = true → ∀ e ∈ w.live, e.identity = messageIdentity m →
        e.shown = false)
  | .summarize messages => w.Fits messages
  | .render _ optimistic => ∀ x ∈ identities optimistic,
      x ∉ keys w.gone ∧ x ∉ identities w.messages
  | _ => True

/-- No render has taken place. The history that was loaded is older than the live list. -/
structure World.Begins (w : World) : Prop where
  named : ∀ e ∈ w.live, e.identity.isSome = true
  nodup : (identities w.messages).Nodup
  older : ∀ x ∈ identities w.messages, x ∉ identities (loaded rows superseded)
  live : ∀ e ∈ w.live, e = Entry.ofMessage e.message
  cached : w.cached = []
  pending : w.pending = []
  appended : w.appended = []
  queue : w.queue = []
  history : w.history = buildVisibleHistoryMessages rows superseded []
  arriving : w.arriving = none
  gone : w.gone = []
  renders : w.renders = []

/-- No message that was shown vanishes. -/
structure World.Whole (w : World) : Prop where
  /-- A render owes its visible live messages. -/
  live : ∀ r ∈ w.renders, faces r.live ⊆ r.owed
  /-- What is owed is owed at every later render, in the same order. -/
  later : w.renders.Pairwise fun r r' => (keys r.owed).Sublist (keys r'.owed)
  /-- What is owed is on the page, in order, in its last visible version and once. -/
  merged : ∀ r ∈ w.renders, (keys r.owed).Nodup ∧
    (faces r.merged).filter (fun p => p.1 ∈ keys r.owed) = r.owed

end Steps

end AfterFlow.Chat
