import AfterFlow.PyStr
import AfterFlow.Transcript.Regroup

/-!
# Dangling tool calls

Before a model call `DanglingToolCallMiddleware` rewrites the message list. A provider accepts a
list only if every AI message is followed at once by the results of the tools it calls, and a run
that was interrupted leaves calls without results, or results in another place.

The middleware collects the ids of all calls, from the structured calls of a message, from the raw
ones of the provider where there are no structured ones, and from the calls that could not be
parsed. It then copies the list, leaving out the results of known calls and putting after each AI
message the next result for each of its calls, or a placeholder. On the way it replaces empty tool
names. Of a call nothing but its id and its names is read, so the arguments are left out, and so are
the fields of messages that nothing here reads.

`buildPatchedMessages` is a transcript regrouped in the sense of `Transcript.Scheme`, which carries
the results. A message that lists a call twice is answered twice; this happens to a message with
nothing but unparsable calls, whose raw and invalid calls are the same ones.

## Main results

* `patchFrom_eq_regroup` — the loop regroups
* `sends_grouped` — what is sent is grouped, a grouped list is sent as it is, and sending what is
  sent changes nothing
-/

namespace AfterFlow.Agents

open PyStr Transcript List Function

/-! ### Names -/

/-- What a dictionary has under `"name"`: nothing that counts as true, a text, or another object. -/
inductive Name where
  | absent
  | text (s : String)
  | object
  deriving DecidableEq

/-- Whether the name counts as true. -/
def Name.truthy : Name → Bool
  | absent => false
  | text s => s ≠ ""
  | object => true

def unknownToolName : String := "unknown_tool"

def validToolName : Name → Bool
  | .text s => strip s ≠ ""
  | _ => false

def normalizeToolName (name : Name) : String :=
  match name with
  | .text s => if validToolName name then strip s else unknownToolName
  | _ => unknownToolName

def hasInvalidToolName (name : Name) : Bool := !validToolName name

/-! ### Messages -/

/-- The content of a message. -/
inductive Content where
  | text (s : String)
  | blocks (blocks : List String)
  deriving DecidableEq

/-- An item of a list of calls, which is expected to be a dictionary. -/
inductive Slot (α : Type) where
  | dict (value : α)
  | object (repr : String)
  deriving DecidableEq

namespace Slot

variable {α β : Type}

def map (f : α → β) : Slot α → Slot β
  | dict value => dict (f value)
  | object repr => object repr

def dict? : Slot α → Option α
  | dict value => some value
  | object _ => none

end Slot

/-- An item of `tool_calls`. -/
structure ToolCall where
  id : Option String
  name : Name
  deriving DecidableEq

/-- An item of `additional_kwargs["tool_calls"]`; `function` is the name in its function, if that is
a dictionary. -/
structure RawToolCall where
  id : Option String
  name : Name
  function : Option Name
  deriving DecidableEq

/-- An item of `invalid_tool_calls`. -/
structure InvalidToolCall where
  id : Option String
  name : Name
  error : Option String
  deriving DecidableEq

/-- An `AIMessage`. -/
structure AiMessage where
  content : Content
  toolCalls : List (Slot ToolCall)
  rawToolCalls : List (Slot RawToolCall)
  invalidToolCalls : List (Slot InvalidToolCall)
  deriving DecidableEq

inductive ToolStatus where
  | success
  | error
  deriving DecidableEq

structure ToolMessage where
  toolCallId : String
  name : Name
  content : Content
  status : ToolStatus
  deriving DecidableEq

inductive Message where
  | ai (message : AiMessage)
  | tool (message : ToolMessage)
  /-- A human or system message, or any other. -/
  | other (type : String) (content : Content)
  deriving DecidableEq

/-! ### The middleware -/

/-- A normalized tool call. -/
structure NormalizedCall where
  id : Option String
  name : String
  invalidToolName : Bool
  invalid : Bool
  error : Option String
  deriving DecidableEq

/-- The id, where it counts as true. -/
def NormalizedCall.callId (tc : NormalizedCall) : Option String := tc.id.filter fun id => id ≠ ""

def ToolCall.normalize (tc : ToolCall) : NormalizedCall :=
  { id := tc.id, name := normalizeToolName tc.name
    invalidToolName := hasInvalidToolName tc.name, invalid := false, error := none }

/-- The name of a raw call, or else the one in its function. -/
def RawToolCall.calledName (tc : RawToolCall) : Name :=
  match tc.function with
  | some name => if tc.name.truthy then tc.name else name
  | none => tc.name

def RawToolCall.normalize (tc : RawToolCall) : NormalizedCall :=
  { id := tc.id, name := normalizeToolName tc.calledName
    invalidToolName := hasInvalidToolName tc.calledName, invalid := false, error := none }

def InvalidToolCall.normalize (tc : InvalidToolCall) : NormalizedCall :=
  { id := tc.id, name := normalizeToolName tc.name
    invalidToolName := hasInvalidToolName tc.name, invalid := true, error := tc.error }

def messageToolCalls (msg : AiMessage) : List NormalizedCall :=
  (msg.toolCalls.filterMap Slot.dict?).map ToolCall.normalize ++
    (if msg.toolCalls = [] then
      (msg.rawToolCalls.filterMap Slot.dict?).map RawToolCall.normalize else []) ++
    (msg.invalidToolCalls.filterMap Slot.dict?).map InvalidToolCall.normalize

def maxRecoveryErrorDetailLen : ℕ := 500

def emptyToolNameError : String :=
  "Tool call could not be executed because its name was missing or empty."

def syntheticToolMessageContent (tc : NormalizedCall) : String :=
  if tc.invalidToolName then
    "[" ++ emptyToolNameError ++ " Use one of the available tool names when retrying.]"
  else if tc.invalid then
    let errorText := String.ofList ((tc.error.getD "").toList.take maxRecoveryErrorDetailLen)
    if tc.name = "write_file" then
      let details := if errorText ≠ "" then " Parser error: " ++ errorText else ""
      "[write_file failed before execution: the tool-call arguments were not valid JSON, " ++
      "so no file was written. This often happens when the model tries to write a very " ++
      "large Markdown file in a single tool call, especially when `content` contains " ++
      "unescaped quotes, inline JSON, backslashes, or code fences. Do not retry the same " ++
      "large `write_file` payload for this artifact; provide the report/content directly " ++
      "as normal assistant text in your next response. If a file write is still needed " ++
      "later, split the file into smaller sections instead of one large payload." ++ details ++ "]"
    else if errorText ≠ "" then
      "[Tool call could not be executed because its arguments were invalid: " ++ errorText ++ "]"
    else "[Tool call could not be executed because its arguments were invalid.]"
  else "[Tool call was interrupted and did not return a result.]"

def ToolCall.sanitize (tc : ToolCall) : ToolCall :=
  { tc with name := .text (normalizeToolName tc.name) }

def RawToolCall.sanitize (tc : RawToolCall) : RawToolCall :=
  match tc.function with
  | some name => { tc with function := some (.text (normalizeToolName name)) }
  | none => { tc with name := .text (normalizeToolName tc.name) }

/-- The names are made non-empty; where they were, nothing changes. -/
def sanitizeAiMessage (msg : AiMessage) : AiMessage :=
  { msg with
    toolCalls := msg.toolCalls.map (Slot.map ToolCall.sanitize)
    rawToolCalls := msg.rawToolCalls.map (Slot.map RawToolCall.sanitize) }

def sanitizeAiMessageToolNames : Message → Message
  | .ai msg => .ai (sanitizeAiMessage msg)
  | msg => msg

/-- `defaultdict(deque)`. -/
abbrev Queues := String → List ToolMessage

/-- A tool message joins the queue of its call. -/
def Queues.push (q : Queues) : Message → Queues
  | .tool msg => update q msg.toolCallId (q msg.toolCallId ++ [msg])
  | _ => q

def toolMessagesById (messages : List Message) : Queues :=
  messages.foldl Queues.push fun _ => []

/-- The ids of the calls of a message. -/
def Message.callIds : Message → List String
  | .ai msg => (messageToolCalls msg).filterMap NormalizedCall.callId
  | _ => []

def toolCallIds (messages : List Message) : Finset String :=
  (messages.flatMap Message.callIds).toFinset

/-- The result that is sent for a call: the one found, which is given a name where the call has
none, or a placeholder. -/
def toolMessageFor (id : String) (tc : NormalizedCall) : Option ToolMessage → ToolMessage
  | some existing =>
    if tc.invalidToolName && hasInvalidToolName existing.name then
      { existing with name := .text tc.name } else existing
  | none => ⟨id, .text tc.name, .text (syntheticToolMessageContent tc), .error⟩

/-- The loop over the calls of a message, with the queues it leaves. -/
@[grind =] def answerCalls : List NormalizedCall → Queues → List Message × Queues
  | [], q => ([], q)
  | tc :: tcs, q =>
    match tc.callId with
    | none => answerCalls tcs q
    | some id =>
      let rest := answerCalls tcs (update q id (q id).tail)
      (.tool (toolMessageFor id tc (q id).head?) :: rest.1, rest.2)

/-- The loop over the messages. -/
@[grind =] def patchFrom (ids : Finset String) : Queues → List Message → List Message
  | _, [] => []
  | q, .tool msg :: messages =>
    if msg.toolCallId ∈ ids then patchFrom ids q messages
    else .tool msg :: patchFrom ids q messages
  | q, .ai msg :: messages =>
    let answered := answerCalls (messageToolCalls msg) q
    sanitizeAiMessageToolNames (.ai msg) :: (answered.1 ++ patchFrom ids answered.2 messages)
  | q, msg :: messages => sanitizeAiMessageToolNames msg :: patchFrom ids q messages

def buildPatchedMessages (messages : List Message) : Option (List Message) :=
  let patched := patchFrom (toolCallIds messages) (toolMessagesById messages) messages
  if patched = messages then none else some patched

/-- The messages of the request that `wrap_model_call` hands on. -/
def sent (messages : List Message) : List Message :=
  (buildPatchedMessages messages).getD messages

/-! ### Normal names -/

section Names

theorem strip_unknownToolName : strip unknownToolName = unknownToolName := by decide

theorem valid_text {s : String} : validToolName (.text s) = true ↔ strip s ≠ "" := decide_eq_true_iff

theorem normalizeToolName_of_valid {s : String} (h : validToolName (.text s) = true) :
    normalizeToolName (.text s) = strip s := if_pos h

theorem normalizeToolName_of_invalid {name : Name} (h : ¬validToolName name = true) :
    normalizeToolName name = unknownToolName := by
  cases name with
  | text s => exact if_neg h
  | _ => rfl

@[simp] theorem strip_normalizeToolName (name : Name) :
    strip (normalizeToolName name) = normalizeToolName name := by
  by_cases h : validToolName name = true
  · cases name with
    | text s => rw [normalizeToolName_of_valid h, strip_strip]
    | absent | object => cases h
  · rw [normalizeToolName_of_invalid h, strip_unknownToolName]

@[simp] theorem valid_normalizeToolName (name : Name) :
    validToolName (.text (normalizeToolName name)) = true := by
  rw [valid_text, strip_normalizeToolName]
  by_cases h : validToolName name = true
  · cases name with
    | text s => rw [normalizeToolName_of_valid h]; exact valid_text.1 h
    | absent | object => cases h
  · rw [normalizeToolName_of_invalid h]
    decide

@[simp] theorem normalizeToolName_idem (name : Name) :
    normalizeToolName (.text (normalizeToolName name)) = normalizeToolName name := by
  rw [normalizeToolName_of_valid (valid_normalizeToolName name), strip_normalizeToolName]

end Names

/-! ### Calls of a message that is sent -/

theorem dicts_map {α β : Type} (f : α → β) (l : List (Slot α)) :
    (l.map (Slot.map f)).filterMap Slot.dict? = (l.filterMap Slot.dict?).map f := by
  rw [filterMap_map, map_filterMap]
  congr 1
  funext slot
  cases slot <;> rfl

/-- A call of the message as it is sent: it has the same id, and its name is missing only if the
original one was. -/
def Tidies (tc tc' : NormalizedCall) : Prop :=
  tc'.id = tc.id ∧ validToolName (.text tc.name) = true ∧
    (tc'.invalidToolName = true → tc.invalidToolName = true)

theorem ToolCall.tidies (tc : ToolCall) : Tidies tc.normalize tc.sanitize.normalize :=
  ⟨rfl, valid_normalizeToolName tc.name, fun h => by
    simp [ToolCall.normalize, ToolCall.sanitize, hasInvalidToolName] at h⟩

theorem RawToolCall.tidies (tc : RawToolCall) : Tidies tc.normalize tc.sanitize.normalize := by
  obtain ⟨id, name, function⟩ := tc
  refine ⟨by cases function <;> rfl, valid_normalizeToolName _, fun h => ?_⟩
  cases function with
  | none => simp [RawToolCall.normalize, RawToolCall.sanitize, calledName, hasInvalidToolName] at h
  | some f =>
    by_cases hname : name.truthy = true
    · simpa [RawToolCall.normalize, RawToolCall.sanitize, calledName, hname] using h
    · simp [RawToolCall.normalize, RawToolCall.sanitize, calledName, hname,
        hasInvalidToolName] at h

theorem InvalidToolCall.tidies (tc : InvalidToolCall) : Tidies tc.normalize tc.normalize :=
  ⟨rfl, valid_normalizeToolName tc.name, fun h => h⟩

theorem messageToolCalls_sanitize (msg : AiMessage) :
    List.Forall₂ Tidies (messageToolCalls msg) (messageToolCalls (sanitizeAiMessage msg)) := by
  have hraw : List.Forall₂ Tidies
      (if msg.toolCalls = [] then
        (msg.rawToolCalls.filterMap Slot.dict?).map RawToolCall.normalize else [])
      (if (sanitizeAiMessage msg).toolCalls = [] then
        ((sanitizeAiMessage msg).rawToolCalls.filterMap Slot.dict?).map RawToolCall.normalize
        else []) := by
    by_cases h : msg.toolCalls = []
    · simp only [sanitizeAiMessage, h, map_nil, if_true, dicts_map, map_map,
        forall₂_map_left_iff, forall₂_map_right_iff]
      exact forall₂_same.2 fun tc _ => tc.tidies
    · simp [sanitizeAiMessage, h]
  refine rel_append (rel_append ?_ hraw) ?_
  · simp only [sanitizeAiMessage, dicts_map, map_map, forall₂_map_left_iff,
      forall₂_map_right_iff]
    exact forall₂_same.2 fun tc _ => tc.tidies
  · simp only [sanitizeAiMessage, forall₂_map_left_iff, forall₂_map_right_iff]
    exact forall₂_same.2 fun tc _ => tc.tidies

theorem sanitizeAiMessage_idem (msg : AiMessage) :
    sanitizeAiMessage (sanitizeAiMessage msg) = sanitizeAiMessage msg := by
  have htool : ∀ slot : Slot ToolCall, (slot.map ToolCall.sanitize).map ToolCall.sanitize =
      slot.map ToolCall.sanitize := by
    rintro (tc | repr)
    · simp [Slot.map, ToolCall.sanitize]
    · rfl
  have hraw : ∀ slot : Slot RawToolCall, (slot.map RawToolCall.sanitize).map RawToolCall.sanitize =
      slot.map RawToolCall.sanitize := by
    rintro (⟨id, name, _ | function⟩ | repr)
    · simp [Slot.map, RawToolCall.sanitize]
    · simp [Slot.map, RawToolCall.sanitize]
    · rfl
  simp [sanitizeAiMessage, htool, hraw]

/-! ### Messages as calls and answers -/

/-- The calls with an id. -/
def Message.calls : Message → List (String × NormalizedCall)
  | .ai msg => (messageToolCalls msg).filterMap fun tc => tc.callId.map fun id => (id, tc)
  | _ => []

/-- The id of the call that a message is the result of. -/
def Message.answers : Message → Option String
  | .tool msg => some msg.toolCallId
  | _ => none

def Message.reply (call : String × NormalizedCall) : Option Message → Message
  | some (.tool existing) => .tool (toolMessageFor call.1 call.2 (some existing))
  | some msg => msg
  | none => .tool (toolMessageFor call.1 call.2 none)

theorem toolCallId_toolMessageFor {id : String} {tc : NormalizedCall} {found : Option ToolMessage}
    (h : ∀ msg ∈ found, msg.toolCallId = id) : (toolMessageFor id tc found).toolCallId = id := by
  cases found with
  | none => rfl
  | some msg =>
    rw [toolMessageFor]
    split
    · exact h msg rfl
    · exact h msg rfl

/-- What is sent for a call is sent as it is for the call as it is sent. -/
theorem Tidies.reply_reply {tc tc' : NormalizedCall} (h : Tidies tc tc') (id : String)
    (found : Option Message) :
    Message.reply (id, tc') (some (Message.reply (id, tc) found)) =
      Message.reply (id, tc) found := by
  have hvalid : ∀ msg : ToolMessage, (tc.invalidToolName = true → validToolName msg.name = true) →
      toolMessageFor id tc' (some msg) = msg := by
    intro msg hmsg
    refine if_neg fun hboth => ?_
    obtain ⟨h', hname⟩ := (Bool.and_eq_true _ _).mp hboth
    simp [hasInvalidToolName, hmsg (h.2.2 h')] at hname
  rcases found with _ | existing | existing | ⟨type, content⟩
  · exact congrArg Message.tool (hvalid _ fun _ => h.2.1)
  · rfl
  · refine congrArg Message.tool (hvalid _ fun hinvalid => ?_)
    rw [toolMessageFor, hinvalid, Bool.true_and]
    split
    · exact h.2.1
    · simp_all [hasInvalidToolName]
  · rfl

/-- Messages as a scheme of calls and answers. -/
def conversation : Scheme Message (String × NormalizedCall) String where
  answers := Message.answers
  calls := Message.calls
  key := Prod.fst
  clean := sanitizeAiMessageToolNames
  reply := Message.reply
  answers_clean msg := by cases msg <;> rfl
  clean_clean msg := by
    cases msg with
    | ai msg => exact congrArg Message.ai (sanitizeAiMessage_idem msg)
    | _ => rfl
  clean_answer msg h := by
    cases msg with
    | ai msg => cases h
    | _ => rfl
  calls_answer msg h := by
    cases msg with
    | ai msg => cases h
    | _ => rfl
  answers_reply call found h := by
    rcases found with _ | msg | msg | ⟨type, content⟩
    · rfl
    · cases h _ rfl
    · refine congrArg some (toolCallId_toolMessageFor fun msg' hmsg' => ?_)
      obtain rfl := Option.some.inj hmsg'
      exact Option.some.inj (h _ rfl)
    · cases h _ rfl
  calls_clean msg := by
    cases msg with
    | ai msg =>
      refine rel_filterMap (fun {tc tc'} h => ?_) (messageToolCalls_sanitize msg)
      rw [NormalizedCall.callId, NormalizedCall.callId, h.1]
      cases tc.id.filter fun id => id ≠ "" with
      | none => exact .none
      | some id => exact .some ⟨rfl, h.reply_reply id⟩
    | _ => exact .nil

theorem keys_eq_callIds (msg : Message) : conversation.keys msg = msg.callIds := by
  cases msg with
  | ai msg =>
    show (List.filterMap _ _).map _ = List.filterMap _ _
    rw [map_filterMap]
    congr 1
    funext tc
    cases tc.callId <;> rfl
  | _ => rfl

theorem called_eq_toolCallIds (messages : List Message) :
    conversation.called messages = toolCallIds messages := by
  rw [Scheme.called, toolCallIds, funext keys_eq_callIds]

/-! ### The loop regroups -/

/-- The queues as queues of messages. -/
def Queues.messages (q : Queues) (id : String) : List Message := (q id).map .tool

theorem Queues.messages_update (q : Queues) (id : String) (l : List ToolMessage) :
    Queues.messages (update q id l) = update q.messages id (l.map .tool) := by
  funext id'
  by_cases h : id' = id
  · subst h
    simp [Queues.messages]
  · simp [Queues.messages, h]

theorem messages_toolMessagesById (messages : List Message) :
    (toolMessagesById messages).messages = conversation.queues messages := by
  have h : ∀ q : Queues, Queues.messages (messages.foldl Queues.push q) =
      fun id => q.messages id ++ conversation.queues messages id := by
    induction messages with
    | nil => intro q; simp [Scheme.queues]
    | cons msg messages ih =>
      intro q
      rw [foldl_cons, ih]
      funext id
      cases msg with
      | tool msg =>
        rw [Scheme.queues_cons_some (S := conversation) (k := msg.toolCallId) rfl,
          Queues.push, Queues.messages_update]
        by_cases hid : id = msg.toolCallId
        · subst hid
          simp [Queues.messages]
        · simp [hid]
      | _ => rw [Scheme.queues_cons_none (S := conversation) rfl]; rfl
  rw [toolMessagesById, h]
  simp [Queues.messages]

theorem replies_eq_answerCalls (tcs : List NormalizedCall) (q : Queues) :
    conversation.replies
        (tcs.filterMap fun tc => tc.callId.map fun id => (id, tc)) q.messages =
      ((answerCalls tcs q).1, (answerCalls tcs q).2.messages) := by
  induction tcs generalizing q with
  | nil => rfl
  | cons tc tcs ih =>
    cases htc : tc.callId with
    | none => simpa [filterMap_cons, answerCalls, htc] using ih q
    | some id =>
      have hhead : conversation.reply (id, tc) (q.messages id).head? =
          .tool (toolMessageFor id tc (q id).head?) := by
        rw [Queues.messages, head?_map]
        cases (q id).head? <;> rfl
      rw [filterMap_cons_some (by rw [htc]; rfl), Scheme.replies, answerCalls, htc]
      dsimp only
      rw [show conversation.key (id, tc) = id from rfl, hhead]
      have htail : (q.messages id).tail = (q id).tail.map Message.tool := by
        rw [Queues.messages, map_tail]
      rw [htail, ← Queues.messages_update, ih]

/-- **The loop regroups.** -/
theorem patchFrom_eq_regroup (ids : Finset String) (q : Queues) (messages : List Message) :
    patchFrom ids q messages = conversation.regroup ids q.messages messages := by
  induction messages generalizing q with
  | nil => rfl
  | cons msg messages ih =>
    cases msg with
    | tool msg => simp only [patchFrom, ih]; rfl
    | ai msg =>
      have h := replies_eq_answerCalls (messageToolCalls msg) q
      rw [patchFrom, ih]
      show _ = sanitizeAiMessageToolNames (.ai msg) :: ((conversation.replies _ _).1 ++
        conversation.regroup ids (conversation.replies _ _).2 messages)
      rw [show conversation.calls (.ai msg) = (messageToolCalls msg).filterMap _ from rfl, h]
    | other type content =>
      show sanitizeAiMessageToolNames (.other type content) :: patchFrom ids q messages = _
      rw [ih]
      rfl

theorem sent_eq (messages : List Message) : sent messages = conversation.sent messages := by
  have hpatch : patchFrom (toolCallIds messages) (toolMessagesById messages) messages =
      conversation.sent messages := by
    rw [patchFrom_eq_regroup, messages_toolMessagesById, ← called_eq_toolCallIds]
    rfl
  rw [sent, buildPatchedMessages, hpatch]
  by_cases h : conversation.sent messages = messages
  · simp [h]
  · simp [h]

/-! ### What is sent -/

/-- A name that is neither empty nor padded. -/
def Name.Proper : Name → Prop
  | .text s => s ≠ "" ∧ strip s = s
  | _ => False

instance (name : Name) : Decidable name.Proper := by
  cases name <;> unfold Name.Proper <;> infer_instance

/-- The names of a raw call: the one in its function, and its own where one is given. -/
def RawToolCall.names (tc : RawToolCall) : List Name :=
  match tc.function with
  | some name => if tc.name.truthy then [name, tc.name] else [name]
  | none => [tc.name]

/-- The names of the calls of a message. -/
def Message.callNames : Message → List Name
  | .ai msg =>
    (msg.toolCalls.filterMap Slot.dict?).map ToolCall.name ++
      (msg.rawToolCalls.filterMap Slot.dict?).flatMap RawToolCall.names ++
      (msg.invalidToolCalls.filterMap Slot.dict?).map InvalidToolCall.name
  | _ => []

def Message.isTool : Message → Bool
  | .tool _ => true
  | _ => false

/-- One answer to each id in order, unless the message has an id twice; then an answer to each. -/
def Covers (ids answered : List String) : Prop :=
  (ids.Nodup → Scheme.Once ids answered) ∧ ∀ id, id ∈ answered ↔ id ∈ ids

theorem covers_self (ids : List String) : Covers ids ids :=
  ⟨Scheme.once_self, fun _ => Iff.rfl⟩

theorem Name.Proper.valid {name : Name} (h : name.Proper) : validToolName name = true := by
  cases name with
  | text s => exact valid_text.2 (h.2.symm ▸ h.1)
  | _ => exact h.elim

theorem Name.Proper.normalize {name : Name} (h : name.Proper) :
    Name.text (normalizeToolName name) = name := by
  cases name with
  | text s => rw [normalizeToolName_of_valid h.valid, h.2]
  | _ => exact h.elim

theorem map_slot_eq_self {α : Type} {f : α → α} {l : List (Slot α)}
    (h : ∀ a ∈ l.filterMap Slot.dict?, f a = a) : l.map (Slot.map f) = l := by
  refine (map_congr_left fun slot hslot => ?_).trans (map_id l)
  cases slot with
  | dict a => exact congrArg Slot.dict (h a (mem_filterMap.2 ⟨_, hslot, rfl⟩))
  | object repr => rfl

theorem RawToolCall.sanitize_proper {tc : RawToolCall} (h : ∀ name ∈ tc.names, name.Proper) :
    tc.sanitize = tc := by
  obtain ⟨id, name, function⟩ := tc
  cases function with
  | none => rw [sanitize, (h name (by simp [names])).normalize]
  | some f =>
    have hf : f.Proper := h f (by by_cases hname : name.truthy = true <;> simp [names, hname])
    show (⟨id, name, some (.text (normalizeToolName f))⟩ : RawToolCall) = _
    rw [hf.normalize]

theorem RawToolCall.calledName_mem (tc : RawToolCall) : tc.calledName ∈ tc.names := by
  obtain ⟨id, name, function⟩ := tc
  cases function with
  | none => simp [calledName, names]
  | some f => by_cases h : name.truthy = true <;> simp [calledName, names, h]

theorem sanitize_proper {msg : Message} (h : ∀ name ∈ msg.callNames, name.Proper) :
    sanitizeAiMessageToolNames msg = msg := by
  cases msg with
  | ai msg =>
    have htool : msg.toolCalls.map (Slot.map ToolCall.sanitize) = msg.toolCalls := by
      refine map_slot_eq_self fun tc htc => ?_
      have hname : tc.name.Proper := h _ (by
        simp only [Message.callNames, mem_append]
        exact .inl (.inl (mem_map_of_mem htc)))
      rw [ToolCall.sanitize, hname.normalize]
    have hraw : msg.rawToolCalls.map (Slot.map RawToolCall.sanitize) = msg.rawToolCalls := by
      refine map_slot_eq_self fun tc htc => RawToolCall.sanitize_proper fun name hname => h _ ?_
      simp only [Message.callNames, mem_append]
      exact .inl (.inr (mem_flatMap.2 ⟨tc, htc, hname⟩))
    rw [sanitizeAiMessageToolNames, sanitizeAiMessage, htool, hraw]
  | _ => rfl

/-- Calls with proper names take any result as it is. -/
theorem reply_proper {msg : Message} (h : ∀ name ∈ msg.callNames, name.Proper)
    {call : String × NormalizedCall} (hcall : call ∈ msg.calls) (found : Message) :
    Message.reply call (some found) = found := by
  have hinvalid : call.2.invalidToolName = false := by
    have hvalid : ∀ name ∈ msg.callNames, hasInvalidToolName name = false := fun name hname => by
      rw [hasInvalidToolName, (h name hname).valid, Bool.not_true]
    cases msg with
    | ai msg =>
      obtain ⟨tc, htc, hid⟩ := mem_filterMap.1 hcall
      obtain ⟨id, -, rfl⟩ := Option.map_eq_some_iff.1 hid
      simp only [Message.callNames, mem_append] at hvalid
      simp only [messageToolCalls, mem_append] at htc
      rcases htc with (htc | htc) | htc
      · obtain ⟨tc, hmem, rfl⟩ := mem_map.1 htc
        exact hvalid _ (.inl (.inl (mem_map_of_mem hmem)))
      · split at htc
        · obtain ⟨tc, hmem, rfl⟩ := mem_map.1 htc
          exact hvalid _ (.inl (.inr (mem_flatMap.2 ⟨tc, hmem, tc.calledName_mem⟩)))
        · cases htc
      · obtain ⟨tc, hmem, rfl⟩ := mem_map.1 htc
        exact hvalid _ (.inr (mem_map_of_mem hmem))
    | _ => cases hcall
  cases found with
  | tool existing =>
    show Message.tool (toolMessageFor _ _ _) = _
    rw [toolMessageFor, hinvalid]
    rfl
  | _ => rfl

theorem sent_answers_each (messages : List Message) :
    conversation.Settled (toolCallIds messages) (sent messages) := by
  rw [sent_eq, ← called_eq_toolCallIds]
  exact Scheme.sent_settled messages

theorem filter_sent (messages : List Message) :
    (sent messages).filter (fun msg => !msg.isTool) =
      (messages.filter fun msg => !msg.isTool).map sanitizeAiMessageToolNames := by
  have hisTool : (fun msg : Message => !msg.isTool) =
      fun msg => (conversation.answers msg).isNone := by
    funext msg
    cases msg <;> rfl
  rw [sent_eq, hisTool]
  exact Scheme.filter_regroup Scheme.queues_sorted messages

theorem sent_grouped {messages : List Message}
    (h : conversation.Grouped Scheme.Once (toolCallIds messages) messages)
    (hproper : ∀ msg ∈ messages, msg.callIds.Nodup ∧ ∀ name ∈ msg.callNames, name.Proper) :
    sent messages = messages := by
  rw [sent_eq]
  refine Scheme.Settled.sent ?_
  rw [called_eq_toolCallIds]
  refine h.settled (fun msg hmsg => sanitize_proper (hproper msg hmsg).2)
    (fun msg hmsg call hcall found => reply_proper (hproper msg hmsg).2 hcall found)
    fun msg hmsg => ?_
  rw [keys_eq_callIds]
  exact (hproper msg hmsg).1

/-- **The messages that are sent are grouped.** Every AI message is followed at once by results for
its calls, in order, and there is no other result for a known call; the other messages keep their
order, and only names in them are made non-empty. What is grouped already, with proper names and
without a call listed twice, is sent as it is, and sending what is sent changes nothing. -/
theorem sends_grouped (messages : List Message) :
    conversation.Grouped Covers (toolCallIds messages) (sent messages) ∧
      (sent messages).filter (fun msg => !msg.isTool) =
        (messages.filter fun msg => !msg.isTool).map sanitizeAiMessageToolNames ∧
      (conversation.Grouped Scheme.Once (toolCallIds messages) messages →
        (∀ msg ∈ messages, msg.callIds.Nodup ∧ ∀ name ∈ msg.callNames, name.Proper) →
        sent messages = messages) ∧
      sent (sent messages) = sent messages := by
  refine ⟨(sent_answers_each messages).grouped covers_self, filter_sent messages,
    fun h hproper => sent_grouped h hproper, ?_⟩
  rw [sent_eq, sent_eq]
  exact Scheme.sent_sent messages

def searchResult : Message := .tool ⟨"call-1", .text "search", .text "found", .success⟩

/-- A call of a tool under a name, with its result. -/
def searchCall (name : String) : List Message :=
  [.ai ⟨.text "", [.dict ⟨some "call-1", .text name⟩], [], []⟩, searchResult]

theorem searchCall_grouped (name : String) :
    conversation.Grouped Scheme.Once (toolCallIds (searchCall name)) (searchCall name) := by
  have hanswers : [searchResult].map conversation.answers = ["call-1"].map some := rfl
  show conversation.Grouped _ _ (_ :: ([searchResult] ++ []))
  exact .message rfl hanswers (Scheme.once_self (nodup_singleton _)) .nil

theorem sends_grouped_demo : sent (searchCall "search") = searchCall "search" :=
  (sends_grouped (searchCall "search")).2.2.1 (searchCall_grouped "search") (by decide)

/-- A padded name is replaced, although the list is grouped. -/
theorem padded_name_replaced :
    conversation.Grouped Scheme.Once (toolCallIds (searchCall " search")) (searchCall " search") ∧
      sent (searchCall " search") ≠ searchCall " search" :=
  ⟨searchCall_grouped " search", by decide⟩

end AfterFlow.Agents
