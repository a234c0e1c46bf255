import AfterFlow.Events.Queries

/-!
# Loop detection

`LoopDetectionMiddleware` looks at every response of the model that calls tools. It keeps, for each
of the threads it has seen last, a window of hashes of the sets of calls, and how often each tool
was called. A set of calls that comes again and again, or a tool that is called too often, is warned
of once, and then the calls are stripped from the response, which ends the run.

`_track_and_check` returns as soon as it has a warning. So the calls of a response after which a
warning is due are not counted, nor are those of a response whose set of calls is warned of.

`json.loads`, `json.dumps(…, sort_keys=True, default=str)`, `int`, the text of a value in a format
string and the digest are parameters. The warnings that wait for the next model call, the reasons of
stops and the logging are left out; nothing here reads them.
-/

namespace AfterFlow.Agents.LoopDetection

open Events Transition

/-! ### Calls and their hash -/

/-- A tool call; `args` is what the provider sent. -/
structure ToolCall where
  name : String
  args : Option Value

/-- What libraries do to texts and values. -/
structure Library where
  /-- `json.loads`; `none` where it raises. -/
  loads : String → Option Value
  /-- `json.dumps(value, sort_keys=True, default=str)`. -/
  dumps : Value → String
  /-- `int(value)`; `none` where it raises. -/
  int : Value → Option ℤ
  /-- The text of a value in a format string. -/
  format : Value → String
  /-- `hashlib.md5(text.encode()).hexdigest()[:12]`. -/
  digest : String → String

variable (lib : Library)

/-- `_normalize_tool_call_args`: the arguments and a key for what is no dictionary. -/
def normalizeToolCallArgs : Value → List (String × Value) × Option String
  | .obj fields => (fields, none)
  | .str text =>
    match lib.loads text with
    | none => ([], some text)
    | some (.obj fields) => (fields, none)
    | some parsed => ([], some (lib.dumps parsed))
  | .null => ([], none)
  | value => ([], some (lib.dumps value))

/-- `args.get(field)`, which is `None` where there is no such field. -/
def getField (args : List (String × Value)) (field : String) : Value := (args.lookup field).getD .null

/-- `int(line) if line is not None else default`, and the default where `int` raises. -/
def lineNumber (default : ℤ) : Value → ℤ
  | .null => default
  | value => (lib.int value).getD default

/-- The part of the file that a line is in. -/
def bucket (line : ℤ) : ℤ := (max line 1 - 1) / 200

def salientFields : List String := ["path", "url", "query", "command", "pattern", "glob", "cmd"]

/-- `_stable_tool_key`. -/
def stableToolKey (name : String) (args : List (String × Value)) (fallbackKey : Option String) :
    String :=
  if name = "read_file" ∧ fallbackKey = none then
    let path := getField args "path"
    let path := if path.truthy then lib.format path else ""
    let startLine := lineNumber lib 1 (getField args "start_line")
    let endLine := lineNumber lib startLine (getField args "end_line")
    s!"{path}:{bucket (min startLine endLine)}-{bucket (max startLine endLine)}"
  else if name = "write_file" ∨ name = "str_replace" then
    fallbackKey.getD (lib.dumps (.obj args))
  else
    let stableArgs := salientFields.filterMap fun field =>
      match getField args field with
      | .null => none
      | value => some (field, value)
    if stableArgs.isEmpty then fallbackKey.getD (lib.dumps (.obj args))
    else lib.dumps (.obj stableArgs)

/-- A call as a text. -/
def normalizeToolCall (call : ToolCall) : String :=
  let (args, fallbackKey) := normalizeToolCallArgs lib (call.args.getD (.obj []))
  s!"{call.name}:{stableToolKey lib call.name args fallbackKey}"

/-- `_hash_tool_calls`. -/
def hashToolCalls (calls : List ToolCall) : String :=
  let normalized := (calls.map (normalizeToolCall lib)).insertionSort (· ≤ ·)
  lib.digest (lib.dumps (.arr (normalized.map .str)))

/-! ### Thresholds -/

/-- A validated configuration. -/
structure Config where
  warnThreshold : ℕ
  hardLimit : ℕ
  windowSize : ℕ
  maxTrackedThreads : ℕ
  toolFreqWarn : ℕ
  toolFreqHardLimit : ℕ
  toolFreqOverrides : String → Option (ℕ × ℕ)
  hardLimit_pos : 1 ≤ hardLimit
  windowSize_pos : 1 ≤ windowSize
  maxTrackedThreads_pos : 1 ≤ maxTrackedThreads
  toolFreqHardLimit_pos : 1 ≤ toolFreqHardLimit
  overrides_pos : ∀ name o, toolFreqOverrides name = some o → 1 ≤ o.2

/-- From how many calls of a tool on there is a warning, and a stop. -/
def Config.toolFreq (cfg : Config) (name : String) : ℕ × ℕ :=
  (cfg.toolFreqOverrides name).getD (cfg.toolFreqWarn, cfg.toolFreqHardLimit)

/-! ### What is tracked -/

/-- What is tracked of a thread. -/
structure Tracked where
  history : List String
  warned : List String
  toolFreq : String → ℕ
  toolFreqWarned : List String

def Tracked.empty : Tracked := ⟨[], [], fun _ => 0, []⟩

/-- The threads that are tracked, the one that was used last at the end. -/
abbrev Middleware := List (String × Tracked)

/-- What `_track_and_check` returns. -/
inductive Verdict where
  | none
  | warning (message : String)
  | hardStop (message : String)
  deriving DecidableEq

def warningMsg : String :=
  "[LOOP DETECTED] You are repeating the same tool calls. Stop calling tools and produce your final answer now. If you cannot complete the task, summarize what you accomplished so far."

def toolFreqWarningMsg (toolName : String) (count : ℕ) : String :=
  s!"[LOOP DETECTED] You have called {toolName} {count} times without producing a final answer. Stop calling tools and produce your final answer now. If you cannot complete the task, summarize what you accomplished so far."

def hardStopMsg : String :=
  "[FORCED STOP] Repeated tool calls exceeded the safety limit. Producing final answer with results collected so far."

def toolFreqHardStopMsg (toolName : String) (count : ℕ) : String :=
  s!"[FORCED STOP] Tool {toolName} called {count} times — exceeded the per-tool safety limit. Producing final answer with results collected so far."

variable (cfg : Config)

/-- The hash of a response in the window, and the warnings that are still in it. -/
def Tracked.record (t : Tracked) (callHash : String) : Tracked :=
  let history := latest cfg.windowSize (t.history ++ [callHash])
  { t with history := history, warned := t.warned.filter (· ∈ history) }

/-- `freq[name] += 1`. -/
def Tracked.count (t : Tracked) (name : String) : Tracked :=
  { t with toolFreq := Function.update t.toolFreq name (t.toolFreq name + 1) }

/-- `self._tool_freq_warned[thread_id].add(name)`. -/
def Tracked.warnOf (t : Tracked) (name : String) : Tracked :=
  { t with toolFreqWarned := name :: t.toolFreqWarned }

/-- The second layer: count the calls of each tool, up to the first one that is too many. -/
def countCalls (t : Tracked) : List ToolCall → Verdict × Tracked
  | [] => (.none, t)
  | call :: calls =>
    if call.name = "" then countCalls t calls
    else
      let t := t.count call.name
      let count := t.toolFreq call.name
      if (cfg.toolFreq call.name).2 ≤ count then
        (.hardStop (toolFreqHardStopMsg call.name count), t)
      else if (cfg.toolFreq call.name).1 ≤ count ∧ call.name ∉ t.toolFreqWarned then
        (.warning (toolFreqWarningMsg call.name count), t.warnOf call.name)
      else countCalls t calls

/-- Both layers, on the calls of a response. -/
def Tracked.check (t : Tracked) (calls : List ToolCall) : Verdict × Tracked :=
  let callHash := hashToolCalls lib calls
  let t := t.record cfg callHash
  let count := t.history.count callHash
  if cfg.hardLimit ≤ count then (.hardStop hardStopMsg, t)
  else if cfg.warnThreshold ≤ count ∧ callHash ∉ t.warned then
    (.warning warningMsg, { t with warned := callHash :: t.warned })
  else countCalls cfg t calls

/-- What is tracked of a thread, or nothing yet. -/
def Middleware.tracked (s : Middleware) (threadId : String) : Tracked :=
  (s.lookup threadId).getD .empty

/-- The other threads, without those that are evicted for a new one. -/
def Middleware.others (s : Middleware) (threadId : String) : Middleware :=
  match s.lookup threadId with
  | some _ => s.filter fun e => e.1 ≠ threadId
  | none => s.drop (s.length + 1 - cfg.maxTrackedThreads)

/-- `_track_and_check`, on the calls of the last message. -/
def trackAndCheck (s : Middleware) (threadId : String) (calls : List ToolCall) :
    Verdict × Middleware :=
  if calls.isEmpty then (.none, s)
  else
    let (verdict, t) := (s.tracked threadId).check lib cfg calls
    (verdict, s.others cfg threadId ++ [(threadId, t)])

/-! ### Responses -/

/-- The content of a response. -/
inductive Content where
  | none
  | text (text : String)
  | blocks (blocks : List Value)

/-- `_append_text`. -/
def appendText (content : Content) (text : String) : Content :=
  match content with
  | .none => .text text
  | .blocks blocks =>
    .blocks (blocks ++ [.obj [("type", .str "text"), ("text", .str ("\n\n" ++ text))]])
  | .text content => .text (content ++ "\n\n" ++ text)

/-- A response of the model. -/
structure Response where
  toolCalls : List ToolCall
  content : Content
  additionalKwargs : List (String × Value)
  responseMetadata : List (String × Value)

/-- `_build_hard_stop_update`, as a response. -/
def Response.hardStop (r : Response) (content : Content) : Response where
  toolCalls := []
  content := content
  additionalKwargs := r.additionalKwargs.filter fun f =>
    f.1 ≠ "tool_calls" ∧ f.1 ≠ "function_call"
  responseMetadata := r.responseMetadata.map fun f =>
    match f with
    | ("finish_reason", .str "tool_calls") => ("finish_reason", .str "stop")
    | f => f

/-- `_apply`: the response as it goes on, and whether it was warned of or stopped. -/
def apply (s : Middleware) (threadId : String) (r : Response) :
    (Verdict × Response) × Middleware :=
  match trackAndCheck lib cfg s threadId r.toolCalls with
  | (.hardStop message, s) => ((.hardStop message, r.hardStop (appendText r.content message)), s)
  | (verdict, s) => ((verdict, r), s)

/-- The responses of a run. One that is stopped is its last. -/
@[grind =] def session (s : Middleware) (threadId : String) : List Response → List (Verdict × Response)
  | [] => []
  | r :: rs =>
    match apply lib cfg s threadId r with
    | ((.hardStop message, r), _) => [(.hardStop message, r)]
    | (result, s) => result :: session s threadId rs

end AfterFlow.Agents.LoopDetection
