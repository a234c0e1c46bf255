import AfterFlow.Json
import AfterFlow.Keyed.Dict
import AfterFlow.Schemas

/-!
# The config of a run

`services.py`: how the config an agent runs with is put together from a request body that is free
form in most of its parts. Five functions take turns: `build_run_config` copies sections of the
body, `apply_checkpoint_to_run_config` pins a checkpoint, `merge_run_context_overrides` fills in
defaults, `strip_internal_context_keys` removes flags, `inject_authenticated_user_context`
overwrites the identity. Every one of them leaves both sections dictionaries, so the checks in the
source that they are have no other branch here.

What is read from outside is in `GatewayEnv`: texts of Python values, the ceiling for recursion and
the checkpointer.
-/

namespace AfterFlow.Runs

/-! ### Python values -/

/-- The exceptions of the run service. -/
inductive RunExn where
  | http (status : ℕ) (detail : String)
  | valueError (detail : String)
  | typeError (detail : String)
  | attributeError (detail : String)
  deriving DecidableEq

/-- What can be a key: a value Python can hash. Equal numbers are one key. -/
inductive Key where
  | str (s : String)
  | int (n : ℤ)
  | float (text : String)
  | null
  deriving DecidableEq

/-- A dictionary of JSON values. -/
abbrev PyDict := Keyed.Dict Key Json

/-- The fields of a JSON object, which are distinct. -/
abbrev Fields := List (String × Json)

/-- The pairs of an object's fields. -/
def Fields.pairs (fields : Fields) : List (Key × Json) := fields.map fun f => (.str f.1, f.2)

/-- Which checkpoint to read. -/
structure ReadConfig where
  threadId : String
  checkpointNs : String
  checkpointId : String
  checkpointMap : Option Json

/-- What the service takes from outside. -/
structure GatewayEnv where
  rt : Runtime
  /-- `str(value)`. -/
  pyStr : Json → String
  /-- `repr(text)`. -/
  pyRepr : String → String
  /-- The int a float is equal to, by the text of the float. -/
  floatInt : String → Option ℤ
  /-- `AppConfig.max_recursion_limit`, which is validated as `ge=1`. -/
  maxRecursionLimit : ℕ
  one_le_max : 1 ≤ maxRecursionLimit
  /-- `checkpointer.aget_tuple`: whether there is such a checkpoint, unless it raises. -/
  agetTuple : ReadConfig → Except Unit Bool

variable (env : GatewayEnv)

/-- `bool(value)`. -/
def truthy : Json → Bool
  | .null => false
  | .bool b => b
  | .int n => n ≠ 0
  | .float text => env.floatInt text ≠ some 0
  | .str s => s ≠ ""
  | .arr items => ¬ items.isEmpty
  | .obj fields => ¬ fields.isEmpty

/-- The key a value is, if it can be hashed. -/
def hashKey : Json → Except RunExn Key
  | .null => .ok .null
  | .bool b => .ok (.int (if b then 1 else 0))
  | .int n => .ok (.int n)
  | .float text => .ok (match env.floatInt text with
    | some n => .int n
    | none => .float text)
  | .str s => .ok (.str s)
  | .arr _ => .error (.typeError "unhashable type: 'list'")
  | .obj _ => .error (.typeError "unhashable type: 'dict'")

/-- An element of a sequence of pairs, as `dict.update` reads it: anything with two elements. -/
def pairOf (item : Json) : Except RunExn (Key × Json) :=
  let wrongLength : Except RunExn (Key × Json) :=
    .error (.valueError "dictionary update sequence element has a length other than 2")
  match item with
  | .arr [k, v] => do return (← hashKey env k, v)
  | .arr _ => wrongLength
  | .str s => match s.toList with
    | [k, v] => .ok (.str (String.singleton k), .str (String.singleton v))
    | _ => wrongLength
  | .obj [(k, _), (v, _)] => .ok (.str k, .str v)
  | .obj _ => wrongLength
  | _ => .error (.typeError "cannot convert dictionary update sequence element to a sequence")

/-- The pairs `dict.update(value)` writes: those of an object or of a sequence of pairs. -/
def updatePairs : Json → Except RunExn (List (Key × Json))
  | .obj fields => .ok (Fields.pairs fields)
  | .arr items => items.mapM (pairOf env)
  | .str s => if s = "" then .ok []
    else .error (.valueError "dictionary update sequence element #0 has length 1; 2 is required")
  | _ => .error (.typeError "object is not iterable")

/-! ### Bodies and configs -/

/-- The parts of a request body the config depends on. -/
structure RunBody where
  assistantId : Option String := none
  metadata : Option Fields := none
  config : Option Fields := none
  context : Option Fields := none
  checkpointId : Option String := none
  checkpoint : Option Fields := none

/-- A user as the middleware stamps it on a request. -/
structure RequestUser where
  id : String
  systemRole : Option String
  oauthProvider : Option String := none
  oauthId : Option String := none
  deriving DecidableEq

/-- Who sent a request. -/
structure RunRequest where
  user : Option RequestUser
  /-- `auth_source == "internal"`. -/
  internalSource : Bool := false
  /-- `resolve_trusted_internal_owner_for_attribution`. -/
  internalOwner : Option RequestUser := none
  deriving DecidableEq

/-- The config of a run: its two sections, and the other entries. -/
structure RunConfig where
  configurable : PyDict
  context : Option PyDict
  rest : PyDict

def internalSystemRole : String := "internal"

/-! ### `build_run_config` -/

def defaultRecursionLimit : ℕ := 100

/-- `_clamp_recursion_limit`. -/
def clampRecursionLimit (value : Json) (maxLimit : ℕ) : ℤ :=
  match value with
  | .int n => if n ≤ 0 then defaultRecursionLimit else min n maxLimit
  | _ => defaultRecursionLimit

/-- A key that begins with `__`. -/
def isPrivate (key : String) : Bool := ['_', '_'].isPrefixOf key.toList

/-- The keys of a `configurable` section next to a `context` one are logged, which takes a
dictionary. -/
def loggedKeys : Option Json → Except RunExn Unit
  | none | some (.obj _) => .ok ()
  | some _ => .error (.attributeError "object has no attribute 'keys'")

/-- The fields of a `context` section, without private ones. -/
def contextFields : Json → Except RunExn Fields
  | .null => .ok []
  | .obj fields => .ok (fields.filter fun f => ¬ isPrivate f.1)
  | _ => .error (.valueError "request config 'context' must be a mapping or null.")

/-- A `context` section with the thread of the URL. -/
def contextSection (threadId : String) (contextValue : Json) : Except RunExn PyDict := do
  let fields ← contextFields contextValue
  let context : PyDict := Keyed.Dict.update ∅ (Fields.pairs fields)
  return context.insert (.str "thread_id") (.str threadId)

/-- The pairs of a `configurable` section. -/
def configurablePairs : Option Json → Except RunExn (List (Key × Json))
  | none => .ok []
  | some value => updatePairs env value

/-- The two sections a client config asks for. Next to a `context` section, the `configurable` one
is ignored. -/
@[grind =] def requestedSections (threadId : String) (requestConfig : Fields) :
    Except RunExn (PyDict × Option PyDict) :=
  match requestConfig.lookup "context" with
  | some contextValue => do
    loggedKeys (requestConfig.lookup "configurable")
    let context ← contextSection threadId contextValue
    return (Finmap.singleton (.str "thread_id") (.str threadId), some context)
  | none => do
    let pairs ← configurablePairs env (requestConfig.lookup "configurable")
    return (Keyed.Dict.update (Finmap.singleton (.str "thread_id") (.str threadId)) pairs, none)

/-- The entries of a client config besides the two sections. -/
def otherEntries (requestConfig : Fields) : Fields :=
  requestConfig.filter fun f => f.1 ≠ "configurable" ∧ f.1 ≠ "context"

/-- The config a client config asks for. -/
def requestedConfig (threadId : String) (requestConfig : Fields) : Except RunExn RunConfig := do
  let (configurable, context) ← requestedSections env threadId requestConfig
  let rest := Keyed.Dict.update
    (Finmap.singleton (.str "recursion_limit") (.int defaultRecursionLimit))
    (otherEntries requestConfig).pairs
  let rest := match requestConfig.lookup "recursion_limit" with
    | some value => rest.insert (.str "recursion_limit")
        (.int (clampRecursionLimit value env.maxRecursionLimit))
    | none => rest
  return { configurable, context, rest }

/-- The config with what the client asks for, or the default one. -/
@[grind =] def baseConfig (threadId : String) : Option Fields → Except RunExn RunConfig
  | none | some [] => .ok
    { configurable := Finmap.singleton (.str "thread_id") (.str threadId)
      context := none
      rest := Finmap.singleton (.str "recursion_limit") (.int defaultRecursionLimit) }
  | some fields => requestedConfig env threadId fields

/-- A text under a key, if a section has one. -/
def textAt (d : PyDict) (key : String) : Option String :=
  match d.lookup (.str key) with
  | some (.str s) => some s
  | _ => none

/-- `resolve_root_run_name`. -/
def resolveRootRunName (config : RunConfig) (assistantId : String) : String :=
  let named (d : PyDict) : Option String :=
    (textAt d "agent_name").filter fun s => env.rt.strip s ≠ ""
  ((config.context.bind named).orElse fun _ => named config.configurable).getD
    (if assistantId = "" then "lead_agent" else assistantId)

/-- `assistant_id.strip().lower().replace("_", "-")`. -/
def normalizeAssistantId (assistantId : String) : String :=
  String.ofList ((env.rt.lower (env.rt.strip assistantId)).toList.map fun c =>
    if c = '_' then '-' else c)

/-- `re.fullmatch(r"[a-z0-9-]+", text)`. -/
def isAgentName (text : String) : Bool :=
  text ≠ "" ∧ text.toList.all fun c => c = '-' || c.isLower || c.isDigit

/-- The name a config gives, or else the one of the assistant. -/
def agentName (config : RunConfig) (normalized : String) : String :=
  let explicit := (textAt config.configurable "agent_name").orElse fun _ =>
    textAt (config.context.getD ∅) "agent_name"
  match explicit with
  | some name => if name = "" then normalized else name
  | none => normalized

/-- Put a name in both sections. -/
def RunConfig.named (config : RunConfig) (name : String) : RunConfig :=
  { config with
    configurable := config.configurable.insert (.str "agent_name") (.str name)
    context := some ((config.context.getD ∅).insert (.str "agent_name") (.str name)) }

/-- Forward the name of a custom agent in both sections. -/
def withAgentName (assistantId : Option String) (config : RunConfig) : Except RunExn RunConfig :=
  match assistantId with
  | none | some "" | some "lead_agent" => .ok config
  | some id =>
    let normalized := normalizeAssistantId env id
    if ¬ isAgentName normalized then
      .error (.valueError ("Invalid assistant_id " ++ env.pyRepr id ++
        ": must contain only letters, digits, and hyphens after normalization."))
    else
      let named := config.named (agentName config normalized)
      .ok { named with
        rest := Keyed.Dict.setDefault named.rest (.str "run_name")
          (.str (resolveRootRunName env named normalized)) }

/-- `fields.update(new)` on the fields of an object. -/
def Fields.update (fields new : Fields) : Fields :=
  new.foldl (fun fs f => if fs.any fun g => g.1 = f.1 then
    fs.map fun g => if g.1 = f.1 then f else g else fs ++ [f]) fields

/-- `config.setdefault("metadata", {}).update(metadata)`, if there is any. -/
def withMetadata (metadata : Option Fields) (config : RunConfig) : Except RunExn RunConfig :=
  match metadata with
  | none | some [] => .ok config
  | some metadata =>
    match (config.rest.lookup (.str "metadata")).getD (.obj []) with
    | .obj fields => .ok { config with
        rest := config.rest.insert (.str "metadata") (.obj (Fields.update fields metadata)) }
    | _ => .error (.attributeError "object has no attribute 'update'")

def buildRunConfig (threadId : String) (requestConfig metadata : Option Fields)
    (assistantId : Option String) : Except RunExn RunConfig := do
  let config ← baseConfig env threadId requestConfig
  let config ← withAgentName env assistantId config
  withMetadata metadata config

/-! ### `apply_checkpoint_to_run_config` -/

/-- The checkpoint a body asks for, if any. -/
def requestedCheckpoint (body : RunBody) (threadId : String) :
    Except RunExn (Option ReadConfig) :=
  let none? (id : String) (ns : String) (map : Option Json) : Option ReadConfig :=
    if id = "" then none else some ⟨threadId, ns, id, map⟩
  match body.checkpoint with
  | none | some [] => .ok (none? (body.checkpointId.getD "") "" none)
  | some checkpoint =>
    let mismatch := match checkpoint.lookup "thread_id" with
      | none | some .null => false
      | some value => env.pyStr value ≠ threadId
    if mismatch then
      .error (.http 400 "checkpoint thread_id does not match request thread_id")
    else
      let checkpointId := match checkpoint.lookup "checkpoint_id" with
        | some value => if truthy env value then env.pyStr value else body.checkpointId.getD ""
        | none => body.checkpointId.getD ""
      let checkpointNs := match checkpoint.lookup "checkpoint_ns" with
        | none | some .null => ""
        | some value => env.pyStr value
      let checkpointMap := match checkpoint.lookup "checkpoint_map" with
        | none | some .null => none
        | some value => some value
      .ok (none? checkpointId checkpointNs checkpointMap)

def applyCheckpointToRunConfig (config : RunConfig) (body : RunBody) (threadId : String) :
    Except RunExn RunConfig := do
  match ← requestedCheckpoint env body threadId with
  | none => return config
  | some read =>
    match env.agetTuple read with
    | .error () => .error (.http 500 "Failed to validate checkpoint")
    | .ok false => .error (.http 404 ("Checkpoint " ++ read.checkpointId ++ " not found"))
    | .ok true =>
      let configurable := ((config.configurable.insert (.str "thread_id") (.str threadId)).insert
        (.str "checkpoint_ns") (.str read.checkpointNs)).insert
        (.str "checkpoint_id") (.str read.checkpointId)
      let configurable := match read.checkpointMap with
        | some map => configurable.insert (.str "checkpoint_map") map
        | none => configurable
      return { config with configurable }

/-! ### The context of the body -/

/-- `_CONTEXT_CONFIGURABLE_KEYS`. -/
def contextConfigurableKeys : List String :=
  ["model_name", "mode", "thinking_enabled", "reasoning_effort", "is_plan_mode",
    "subagent_enabled", "max_concurrent_subagents", "agent_name", "is_bootstrap"]

/-- `_CONTEXT_INTERNAL_CALLER_KEYS`. -/
def contextInternalCallerKeys : List String := ["non_interactive"]

/-- `_CONTEXT_RUNTIME_ONLY_KEYS`. -/
def contextRuntimeOnlyKeys : List String := ["github_token", "disable_clarification"]

/-- The keys that go to both sections. -/
def overrideKeys (internal : Bool) : List String :=
  if internal then contextConfigurableKeys ++ contextInternalCallerKeys
  else contextConfigurableKeys

/-- Set a default from the body's context for every key it has. -/
def setDefaults (d : PyDict) (context : Fields) (keys : List String) : PyDict :=
  keys.foldl (fun d key => match context.lookup key with
    | some value => Keyed.Dict.setDefault d (.str key) value
    | none => d) d

def mergeRunContextOverrides (config : RunConfig) (context : Option Fields) (internal : Bool) :
    RunConfig :=
  match context with
  | none | some [] => config
  | some context =>
    { config with
      configurable := setDefaults config.configurable context (overrideKeys internal)
      context := some (setDefaults (config.context.getD ∅) context
        (overrideKeys internal ++ contextRuntimeOnlyKeys ++ ["user_id", "channel_user_id"])) }

/-- `value.pop(key, None)` for every internal key. -/
def popInternal (d : PyDict) : PyDict :=
  contextInternalCallerKeys.foldl (fun d key => d.erase (.str key)) d

def stripInternalContextKeys (config : RunConfig) : RunConfig :=
  { config with
    context := config.context.map popInternal
    configurable := popInternal config.configurable }

/-- An optional attribute as a value. -/
def optionText : Option String → Json
  | some s => .str s
  | none => .null

/-- Stamp a user's role and account into a context. -/
def stampAttribution (context : PyDict) (user : RequestUser) : PyDict :=
  ((context.insert (.str "user_role") (optionText user.systemRole)).insert
    (.str "oauth_provider") (optionText user.oauthProvider)).insert
    (.str "oauth_id") (optionText user.oauthId)

@[grind =] def injectAuthenticatedUserContext (config : RunConfig) (request : RunRequest) : RunConfig :=
  match request.user with
  | none => config
  | some user =>
    let context := config.context.getD ∅
    if user.systemRole = some internalSystemRole then
      match request.internalOwner with
      | none =>
        let bare := ((context.erase (.str "user_role")).erase (.str "oauth_provider")).erase
          (.str "oauth_id")
        { config with context := some bare }
      | some owner =>
        let context := context.insert (.str "user_id") (.str owner.id)
        { config with context := some (stampAttribution context owner) }
    else
      let context := context.insert (.str "user_id") (.str user.id)
      { config with context := some (stampAttribution context user) }

/-! ### The config handed to the agent -/

/-- The steps of `start_run` after the checkpoint. -/
def finishConfig (body : RunBody) (request : RunRequest) (config : RunConfig) : RunConfig :=
  let config := mergeRunContextOverrides config body.context request.internalSource
  let config := if request.internalSource then config else stripInternalContextKeys config
  injectAuthenticatedUserContext config request

/-- The part of `start_run` that makes the config. -/
def runConfig (threadId : String) (body : RunBody) (request : RunRequest) :
    Except RunExn RunConfig := do
  let config ← buildRunConfig env threadId body.config body.metadata body.assistantId
  let config ← applyCheckpointToRunConfig env config body threadId
  return finishConfig body request config

end AfterFlow.Runs
