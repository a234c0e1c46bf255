import AfterFlow.Runs.Manager

/-!
# Starting a run

`start_run` of `services.py`: check the request, have the manager create a pending run, note the
thread, make the input of the graph and the config, and start the task of the run. The run exists
from the second step on; what can still raise comes after it.

The lock of a thread's goal is an await here. That it also keeps two admissions of one thread apart
is not used.
-/

namespace AfterFlow.Runs

open Coop

/-- An exception of `convert_to_messages`: a `ValueError`, `TypeError` or `NotImplementedError`, or
another one. -/
inductive ConvertExn where
  | invalid (text : String)
  | other (text : String)

/-- What a start takes from outside. -/
structure StartEnv extends GatewayEnv where
  policy : RetryPolicy := {}
  /-- `app_config.get_model_config(name) is not None`. -/
  modelAllowed : String → Bool
  /-- `convert_to_messages([message])`. -/
  convertToMessages : Fields → Except ConvertExn (List Json)
  /-- `redact_config_secrets`. -/
  redactConfigSecrets : Option Fields → Json

structure StartBody extends RunBody where
  input : Option Fields := none
  command : Option Fields := none
  multitaskStrategy : Strategy := .reject

structure StartRequest extends RunRequest where
  /-- `X-DeerFlow-Owner-User-Id`. -/
  ownerHeader : Option String := none

variable (env : StartEnv)

/-! ### Checks before the run exists -/

/-- The model a body asks for. -/
def requestedModel (body : StartBody) : Option String :=
  match (body.context.getD []).lookup "model_name" with
  | none | some .null => none
  | some (.str s) => some s
  | some value => some (env.pyStr value)

def checkModel (body : StartBody) : Except ManagerExn Unit :=
  match requestedModel env body with
  | none | some "" => .ok ()
  | some name =>
    if env.modelAllowed name then .ok ()
    else .error (.service (.http 400
      ("Model " ++ env.pyRepr name ++ " is not in the configured model allowlist")))

/-- `get_trusted_internal_owner_user_id`. -/
def trustedOwner (request : StartRequest) : Option String := do
  let user ← request.user
  if user.systemRole = some internalSystemRole then
    let header ← request.ownerHeader
    let owner := env.rt.strip header
    if owner = "" then none else some owner
  else none

/-- Whether the caller, or the owner it acts for, may use the thread. -/
def accessAllowed (threadId : String) (request : StartRequest) (user : RequestUser) : RunProc Bool := do
  let allowed ← runAwait (.outside (.checkAccess threadId user.id))
  if allowed then return true
  else match trustedOwner env request with
    | none => return false
    | some owner => runAwait (.outside (.checkAccess threadId owner))

def checkThread (threadId : String) (request : StartRequest) : RunProc Unit :=
  match request.user with
  | none => return ()
  | some user => do
    let allowed ← accessAllowed env threadId request user
    if allowed then return ()
    else .raise (.service (.http 404 ("Thread " ++ threadId ++ " not found")))

/-! ### Admission -/

/-- The arguments for `create_or_reject`. -/
def runInfo (threadId : String) (body : StartBody) (request : StartRequest) : RunInfo where
  threadId
  assistantId := body.assistantId
  multitaskStrategy := body.multitaskStrategy
  metadata := body.metadata.getD []
  kwargs := [("input", match body.input with
    | some fields => .obj fields
    | none => .null), ("config", env.redactConfigSecrets body.config)]
  userId := trustedOwner env request
  modelName := requestedModel env body

/-- The answer to a request the manager refuses. -/
def refusal : ManagerExn → ManagerExn
  | .conflict detail => .service (.http 409 detail)
  | .unsupportedStrategy detail => .service (.http 501 detail)
  | e => e

def admission (threadId : String) (body : StartBody) (request : StartRequest) : RunProc RunRecord := do
  let _ ← runAwait (.outside (.goalThreadLock threadId))
  (createOrReject env.policy (runInfo env threadId body request)).tryCatch fun e => .raise (refusal e)

/-! ### After the run exists -/

/-- Note the thread, if that works. -/
@[grind =] def upsertThread (threadId : String) (request : StartRequest) : RunProc Unit :=
  catchException (do
      let existing ← runAwait (.outside (.threadOwner threadId true))
      match existing, trustedOwner env request with
      | none, some owner =>
        let unscoped ← runAwait (.outside (.threadOwner threadId false))
        match unscoped with
        | none => runAwait (.outside (.threadWrite threadId))
        | some current =>
          if current ≠ some owner then
            let _ ← runAwait (.outside (.threadWrite threadId))
            let _ ← runAwait (.outside (.threadOwner threadId true))
            runAwait (.outside (.threadWrite threadId))
          else
            let _ ← runAwait (.outside (.threadOwner threadId true))
            runAwait (.outside (.threadWrite threadId))
      | _, _ => runAwait (.outside (.threadWrite threadId)))
    fun _ => return ()

/-- What the graph is run on. -/
inductive GraphInput where
  | command (resume : Json)
  | state (fields : Fields)

/-- The messages of an input, converted, or the error that names the first malformed one. -/
def normalizeMessages : ℕ → List Json → Except ManagerExn (List Json)
  | _, [] => .ok []
  | index, .obj fields :: rest =>
    match env.convertToMessages fields with
    | .error (.invalid text) => .error (.service (.http 400
        ("Invalid message at input.messages[" ++ toString index ++ "]: " ++ text)))
    | .error (.other text) => .error (.other text)
    | .ok converted => do return converted ++ (← normalizeMessages (index + 1) rest)
  | index, msg :: rest => do return msg :: (← normalizeMessages (index + 1) rest)

def normalizeInput : Option Fields → Except ManagerExn Fields
  | none => .ok []
  | some rawInput =>
    match rawInput.lookup "messages" with
    | some (.arr messages) =>
      if messages.isEmpty then .ok rawInput
      else do return Fields.update rawInput [("messages", .arr (← normalizeMessages env 0 messages))]
    | _ => .ok rawInput

def graphInput (body : StartBody) : Except ManagerExn GraphInput :=
  match (body.command.getD []).lookup "resume" with
  | none | some .null => (normalizeInput env body.input).map .state
  | some resume => .ok (.command resume)

/-- `checkpointer.aget_tuple` for the requested checkpoint, if there is one. -/
def findCheckpoint : Option ReadConfig → RunProc (Except Unit Bool)
  | none => return .ok true
  | some read => catchException (do
      let found ← runAwait (.outside (.checkpoint read))
      return .ok found)
    fun _ => return .error ()

/-- An environment with an answer of the checkpointer. -/
def GatewayEnv.answering (env : GatewayEnv) (answer : ReadConfig → Except Unit Bool) : GatewayEnv :=
  { env with agetTuple := answer }

/-- The config of the run. -/
def makeConfig (threadId : String) (body : RunBody) (request : RunRequest) (runId : ℕ) :
    RunProc RunConfig := do
  let config ← Coro.ofExcept
    ((buildRunConfig env.toGatewayEnv threadId body.config body.metadata body.assistantId).mapError
      .service)
  let read ← Coro.ofExcept ((requestedCheckpoint env.toGatewayEnv body threadId).mapError .service)
  let tuple ← findCheckpoint read
  let config ← Coro.ofExcept ((applyCheckpointToRunConfig
    (env.toGatewayEnv.answering fun _ => tuple) config body threadId).mapError .service)
  -- the reply is in `RunRequest.internalOwner`, and a failed lookup is no owner
  let _ ← catchException (runAwait (.outside (.internalOwner runId))) fun _ => return ()
  return finishConfig body request config

/-- `record.task = asyncio.create_task(run_agent(...))`. -/
def RunWorld.attach (w : RunWorld) (runId : ℕ) : RunWorld :=
  w.modify runId fun r => { r with task := some {} }

/-- Everything after admission. -/
def launch (threadId : String) (body : StartBody) (request : StartRequest) (record : RunRecord) :
    RunProc RunRecord := do
  upsertThread env threadId request
  let _ ← Coro.ofExcept (graphInput env body)
  let _ ← makeConfig env threadId body.toRunBody request.toRunRequest record.runId
  Coro.modify fun w => w.attach record.runId
  return record

def startRun (threadId : String) (body : StartBody) (request : StartRequest) : RunProc RunRecord := do
  Coro.ofExcept (checkModel env body)
  checkThread env threadId request
  let record ← admission env threadId body request
  launch env threadId body request record

end AfterFlow.Runs
