import AfterFlow.Coop.Lock
import AfterFlow.Gateway

/-!
# Idempotency keys

`idempotency.py` and `_idem_replay_or_run` of the router: a request that carries an
`Idempotency-Key` runs once for its actor, role, endpoint and key, and its response is replayed to
every later request with the same body. What a request runs is a parameter here: any coroutine over
a state of its own, so that the wrapper is one model for all endpoints.

Neither store can see the state of the application, and the application cannot see the store:
`embed` places a coroutine of the application in the larger world.

## History

`IdemWorld.completions` and `IdemWorld.runs` are proof-only: which runs completed, for whom, and how
many runs began.
-/

namespace AfterFlow

open Function

def SystemRole.value : SystemRole → String
  | admin => "admin"
  | user => "user"

namespace Idempotency

open Coop

/-- An id of a user: a UUID, or a safe id over `[A-Za-z0-9_-]`. -/
structure UserId where
  text : String
  plain : ':' ∉ text.toList
  deriving DecidableEq

/-- Under whom a key is remembered. -/
structure Identity where
  actorId : UserId
  role : SystemRole
  endpoint : String
  key : String
  deriving DecidableEq

/-- The key and the scoped endpoint, by which records and locks are found. -/
abbrev Scope := String × String

/-- `f"{actor_id}:{role}:{endpoint}"`. -/
def Identity.scope (i : Identity) : Scope :=
  (i.key, i.actorId.text ++ ":" ++ i.role.value ++ ":" ++ i.endpoint)

inductive StoreKind where
  | sql
  | memory
  deriving DecidableEq

/-- A row, or an entry of `_records`. The entries of a dictionary have no id. -/
structure IdemRecord (ρ : Type) where
  id : ℕ := 0
  requestFingerprint : String
  response : ρ
  statusCode : ℕ
  createdAt : Instant
  expiresAt : Instant

/-- A run that completed. -/
structure Completion (ρ : Type) where
  who : Identity
  fingerprint : String
  response : ρ

/-- What the requests share: the store, its locks, the clock, and the application. -/
structure IdemWorld (σ ρ : Type) where
  app : σ
  records : Scope → Option (IdemRecord ρ)
  /-- The next row id. -/
  ids : ℕ
  held : Scope → Bool
  now : Instant
  completions : Scope → List (Completion ρ)
  runs : ℕ

/-- The exceptions of a request: of the store, of the wrapper, or of the run. -/
inductive IdemExn (ε : Type) where
  | idempotencyConflict (detail : String)
  | http (status : ℕ) (detail : String)
  | integrityError
  | database
  | run (e : ε)

/-- What is awaited: the lock of a scope, a statement of the store, or an operation of the run. -/
inductive IdemOp (Op ρ : Type) where
  | acquire (scope : Scope)
  | select (scope : Scope)
  | delete (scope : Scope) (id : ℕ)
  | insert (scope : Scope) (row : IdemRecord ρ)
  | rollback
  | close
  | app (op : Op)

variable {σ Op : Type} {Ret : Op → Type} {ε ρ Req α : Type}

@[reducible] def IdemOp.Reply (Ret : Op → Type) : IdemOp Op ρ → Type
  | .acquire _ => Unit
  | .select _ => Option (IdemRecord ρ)
  | .delete .. => Unit
  | .insert .. => Unit
  | .rollback => Unit
  | .close => Unit
  | .app op => Ret op

/-- The code of a request. -/
abbrev IdemProc (σ Op : Type) (Ret : Op → Type) (ε ρ α : Type) :=
  Coro (IdemWorld σ ρ) (IdemOp Op ρ) (IdemOp.Reply Ret) (IdemExn ε) α

/-- Await one operation. -/
abbrev idemAwait (op : IdemOp Op ρ) : IdemProc σ Op Ret ε ρ (op.Reply Ret) := Coro.call op

@[grind =] def IdemOp.perform (b : Backend σ Op Ret ε) : (op : IdemOp Op ρ) → IdemWorld σ ρ →
    Except (IdemExn ε) (op.Reply Ret) × IdemWorld σ ρ
  | .acquire scope, w => (.ok (), { w with held := update w.held scope true })
  | .select scope, w => (.ok (w.records scope), w)
  | .delete scope id, w => (.ok (), if (w.records scope).any fun r => r.id = id then
      { w with records := update w.records scope none } else w)
  | .insert scope row, w =>
    -- `UNIQUE(key, endpoint)`
    if (w.records scope).isSome then (.error .integrityError, w)
    else (.ok (), { w with
      records := update w.records scope (some { row with id := w.ids })
      ids := w.ids + 1 })
  | .rollback, w => (.ok (), w)
  | .close, w => (.ok (), w)
  | .app op, w => ((b.perform op w.app).1.mapError .run, { w with app := (b.perform op w.app).2 })

/-! ### The run inside the request -/

/-- The run's own exception, where an operation of the run raised. -/
def IdemExn.cause (fault : ε) : IdemExn ε → ε
  | .run e => e
  | _ => fault

/-- A coroutine of the application, in the larger world. -/
def embed (fault : ε) : Coro σ Op Ret ε α → IdemProc σ Op Ret ε ρ α
  | .pure a => .pure a
  | .raise e => .raise (.run e)
  | .read k => .read fun w => embed fault (k w.app)
  | .write f k => .write (fun w => { w with app := f w.app }) (embed fault k)
  | .await op k => .await (.app op) fun r => embed fault (k (r.mapError (IdemExn.cause fault)))

/-! ### The stores -/

/-- What the wrapper is configured with, and what the requests run. -/
structure IdemConfig (σ Op : Type) (Ret : Op → Type) (ε ρ Req : Type) where
  kind : StoreKind
  ttl : ℕ
  /-- `fingerprint_request`. -/
  fingerprint : Json → String
  /-- `repr` of a text. -/
  quote : String → String
  backend : Backend σ Op Ret ε
  work : Req → Coro σ Op Ret ε ρ
  /-- The application's clock follows the one of the store. -/
  tick : ℕ → σ → σ

/-- What `lookup` finds. -/
inductive Lookup (ρ : Type) where
  | miss
  | hit (response : ρ) (statusCode : ℕ) (createdAt : Instant)

/-- `async with self._sf() as session: body`. -/
def idemSession (body : IdemProc σ Op Ret ε ρ α) : IdemProc σ Op Ret ε ρ α := do
  let a ← body.tryCatch fun e => do
    let _ ← idemAwait .close
    .raise e
  let _ ← idemAwait .close
  return a

section Stores

variable (cfg : IdemConfig σ Op Ret ε ρ Req)

/-- A live record: the same body again, or another one. -/
def matchRecord (scope : Scope) (fingerprint : String) (row : IdemRecord ρ) :
    IdemProc σ Op Ret ε ρ (Lookup ρ) :=
  if row.requestFingerprint ≠ fingerprint then
    .raise (.idempotencyConflict ("Idempotency-Key " ++ cfg.quote scope.1 ++
      " was previously used for a different request body on " ++ scope.2))
  else .pure (.hit row.response row.statusCode row.createdAt)

/-- `lookup`. An expired record is forgotten. -/
def lookup (scope : Scope) (fingerprint : String) : IdemProc σ Op Ret ε ρ (Lookup ρ) :=
  match cfg.kind with
  | .sql => idemSession do
    match ← idemAwait (.select scope) with
    | none => return .miss
    | some row =>
      let w ← Coro.get
      if w.now ≥ row.expiresAt then
        let _ ← idemAwait (.delete scope row.id)
        return .miss
      else matchRecord cfg scope fingerprint row
  | .memory => do
    let w ← Coro.get
    match w.records scope with
    | none => return .miss
    | some row =>
      if w.now ≥ row.expiresAt then
        Coro.modify fun w => { w with records := update w.records scope none }
        return .miss
      else matchRecord cfg scope fingerprint row

/-- `store`. The first writer's record stays. The lock of the dictionary is never contended, because
nothing is awaited under it. -/
def store (scope : Scope) (fingerprint : String) (response : ρ) (statusCode : ℕ) :
    IdemProc σ Op Ret ε ρ Unit := do
  let w ← Coro.get
  let row : IdemRecord ρ :=
    { requestFingerprint := fingerprint, response, statusCode, createdAt := w.now
      expiresAt := w.now + cfg.ttl }
  match cfg.kind with
  | .sql => idemSession <| (idemAwait (.insert scope row)).tryCatch fun
      | .integrityError => idemAwait .rollback
      | e => .raise e
  | .memory =>
    if (w.records scope).isSome then .pure ()
    else Coro.modify fun w =>
      { w with records := update w.records scope (some row) }

/-! ### The wrapper -/

/-- What the handler should do next. -/
structure IdempotencyOutcome (ρ : Type) where
  cachedResponse : Option ρ := none
  cachedStatus : Option ℕ := none

def applyIdempotency (scope : Scope) (fingerprint : String) :
    IdemProc σ Op Ret ε ρ (IdempotencyOutcome ρ) := do
  match ← lookup cfg scope fingerprint with
  | .miss => return {}
  | .hit response statusCode _ =>
    return { cachedResponse := some response, cachedStatus := some statusCode }

/-- A request: the middleware's user, the endpoint, the `Idempotency-Key` header, the body, and what
the endpoint runs. -/
structure IdemRequest (Req : Type) where
  user : Option (UserId × SystemRole)
  endpoint : String
  key : Option String
  body : Json
  responseStatus : ℕ := 200
  work : Req

/-- Under whom the request is remembered. An empty key is no key. -/
def IdemRequest.identity (r : IdemRequest Req) : Option Identity :=
  match r.user, r.key with
  | some (actorId, role), some key =>
    if key = "" then none else some ⟨actorId, role, r.endpoint, key⟩
  | _, _ => none

/-- `await run()`, which the history notes. -/
def runWork (work : Req) (note : ρ → IdemWorld σ ρ → IdemWorld σ ρ) : IdemProc σ Op Ret ε ρ ρ := do
  Coro.modify fun w => { w with runs := w.runs + 1 }
  let response ← embed cfg.backend.fault (cfg.work work)
  Coro.modify (note response)
  return response

/-- Note a completed run. -/
def noteCompletion (i : Identity) (fingerprint : String) (response : ρ) (w : IdemWorld σ ρ) :
    IdemWorld σ ρ :=
  { w with
    completions := update w.completions i.scope
      (w.completions i.scope ++ [⟨i, fingerprint, response⟩]) }

/-- What happens under the lock of the key. -/
def replayOrRun (i : Identity) (r : IdemRequest Req) : IdemProc σ Op Ret ε ρ ρ := do
  let fingerprint := cfg.fingerprint r.body
  let outcome ← (applyIdempotency cfg i.scope fingerprint).tryCatch fun
    | .idempotencyConflict detail => .raise (.http 422 detail)
    | e => .raise e
  match outcome.cachedResponse with
  | some response => return response
  | none =>
    let response ← runWork cfg r.work (noteCompletion i fingerprint)
    store cfg i.scope fingerprint response r.responseStatus
    return response

/-- `lock_for(...)` released. -/
def releaseScope (scope : Scope) (w : IdemWorld σ ρ) : IdemWorld σ ρ :=
  { w with held := update w.held scope false }

@[grind =] def idemReplayOrRun (r : IdemRequest Req) : IdemProc σ Op Ret ε ρ ρ :=
  match r.user with
  | none => .raise (.http 401 "Authentication required")
  | some _ =>
    match r.identity with
    | none => runWork cfg r.work fun _ w => w
    | some i => Coro.withLock (.acquire i.scope) (releaseScope i.scope) (replayOrRun cfg i r)

/-- Any number of requests, any interleaving at awaits, failing operations, a clock. -/
def IdemConfig.program : Program (IdemWorld σ ρ) (IdemOp Op ρ) (IdemOp.Reply Ret) (IdemExn ε) ρ
    (IdemRequest Req) ℕ where
  perform := IdemOp.perform cfg.backend
  fault := .database
  handler := idemReplayOrRun cfg
  tick := fun d w => { w with now := w.now + d, app := cfg.tick d w.app }

end Stores

end Idempotency

end AfterFlow
