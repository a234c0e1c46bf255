import Mathlib.Data.Nat.Notation
import Mathlib.Logic.Function.Basic

/-!
# The pool of MCP sessions

`MCPSessionPool` keeps a session for each server and scope. A session belongs to a task that enters
it, waits for a close event, and leaves it. While it is being created it is in a table of its own,
so that others wait for it instead of creating another, and whoever closes a scope takes it out of
there, so that it is not registered later. Everything between two awaits is one step.

A call that takes sessions out of the tables shuts them down one after the other. Until its turn
comes, a session is in the list of that call, and nowhere else.

A task that is cancelled before its first step ends without running, and the future that others wait
for is not resolved then.
-/

namespace AfterFlow.Mcp

/-- `(server_name, scope_key)`. -/
abbrev Key := String × String

/-- `MCPSessionPool.MAX_SESSIONS`. -/
@[irreducible] def maxSessions : ℕ := 256

/-! ### Owners -/

/-- Where `_run_session` is. -/
inductive Phase where
  | scheduled
  /-- `cm.__aenter__`. -/
  | connecting
  /-- `session.initialize`. -/
  | initializing
  /-- `close_evt.wait`. -/
  | serving
  /-- `cm.__aexit__`. -/
  | exiting
  | ended
  /-- The task was cancelled before its first step, and nothing of it has run. -/
  | dropped
  deriving DecidableEq

/-- The future `ready`. -/
inductive Ready where
  | pending
  | session
  | failed
  deriving DecidableEq

/-- `if not ready.done()`. -/
def Ready.resolve (r new : Ready) : Ready := if r = .pending then new else r

/-- A task that owns a session. -/
structure Owner where
  key : Key
  phase : Phase
  ready : Ready
  closeEvt : Bool
  /-- `task.cancel` has been called. -/
  cancelled : Bool
  deriving DecidableEq

namespace Owner

def create (key : Key) : Owner := ⟨key, .scheduled, .pending, false, false⟩

def running (x : Owner) : Bool := x.phase ≠ .ended && x.phase ≠ .dropped

def cancel (x : Owner) : Owner := { x with cancelled := true }

/-- What `_shutdown` does before it waits. -/
def shutdown (cancel : Bool) (x : Owner) : Owner :=
  { x with closeEvt := true, cancelled := x.cancelled || cancel }

end Owner

/-- What becomes of what an owner waits for. What a session makes of a cancellation is its own. -/
inductive OwnerAct where
  | start
  | entered
  | enterFailed
  | initialized
  | initializeFailed
  | woken
  | exited
  deriving DecidableEq

/-- `_run_session`. -/
@[grind =] def Owner.step (x : Owner) : OwnerAct → Option Owner
  | .start =>
    if x.phase = .scheduled then
      some { x with phase := if x.cancelled then .dropped else .connecting }
    else none
  | .entered => if x.phase = .connecting then some { x with phase := .initializing } else none
  | .enterFailed =>
    if x.phase = .connecting then
      some { x with phase := .ended, ready := x.ready.resolve .failed }
    else none
  | .initialized =>
    if x.phase = .initializing then
      some { x with phase := .serving, ready := x.ready.resolve .session }
    else none
  | .initializeFailed =>
    if x.phase = .initializing then
      some { x with phase := .exiting, ready := x.ready.resolve .failed }
    else none
  | .woken =>
    if x.phase = .serving ∧ (x.closeEvt || x.cancelled) = true then
      some { x with phase := .exiting }
    else none
  | .exited => if x.phase = .exiting then some { x with phase := .ended } else none

/-! ### The pool -/

/-- What a call does when it has shut down what it has taken out. -/
inductive Next where
  /-- Return from a close call. -/
  | closed
  /-- Wait for the creation of another. -/
  | join (o : ℕ)
  /-- Wait for the own creation. -/
  | create (key : Key) (o : ℕ)
  /-- Raise `CancelledError`. -/
  | raise
  deriving DecidableEq

/-- Where a call of `get_session`, `close_scope`, `close_server` or `close_all` is. -/
inductive Stage where
  | idle
  /-- `await task` in `_shutdown`, with what is still to be shut down and whether it is
  cancelled. -/
  | awaiting (o : ℕ) (rest : List (ℕ × Bool)) (next : Next)
  | joining (o : ℕ)
  | creating (key : Key) (o : ℕ)
  /-- The wait for the owner after a failure. -/
  | unwinding (key : Key) (o : ℕ)
  | returned (o : ℕ)
  | raised
  | closed
  deriving DecidableEq

/-- The owners that the call has taken out of the tables and not told yet. -/
def Stage.rest : Stage → List ℕ
  | .awaiting _ rest _ => rest.map Prod.fst
  | _ => []

/-- The owner whose future the call is going to wait for. -/
@[grind =] def Next.future : Next → Option ℕ
  | .join o | .create _ o => some o
  | _ => none

/-- The owner whose future the call waits for, or is going to. -/
@[grind =] def Stage.future : Stage → Option ℕ
  | .awaiting _ _ next => next.future
  | .joining o | .creating _ o => some o
  | _ => none

/-- The call waits for the future of the owner. -/
@[grind =] def Stage.waitsFor (o : ℕ) : Stage → Bool
  | .joining p | .creating _ p => p = o
  | _ => false

/-- What a close call is for. -/
inductive Target where
  | scope (scopeKey : String)
  | server (serverName : String)
  | all

def Target.covers : Target → Key → Bool
  | .scope scopeKey, key => key.2 = scopeKey
  | .server serverName, key => key.1 = serverName
  | .all, _ => true

/-- The pool, the tasks and the calls on one event loop. -/
structure World where
  /-- `_entries`, the least recently used first. -/
  entries : List (Key × ℕ)
  /-- `_inflight`. -/
  inflight : List (Key × ℕ)
  owners : List Owner
  calls : ℕ → Stage

/-- A table without a key. -/
def erase (l : List (Key × ℕ)) (key : Key) : List (Key × ℕ) := l.filter fun e => e.1 ≠ key

/-- What a close call takes out of a table. -/
def Target.take (target : Target) (l : List (Key × ℕ)) : List (Key × ℕ) :=
  l.filter fun e => target.covers e.1

/-- What it leaves. -/
def Target.leave (target : Target) (l : List (Key × ℕ)) : List (Key × ℕ) :=
  l.filter fun e => !target.covers e.1

/-- The owners of a table, and whether they are to be cancelled. -/
def listed (cancel : Bool) (l : List (Key × ℕ)) : List (ℕ × Bool) := l.map fun e => (e.2, cancel)

def init : World where
  entries := []
  inflight := []
  owners := []
  calls _ := .idle

inductive Act where
  /-- `get_session`, as far as its first await. -/
  | get (c : ℕ) (key : Key)
  /-- A close call, as far as its first await. -/
  | close (c : ℕ) (target : Target)
  /-- What a call waits for is done. -/
  | resume (c : ℕ)
  /-- The task of a call is cancelled where it waits. -/
  | cancel (c : ℕ)
  | owner (o : ℕ) (a : OwnerAct)

/-- The act is the start of a `get_session` for something that the target covers. -/
def Act.starts (target : Target) : Act → Bool
  | .get _ key => target.covers key
  | _ => false

namespace World

variable (w : World)

def running (o : ℕ) : Bool := w.owners[o]?.any Owner.running

/-- The close event has been set. -/
def told (o : ℕ) : Bool := w.owners[o]?.any Owner.closeEvt

def ready (o : ℕ) : Ready := (w.owners[o]?.map Owner.ready).getD .pending

def keyOf (o : ℕ) : Option Key := w.owners[o]?.map Owner.key

def goTo (c : ℕ) (stage : Stage) : World := { w with calls := Function.update w.calls c stage }

def modifyOwner (o : ℕ) (f : Owner → Owner) : World := { w with owners := w.owners.modify o f }

/-- Shut down the next owner, or go on when there is none. -/
@[grind =] def proceed (c : ℕ) : List (ℕ × Bool) → Next → World
  | (o, cancel) :: rest, next =>
    (w.modifyOwner o (Owner.shutdown cancel)).goTo c (.awaiting o rest next)
  | [], .closed => w.goTo c .closed
  | [], .join o => w.goTo c (.joining o)
  | [], .create key o => w.goTo c (.creating key o)
  | [], .raise => w.goTo c .raised

/-- `_inflight.pop(key)`, if the record is still this one. -/
def popInflight (key : Key) (o : ℕ) : List (Key × ℕ) :=
  if w.inflight.lookup key = some o then erase w.inflight key else w.inflight

/-- How many entries are evicted while the pool is full. -/
def overflow : ℕ := w.entries.length + 1 - maxSessions

/-- Evict the least recently used, and go on. -/
def evict (c : ℕ) (next : Next) : World :=
  { w with entries := w.entries.drop w.overflow }.proceed c
    (listed false (w.entries.take w.overflow)) next

/-- `get_session` as far as its first await. -/
@[grind =] def getSession (c : ℕ) (key : Key) : World :=
  match w.entries.lookup key with
  | some o =>
    { w with entries := erase w.entries key ++ [(key, o)] }.goTo c (.returned o)
  | none =>
    match w.inflight.lookup key with
    | some o => w.evict c (.join o)
    | none =>
      let o := w.owners.length
      { w with
        owners := w.owners ++ [Owner.create key]
        inflight := w.inflight ++ [(key, o)] }.evict c (.create key o)

/-- Phase 4 of `get_session`. -/
def promote (c : ℕ) (key : Key) (o : ℕ) : World :=
  if w.inflight.lookup key = some o then
    { w with
      inflight := w.popInflight key o
      entries := erase w.entries key ++ [(key, o)] }.goTo c (.returned o)
  else w.proceed c [(o, false)] .raise

/-- The wait for the creation is cancelled. An owner that has failed is left alone. -/
def giveUp (c : ℕ) (key : Key) (o : ℕ) : World :=
  if w.ready o = .failed then w.goTo c (.unwinding key o)
  else (w.modifyOwner o (Owner.shutdown true)).goTo c (.unwinding key o)

/-- The end of `get_session` after a failure. -/
def unwind (c : ℕ) (key : Key) (o : ℕ) : World :=
  { w with inflight := w.popInflight key o }.goTo c .raised

/-- `close_scope`, `close_server` and `close_all` as far as their first await. -/
def close (c : ℕ) (target : Target) : World :=
  { w with
    entries := target.leave w.entries
    inflight := target.leave w.inflight }.proceed c
    (listed false (target.take w.entries) ++ listed true (target.take w.inflight)) .closed

end World

/-- One act, if it is somebody's turn to do it. -/
@[grind =] def step (w : World) : Act → Option World
  | .get c key => if w.calls c = .idle then some (w.getSession c key) else none
  | .close c target => if w.calls c = .idle then some (w.close c target) else none
  | .resume c =>
    match w.calls c with
    | .awaiting o rest next => if w.running o then none else some (w.proceed c rest next)
    | .joining o =>
      match w.ready o with
      | .pending => none
      | .session => some (w.goTo c (.returned o))
      | .failed => some (w.goTo c .raised)
    | .creating key o =>
      match w.ready o with
      | .pending => none
      | .session => some (w.promote c key o)
      | .failed => some (w.goTo c (.unwinding key o))
    | .unwinding key o => if w.running o then none else some (w.unwind c key o)
    | _ => none
  | .cancel c =>
    match w.calls c with
    -- a task that awaits another passes the cancellation on, and what comes back is swallowed
    | .awaiting o _ _ => some (w.modifyOwner o Owner.cancel)
    | .joining _ => some (w.goTo c .raised)
    | .creating key o => some (w.giveUp c key o)
    | .unwinding key o => some (w.unwind c key o)
    | _ => none
  | .owner o a =>
    w.owners[o]?.bind fun x => (x.step a).map fun y => { w with owners := w.owners.set o y }

end AfterFlow.Mcp
