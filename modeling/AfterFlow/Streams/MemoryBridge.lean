import AfterFlow.Transition.Runs
import Mathlib.Data.List.DropRight
import Mathlib.Data.List.Infix

/-!
# The in-memory stream bridge

`MemoryStreamBridge` keeps the last events of a run for its subscribers. A publisher takes the next
sequence number, waits for the stream's condition and appends its event; the buffer is bounded, so
the oldest events leave it. A subscriber looks for the position after its `Last-Event-ID`, and then
takes the condition again and again to read the event at its position, END if there is none and the
run has ended, or to wait.

The position of an id is computed from its sequence number, as if every number had been appended.

A step of the model is what one call does between two points where it can be suspended. The lock of
the condition is fair. It is free between two steps but for one case: a subscriber with a heartbeat
interval that is not positive keeps it while `wait_for` cancels its wait. Calls that come meanwhile
wait, and can be cancelled.
-/

namespace AfterFlow.Streams

open Transition

/-- `int(text)`, of which only this is used. -/
structure PyInt where
  int : String → Option ℤ
  /-- The digits of a number are read back. -/
  int_toString : ∀ n : ℕ, int (toString n) = some (n : ℤ)

variable {δ : Type}

/-! ### Streams -/

structure StreamEvent (δ : Type) where
  id : String
  event : String
  data : δ
  deriving DecidableEq

structure RunStream (δ : Type) where
  events : List (StreamEvent δ)
  ended : Bool
  startOffset : ℕ
  deriving DecidableEq

/-- The id of an event: the time in milliseconds and the sequence number. -/
def eventId (ts seq : ℕ) : String := toString ts ++ "-" ++ toString seq

/-- The last part of `rpartition("-")`, if there is a `"-"`. -/
def afterLastDash (s : String) : Option String :=
  if '-' ∈ s.toList then some (String.ofList (s.toList.rtakeWhile fun c => c ≠ '-')) else none

def parseEventSeq (py : PyInt) (eventId : String) : Option ℤ :=
  (afterLastDash eventId).bind py.int

namespace RunStream

@[grind =] def resolveStartOffset (py : PyInt) (stream : RunStream δ) (lastEventId : Option String) : ℕ :=
  match lastEventId with
  | none => stream.startOffset
  | some id =>
    match parseEventSeq py id with
    | none => stream.startOffset
    | some seq =>
      let localIndex := seq - stream.startOffset
      if 0 ≤ localIndex ∧ localIndex < stream.events.length ∧
          stream.events[localIndex.toNat]?.map StreamEvent.id = some id then
        stream.startOffset + localIndex.toNat + 1
      else stream.startOffset

/-- What `publish` does to the stream once it has the condition. -/
def append (maxsize : ℕ) (stream : RunStream δ) (entry : StreamEvent δ) : RunStream δ :=
  let events := stream.events ++ [entry]
  let overflow := events.length - maxsize
  { stream with events := events.drop overflow, startOffset := stream.startOffset + overflow }

end RunStream

/-! ### Subscribers -/

/-- What a subscriber gets. -/
inductive Item (δ : Type) where
  | event (entry : StreamEvent δ)
  /-- The warning that it fell behind the retained buffer and resumes from an offset. -/
  | behind (offset : ℕ)
  | heartbeat
  /-- END, after a number of published events. -/
  | finish (published : ℕ)
  deriving DecidableEq

/-- Where a subscriber is. -/
inductive Phase where
  /-- It wants the condition, to find its position, -/
  | entering
  /-- to read, -/
  | reading
  /-- to read again after it was notified, -/
  | woken
  /-- or to give a heartbeat after it was not. -/
  | timedOut
  /-- It has yielded an item. -/
  | yielded
  /-- It waits on the condition, which it has released. -/
  | sleeping
  /-- It has a heartbeat interval that is not positive: `wait_for` cancels the wait before it has
  started, so the condition is still held. -/
  | holding
  | done
  deriving DecidableEq

structure Subscriber (δ : Type) where
  lastEventId : Option String
  /-- Whether the heartbeat interval is positive. -/
  patient : Bool
  phase : Phase
  nextOffset : ℕ
  received : List (Item δ)
  /-- The stream in which it looked for its position. -/
  found : Option (RunStream δ)
  deriving DecidableEq

/-- A call that waits for the condition. -/
inductive Waiter (δ : Type) where
  | publisher (entry : StreamEvent δ)
  | ender
  | subscriber (i : ℕ)
  deriving DecidableEq

/-! ### The bridge -/

/-- The bridge as it concerns one run. -/
structure Bridge (δ : Type) where
  stream : RunStream δ
  counter : ℕ
  subscribers : List (Subscriber δ)
  /-- The subscriber that holds the condition while it is suspended. -/
  holder : Option ℕ
  /-- The calls that wait for the condition. Its lock is fair. -/
  waiting : List (Waiter δ)
  /-- Every event that was ever appended. -/
  published : List (StreamEvent δ)
  deriving DecidableEq

namespace Bridge

def new : Bridge δ := ⟨⟨[], false, 0⟩, 0, [], none, [], []⟩

/-- One pass of the loop of `subscribe`, with the condition. -/
def read (s : Bridge δ) (i : ℕ) (sub : Subscriber δ) : Bridge δ :=
  let sub :=
    if sub.nextOffset < s.stream.startOffset then
      { sub with
        nextOffset := s.stream.startOffset
        received := sub.received ++ [.behind s.stream.startOffset] }
    else sub
  match s.stream.events[sub.nextOffset - s.stream.startOffset]? with
  | some entry =>
    { s with subscribers := s.subscribers.set i { sub with
        nextOffset := sub.nextOffset + 1, received := sub.received ++ [.event entry]
        phase := .yielded } }
  | none =>
    if s.stream.ended then
      { s with subscribers := s.subscribers.set i { sub with
          received := sub.received ++ [.finish s.published.length], phase := .done } }
    else if sub.patient then
      { s with subscribers := s.subscribers.set i { sub with phase := .sleeping } }
    else
      { s with subscribers := s.subscribers.set i { sub with phase := .holding }, holder := some i }

/-- A subscriber that has just released the condition takes it again to read. -/
def readAgain (s : Bridge δ) (i : ℕ) (sub : Subscriber δ) : Bridge δ :=
  if s.waiting = [] then s.read i { sub with phase := .reading }
  else { s with
    subscribers := s.subscribers.set i { sub with phase := .reading }
    waiting := s.waiting ++ [.subscriber i] }

/-- What a call does with the condition, up to where it is suspended next. -/
@[grind =] def enter (py : PyInt) (maxsize : ℕ) (s : Bridge δ) : Waiter δ → Bridge δ
  | .publisher entry =>
    { s with stream := s.stream.append maxsize entry, published := s.published ++ [entry] }
  | .ender => { s with stream := { s.stream with ended := true } }
  | .subscriber i =>
    match s.subscribers[i]? with
    | none => s
    | some sub =>
      match sub.phase with
      | .entering => s.readAgain i { sub with
          nextOffset := s.stream.resolveStartOffset py sub.lastEventId, found := some s.stream }
      | .woken => s.readAgain i sub
      | .timedOut => { s with subscribers := s.subscribers.set i { sub with
          received := sub.received ++ [.heartbeat], phase := .yielded } }
      | .reading => s.read i sub
      | _ => s

/-- `async with stream.condition`. -/
def acquire (py : PyInt) (maxsize : ℕ) (s : Bridge δ) (w : Waiter δ) : Bridge δ :=
  if s.holder = none ∧ s.waiting = [] then s.enter py maxsize w
  else { s with waiting := s.waiting ++ [w] }

/-- A subscriber in phase `p` goes for the condition in phase `p'`. -/
def move (py : PyInt) (maxsize : ℕ) (s : Bridge δ) (i : ℕ) (p p' : Phase) : Option (Bridge δ) := do
  let sub ← s.subscribers[i]?
  if sub.phase = p then
    some ({ s with subscribers := s.subscribers.set i { sub with phase := p' } }.acquire py maxsize
      (.subscriber i))
  else none

end Bridge

inductive Label (δ : Type) where
  | publish (ts : ℕ) (event : String) (data : δ)
  | publishEnd
  | subscribe (lastEventId : Option String) (patient : Bool)
  /-- A subscriber is asked for its next item, -/
  | next (i : ℕ)
  /-- wakes up after a notification, -/
  | wake (i : ℕ)
  /-- or after its heartbeat interval, -/
  | timeout (i : ℕ)
  /-- or is closed. -/
  | leave (i : ℕ)
  /-- The condition goes to the first call that waits for it. -/
  | grant
  /-- A call is cancelled while it waits for the condition. -/
  | cancel (j : ℕ)
  deriving DecidableEq

@[grind =] def step (py : PyInt) (maxsize : ℕ) (s : Bridge δ) : Label δ → Option (Bridge δ)
  | .publish ts event data =>
    some ({ s with counter := s.counter + 1 }.acquire py maxsize
      (.publisher ⟨eventId ts s.counter, event, data⟩))
  | .publishEnd => some (s.acquire py maxsize .ender)
  | .subscribe lastEventId patient =>
    let sub : Subscriber δ := ⟨lastEventId, patient, .entering, 0, [], none⟩
    some ({ s with subscribers := s.subscribers ++ [sub] }.acquire py maxsize
      (.subscriber s.subscribers.length))
  | .next i => s.move py maxsize i .yielded .reading
  | .wake i => s.move py maxsize i .sleeping .woken
  | .timeout i => do
    let sub ← s.subscribers[i]?
    if sub.phase = .holding then
      some { s with
        subscribers := s.subscribers.set i { sub with
          received := sub.received ++ [.heartbeat], phase := .yielded }
        holder := none }
    else s.move py maxsize i .sleeping .timedOut
  | .leave i => do
    let sub ← s.subscribers[i]?
    if sub.phase ∈ [.yielded, .sleeping, .holding] then
      some { s with
        subscribers := s.subscribers.set i { sub with phase := .done }
        holder := if sub.phase = .holding then none else s.holder }
    else none
  | .grant =>
    match s.holder, s.waiting with
    | none, w :: rest => some ({ s with waiting := rest }.enter py maxsize w)
    | _, _ => none
  | .cancel j => do
    let w ← s.waiting[j]?
    let s := { s with waiting := s.waiting.eraseIdx j }
    match w with
    | .subscriber i =>
      let sub ← s.subscribers[i]?
      some { s with subscribers := s.subscribers.set i { sub with phase := .done } }
    | _ => some s

end AfterFlow.Streams
