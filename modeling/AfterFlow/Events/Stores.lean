import AfterFlow.Events.Record

/-!
# The three event stores

`JsonlRunEventStore` keeps a file for each run, in a directory for each thread. A record is one line
of JSON, appended to the file of its run. Reading a file splits it into lines and decodes each; a
line that cannot be decoded is skipped. The number of a record comes from a counter of the process,
which starts at the largest number that the files of the thread show.

`MemoryRunEventStore` keeps the events of each thread in a list and the last number of each thread
in a counter. The projections by category and by run, which only make reading faster, are left out.

`DbRunEventStore` keeps a row for each event, over all threads. The number of a new row is one more
than the greatest number the thread has *now*, so it depends on what was deleted. Each operation is
one transaction, in which no other writer of the thread takes part. What an operation returns is the
row, before `_row_to_dict` reads its content back.

`json.loads` and `datetime.fromisoformat` are parameters. Their results are `none` where they raise
`JSONDecodeError` and `ValueError`.
-/

/-! ### Files -/

namespace AfterFlow.Events

open PyStr Function

inductive StoreError where
  /-- `ValueError("Invalid {label}: must be alphanumeric/dash/underscore, got {value!r}")`. -/
  | invalidId (label value : String)
  | attributeError
  | typeError
  deriving DecidableEq

/-- The arguments of `put`. -/
structure EventInput where
  threadId : String
  runId : String
  eventType : String
  category : String
  content : Value
  metadata : List (String × Value)
  createdAt : Option String

/-- The record of an event, created now if it has no time of its own. -/
def EventInput.record (e : EventInput) (now : String) (seq : ℕ) : EventRecord :=
  { threadId := e.threadId, runId := e.runId, eventType := e.eventType, category := e.category
    content := e.content, metadata := e.metadata, seq := seq
    createdAt := (e.createdAt.filter fun s => s ≠ "").getD now }

/-! ### Ids -/

def isSafeChar (c : Char) : Bool := c.isAlphanum || c == '_' || c == '-'

/-- `_SAFE_ID_PATTERN.match`; the `$` of the pattern also matches before a newline at the end. -/
def isSafeId (s : String) : Bool :=
  let body := if s.toList.getLast? = some '\n' then s.toList.dropLast else s.toList
  body ≠ [] && body.all isSafeChar

def validateId (value label : String) : Except StoreError Unit :=
  if isSafeId value then .ok () else .error (.invalidId label value)

/-! ### Reading -/

/-- `record.get("seq", 0)`, to be compared with other numbers. -/
def seqOf : Value → Except StoreError ℤ
  | .obj fields =>
    match fields.lookup "seq" with
    | none => .ok 0
    | some (.int n) => .ok n
    | some _ => .error .typeError
  | _ => .error .attributeError

/-- `events.sort(key=lambda e: e.get("seq", 0))`. A single event is not compared. -/
def sortBySeq : List Value → Except StoreError (List Value)
  | [.obj fields] => .ok [.obj fields]
  | events => do
    let keyed ← events.mapM fun v => (seqOf v).map fun n => (n, v)
    .ok ((keyed.insertionSort fun a b => a.1 ≤ b.1).map Prod.snd)

variable (loads : String → Option Value)

/-- The lines of a file. -/
def fileLines (text : String) : List String := (splitlines (strip text).toList).map String.ofList

/-- The values on the lines of a file; a malformed line is skipped. -/
def decode (text : String) : List Value :=
  (fileLines text).filterMap fun line => if line = "" then none else loads line

/-- A process with its counters, and the files of each thread by run. -/
structure JsonlStore where
  seqCounters : String → Option ℕ
  files : String → List (String × String)

namespace JsonlStore

def empty : JsonlStore := ⟨fun _ => none, fun _ => []⟩

variable (s : JsonlStore)

/-- `_compute_max_seq`. -/
def computeMaxSeq (threadId : String) : Except StoreError ℤ := do
  validateId threadId "thread_id"
  ((s.files threadId).flatMap fun f => (fileLines f.2).filterMap loads).foldlM
    (fun maxSeq record => (seqOf record).map (max maxSeq)) 0

/-- `_ensure_seq_loaded`: the counter of the thread, from the files if it is not known. -/
def loadSeq (threadId : String) : Except StoreError ℕ :=
  match s.seqCounters threadId with
  | some seq => .ok seq
  | none => (s.computeMaxSeq loads threadId).map Int.toNat

/-- Append a text to the file of a run. -/
def appendFile (threadId runId text : String) : JsonlStore :=
  let dir :=
    match (s.files threadId).lookup runId with
    | some _ => (s.files threadId).map fun f => if f.1 = runId then (f.1, f.2 ++ text) else f
    | none => s.files threadId ++ [(runId, text)]
  { s with files := update s.files threadId dir }

/-- `_write_record`. -/
def writeRecord (record : EventRecord) : Except StoreError JsonlStore := do
  validateId record.runId "run_id"
  validateId record.threadId "thread_id"
  .ok (s.appendFile record.threadId record.runId (record.value.dumps ++ "\n"))

/-- `put`: the record or what is raised, and the store after it. -/
def put (now : String) (e : EventInput) : Except StoreError EventRecord × JsonlStore :=
  match s.loadSeq loads e.threadId with
  | .error error => (.error error, s)
  | .ok seq =>
    let record := e.record now (seq + 1)
    let s := { s with seqCounters := update s.seqCounters e.threadId (some (seq + 1)) }
    match s.writeRecord record with
    | .error error => (.error error, s)
    | .ok s => (.ok record, s)

/-- `_read_run_events`. -/
def readRunEvents (threadId runId : String) : Except StoreError (List Value) := do
  validateId runId "run_id"
  validateId threadId "thread_id"
  match (s.files threadId).lookup runId with
  | none => .ok []
  | some text => sortBySeq (decode loads text)

/-- `delete_by_run`: how many events it deletes, and the store after it. -/
def deleteByRun (threadId runId : String) : Except StoreError ℕ × JsonlStore :=
  match s.readRunEvents loads threadId runId with
  | .error error => (.error error, s)
  | .ok events =>
    let dir := (s.files threadId).filter fun f => f.1 ≠ runId
    (.ok events.length, { s with files := update s.files threadId dir })

/-- A new process over the same files. -/
def restart : JsonlStore := { s with seqCounters := fun _ => none }

end JsonlStore

end AfterFlow.Events

/-! ### Lists -/

namespace AfterFlow.Events

/-- The events and the last number of each thread. -/
structure MemoryStore where
  events : String → List EventRecord
  seqCounters : String → ℕ

namespace MemoryStore

def empty : MemoryStore := ⟨fun _ => [], fun _ => 0⟩

variable (s : MemoryStore)

/-- `_put_one`. -/
def putOne (now : String) (e : EventInput) : EventRecord × MemoryStore :=
  let seq := s.seqCounters e.threadId + 1
  let record := e.record now seq
  (record, {
    events := Function.update s.events e.threadId (s.events e.threadId ++ [record])
    seqCounters := Function.update s.seqCounters e.threadId seq })

def put (now : String) (e : EventInput) : EventRecord × MemoryStore := s.putOne now e

/-- `put_batch`, each event with the time at which it is put. -/
@[grind =] def putBatch (s : MemoryStore) : List (String × EventInput) → List EventRecord × MemoryStore
  | [] => ([], s)
  | (now, e) :: events =>
    let (record, s) := s.putOne now e
    let (results, s) := s.putBatch events
    (record :: results, s)

/-- `delete_by_run`: how many events it deletes, and the store after it. -/
def deleteByRun (threadId runId : String) : ℕ × MemoryStore :=
  let allEvents := s.events threadId
  if allEvents = [] then (0, s)
  else
    let remaining := allEvents.filter fun e => e.runId ≠ runId
    (allEvents.length - remaining.length,
      { s with events := Function.update s.events threadId remaining })

end MemoryStore

end AfterFlow.Events

/-! ### Rows -/

namespace AfterFlow.Events

/-- A row of the table `run_events`, with times `τ`. -/
structure DbRow (τ : Type) where
  threadId : String
  runId : String
  userId : Option String
  eventType : String
  category : String
  content : String
  eventMetadata : List (String × Value)
  seq : ℕ
  createdAt : τ

/-- An event of `put_batch`: what it may leave out is an `Option`. -/
structure DbEvent where
  threadId : String
  runId : String
  eventType : String
  category : Option String
  content : Option Value
  metadata : Option (List (String × Value))
  createdAt : Option String
  /-- `none` where the event says nothing of a user. -/
  userId : Option (Option String)

/-- The event with its defaults. -/
def DbEvent.input (e : DbEvent) : EventInput :=
  { threadId := e.threadId, runId := e.runId, eventType := e.eventType
    category := e.category.getD "trace", content := e.content.getD (.str "")
    metadata := e.metadata.getD [], createdAt := e.createdAt }

/-- `ValueError`, for one of two reasons. -/
inductive DbError where
  /-- `f"put_batch requires all events to belong to the same thread; got {thread_ids!r}"`. -/
  | manyThreads (threadIds : List String)
  | badTime (createdAt : String)
  deriving DecidableEq

/-! ### The content of a row -/

/-- `text.encode("utf-8")[:n].decode("utf-8", errors="ignore")`: a character that is cut is left
out. -/
def truncateUtf8 : ℕ → List Char → List Char
  | _, [] => []
  | n, c :: cs => if c.utf8Size ≤ n then c :: truncateUtf8 (n - c.utf8Size) cs else []

/-- `{**fields, key: value}`. -/
def withField (fields : List (String × Value)) (key : String) (value : Value) :
    List (String × Value) :=
  if (fields.lookup key).isSome then
    fields.map fun f => if f.1 = key then (key, value) else f
  else fields ++ [(key, value)]

/-- The content as a text: itself, or its JSON. -/
def contentText : Value → String
  | .str text => text
  | content => content.dumps

/-- `_truncate_trace`. -/
def truncateTrace (maxTraceContent : ℕ) (category : String) (content : Value)
    (metadata : List (String × Value)) : Value × List (String × Value) :=
  let text := contentText content
  if category = "trace" ∧ maxTraceContent < text.utf8ByteSize then
    (.str (String.ofList (truncateUtf8 maxTraceContent text.toList)),
      withField (withField metadata "content_truncated" (.bool true)) "original_byte_length"
        (.int text.utf8ByteSize))
  else (content, metadata)

/-- `_content_to_db`. -/
@[grind =] def contentToDb (content : Value) (metadata : List (String × Value)) :
    String × List (String × Value) :=
  match content with
  | .str text => (text, metadata)
  | .obj _ =>
    (content.dumps,
      withField (withField metadata "content_is_json" (.bool true)) "content_is_dict" (.bool true))
  | _ => (content.dumps, withField metadata "content_is_json" (.bool true))

/-! ### The store -/

structure DbStore (τ : Type) where
  maxTraceContent : ℕ
  rows : List (DbRow τ)

namespace DbStore

variable {τ : Type} (fromisoformat : String → Option τ) (s : DbStore τ)

/-- `_max_seq_for_thread`. -/
def maxSeqForThread (threadId : String) : Option ℕ :=
  ((s.rows.filter fun r => r.threadId = threadId).map DbRow.seq).max?

/-- `datetime.fromisoformat(created_at) if created_at else datetime.now(UTC)`. -/
def createdTime (now : τ) : Option String → Except DbError τ
  | none => .ok now
  | some text =>
    if text = "" then .ok now
    else match fromisoformat text with
      | none => .error (.badTime text)
      | some time => .ok time

/-- The row of an event. -/
def newRow (userId : Option String) (now : τ) (seq : ℕ) (e : EventInput) :
    Except DbError (DbRow τ) := do
  let (content, metadata) := truncateTrace s.maxTraceContent e.category e.content e.metadata
  let (dbContent, metadata) := contentToDb content metadata
  let createdAt ← createdTime fromisoformat now e.createdAt
  .ok { threadId := e.threadId, runId := e.runId, userId := userId, eventType := e.eventType
        category := e.category, content := dbContent, eventMetadata := metadata, seq := seq
        createdAt := createdAt }

/-- `put` by a user: the row or what is raised, and the store after it. -/
@[grind =] def put (userId : Option String) (now : τ) (e : EventInput) :
    Except DbError (DbRow τ) × DbStore τ :=
  let seq := (s.maxSeqForThread e.threadId).getD 0 + 1
  match s.newRow fromisoformat userId now seq e with
  | .error error => (.error error, s)
  | .ok row => (.ok row, { s with rows := s.rows ++ [row] })

/-- The rows of the events of a batch, numbered from `seq + 1`. -/
@[grind =] def batchRows (userId : Option String) (seq : ℕ) :
    List (τ × DbEvent) → Except DbError (List (DbRow τ))
  | [] => .ok []
  | (now, e) :: events => do
    let row ← s.newRow fromisoformat (e.userId.getD userId) now (seq + 1) e.input
    let rows ← batchRows userId (seq + 1) events
    .ok (row :: rows)

/-- `put_batch` by a user, each event with the time at which its row is made. -/
@[grind =] def putBatch (userId : Option String) (events : List (τ × DbEvent)) :
    Except DbError (List (DbRow τ)) × DbStore τ :=
  match events with
  | [] => (.ok [], s)
  | (_, first) :: _ =>
    let threadIds := (events.map fun e => e.2.threadId).dedup
    if 1 < threadIds.length then (.error (.manyThreads threadIds), s)
    else
      let seq := (s.maxSeqForThread first.threadId).getD 0
      match s.batchRows fromisoformat userId seq events with
      | .error error => (.error error, s)
      | .ok rows => (.ok rows, { s with rows := s.rows ++ rows })

/-- The rows that `delete_by_run` deletes for a user, or for all where there is none. -/
def isDeleted (threadId runId : String) (userId : Option String) (r : DbRow τ) : Bool :=
  r.threadId = threadId ∧ r.runId = runId ∧ (userId = none ∨ r.userId = userId)

/-- `delete_by_run`: how many events it deletes, and the store after it. -/
def deleteByRun (threadId runId : String) (userId : Option String) : ℕ × DbStore τ :=
  ((s.rows.filter (isDeleted threadId runId userId)).length,
    { s with rows := s.rows.filter fun r => !isDeleted threadId runId userId r })

end DbStore

end AfterFlow.Events
