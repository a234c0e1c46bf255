import AfterFlow.Events.EventLog

/-!
# The queries of the three stores

Each store answers the calls of the interface in its own way. The store in memory keeps projections
of its events, by category and by run, and bisects them; the files are read, decoded and filtered;
the database selects rows, orders them and limits their number.

The three differ where the interface does not say what to do, and in what they refuse. `event_types`
that is empty selects nothing in memory and in the files, and everything in the database. With both
cursors `list_messages` ignores the second in memory and in the files, and not in the database.

`as_string` of the database is a parameter: the text that a JSON value has in a comparison. A record
in a file without a number raises `KeyError` in one of the queries; every record that `put` writes
has one.
-/

namespace AfterFlow.Events

open PyStr Transition Function

/-- `(record.get("metadata") or {}).get("task_id") == task_id`. -/
def metadataOfTask (taskId : String) (metadata : Option Value) : Bool :=
  match metadata with
  | some (.obj fields) => ofTask taskId fields
  | _ => false

/-- `l[-limit:]`. -/
def sliceFromEnd {α : Type} (limit : ℕ) (l : List α) : List α :=
  if limit = 0 then l else latest limit l

/-! ### In memory -/

/-- The store with its projections. -/
structure MemoryIndex where
  store : MemoryStore
  messages : String → List EventRecord
  eventsByRun : String → String → List EventRecord
  messagesByRun : String → String → List EventRecord

namespace MemoryIndex

def empty : MemoryIndex := ⟨.empty, fun _ => [], fun _ _ => [], fun _ _ => []⟩

variable (s : MemoryIndex)

/-- `d.setdefault(thread_id, {}).setdefault(run_id, []).append(record)`. -/
def appendByRun (d : String → String → List EventRecord) (record : EventRecord) :
    String → String → List EventRecord :=
  update d record.threadId
    (update (d record.threadId) record.runId (d record.threadId record.runId ++ [record]))

/-- `_put_one`. -/
def putOne (now : String) (e : EventInput) : EventRecord × MemoryIndex :=
  let (record, store) := s.store.putOne now e
  (record,
    { store := store
      messages := if record.category = "message" then
        update s.messages record.threadId (s.messages record.threadId ++ [record])
        else s.messages
      eventsByRun := appendByRun s.eventsByRun record
      messagesByRun := if record.category = "message" then appendByRun s.messagesByRun record
        else s.messagesByRun })

/-- `put_batch`. -/
def putBatch (s : MemoryIndex) : List (String × EventInput) → List EventRecord × MemoryIndex
  | [] => ([], s)
  | (now, e) :: events =>
    let (record, s) := s.putOne now e
    let (results, s) := s.putBatch events
    (record :: results, s)

/-- The number of a record, to be bisected. -/
def seqKey (r : EventRecord) : ℤ := r.seq

/-- `list_messages`. -/
@[grind =] def listMessages (threadId : String) (limit : ℕ) (beforeSeq afterSeq : Option ℤ) :
    List EventRecord :=
  let messages := s.messages threadId
  match beforeSeq, afterSeq with
  | some beforeSeq, _ =>
    let hi := bisectLeft seqKey messages beforeSeq
    (messages.take hi).drop (hi - limit)
  | none, some afterSeq =>
    let lo := bisectRight seqKey messages afterSeq
    (messages.take (lo + limit)).drop lo
  | none, none => sliceFromEnd limit messages

/-- `list_events`. -/
def listEvents (threadId runId : String) (eventTypes : Option (List String))
    (taskId : Option String) (limit : ℕ) (afterSeq : Option ℤ) : List EventRecord :=
  let runEvents := s.eventsByRun threadId runId
  let runEvents := runEvents.filter fun e => eventTypes.all (e.eventType ∈ ·)
  let runEvents := runEvents.filter fun e => taskId.all (ofTask · e.metadata)
  let runEvents := runEvents.filter fun e => afterSeq.all (· < seqKey e)
  first limit runEvents

/-- `list_messages_by_run`. -/
def listMessagesByRun (threadId runId : String) (limit : ℕ) (beforeSeq afterSeq : Option ℤ) :
    List EventRecord :=
  let messages := s.messagesByRun threadId runId
  let lo := (afterSeq.map (bisectRight seqKey messages)).getD 0
  let hi := (beforeSeq.map (bisectLeft seqKey messages)).getD messages.length
  let window := (messages.take hi).drop lo
  if afterSeq.isSome then first limit window else sliceFromEnd limit window

/-- `delete_by_thread`. -/
def deleteByThread (threadId : String) : ℕ × MemoryIndex :=
  ((s.store.events threadId).length,
    { store := { events := update s.store.events threadId []
                 seqCounters := update s.store.seqCounters threadId 0 }
      messages := update s.messages threadId []
      eventsByRun := update s.eventsByRun threadId fun _ => []
      messagesByRun := update s.messagesByRun threadId fun _ => [] })

/-- `delete_by_run`. -/
def deleteByRun (threadId runId : String) : ℕ × MemoryIndex :=
  if s.store.events threadId = [] then (0, s)
  else
    let (removed, store) := s.store.deleteByRun threadId runId
    (removed,
      { store := store
        messages := update s.messages threadId
          ((store.events threadId).filter fun e => e.category = "message")
        eventsByRun := update s.eventsByRun threadId
          (update (s.eventsByRun threadId) runId [])
        messagesByRun := update s.messagesByRun threadId
          (update (s.messagesByRun threadId) runId []) })

/-- Some records as an answer. -/
def answer (rs : List EventRecord) : StoreAnswer := .records (rs.map fun r => some r.shown)

@[grind =] def exec {τ : Type} (s : MemoryIndex) : StoreCall τ → StoreAnswer × MemoryIndex
  | .put now e => (answer [(s.putOne now.memory e).1], (s.putOne now.memory e).2)
  | .putBatch events =>
    let (records, s) := s.putBatch (events.map fun e => (e.1.memory, e.2))
    (answer records, s)
  | .listMessages threadId limit beforeSeq afterSeq =>
    (answer (s.listMessages threadId limit beforeSeq afterSeq), s)
  | .listEvents threadId runId eventTypes taskId limit afterSeq =>
    (answer (s.listEvents threadId runId eventTypes taskId limit afterSeq), s)
  | .listMessagesByRun threadId runId limit beforeSeq afterSeq =>
    (answer (s.listMessagesByRun threadId runId limit beforeSeq afterSeq), s)
  | .countMessages threadId => (.count (s.messages threadId).length, s)
  | .deleteByThread threadId => (.count (s.deleteByThread threadId).1, (s.deleteByThread threadId).2)
  | .deleteByRun threadId runId =>
    (.count (s.deleteByRun threadId runId).1, (s.deleteByRun threadId runId).2)

end MemoryIndex

/-! ### In the files -/

namespace JsonlStore

variable (loads : String → Option Value) (s : JsonlStore)

/-- `put_batch`: one `put` after the other, until one raises. -/
@[grind =] def putBatch (s : JsonlStore) :
    List (String × EventInput) → Except StoreError (List EventRecord) × JsonlStore
  | [] => (.ok [], s)
  | (now, e) :: events =>
    match s.put loads now e with
    | (.error error, s) => (.error error, s)
    | (.ok record, s) =>
      match s.putBatch events with
      | (.error error, s) => (.error error, s)
      | (.ok results, s) => (.ok (record :: results), s)

/-- `_read_thread_events`: the files in the order of their names. -/
def readThreadEvents (threadId : String) : Except StoreError (List Value) := do
  validateId threadId "thread_id"
  let dir := (s.files threadId).insertionSort fun f g => f.1 ++ ".jsonl" ≤ g.1 ++ ".jsonl"
  sortBySeq (dir.flatMap fun f => decode loads f.2)

def isMessage (e : Value) : Bool :=
  match e.get? "category" with
  | some (.str category) => category = "message"
  | _ => false

/-- `[e for e in events if p(e["seq"])]`. -/
def filterSeq (p : ℤ → Bool) (events : List Value) : Except StoreError (List Value) :=
  (events.mapM fun e => (seqOf e).map fun n => (n, e)).map fun keyed =>
    (keyed.filter fun k => p k.1).map Prod.snd

/-- `list_messages`. -/
def listMessages (threadId : String) (limit : ℕ) (beforeSeq afterSeq : Option ℤ) :
    Except StoreError (List Value) := do
  let allEvents ← s.readThreadEvents loads threadId
  let messages := allEvents.filter isMessage
  match beforeSeq, afterSeq with
  | some beforeSeq, _ => do
    let messages ← filterSeq (· < beforeSeq) messages
    .ok (sliceFromEnd limit messages)
  | none, some afterSeq => do
    let messages ← filterSeq (afterSeq < ·) messages
    .ok (first limit messages)
  | none, none => .ok (sliceFromEnd limit messages)

/-- Whether the `event_type` of a record is in a list. -/
def hasType (eventTypes : List String) (e : Value) : Bool :=
  match e.get? "event_type" with
  | some (.str eventType) => eventType ∈ eventTypes
  | _ => false

/-- Filter by the number where there is a cursor. -/
def filterCursor (p : ℤ → ℤ → Bool) (cursor : Option ℤ) (events : List Value) :
    Except StoreError (List Value) :=
  match cursor with
  | none => .ok events
  | some cursor => filterSeq (p cursor) events

/-- `list_events`. -/
def listEvents (threadId runId : String) (eventTypes : Option (List String))
    (taskId : Option String) (limit : ℕ) (afterSeq : Option ℤ) :
    Except StoreError (List Value) := do
  let events ← s.readRunEvents loads threadId runId
  let events := events.filter fun e => eventTypes.all (hasType · e)
  let events := events.filter fun e => taskId.all (metadataOfTask · (e.get? "metadata"))
  let events ← filterCursor (fun afterSeq seq => afterSeq < seq) afterSeq events
  .ok (first limit events)

/-- `list_messages_by_run`. -/
def listMessagesByRun (threadId runId : String) (limit : ℕ) (beforeSeq afterSeq : Option ℤ) :
    Except StoreError (List Value) := do
  let events ← s.readRunEvents loads threadId runId
  let filtered := events.filter isMessage
  let filtered ← filterCursor (fun beforeSeq seq => seq < beforeSeq) beforeSeq filtered
  let filtered ← filterCursor (fun afterSeq seq => afterSeq < seq) afterSeq filtered
  .ok (if afterSeq.isSome then first limit filtered
    else if limit < filtered.length then sliceFromEnd limit filtered else filtered)

/-- `count_messages`. -/
def countMessages (threadId : String) : Except StoreError ℕ := do
  let allEvents ← s.readThreadEvents loads threadId
  .ok (allEvents.countP isMessage)

/-- `delete_by_thread`. -/
def deleteByThread (threadId : String) : Except StoreError ℕ × JsonlStore :=
  match s.readThreadEvents loads threadId with
  | .error error => (.error error, s)
  | .ok allEvents =>
    (.ok allEvents.length,
      { seqCounters := update s.seqCounters threadId none
        files := update s.files threadId [] })

/-- Some records as they are read, as an answer. -/
def answer : Except StoreError (List Value) → StoreAnswer
  | .error _ => .raised
  | .ok values => .records (values.map shownOf)

def answerCount : Except StoreError ℕ → StoreAnswer
  | .error _ => .raised
  | .ok n => .count n

/-- Records that were just written, as an answer. -/
def answerPut : Except StoreError (List EventRecord) → StoreAnswer
  | .error _ => .raised
  | .ok records => .records (records.map fun r => some r.shown)

def exec {τ : Type} (s : JsonlStore) : StoreCall τ → StoreAnswer × JsonlStore
  | .put now e =>
    (answerPut ((s.put loads now.jsonl e).1.map fun r => [r]), (s.put loads now.jsonl e).2)
  | .putBatch events =>
    (answerPut (s.putBatch loads (events.map fun e => (e.1.jsonl, e.2))).1,
      (s.putBatch loads (events.map fun e => (e.1.jsonl, e.2))).2)
  | .listMessages threadId limit beforeSeq afterSeq =>
    (answer (s.listMessages loads threadId limit beforeSeq afterSeq), s)
  | .listEvents threadId runId eventTypes taskId limit afterSeq =>
    (answer (s.listEvents loads threadId runId eventTypes taskId limit afterSeq), s)
  | .listMessagesByRun threadId runId limit beforeSeq afterSeq =>
    (answer (s.listMessagesByRun loads threadId runId limit beforeSeq afterSeq), s)
  | .countMessages threadId => (answerCount (s.countMessages loads threadId), s)
  | .deleteByThread threadId =>
    (answerCount (s.deleteByThread loads threadId).1, (s.deleteByThread loads threadId).2)
  | .deleteByRun threadId runId =>
    (answerCount (s.deleteByRun loads threadId runId).1, (s.deleteByRun loads threadId runId).2)

end JsonlStore

/-! ### In the database -/

/-- Whether Python takes a value for true. -/
@[grind =] def Value.truthy : Value → Bool
  | .null => false
  | .bool b => b
  | .int n => n ≠ 0
  | .float x => x.text ≠ "0.0" && x.text ≠ "-0.0"
  | .str s => s ≠ ""
  | .arr items => !items.isEmpty
  | .obj fields => !fields.isEmpty

/-- Whether the metadata say that the content is JSON. -/
def saysJson (metadata : List (String × Value)) : Bool :=
  ((metadata.lookup "content_is_json").any Value.truthy) ||
    ((metadata.lookup "content_is_dict").any Value.truthy)

/-- What libraries and the database's JSON operators do, and how a user is seen by them. -/
structure DbSetting (τ : Type) where
  fromisoformat : String → Option τ
  /-- `json.loads`; `none` where it raises `JSONDecodeError`. -/
  loads : String → Option Value
  /-- The text of a JSON value in a comparison. -/
  asString : Value → Option String
  /-- The user in whose context all calls are made. Without one the reads raise in the source; here
  they see every row, as with an explicit `None`. -/
  userId : Option String

namespace DbStore

variable {τ : Type} (cfg : DbSetting τ) (s : DbStore τ)

/-- `_row_to_dict`. -/
def rowToDict (row : DbRow τ) : Shown where
  threadId := row.threadId
  runId := row.runId
  seq := row.seq
  eventType := row.eventType
  category := row.category
  content :=
    if saysJson row.eventMetadata then (cfg.loads row.content).getD (.str row.content)
    else .str row.content
  metadata := row.eventMetadata

/-- The rows of a thread that the user may see. -/
def ofThread (threadId : String) : List (DbRow τ) :=
  s.rows.filter fun r => r.threadId = threadId ∧ (cfg.userId = none ∨ r.userId = cfg.userId)

/-- The rows of a run that the user may see. -/
def ofRun (threadId runId : String) : List (DbRow τ) :=
  (s.ofThread cfg threadId).filter fun r => r.runId = runId

/-- The number of a row, to be compared with cursors. -/
def seqKey (r : DbRow τ) : ℤ := r.seq

/-- `.order_by(seq.asc()).limit(limit)`. -/
def ascending (limit : ℕ) (rows : List (DbRow τ)) : List (DbRow τ) :=
  (rows.insertionSort fun a b => seqKey a ≤ seqKey b).take limit

/-- `.order_by(seq.desc()).limit(limit)`. -/
def descending (limit : ℕ) (rows : List (DbRow τ)) : List (DbRow τ) :=
  (rows.insertionSort fun a b => seqKey b ≤ seqKey a).take limit

/-- The rows within the cursors: the first ones after a cursor, or the latest ones. -/
def paged (limit : ℕ) (beforeSeq afterSeq : Option ℤ) (rows : List (DbRow τ)) : List (DbRow τ) :=
  let rows := rows.filter fun r => beforeSeq.all (seqKey r < ·)
  let rows := rows.filter fun r => afterSeq.all (· < seqKey r)
  if afterSeq.isSome then ascending limit rows else (descending limit rows).reverse

/-- `list_messages`. -/
def listMessages (threadId : String) (limit : ℕ) (beforeSeq afterSeq : Option ℤ) :
    List (DbRow τ) :=
  paged limit beforeSeq afterSeq
    ((s.ofThread cfg threadId).filter fun r => r.category = "message")

/-- `list_events`. -/
def listEvents (threadId runId : String) (eventTypes : Option (List String))
    (taskId : Option String) (limit : ℕ) (afterSeq : Option ℤ) : List (DbRow τ) :=
  let rows := s.ofRun cfg threadId runId
  let rows := rows.filter fun r => (eventTypes.getD []).isEmpty || r.eventType ∈ eventTypes.getD []
  let rows := rows.filter fun r => taskId.all fun taskId =>
    (r.eventMetadata.lookup "task_id").bind cfg.asString = some taskId
  ascending limit (rows.filter fun r => afterSeq.all (· < seqKey r))

/-- `list_messages_by_run`. -/
def listMessagesByRun (threadId runId : String) (limit : ℕ) (beforeSeq afterSeq : Option ℤ) :
    List (DbRow τ) :=
  paged limit beforeSeq afterSeq
    ((s.ofRun cfg threadId runId).filter fun r => r.category = "message")

/-- `count_messages`. -/
def countMessages (threadId : String) : ℕ :=
  (s.ofThread cfg threadId).countP fun r => r.category = "message"

/-- `delete_by_thread`. -/
def deleteByThread (threadId : String) : ℕ × DbStore τ :=
  ((s.ofThread cfg threadId).length,
    { s with rows := s.rows.filter fun r =>
      ¬(r.threadId = threadId ∧ (cfg.userId = none ∨ r.userId = cfg.userId)) })

/-- An event of a batch with all keys of `put`. -/
def batchEvent (e : EventInput) : DbEvent where
  threadId := e.threadId
  runId := e.runId
  eventType := e.eventType
  category := some e.category
  content := some e.content
  metadata := some e.metadata
  createdAt := e.createdAt
  userId := none

/-- Some rows as an answer. -/
def answer (rows : List (DbRow τ)) : StoreAnswer :=
  .records (rows.map fun r => some (rowToDict cfg r))

def answerPut : Except DbError (List (DbRow τ)) → StoreAnswer
  | .error _ => .raised
  | .ok rows => answer cfg rows

@[grind =] def exec (s : DbStore τ) : StoreCall τ → StoreAnswer × DbStore τ
  | .put now e =>
    (answerPut cfg ((s.put cfg.fromisoformat cfg.userId now.db e).1.map fun r => [r]),
      (s.put cfg.fromisoformat cfg.userId now.db e).2)
  | .putBatch events =>
    (answerPut cfg (s.putBatch cfg.fromisoformat cfg.userId
        (events.map fun e => (e.1.db, batchEvent e.2))).1,
      (s.putBatch cfg.fromisoformat cfg.userId (events.map fun e => (e.1.db, batchEvent e.2))).2)
  | .listMessages threadId limit beforeSeq afterSeq =>
    (answer cfg (s.listMessages cfg threadId limit beforeSeq afterSeq), s)
  | .listEvents threadId runId eventTypes taskId limit afterSeq =>
    (answer cfg (s.listEvents cfg threadId runId eventTypes taskId limit afterSeq), s)
  | .listMessagesByRun threadId runId limit beforeSeq afterSeq =>
    (answer cfg (s.listMessagesByRun cfg threadId runId limit beforeSeq afterSeq), s)
  | .countMessages threadId => (.count (s.countMessages cfg threadId), s)
  | .deleteByThread threadId =>
    (.count (s.deleteByThread cfg threadId).1, (s.deleteByThread cfg threadId).2)
  | .deleteByRun threadId runId =>
    (.count (s.deleteByRun threadId runId cfg.userId).1, (s.deleteByRun threadId runId cfg.userId).2)

end DbStore

end AfterFlow.Events
