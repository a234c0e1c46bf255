import AfterFlow.Events.Projections

/-!
# The messages of a run, page by page

The endpoint asks the store for one row more than a page has, to see whether there is more, and
takes that row off again at the end where it came from. The duration of the run is written into the
messages of the model on the way out.

The store in memory hands out its own records, so that the duration is also written into them; the
next request writes it again. Here a page is a value of its own.

## Main results

* `run_messages_walked` — a walk over the pages sees each message once
-/

namespace AfterFlow.Events

open Transition List Option

/-! ### The endpoint -/

/-- `trim_run_message_page`. -/
def trimRunMessagePage (rows : List EventRecord) (limit : ℕ) (afterSeq : Option ℤ) :
    Page EventRecord :=
  if ¬rows.length > limit then ⟨rows, false⟩
  else if afterSeq.isSome then ⟨first limit rows, true⟩
  else ⟨sliceFromEnd limit rows, true⟩

/-- What the durations are computed from of a run. -/
structure RunTimes where
  runId : String
  createdAt : String
  updatedAt : String

/-- `compute_run_durations`. `elapsed` is `int((updated - created).total_seconds())` of two texts
that `datetime.fromisoformat` reads; `none` where that raises. -/
def computeRunDurations (elapsed : String → String → Option ℤ) (runs : List RunTimes) :
    String → Option ℤ :=
  runs.foldl (fun durations r =>
    if r.createdAt = "" ∨ r.updatedAt = "" then durations
    else
      match elapsed (r.createdAt.replace "Z" "+00:00") (r.updatedAt.replace "Z" "+00:00") with
      | some duration => Function.update durations r.runId (some duration)
      | none => durations)
    fun _ => none

/-- `d[key] = value`. -/
def setField (fields : List (String × Value)) (key : String) (value : Value) :
    List (String × Value) :=
  if (fields.lookup key).isSome then fields.map fun f => if f.1 = key then (key, value) else f
  else fields ++ [(key, value)]

/-- The duration among the keyword arguments; `none` where these are no dictionary. -/
def setTurnDuration (duration : ℤ) (content : List (String × Value)) :
    Option (List (String × Value)) :=
  match (content.lookup "additional_kwargs").getD (.obj []) with
  | .obj kwargs =>
    some (setField content "additional_kwargs" (.obj (setField kwargs "turn_duration"
      (.int duration))))
  | _ => none

/-- `str(metadata.get("caller", "")).startswith("middleware:")`; no other value has such a text. -/
def isMiddleware (metadata : List (String × Value)) : Bool :=
  match metadata.lookup "caller" with
  | some (.str caller) => caller.startsWith "middleware:"
  | _ => false

def isAi (content : List (String × Value)) : Bool :=
  match content.lookup "type" with
  | some (.str type) => type = "ai"
  | _ => false

/-- A message with the duration of its run, if it is one of the model. -/
def annotate (duration : ℤ) (msg : EventRecord) : Option EventRecord :=
  match msg.content with
  | .obj content =>
    if isAi content ∧ ¬isMiddleware msg.metadata then
      (setTurnDuration duration content).map fun content => { msg with content := .obj content }
    else some msg
  | _ => some msg

/-- Messages with the duration of their run, if it has one. -/
def annotateAll (duration : Option ℤ) (data : List EventRecord) : Option (List EventRecord) :=
  match duration with
  | some duration => data.mapM (annotate duration)
  | none => some data

variable (elapsed : String → String → Option ℤ) (s : MemoryIndex) (record : Option RunTimes)

/-- The duration of a run by its record. -/
def runDuration (runId : String) : Option ℤ :=
  record.bind fun record => computeRunDurations elapsed [record] runId

/-- `list_run_messages`; `none` where it raises. -/
def listRunMessages (threadId runId : String) (limit : ℕ) (beforeSeq afterSeq : Option ℤ) :
    Option (Page EventRecord) :=
  let rows := s.listMessagesByRun threadId runId (limit + 1) beforeSeq afterSeq
  let page := trimRunMessagePage rows limit afterSeq
  if page.data = [] then some page
  else (annotateAll (runDuration elapsed record runId) page.data).map fun data =>
    { page with data }

/-! ### What is asked of the walks -/

/-- All messages of a run, in the order of their numbers. -/
def MemoryIndex.runMessages (s : MemoryIndex) (threadId runId : String) : List EventRecord :=
  (s.store.events threadId).filter fun e => e.category = "message" ∧ e.runId = runId

/-- What `model_dump` writes of a message: its keyword arguments are a dictionary. -/
def EventRecord.Dumped (r : EventRecord) : Prop :=
  ∀ content kwargs, r.content = .obj content → content.lookup "additional_kwargs" = some kwargs →
    ∃ fields, kwargs = .obj fields

/-- There is a walk down without a cursor and a walk up from 0, and each sees the whole list once in
full pages. -/
structure SeenOnce (request : Option ℤ → Option ℤ → Option (Page EventRecord)) (limit : ℕ)
    (whole : List EventRecord) : Prop where
  down : ∃ pages, Walk (fun c p => request c none = some p) (lowest MemoryIndex.seqKey) none pages
  down_whole : ∀ pages,
    Walk (fun c p => request c none = some p) (lowest MemoryIndex.seqKey) none pages →
      Full limit pages ∧ pages.reverse.flatMap Page.data = whole
  up : ∃ pages,
    Walk (fun c p => request none c = some p) (highest MemoryIndex.seqKey) (some 0) pages
  up_whole : ∀ pages,
    Walk (fun c p => request none c = some p) (highest MemoryIndex.seqKey) (some 0) pages →
      Full limit pages ∧ pages.flatMap Page.data = whole

/-! ### Trimming -/

variable {elapsed s record} {t run : String} {limit : ℕ} {w l : List EventRecord}

theorem trim_latest (hlimit : 1 ≤ limit) :
    trimRunMessagePage (latest (limit + 1) w) limit none = latestPage limit w := by
  rw [trimRunMessagePage, latest_length, latestPage]
  by_cases h : limit < w.length
  · have htwice : latest limit (latest (limit + 1) w) = latest limit w := by
      rw [latest, latest_length, latest, drop_drop, latest]
      refine congrArg (fun n => w.drop n) ?_
      omega
    rw [if_neg (by omega), if_neg (by simp), sliceFromEnd_eq hlimit, htwice, decide_eq_true h]
  · have hall : ∀ n, limit ≤ n → latest n w = w := by
      intro n hn
      rw [latest, Nat.sub_eq_zero_of_le (by omega), drop_zero]
    rw [if_pos (by omega), hall _ (by omega), hall _ (le_refl _), decide_eq_false h]

theorem trim_first {afterSeq : Option ℤ} (h : afterSeq.isSome) :
    trimRunMessagePage (first (limit + 1) w) limit afterSeq = firstPage limit w := by
  rw [trimRunMessagePage, first, length_take, firstPage]
  by_cases hmore : limit < w.length
  · rw [if_neg (by omega), if_pos h, first, take_take, Nat.min_eq_left (by omega),
      decide_eq_true hmore, first]
  · rw [if_pos (by omega), take_of_length_le (by omega), first,
      take_of_length_le (by omega), decide_eq_false hmore]

/-! ### The duration of the run -/

/-- The message with the duration, or as it is. -/
def annotated (duration : Option ℤ) (msg : EventRecord) : EventRecord :=
  (duration.bind fun duration => annotate duration msg).getD msg

theorem annotate_seq {duration : ℤ} {msg msg' : EventRecord}
    (h : annotate duration msg = some msg') :
    msg'.seq = msg.seq := by
  rw [annotate] at h
  split at h
  · split at h
    · obtain ⟨content, -, rfl⟩ := map_eq_some_iff.1 h
      rfl
    · rw [← some.inj h]
  · rw [← some.inj h]

@[simp] theorem seqKey_annotated (duration : Option ℤ) (msg : EventRecord) :
    MemoryIndex.seqKey (annotated duration msg) = MemoryIndex.seqKey msg := by
  rw [annotated]
  cases h : duration.bind fun duration => annotate duration msg with
  | none => rfl
  | some msg' =>
    obtain ⟨_, -, hmsg⟩ := bind_eq_some_iff.1 h
    exact congrArg Int.ofNat (annotate_seq hmsg)

theorem annotate_dumped {msg : EventRecord} (h : msg.Dumped) (duration : ℤ) :
    annotate duration msg = some (annotated (some duration) msg) := by
  have hsome : (annotate duration msg).isSome := by
    rw [annotate]
    split
    · rename_i content hcontent
      split
      · rw [isSome_map, setTurnDuration]
        cases hkwargs : content.lookup "additional_kwargs" with
        | none => rfl
        | some kwargs =>
          obtain ⟨fields, rfl⟩ := h content kwargs hcontent hkwargs
          rfl
      · rfl
    · rfl
  obtain ⟨msg', hmsg⟩ := isSome_iff_exists.1 hsome
  rw [annotated, bind_some, hmsg, getD_some]

theorem annotateAll_dumped (h : ∀ msg ∈ w, msg.Dumped) (duration : Option ℤ) :
    annotateAll duration w = some (w.map (annotated duration)) := by
  cases duration with
  | none =>
    have hself : annotated none = id := funext fun _ => rfl
    rw [annotateAll, hself, List.map_id]
  | some duration =>
    rw [annotateAll]
    induction w with
    | nil => rfl
    | cons msg w ih =>
      obtain ⟨hmsg, hrest⟩ := forall_mem_cons.1 h
      rw [mapM_cons, annotate_dumped hmsg, ih hrest]
      rfl

/-! ### The pages are windows -/

theorem below_map (f : EventRecord → EventRecord)
    (hf : ∀ msg, MemoryIndex.seqKey (f msg) = MemoryIndex.seqKey msg) (c : Option ℤ) :
    below MemoryIndex.seqKey c (l.map f) = (below MemoryIndex.seqKey c l).map f := by
  rw [below, below]
  exact (map_filter_of fun msg _ => by rw [hf]).symm

theorem above_map (f : EventRecord → EventRecord)
    (hf : ∀ msg, MemoryIndex.seqKey (f msg) = MemoryIndex.seqKey msg) (c : Option ℤ) :
    above MemoryIndex.seqKey c (l.map f) = (above MemoryIndex.seqKey c l).map f := by
  rw [above, above]
  exact (map_filter_of fun msg _ => by rw [hf]).symm

theorem plain_window (runId : String) (limit : ℕ) (beforeSeq afterSeq : Option ℤ) :
    plainMessagesByRun runId limit beforeSeq afterSeq l =
      if afterSeq.isSome then first limit (above MemoryIndex.seqKey afterSeq
        (below MemoryIndex.seqKey beforeSeq
          (l.filter fun e => e.category = "message" ∧ e.runId = runId)))
      else latest limit (above MemoryIndex.seqKey afterSeq
        (below MemoryIndex.seqKey beforeSeq
          (l.filter fun e => e.category = "message" ∧ e.runId = runId))) := by
  have hwindow : (l.filter fun e => e.category = "message" ∧ e.runId = runId ∧
      afterSeq.all (· < (e.seq : ℤ)) ∧ beforeSeq.all ((e.seq : ℤ) < ·)) =
      above MemoryIndex.seqKey afterSeq (below MemoryIndex.seqKey beforeSeq
        (l.filter fun e => e.category = "message" ∧ e.runId = runId)) := by
    rw [above, below, List.filter_filter, List.filter_filter]
    refine List.filter_congr fun e _ => ?_
    rw [Bool.eq_iff_iff]
    simp only [Bool.and_eq_true, decide_eq_true_eq, MemoryIndex.seqKey]
    tauto
  rw [plainMessagesByRun, hwindow]

/-- The annotation of a page. -/
def Page.shown (duration : Option ℤ) (p : Page EventRecord) : Page EventRecord :=
  ⟨p.data.map (annotated duration), p.hasMore⟩

theorem list_eq_shown {beforeSeq afterSeq : Option ℤ} {p : Page EventRecord}
    (hpage : trimRunMessagePage (s.listMessagesByRun t run (limit + 1) beforeSeq afterSeq) limit
      afterSeq = p) (hdumped : ∀ msg ∈ p.data, msg.Dumped) :
    listRunMessages elapsed s record t run limit beforeSeq afterSeq =
      some (Page.shown (runDuration elapsed record run) p) := by
  rw [listRunMessages, hpage]
  split
  · rename_i hnil
    rw [Page.shown, hnil, map_nil, ← hnil]
  · rw [annotateAll_dumped hdumped, map_some, Page.shown]

theorem list_down (h : Faithful s) (hlimit : 1 ≤ limit)
    (hdumped : ∀ msg ∈ s.runMessages t run, msg.Dumped) (c : Option ℤ) :
    listRunMessages elapsed s record t run limit c none =
      some (latestPage limit (below MemoryIndex.seqKey c ((s.runMessages t run).map
        (annotated (runDuration elapsed record run))))) := by
  have hrows : s.listMessagesByRun t run (limit + 1) c none =
      latest (limit + 1) (below MemoryIndex.seqKey c (s.runMessages t run)) := by
    rw [h.listMessagesByRun t run _ c none (by omega), plain_window, above_none]
    rfl
  rw [list_eq_shown (by rw [hrows, trim_latest hlimit]) ?_, below_map _ (seqKey_annotated _),
    Page.shown, latestPage, latestPage, latest_map, length_map]
  intro msg hmsg
  exact hdumped msg (mem_filter.1 (mem_of_mem_drop hmsg)).1

theorem list_up (h : Faithful s) (hdumped : ∀ msg ∈ s.runMessages t run, msg.Dumped) (x : ℤ) :
    listRunMessages elapsed s record t run limit none (some x) =
      some (firstPage limit (above MemoryIndex.seqKey (some x) ((s.runMessages t run).map
        (annotated (runDuration elapsed record run))))) := by
  have hrows : s.listMessagesByRun t run (limit + 1) none (some x) =
      first (limit + 1) (above MemoryIndex.seqKey (some x) (s.runMessages t run)) := by
    rw [h.listMessagesByRun t run _ none (some x) (by omega), plain_window, below_none]
    rfl
  rw [list_eq_shown (by rw [hrows, trim_first rfl]) ?_, above_map _ (seqKey_annotated _),
    Page.shown, firstPage, firstPage, first_map, length_map]
  intro msg hmsg
  exact hdumped msg (mem_filter.1 (mem_of_mem_take hmsg)).1

/-! ### Numbers from 1 on -/

/-- The first number is 1. -/
def EventLog.Positive (a : EventLog) : Prop := ∀ x ∈ a.log, 1 ≤ x.seq

variable {τ : Type} {a : EventLog}

theorem EventLog.Positive.put (h : a.Positive) (e : EventInput) : (a.put e).2.Positive := by
  intro x hx
  rcases mem_append.1 hx with hx | hx
  · exact h x hx
  · rw [mem_singleton.1 hx]
    exact Nat.le_add_left 1 _

theorem EventLog.Positive.step (h : a.Positive) (call : StoreCall τ) :
    (a.exec call).2.Positive := by
  cases call with
  | put now e => exact h.put e
  | putBatch events =>
    have hbatch : ∀ (inputs : List EventInput) {a : EventLog}, a.Positive →
        (a.putBatch inputs).2.Positive := by
      intro inputs
      induction inputs with
      | nil => exact fun h => h
      | cons e inputs ih => exact fun h => ih (h.put e)
    exact hbatch _ h
  | deleteByThread | deleteByRun => exact fun x hx => h x (mem_filter.1 hx).1
  | _ => exact h

theorem EventLog.Positive.steps (h : a.Positive) (calls : List (StoreCall τ)) :
    (a.run calls).Positive := by
  induction calls generalizing a with
  | nil => exact h
  | cons call calls ih => exact ih (h.step call)

theorem Mirrors.seq_pos (h : Mirrors s a) (hpos : a.Positive) {e : EventRecord}
    (he : e ∈ s.store.events t) : 1 ≤ e.seq := by
  have hshown : e.shown ∈ a.ofThread t := by
    rw [← h.events]
    exact mem_map_of_mem he
  exact hpos e.shown (mem_filter.1 hshown).1

/-! ### The walks -/

/-- Requests that are answered with windows see an increasing list once. -/
theorem SeenOnce.of_windows {request : Option ℤ → Option ℤ → Option (Page EventRecord)}
    {whole : List EventRecord} (hclimbs : Climbs MemoryIndex.seqKey whole) (hlimit : 1 ≤ limit)
    (hpos : above MemoryIndex.seqKey (some 0) whole = whole)
    (hdown : ∀ c, request c none = some (latestPage limit (below MemoryIndex.seqKey c whole)))
    (hup : ∀ x, request none (some x) =
      some (firstPage limit (above MemoryIndex.seqKey (some x) whole))) :
    SeenOnce request limit whole := by
  obtain ⟨down, hwalk, hfull, hdata⟩ := @walk_down _ MemoryIndex.seqKey whole limit hclimbs hlimit
    (fun c p => request c none = some p) hdown none
  obtain ⟨up, hwalk', hfull', hdata'⟩ := @walk_up _ MemoryIndex.seqKey whole limit hclimbs hlimit
    (fun c p => request none c = some p) hup 0
  rw [below_none] at hdata
  rw [hpos] at hdata'
  refine ⟨⟨down, hwalk⟩, fun pages h => ?_, ⟨up, hwalk'⟩, fun pages h => ?_⟩
  · have hsame : pages = down := by
      refine h.unique ?_ hwalk
      exact fun c p p' hp hp' => some.inj (hp.symm.trans hp')
    exact hsame ▸ ⟨hfull, hdata⟩
  · have hsame : pages = up := by
      refine h.unique ?_ hwalk'
      exact fun c p p' hp hp' => some.inj (hp.symm.trans hp')
    exact hsame ▸ ⟨hfull', hdata'⟩

/-- **A walk over the pages of a run sees each of its messages once**, with the run's duration. The
store holds what any calls have left there, and the messages were dumped. -/
theorem run_messages_walked (elapsed : String → String → Option ℤ) (record : Option RunTimes)
    (calls : List (StoreCall τ)) (t run : String) {limit : ℕ} (hlimit : 1 ≤ limit)
    (hdumped : ∀ msg ∈ (MemoryIndex.empty.run calls).runMessages t run, msg.Dumped) :
    ∃ whole, annotateAll (runDuration elapsed record run)
        ((MemoryIndex.empty.run calls).runMessages t run) = some whole ∧
      SeenOnce (listRunMessages elapsed (MemoryIndex.empty.run calls) record t run limit) limit
        whole := by
  obtain ⟨hmirrors, hordered⟩ := Mirrors.empty.run .empty calls
  have hfaithful := hmirrors.faithful hordered
  have hpos : (EventLog.empty.run calls).Positive :=
    EventLog.Positive.steps (fun _ hx => absurd hx not_mem_nil) calls
  refine ⟨_, annotateAll_dumped hdumped _, .of_windows ?_ hlimit ?_
    (fun c => list_down hfaithful hlimit hdumped c) (fun x => list_up hfaithful hdumped x)⟩
  · rw [Climbs.map]
    refine ((hmirrors.climbs hordered t).filter _).imp fun hlt => ?_
    simpa using hlt
  · rw [above_map _ (seqKey_annotated _)]
    refine congrArg _ (filter_eq_self.2 fun msg hmsg => decide_eq_true ?_)
    have hseq := hmirrors.seq_pos hpos (mem_filter.1 hmsg).1
    exact Int.ofNat_lt.2 hseq

/-- A message of the model. -/
def aiInput (runId : String) : EventInput :=
  ⟨"thread-1", runId, "llm.ai.response", "message",
    .obj [("type", .str "ai"), ("additional_kwargs", .obj [])], [], none⟩

/-- Two messages of a run with one of another run between them. -/
def twoRuns : List (StoreCall Unit) :=
  ["run-1", "run-2", "run-1"].map fun runId => .put ⟨"2026-01-01", "2026-01-01", ()⟩ (aiInput runId)

theorem run_messages_walked_twoRuns :
    ∃ whole, annotateAll
        (runDuration (fun _ _ => some 60) (some ⟨"run-1", "noon", "later"⟩) "run-1")
        ((MemoryIndex.empty.run twoRuns).runMessages "thread-1" "run-1") = some whole ∧
      SeenOnce (listRunMessages (fun _ _ => some 60) (MemoryIndex.empty.run twoRuns)
        (some ⟨"run-1", "noon", "later"⟩) "thread-1" "run-1" 1) 1 whole := by
  refine run_messages_walked _ _ _ _ _ (le_refl 1) fun msg hmsg => ?_
  have hall : (MemoryIndex.empty.run twoRuns).runMessages "thread-1" "run-1" =
      [(aiInput "run-1").record "2026-01-01" 1, (aiInput "run-1").record "2026-01-01" 3] := rfl
  rw [hall] at hmsg
  intro content kwargs hcontent hkwargs
  have hai : msg.content = (aiInput "run-1").content := by
    rcases mem_pair.1 hmsg with rfl | rfl <;> rfl
  rw [hai] at hcontent
  cases hcontent
  exact ⟨[], (some.inj hkwargs).symm⟩

end AfterFlow.Events
