import AfterFlow.Events.Agreement.Db
import AfterFlow.Events.Agreement.Jsonl

/-!
# The three stores agree

Each of the stores answers as the list of the events does, so they answer alike: in memory and in
the files with equal records, in the database with the metadata that tell how a content was written.
This holds of calls whose records all three can hold and which they all understand.

## Main results

* `stores_agree` — the three stores answer alike
-/

namespace AfterFlow.Events

variable {τ : Type} {cfg : DbSetting τ}

/-- A run is deleted only if the last event of its thread is of another run. -/
def StoreCall.LeavesLast (a : EventLog) : StoreCall τ → Prop
  | .deleteByRun threadId runId => ∀ x ∈ (a.ofThread threadId).getLast?, x.runId ≠ runId
  | _ => True

/-- What a call must keep to in a state of the stores. -/
structure StoreCall.Sound (cfg : DbSetting τ) (maxTraceContent : ℕ) (a : EventLog)
    (call : StoreCall τ) : Prop where
  asks : call.Asks
  fits : call.Fits cfg.loads a
  fitsRows : call.FitsRows cfg maxTraceContent
  leavesLast : call.LeavesLast a

/-- Calls that all three stores understand, one after the other. -/
def Within (cfg : DbSetting τ) (maxTraceContent : ℕ) : EventLog → List (StoreCall τ) → Prop
  | _, [] => True
  | a, call :: calls =>
    call.Sound cfg maxTraceContent a ∧ Within cfg maxTraceContent (a.exec call).2 calls

theorem EventLog.Numbered.exec {a : EventLog} (h : a.Numbered) {call : StoreCall τ}
    (hcall : call.LeavesLast a) : (a.exec call).2.Numbered := by
  cases call with
  | put now e => exact h.put e
  | putBatch events => exact h.putBatch _
  | deleteByThread t => exact h.deleteByThread t
  | deleteByRun t run => exact h.deleteByRun hcall
  | _ => exact h

/-- From stores that hold the same events the answers are those of their list. -/
theorem answers_eq {memory : MemoryIndex} {files : JsonlStore} {w : List EventRecord}
    {db : DbStore τ} {a : EventLog} (hmemory : Mirrors memory a)
    (hfiles : InFiles cfg.loads files a w) (hdb : Tabulates cfg db a) (hn : a.Numbered)
    (htext : ∀ text, cfg.asString (.str text) = some text) {calls : List (StoreCall τ)}
    (h : Within cfg db.maxTraceContent a calls) :
    answers MemoryIndex.exec memory calls = answers EventLog.exec a calls ∧
      answers (JsonlStore.exec cfg.loads) files calls = answers EventLog.exec a calls ∧
      answers (DbStore.exec cfg) db calls =
        (answers EventLog.exec a calls).map StoreAnswer.flagged := by
  induction calls generalizing memory files w db a with
  | nil => exact ⟨rfl, rfl, rfl⟩
  | cons call calls ih =>
    obtain ⟨hcall, hrest⟩ := h
    obtain ⟨hanswer, hmemory⟩ := hmemory.exec hn hcall.asks
    obtain ⟨hanswer', w', hfiles⟩ := hfiles.exec hn hcall.asks hcall.fits
    obtain ⟨hanswer'', hdb⟩ := hdb.exec hn htext hcall.asks hcall.fitsRows
    have hmax : (db.exec cfg call).2.maxTraceContent = db.maxTraceContent :=
      maxTraceContent_exec db call
    rw [← hmax] at hrest
    obtain ⟨hmore, hmore', hmore''⟩ :=
      ih hmemory hfiles hdb (hn.exec hcall.leavesLast) hrest
    exact ⟨congrArg₂ List.cons hanswer hmore, congrArg₂ List.cons hanswer' hmore',
      congrArg₂ List.cons hanswer'' hmore''⟩

/-- **The stores agree.** From empty stores, calls that all three understand have equal answers in
memory and in the files, and in the database the same answers with the metadata of its rows. -/
theorem stores_agree (maxTraceContent : ℕ) (htext : ∀ text, cfg.asString (.str text) = some text)
    {calls : List (StoreCall τ)} (h : Within cfg maxTraceContent .empty calls) :
    answers (JsonlStore.exec cfg.loads) .empty calls = answers MemoryIndex.exec .empty calls ∧
      answers (DbStore.exec cfg) ⟨maxTraceContent, []⟩ calls =
        (answers MemoryIndex.exec .empty calls).map StoreAnswer.flagged := by
  obtain ⟨hmemory, hfiles, hdb⟩ :=
    answers_eq .empty .empty (.empty cfg maxTraceContent) .empty htext h
  exact ⟨hfiles.trans hmemory.symm, hdb.trans (congrArg _ hmemory.symm)⟩

/-- The setting of a record whose content is an empty list. -/
def emptyListSetting (r : EventRecord) : DbSetting Unit where
  fromisoformat := fun _ => none
  loads := fun text => if text = "[]" then some (.arr []) else loadsOnly r text
  asString := fun
    | .str text => some text
    | _ => none
  userId := some "user-1"

/-- A message whose content is an empty list. -/
def emptyListInput (threadId : String) : EventInput :=
  ⟨threadId, "run-1", "llm.ai.response", "message", .arr [], [], none⟩

/-- The three clocks of one moment. -/
def oneMoment : Clocks Unit := ⟨"2026-01-01", "2026-01-01", ()⟩

/-- A message is put and listed. -/
def putAndList : List (StoreCall Unit) :=
  [.put oneMoment (emptyListInput "thread-1"), .listMessages "thread-1" 50 none none]

theorem stores_agree_demo :
    answers (JsonlStore.exec
        (emptyListSetting ((emptyListInput "thread-1").record "2026-01-01" 1)).loads)
        .empty putAndList = answers MemoryIndex.exec .empty putAndList ∧
      answers (DbStore.exec
        (emptyListSetting ((emptyListInput "thread-1").record "2026-01-01" 1)))
        ⟨10240, []⟩ putAndList =
          (answers MemoryIndex.exec .empty putAndList).map StoreAnswer.flagged := by
  have hwhole : ((emptyListInput "thread-1").record "2026-01-01" 1).value.Whole := by
    rw [Value.Whole]
    decide
  have hne : ¬((emptyListInput "thread-1").record "2026-01-01" 1).value.dumps = "[]" := by
    obtain ⟨body, hbody⟩ := value_chars ((emptyListInput "thread-1").record "2026-01-01" 1)
    intro h
    have hchars := congrArg String.toList h
    rw [Value.dumps, String.toList_ofList, hbody] at hchars
    cases hchars
  have hreads : RoundTrips
      (emptyListSetting ((emptyListInput "thread-1").record "2026-01-01" 1)).loads
      ((emptyListInput "thread-1").record "2026-01-01" 1) := by
    simp [RoundTrips, emptyListSetting, hne, loadsOnly]
  refine stores_agree 10240 (fun _ => rfl) ⟨⟨trivial, ?_, ?_, trivial⟩, ⟨?_, ?_, trivial, trivial⟩,
    trivial⟩
  · exact ⟨by decide, by decide, hreads, hwhole⟩
  · refine ⟨fun htrace => absurd htrace (by decide), ?_, ?_, fun _ => rfl, ?_⟩
    · intro text htime
      cases htime
    · intro text htext
      cases htext
    · intro v hv
      cases hv
  · exact ⟨Nat.le_add_left 1 49, .inl rfl⟩
  · show isSafeId "thread-1" = true
    decide

/-- A batch over two threads is stored in memory and refused by the database. -/
theorem two_threads_refused :
    (MemoryIndex.empty.exec (.putBatch [(oneMoment, emptyListInput "thread-1"),
        (oneMoment, emptyListInput "thread-2")])).1 =
      .records [some ⟨"thread-1", "run-1", 1, "llm.ai.response", "message", .arr [], []⟩,
        some ⟨"thread-2", "run-1", 1, "llm.ai.response", "message", .arr [], []⟩] ∧
    (DbStore.exec (emptyListSetting ((emptyListInput "thread-1").record "2026-01-01" 1))
      ⟨10240, []⟩ (.putBatch [(oneMoment, emptyListInput "thread-1"),
        (oneMoment, emptyListInput "thread-2")])).1 = .raised :=
  ⟨rfl, rfl⟩

end AfterFlow.Events
