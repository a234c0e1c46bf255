import AfterFlow.Events.Agreement.Memory
import AfterFlow.Events.Sequence

/-!
# The files are a list of events

Where every record is read back, the files of a thread hold its events, and sorting what is read
gives their order back.
-/

namespace AfterFlow.Events

open PyStr Transition List Function

variable {loads : String → Option Value} {s : JsonlStore} {a : EventLog} {w : List EventRecord}
  {t run : String}

/-! ### Reading -/

theorem sortBySeq_perm {rs l : List EventRecord} (h : rs.Pairwise fun x y => x.seq < y.seq)
    (hperm : l.Perm rs) : sortBySeq (l.map EventRecord.value) = .ok (rs.map EventRecord.value) := by
  have hclimbs : Climbs Prod.fst (rs.map fun r => ((r.seq : ℤ), r.value)) :=
    pairwise_map.2 (h.imp fun hxy => by simpa using hxy)
  have hsort : (do
      let keyed ← (l.map EventRecord.value).mapM fun v => (seqOf v).map fun n => (n, v)
      .ok ((keyed.insertionSort fun x y => x.1 ≤ y.1).map Prod.snd) :
        Except StoreError (List Value)) = .ok (rs.map EventRecord.value) := by
    rw [mapM_seqOf]
    show Except.ok _ = _
    rw [hclimbs.insertionSort_eq (hperm.map _), map_map]
    rfl
  match l, hperm, hsort with
  | [], hperm, _ =>
    rw [nil_perm.1 hperm]
    rfl
  | [r], hperm, _ =>
    rw [perm_singleton.1 hperm.symm]
    rfl
  | _ :: _ :: _, _, hsort => exact hsort

/-- The parts of a list by some keys make up the list. -/
theorem flatMap_filter_perm {α κ : Type} [DecidableEq κ] (f : α → κ) {keys : List κ}
    (hnodup : keys.Nodup) {l : List α} (hcover : ∀ x ∈ l, f x ∈ keys) :
    (keys.flatMap fun k => l.filter fun x => f x = k).Perm l := by
  induction keys generalizing l with
  | nil =>
    have hnil : l = [] := eq_nil_iff_forall_not_mem.2 fun x hx =>
      not_mem_nil (hcover x hx)
    rw [hnil]
    exact List.Perm.refl _
  | cons k keys ih =>
    obtain ⟨hk, hnodup⟩ := nodup_cons.1 hnodup
    have hrest : (keys.flatMap fun k' => l.filter fun x => f x = k') =
        keys.flatMap fun k' => (l.filter fun x => !decide (f x = k)).filter fun x => f x = k' := by
      refine flatMap_congr fun k' hk' => ?_
      rw [filter_filter]
      refine filter_congr fun x _ => ?_
      by_cases hx : f x = k'
      · have hne : k' ≠ k := fun h => hk (h ▸ hk')
        simp [hx, hne]
      · simp [hx]
    rw [flatMap_cons, hrest]
    refine ((ih hnodup ?_).append_left _).trans (filter_append_perm _ l)
    intro x hx
    obtain ⟨hx, hne⟩ := mem_filter.1 hx
    rcases mem_cons.1 (hcover x hx) with hxk | hxk
    · rw [hxk] at hne
      simp at hne
    · exact hxk

theorem decode_fileText {rs : List EventRecord}
    (h : ∀ r ∈ rs, RoundTrips loads r ∧ r.value.Whole) :
    decode loads (String.ofList (fileText rs)) = rs.map EventRecord.value := by
  rw [decode, fileLines_whole fun r hr => (h r hr).2]
  exact filterMap_loads (fun r hr => (h r hr).1) fun x hx => if_neg hx

theorem Filed.readRunEvents (h : Filed s w) (hw : ∀ r ∈ w, RoundTrips loads r ∧ r.value.Whole)
    (ht : isSafeId t = true) (hrun : isSafeId run = true) :
    s.readRunEvents loads t run = .ok ((ofRun w t run).map EventRecord.value) := by
  have hlookup := h.lookup t run
  split at hlookup
  · rename_i hnil
    rw [JsonlStore.readRunEvents, validateId_ok hrun, validateId_ok ht, hnil]
    simp only [bind, Except.bind, hlookup]
    rfl
  · rw [readRunEvents_eq ht hrun hlookup,
      decode_fileText fun r hr => hw r (mem_ofRun.1 hr).1]
    refine sortBySeq_value ((h.increasing.filter _).imp_of_mem ?_)
    intro x y hx hy hxy
    exact hxy ((mem_ofRun.1 hx).2.1.trans (mem_ofRun.1 hy).2.1.symm)

theorem Filed.readThreadEvents (h : Filed s w)
    (hw : ∀ r ∈ w, RoundTrips loads r ∧ r.value.Whole) (ht : isSafeId t = true) :
    s.readThreadEvents loads t = .ok ((ofThread w t).map EventRecord.value) := by
  obtain ⟨runs, hnodup, hmem, hfiles⟩ := h.dir t
  -- the files are read in the order of their names
  have hsorted : ((s.files t).insertionSort fun f g => f.1 ++ ".jsonl" ≤ g.1 ++ ".jsonl") =
      (runs.insertionSort fun x y => x ++ ".jsonl" ≤ y ++ ".jsonl").map fun run =>
        (run, String.ofList (fileText (ofRun w t run))) := by
    rw [hfiles]
    refine (map_insertionSort _ _ _ _ fun x _ y _ => ?_).symm
    exact Iff.rfl
  have hruns := perm_insertionSort (fun x y : String => x ++ ".jsonl" ≤ y ++ ".jsonl") runs
  generalize runs.insertionSort (fun x y : String => x ++ ".jsonl" ≤ y ++ ".jsonl") = names
    at hsorted hruns
  have hdecode : (names.map fun run => (run, String.ofList (fileText (ofRun w t run)))).flatMap
      (fun f => decode loads f.2) =
        (names.flatMap fun run => (ofThread w t).filter fun r => r.runId = run).map
          EventRecord.value := by
    rw [flatMap_map, map_flatMap]
    refine flatMap_congr fun run _ => ?_
    have hofRun : ofRun w t run = (ofThread w t).filter fun r => r.runId = run := by
      rw [ofRun, ofThread, filter_filter]
      refine filter_congr fun r _ => ?_
      rw [Bool.decide_and, Bool.and_comm]
    rw [← hofRun]
    exact decode_fileText fun r hr => hw r (mem_ofRun.1 hr).1
  have hperm : (names.flatMap fun run => (ofThread w t).filter fun r => r.runId = run).Perm
      (ofThread w t) := by
    refine flatMap_filter_perm EventRecord.runId (hruns.nodup_iff.2 hnodup) fun r hr => ?_
    have hmine : r ∈ ofRun w t r.runId :=
      mem_ofRun.2 ⟨(mem_ofThread.1 hr).1, (mem_ofThread.1 hr).2, rfl⟩
    exact hruns.mem_iff.2 ((hmem _).2 (ne_nil_of_mem hmine))
  have hincreasing : (ofThread w t).Pairwise fun x y => x.seq < y.seq := by
    refine (h.increasing.filter _).imp_of_mem fun hx hy hxy => ?_
    exact hxy ((mem_ofThread.1 hx).2.trans (mem_ofThread.1 hy).2.symm)
  rw [JsonlStore.readThreadEvents, validateId_ok ht]
  simp only [bind, Except.bind]
  rw [hsorted, hdecode]
  exact sortBySeq_perm hincreasing hperm

/-! ### The records in the files -/

/-- The files hold the events of the list. A thread without a counter has no files. -/
structure InFiles (loads : String → Option Value) (s : JsonlStore) (a : EventLog)
    (w : List EventRecord) : Prop where
  filed : Filed s w
  shown : w.map EventRecord.shown = a.log
  reads : ∀ r ∈ w, RoundTrips loads r ∧ r.value.Whole
  counters : ∀ t, s.seqCounters t = some (a.last t) ∨
    s.seqCounters t = none ∧ a.last t = 0 ∧ ofThread w t = []

theorem InFiles.empty : InFiles loads .empty .empty [] :=
  ⟨.empty, rfl, fun _ hr => absurd hr not_mem_nil, fun _ => .inr ⟨rfl, rfl, rfl⟩⟩

theorem InFiles.ofThread (h : InFiles loads s a w) (t : String) :
    (ofThread w t).map EventRecord.shown = a.ofThread t := by
  rw [EventLog.ofThread, ← h.shown]
  exact map_filter_of fun r _ => rfl

theorem InFiles.ofRun (h : InFiles loads s a w) (t run : String) :
    (ofRun w t run).map EventRecord.shown = a.ofRun t run := by
  have hmap : ((Events.ofThread w t).filter fun r => r.runId = run).map EventRecord.shown =
      a.ofRun t run := by
    rw [EventLog.ofRun, ← h.ofThread]
    exact map_filter_of fun r _ => rfl
  rw [← hmap, Events.ofRun, Events.ofThread, filter_filter]
  refine congrArg _ (filter_congr fun r _ => ?_)
  rw [Bool.decide_and, Bool.and_comm]

theorem InFiles.loadSeq (h : InFiles loads s a w) (ht : isSafeId t = true) :
    s.loadSeq loads t = .ok (a.last t) := by
  obtain hsome | ⟨hnone, hlast, hnil⟩ := h.counters t
  · rw [JsonlStore.loadSeq, hsome]
  · rw [JsonlStore.loadSeq, hnone, computeMaxSeq_eq ht, h.filed.files_nil hnil, hlast]
    rfl

/-- An event whose record can be written and read back. -/
structure Readable (loads : String → Option Value) (a : EventLog) (now : String) (e : EventInput) :
    Prop where
  threadId : isSafeId e.threadId = true
  runId : isSafeId e.runId = true
  reads : RoundTrips loads (e.record now (a.last e.threadId + 1))
  whole : (e.record now (a.last e.threadId + 1)).value.Whole

theorem InFiles.put (h : InFiles loads s a w) (hn : a.Numbered) {now : String} {e : EventInput}
    (he : Readable loads a now e) :
    (s.put loads now e).1 = .ok (e.record now (a.last e.threadId + 1)) ∧
      InFiles loads (s.put loads now e).2 (a.put e).2
        (w ++ [e.record now (a.last e.threadId + 1)]) := by
  rw [put_ok he.threadId he.runId (h.loadSeq he.threadId)]
  refine ⟨rfl, ?_, ?_, ?_, fun t => ?_⟩
  · have htake : Filed (s.take e.threadId (a.last e.threadId + 1)) w :=
      ⟨h.filed.dir, h.filed.increasing⟩
    refine htake.append (r := e.record now (a.last e.threadId + 1)) fun x hx => ?_
    have hmem : x.shown ∈ a.ofThread e.threadId := by
      rw [← h.ofThread]
      exact mem_map_of_mem hx
    exact Nat.lt_succ_of_le (hn.le_last hmem)
  · rw [map_append, h.shown]
    rfl
  · intro r hr
    rcases mem_append.1 hr with hr | hr
    · exact h.reads r hr
    · rw [mem_singleton.1 hr]
      exact ⟨he.reads, he.whole⟩
  · show update s.seqCounters e.threadId _ t = some (update a.last e.threadId _ t)
      ∨ update s.seqCounters e.threadId _ t = none ∧
        update a.last e.threadId _ t = 0 ∧ _
    by_cases ht : t = e.threadId
    · subst ht
      rw [update_self, update_self]
      exact .inl rfl
    · have hthread : ¬(e.record now (a.last e.threadId + 1)).threadId = t := Ne.symm ht
      rw [update_of_ne ht, update_of_ne ht, ofThread_append, if_neg hthread,
        append_nil]
      exact h.counters t

/-- The events of a batch can be written and read back, each at its turn. -/
def ReadableAll (loads : String → Option Value) : EventLog → List (String × EventInput) → Prop
  | _, [] => True
  | a, (now, e) :: events => Readable loads a now e ∧ ReadableAll loads (a.put e).2 events

theorem InFiles.putBatch (h : InFiles loads s a w) (hn : a.Numbered)
    {events : List (String × EventInput)} (he : ReadableAll loads a events) :
    ∃ rs w', (s.putBatch loads events).1 = .ok rs ∧
      rs.map EventRecord.shown = (a.putBatch (events.map Prod.snd)).1 ∧
      InFiles loads (s.putBatch loads events).2 (a.putBatch (events.map Prod.snd)).2 w' := by
  induction events generalizing s a w with
  | nil => exact ⟨[], w, rfl, rfl, h⟩
  | cons head events ih =>
    obtain ⟨now, e⟩ := head
    obtain ⟨hhead, htail⟩ := he
    obtain ⟨hrecord, hput⟩ := h.put hn hhead
    obtain ⟨rs, w', hrs, hshown, hbatch⟩ := ih hput (hn.put e) htail
    have hcons : s.putBatch loads ((now, e) :: events) =
        (.ok (e.record now (a.last e.threadId + 1) :: rs),
          ((s.put loads now e).2.putBatch loads events).2) := by
      have hpair : s.put loads now e = (.ok (e.record now (a.last e.threadId + 1)),
          (s.put loads now e).2) := Prod.ext hrecord rfl
      have hrest : (s.put loads now e).2.putBatch loads events = (.ok rs,
          ((s.put loads now e).2.putBatch loads events).2) := Prod.ext hrs rfl
      rw [JsonlStore.putBatch, hpair]
      simp only
      rw [hrest]
    refine ⟨_, w', congrArg Prod.fst hcons, ?_, ?_⟩
    · rw [map_cons, hshown]
      rfl
    · rw [hcons]
      exact hbatch

/-! ### Deleting -/

/-- Without the files of a thread. -/
theorem Filed.deleteThread (h : Filed s w) (t : String) {counters : String → Option ℕ} :
    Filed ⟨counters, update s.files t []⟩ (w.filter fun r => r.threadId ≠ t) := by
  have hofRun : ∀ t' run, ofRun (w.filter fun r => r.threadId ≠ t) t' run =
      if t' = t then [] else ofRun w t' run := by
    intro t' run
    rw [ofRun, filter_filter]
    split
    · rename_i ht
      refine filter_eq_nil_iff.2 fun r _ => ?_
      by_cases hr : r.threadId = t
      · simp [hr]
      · simp [hr, ht]
    · rename_i ht
      refine filter_congr fun r _ => ?_
      by_cases hr : r.threadId = t'
      · simp [hr, ht]
      · simp [hr]
  refine ⟨fun t' => ?_, h.increasing.filter _⟩
  by_cases ht : t' = t
  · subst ht
    refine ⟨[], nodup_nil, fun run => ?_, ?_⟩
    · rw [hofRun, if_pos rfl]
      simp
    · exact update_self ..
  · obtain ⟨runs, hnodup, hmem, hfiles⟩ := h.dir t'
    refine ⟨runs, hnodup, fun run => ?_, ?_⟩
    · rw [hofRun, if_neg ht, hmem]
    · show update s.files t _ t' = _
      rw [update_of_ne ht, hfiles]
      refine map_congr_left fun run _ => ?_
      rw [hofRun, if_neg ht]

theorem InFiles.counters_filter (h : InFiles loads s a w) (p : EventRecord → Bool) (t : String) :
    s.seqCounters t = some (a.last t) ∨
      s.seqCounters t = none ∧ a.last t = 0 ∧ Events.ofThread (w.filter p) t = [] := by
  obtain hcount | ⟨hnone, hlast, hnil⟩ := h.counters t
  · exact .inl hcount
  · refine .inr ⟨hnone, hlast, filter_eq_nil_iff.2 fun r hr => ?_⟩
    exact filter_eq_nil_iff.1 hnil r (mem_of_mem_filter hr)

theorem InFiles.deleteByThread (h : InFiles loads s a w) (ht : isSafeId t = true) :
    (s.deleteByThread loads t).1 = .ok (a.ofThread t).length ∧
      InFiles loads (s.deleteByThread loads t).2 (a.deleteByThread t)
        (w.filter fun r => r.threadId ≠ t) := by
  have hdelete : s.deleteByThread loads t = (.ok (a.ofThread t).length,
      ⟨update s.seqCounters t none, update s.files t []⟩) := by
    simp only [JsonlStore.deleteByThread, h.filed.readThreadEvents h.reads ht, length_map]
    rw [← h.ofThread, length_map]
  rw [hdelete]
  refine ⟨rfl, h.filed.deleteThread t, ?_, fun r hr => h.reads r (mem_of_mem_filter hr), ?_⟩
  · show _ = a.log.filter _
    rw [← h.shown]
    exact map_filter_of fun r _ => rfl
  · intro t'
    show update s.seqCounters t none t' = some (update a.last t 0 t') ∨
      update s.seqCounters t none t' = none ∧ update a.last t 0 t' = 0 ∧ _
    by_cases htt : t' = t
    · subst htt
      rw [update_self, update_self]
      refine .inr ⟨rfl, rfl, filter_eq_nil_iff.2 fun r hr => ?_⟩
      have hne := (mem_filter.1 hr).2
      simpa using hne
    · rw [update_of_ne htt, update_of_ne htt]
      exact h.counters_filter _ t'

theorem InFiles.deleteByRun (h : InFiles loads s a w) (ht : isSafeId t = true)
    (hrun : isSafeId run = true) :
    (s.deleteByRun loads t run).1 = .ok (a.ofRun t run).length ∧
      InFiles loads (s.deleteByRun loads t run).2 (a.deleteByRun t run)
        (w.filter fun r => ¬(r.threadId = t ∧ r.runId = run)) := by
  have hdelete : s.deleteByRun loads t run = (.ok (a.ofRun t run).length,
      ⟨s.seqCounters, update s.files t ((s.files t).filter fun f => f.1 ≠ run)⟩) := by
    simp only [JsonlStore.deleteByRun, h.filed.readRunEvents h.reads ht hrun, length_map]
    rw [← h.ofRun, length_map]
  rw [hdelete]
  refine ⟨rfl, h.filed.delete t run, ?_, fun r hr => h.reads r (mem_of_mem_filter hr), ?_⟩
  · show _ = a.log.filter _
    rw [← h.shown]
    exact map_filter_of fun r _ => rfl
  · exact h.counters_filter _

/-! ### Queries -/

theorem filterSeq_value (p : ℤ → Bool) (rs : List EventRecord) :
    JsonlStore.filterSeq p (rs.map EventRecord.value) =
      .ok ((rs.filter fun r => p r.seq).map EventRecord.value) := by
  have hfilter : (rs.map fun r => ((r.seq : ℤ), r.value)).filter (fun k => p k.1) =
      (rs.filter fun r => p r.seq).map fun r => ((r.seq : ℤ), r.value) := filter_map
  rw [JsonlStore.filterSeq, mapM_seqOf]
  show Except.ok (((rs.map fun r => ((r.seq : ℤ), r.value)).filter _).map Prod.snd) = _
  rw [hfilter, map_map]
  rfl

theorem filterCursor_value (p : ℤ → ℤ → Bool) (cursor : Option ℤ) (rs : List EventRecord) :
    JsonlStore.filterCursor p cursor (rs.map EventRecord.value) =
      .ok ((rs.filter fun r => cursor.all (p · r.seq)).map EventRecord.value) := by
  cases cursor with
  | none =>
    have hall : (rs.filter fun r => (none : Option ℤ).all (p · r.seq)) = rs :=
      filter_eq_self.2 fun _ _ => rfl
    rw [hall]
    rfl
  | some cursor => exact filterSeq_value (p cursor) rs

theorem sliceFromEnd_value {limit : ℕ} (h : 1 ≤ limit) (rs : List EventRecord) :
    sliceFromEnd limit (rs.map EventRecord.value) = (latest limit rs).map EventRecord.value := by
  rw [sliceFromEnd_eq h, latest_map]

theorem after_shown (cursor : Option ℤ) (rs : List EventRecord) :
    after cursor (rs.map EventRecord.shown) =
      (rs.filter fun r => cursor.all (· < (r.seq : ℤ))).map EventRecord.shown := by
  rw [after]
  exact filter_map

theorem before_shown (cursor : Option ℤ) (rs : List EventRecord) :
    before cursor (rs.map EventRecord.shown) =
      (rs.filter fun r => cursor.all ((r.seq : ℤ) < ·)).map EventRecord.shown := by
  rw [before]
  exact filter_map

theorem filter_isMessage (rs : List EventRecord) :
    (rs.map EventRecord.value).filter JsonlStore.isMessage =
      (rs.filter fun r => r.category = "message").map EventRecord.value := filter_map

theorem messages_shown {rs : List EventRecord} {xs : List Shown}
    (h : rs.map EventRecord.shown = xs) :
    (rs.filter fun r => r.category = "message").map EventRecord.shown = xs.filter Shown.isMessage := by
  rw [← h]
  exact map_filter_of fun _ _ => rfl

theorem InFiles.listMessages (h : InFiles loads s a w) (ht : isSafeId t = true) {limit : ℕ}
    (hlimit : 1 ≤ limit) {beforeSeq afterSeq : Option ℤ}
    (hone : beforeSeq = none ∨ afterSeq = none) :
    ∃ rs : List EventRecord,
      s.listMessages loads t limit beforeSeq afterSeq = .ok (rs.map EventRecord.value) ∧
      rs.map EventRecord.shown =
        page limit beforeSeq afterSeq ((a.ofThread t).filter Shown.isMessage) := by
  rw [← messages_shown (h.ofThread t), page, before_shown, after_shown, filter_filter]
  simp only [JsonlStore.listMessages, h.filed.readThreadEvents h.reads ht, bind, Except.bind,
    filter_isMessage]
  cases beforeSeq with
  | some y =>
    obtain rfl : afterSeq = none := hone.resolve_left (Option.some_ne_none y)
    simp only [filterSeq_value, sliceFromEnd_value hlimit]
    exact ⟨_, rfl, latest_map ..⟩
  | none =>
    cases afterSeq with
    | some x =>
      simp only [filterSeq_value, first, ← map_take]
      refine ⟨_, rfl, ?_⟩
      simp [map_take]
    | none =>
      simp only [sliceFromEnd_value hlimit]
      refine ⟨_, rfl, ?_⟩
      simp [latest_map]

theorem InFiles.listMessagesByRun (h : InFiles loads s a w) (ht : isSafeId t = true)
    (hrun : isSafeId run = true) {limit : ℕ} (hlimit : 1 ≤ limit) (beforeSeq afterSeq : Option ℤ) :
    ∃ rs : List EventRecord,
      s.listMessagesByRun loads t run limit beforeSeq afterSeq = .ok (rs.map EventRecord.value) ∧
      rs.map EventRecord.shown =
        page limit beforeSeq afterSeq ((a.ofRun t run).filter Shown.isMessage) := by
  rw [← messages_shown (h.ofRun t run), page, before_shown, after_shown]
  simp only [JsonlStore.listMessagesByRun, h.filed.readRunEvents h.reads ht hrun, bind, Except.bind,
    filter_isMessage, filterCursor_value]
  cases afterSeq with
  | some x =>
    simp only [Option.isSome_some, if_true, ← first_map]
    exact ⟨_, rfl, rfl⟩
  | none =>
    have hall : ∀ l : List EventRecord,
        (l.filter fun r => (none : Option ℤ).all (· < (r.seq : ℤ))) = l :=
      fun l => filter_eq_self.2 fun _ _ => rfl
    simp only [Option.isSome_none, Bool.false_eq_true, if_false, hall, ← latest_map]
    refine ⟨latest limit _, congrArg Except.ok ?_, rfl⟩
    rw [sliceFromEnd_value hlimit, length_map]
    split
    · rfl
    · rename_i hle
      rw [latest, Nat.sub_eq_zero_of_le (not_lt.1 hle), drop_zero]

theorem InFiles.listEvents (h : InFiles loads s a w) (ht : isSafeId t = true)
    (hrun : isSafeId run = true) (eventTypes : Option (List String)) (taskId : Option String)
    (limit : ℕ) (afterSeq : Option ℤ) :
    ∃ rs : List EventRecord,
      s.listEvents loads t run eventTypes taskId limit afterSeq = .ok (rs.map EventRecord.value) ∧
      rs.map EventRecord.shown = first limit (after afterSeq ((a.ofRun t run).filter fun x =>
        eventTypes.all (x.eventType ∈ ·) && taskId.all (ofTask · x.metadata))) := by
  have hfilter : ((Events.ofRun w t run).map EventRecord.value).filter
      (fun e => eventTypes.all (JsonlStore.hasType · e)) = ((Events.ofRun w t run).filter fun r =>
        eventTypes.all (r.eventType ∈ ·)).map EventRecord.value := filter_map
  have htask : ∀ l : List EventRecord, (l.map EventRecord.value).filter
      (fun e => taskId.all (metadataOfTask · (e.get? "metadata"))) =
        (l.filter fun r => taskId.all (ofTask · r.metadata)).map EventRecord.value :=
    fun l => filter_map
  have hshown : (((Events.ofRun w t run).filter fun r => eventTypes.all (r.eventType ∈ ·)).filter
      fun r => taskId.all (ofTask · r.metadata)).map EventRecord.shown =
        (a.ofRun t run).filter fun x =>
          eventTypes.all (x.eventType ∈ ·) && taskId.all (ofTask · x.metadata) := by
    rw [← h.ofRun, filter_filter]
    refine map_filter_of fun r _ => ?_
    rw [Bool.and_comm]
    rfl
  rw [← hshown, after_shown, ← first_map]
  simp only [JsonlStore.listEvents, h.filed.readRunEvents h.reads ht hrun, bind, Except.bind,
    hfilter, htask, filterCursor_value, ← first_map]
  exact ⟨_, rfl, rfl⟩

theorem InFiles.countMessages (h : InFiles loads s a w) (ht : isSafeId t = true) :
    s.countMessages loads t = .ok ((a.ofThread t).filter Shown.isMessage).length := by
  simp only [JsonlStore.countMessages, h.filed.readThreadEvents h.reads ht, bind, Except.bind]
  rw [countP_eq_length_filter, filter_isMessage, length_map,
    ← messages_shown (h.ofThread t), length_map]

/-- The names of the files of a call are safe, and what it writes is read back. -/
def StoreCall.Fits {τ : Type} (loads : String → Option Value) (a : EventLog) : StoreCall τ → Prop
  | .put now e => Readable loads a now.jsonl e
  | .putBatch events => ReadableAll loads a (events.map fun e => (e.1.jsonl, e.2))
  | .listMessages threadId _ _ _ => isSafeId threadId = true
  | .listEvents threadId runId _ _ _ _ => isSafeId threadId = true ∧ isSafeId runId = true
  | .listMessagesByRun threadId runId _ _ _ => isSafeId threadId = true ∧ isSafeId runId = true
  | .countMessages threadId => isSafeId threadId = true
  | .deleteByThread threadId => isSafeId threadId = true
  | .deleteByRun threadId runId => isSafeId threadId = true ∧ isSafeId runId = true

/-- **The files answer as the list does.** -/
theorem InFiles.exec {τ : Type} (h : InFiles loads s a w) (hn : a.Numbered) {call : StoreCall τ}
    (hasks : call.Asks) (hfits : call.Fits loads a) :
    (s.exec loads call).1 = (a.exec call).1 ∧
      ∃ w', InFiles loads (s.exec loads call).2 (a.exec call).2 w' := by
  have hanswer : ∀ {result : Except StoreError (List Value)} {xs : List Shown},
      (∃ rs : List EventRecord, result = .ok (rs.map EventRecord.value) ∧
        rs.map EventRecord.shown = xs) → JsonlStore.answer result = .records (xs.map some) := by
    rintro result xs ⟨rs, rfl, rfl⟩
    simp only [JsonlStore.answer, map_map]
    rfl
  cases call with
  | put now e =>
    obtain ⟨hrecord, hput⟩ := h.put hn hfits
    refine ⟨?_, _, hput⟩
    show JsonlStore.answerPut ((s.put loads now.jsonl e).1.map fun r => [r]) = _
    rw [hrecord]
    rfl
  | putBatch events =>
    have hmap : events.map Prod.snd = (events.map fun e => (e.1.jsonl, e.2)).map Prod.snd := by
      rw [map_map]
      rfl
    obtain ⟨rs, w', hrs, hshown, hput⟩ := h.putBatch hn hfits
    rw [← hmap] at hshown hput
    refine ⟨?_, w', hput⟩
    show JsonlStore.answerPut (s.putBatch loads _).1 = .records ((a.putBatch _).1.map some)
    rw [hrs, ← hshown, map_map]
    rfl
  | listMessages t limit beforeSeq afterSeq =>
    exact ⟨hanswer (h.listMessages hfits hasks.1 hasks.2), w, h⟩
  | listEvents t run eventTypes taskId limit afterSeq =>
    exact ⟨hanswer (h.listEvents hfits.1 hfits.2 eventTypes taskId limit afterSeq), w, h⟩
  | listMessagesByRun t run limit beforeSeq afterSeq =>
    exact ⟨hanswer (h.listMessagesByRun hfits.1 hfits.2 hasks beforeSeq afterSeq), w, h⟩
  | countMessages t => exact ⟨congrArg JsonlStore.answerCount (h.countMessages hfits), w, h⟩
  | deleteByThread t =>
    obtain ⟨hcount, hdelete⟩ := h.deleteByThread hfits
    exact ⟨congrArg JsonlStore.answerCount hcount, _, hdelete⟩
  | deleteByRun t run =>
    obtain ⟨hcount, hdelete⟩ := h.deleteByRun hfits.1 hfits.2
    exact ⟨congrArg JsonlStore.answerCount hcount, _, hdelete⟩

end AfterFlow.Events
