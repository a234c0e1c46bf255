import AfterFlow.Events.Agreement.Memory
import Mathlib.Data.List.Dedup

/-!
# The table is a list of events

A row holds its event as it is, but for the metadata: they say that a content was written as JSON.
The rows of a thread increase in their numbers, so ordering them changes nothing, and the greatest
number of the rows is the last one of the thread.

## Main results

* `Tabulates.exec` — the table answers as the list does
-/

namespace AfterFlow.Events

open Transition List Option

variable {τ : Type} {cfg : DbSetting τ} {s : DbStore τ} {a : EventLog} {t run : String}

/-! ### Fields of metadata -/

theorem lookup_map_of_ne {fields : List (String × Value)} {key k : String} {value : Value}
    (h : k ≠ key) :
    (fields.map fun f => if f.1 = key then (key, value) else f).lookup k = fields.lookup k := by
  induction fields with
  | nil => rfl
  | cons f fields ih =>
    rw [map_cons, lookup_cons, lookup_cons]
    by_cases hf : f.1 = key
    · have hk : (k == key) = false := beq_false_of_ne h
      simp [hf, hk, ih]
    · simp [hf, ih]

theorem lookup_map_self {fields : List (String × Value)} {key : String} {value : Value}
    (h : (fields.lookup key).isSome = true) :
    (fields.map fun f => if f.1 = key then (key, value) else f).lookup key = some value := by
  induction fields with
  | nil => cases h
  | cons f fields ih =>
    rw [map_cons, lookup_cons]
    by_cases hf : f.1 = key
    · simp [hf]
    · have hkey : (key == f.1) = false := beq_false_of_ne (Ne.symm hf)
      rw [lookup_cons, hkey] at h
      simp [hf, hkey, ih h]

theorem lookup_append_singleton {fields : List (String × Value)} {key k : String} {value : Value} :
    (fields ++ [(key, value)]).lookup k =
      (fields.lookup k).or (if k = key then some value else none) := by
  induction fields with
  | nil =>
    by_cases h : k = key
    · simp [h]
    · have hk : (k == key) = false := beq_false_of_ne h
      simp [lookup_cons, h, hk]
  | cons f fields ih =>
    rw [cons_append, lookup_cons, lookup_cons, ih]
    cases k == f.1 <;> rfl

theorem lookup_withField_self {fields : List (String × Value)} {key : String} {value : Value} :
    (withField fields key value).lookup key = some value := by
  rw [withField]
  split
  · rename_i h
    exact lookup_map_self h
  · rename_i h
    rw [lookup_append_singleton, not_isSome_iff_eq_none.1 h, if_pos rfl, none_or]

theorem lookup_withField_of_ne {fields : List (String × Value)} {key k : String} {value : Value}
    (h : k ≠ key) : (withField fields key value).lookup k = fields.lookup k := by
  rw [withField]
  split
  · exact lookup_map_of_ne h
  · rw [lookup_append_singleton, if_neg h, or_none]

theorem lookup_contentToDb {content : Value} {metadata : List (String × Value)} {k : String}
    (hjson : k ≠ "content_is_json") (hdict : k ≠ "content_is_dict") :
    (contentToDb content metadata).2.lookup k = metadata.lookup k := by
  cases content <;> simp [contentToDb, lookup_withField_of_ne, hjson, hdict]

theorem saysJson_contentToDb {content : Value} {metadata : List (String × Value)}
    (h : ∀ text, content ≠ .str text) : saysJson (contentToDb content metadata).2 = true := by
  cases content with
  | str text => exact absurd rfl (h text)
  | obj fields =>
    simp [saysJson, contentToDb, lookup_withField_of_ne, lookup_withField_self, Value.truthy]
  | _ => simp [saysJson, contentToDb, lookup_withField_self, Value.truthy]

/-! ### Events as the table shows them -/

/-- The event with the metadata of its row. -/
def Shown.flagged (x : Shown) : Shown := { x with metadata := (contentToDb x.content x.metadata).2 }

def StoreAnswer.flagged : StoreAnswer → StoreAnswer
  | .records rs => .records (rs.map (Option.map Shown.flagged))
  | answer => answer

@[simp] theorem ofTask_flagged (taskId : String) (x : Shown) :
    ofTask taskId x.flagged.metadata = ofTask taskId x.metadata := by
  rw [ofTask, ofTask, Shown.flagged, lookup_contentToDb (by decide) (by decide)]

/-- A text in the field `task_id`, if there is one. -/
def TaskNamed (metadata : List (String × Value)) : Prop :=
  ∀ v, metadata.lookup "task_id" = some v → ∃ id, v = .str id

/-- An event that a row holds as it is: it is not truncated, its time can be read, its content is
read back, and its metadata do not take a text for JSON. -/
structure Tabular (cfg : DbSetting τ) (maxTraceContent : ℕ) (e : EventInput) : Prop where
  whole : e.category = "trace" → (contentText e.content).utf8ByteSize ≤ maxTraceContent
  time : ∀ text, e.createdAt = some text → text = "" ∨ (cfg.fromisoformat text).isSome
  plain : ∀ text, e.content = .str text → saysJson e.metadata = false
  reads : (∀ text, e.content ≠ .str text) → cfg.loads e.content.dumps = some e.content
  task : TaskNamed e.metadata

theorem createdTime_ok {e : EventInput} {maxTraceContent : ℕ} (h : Tabular cfg maxTraceContent e)
    (now : τ) : ∃ time, DbStore.createdTime cfg.fromisoformat now e.createdAt = .ok time := by
  cases hcreated : e.createdAt with
  | none => exact ⟨now, rfl⟩
  | some text =>
    by_cases htext : text = ""
    · exact ⟨now, by rw [DbStore.createdTime, if_pos htext]⟩
    · obtain ⟨time, htime⟩ := isSome_iff_exists.1 ((h.time text hcreated).resolve_left htext)
      refine ⟨time, ?_⟩
      rw [DbStore.createdTime, if_neg htext, htime]

theorem truncateTrace_whole {e : EventInput} {maxTraceContent : ℕ}
    (h : Tabular cfg maxTraceContent e) :
    truncateTrace maxTraceContent e.category e.content e.metadata = (e.content, e.metadata) :=
  if_neg fun hlong => absurd (h.whole hlong.1) (not_le.2 hlong.2)

theorem content_back {e : EventInput} {maxTraceContent : ℕ} (h : Tabular cfg maxTraceContent e) :
    (if saysJson (contentToDb e.content e.metadata).2 then
      (cfg.loads (contentToDb e.content e.metadata).1).getD
        (.str (contentToDb e.content e.metadata).1)
      else .str (contentToDb e.content e.metadata).1) = e.content := by
  by_cases htext : ∃ text, e.content = .str text
  · obtain ⟨text, htext⟩ := htext
    have hplain := h.plain text htext
    simp [htext, contentToDb, hplain]
  · have hne : ∀ text, e.content ≠ .str text := fun text heq => htext ⟨text, heq⟩
    have hdumps : (contentToDb e.content e.metadata).1 = e.content.dumps := by
      cases hcontent : e.content with
      | str text => exact absurd hcontent (hne text)
      | _ => rfl
    rw [saysJson_contentToDb hne, if_pos rfl, hdumps, h.reads hne]
    rfl

theorem newRow_shown {e : EventInput} (h : Tabular cfg s.maxTraceContent e) (now : τ) (seq : ℕ) :
    ∃ row, s.newRow cfg.fromisoformat cfg.userId now seq e = .ok row ∧
      DbStore.rowToDict cfg row = Shown.flagged
        ⟨e.threadId, e.runId, seq, e.eventType, e.category, e.content, e.metadata⟩ ∧
      row.userId = cfg.userId ∧ TaskNamed row.eventMetadata := by
  obtain ⟨time, htime⟩ := createdTime_ok h now
  refine ⟨⟨e.threadId, e.runId, cfg.userId, e.eventType, e.category,
    (contentToDb e.content e.metadata).1, (contentToDb e.content e.metadata).2, seq, time⟩,
    ?_, ?_, rfl, ?_⟩
  · simp only [DbStore.newRow, truncateTrace_whole h, htime]
    rfl
  · rw [DbStore.rowToDict, Shown.flagged]
    exact congrArg (fun content => (⟨e.threadId, e.runId, seq, e.eventType, e.category, content,
      (contentToDb e.content e.metadata).2⟩ : Shown)) (content_back h)
  · intro v hv
    rw [lookup_contentToDb (by decide) (by decide)] at hv
    exact h.task v hv

/-! ### The rows of the events -/

/-- The rows hold the events of the list, all of one user. -/
structure Tabulates (cfg : DbSetting τ) (s : DbStore τ) (a : EventLog) : Prop where
  rows : s.rows.map (DbStore.rowToDict cfg) = a.log.map Shown.flagged
  user : ∀ r ∈ s.rows, r.userId = cfg.userId
  task : ∀ r ∈ s.rows, TaskNamed r.eventMetadata

theorem Tabulates.empty (cfg : DbSetting τ) (maxTraceContent : ℕ) :
    Tabulates cfg ⟨maxTraceContent, []⟩ .empty :=
  ⟨rfl, fun _ hr => absurd hr not_mem_nil, fun _ hr => absurd hr not_mem_nil⟩

theorem rows_filter {rows : List (DbRow τ)} {xs : List Shown}
    (h : rows.map (DbStore.rowToDict cfg) = xs.map Shown.flagged) {p : DbRow τ → Bool}
    {q : Shown → Bool} (hp : ∀ r ∈ rows, p r = q (DbStore.rowToDict cfg r))
    (hq : ∀ x, q x = q x.flagged) :
    (rows.filter p).map (DbStore.rowToDict cfg) = (xs.filter q).map Shown.flagged := by
  rw [map_filter_of hp, h]
  exact (map_filter_of fun x _ => hq x).symm

theorem Tabulates.ofThread (h : Tabulates cfg s a) (t : String) :
    (s.ofThread cfg t).map (DbStore.rowToDict cfg) = (a.ofThread t).map Shown.flagged := by
  refine rows_filter h.rows (fun r hr => ?_) fun _ => rfl
  have huser : cfg.userId = none ∨ r.userId = cfg.userId := .inr (h.user r hr)
  exact decide_eq_decide.2 (and_iff_left huser)

theorem Tabulates.ofRun (h : Tabulates cfg s a) (t run : String) :
    (s.ofRun cfg t run).map (DbStore.rowToDict cfg) = (a.ofRun t run).map Shown.flagged :=
  rows_filter (h.ofThread t) (fun _ _ => rfl) fun _ => rfl

theorem climbs_rows {rows : List (DbRow τ)} {xs : List Shown}
    (h : rows.map (DbStore.rowToDict cfg) = xs.map Shown.flagged) (hxs : Climbs Shown.number xs) :
    Climbs DbStore.seqKey rows := by
  have hflagged : Climbs Shown.number (xs.map Shown.flagged) := Climbs.map.2 hxs
  rw [← h] at hflagged
  exact (Climbs.map (f := DbStore.rowToDict cfg)).1 hflagged

theorem max_eq_getLast {xs : List Shown} (h : Climbs Shown.number xs) :
    (xs.map Shown.seq).max? = xs.getLast?.map Shown.seq := by
  rcases eq_nil_or_concat xs with rfl | ⟨l, x, rfl⟩
  · rfl
  · rw [concat_eq_append] at h ⊢
    have hlast : (l ++ [x]).getLast?.map Shown.seq = some x.seq := by simp
    rw [hlast]
    refine max?_eq_some_iff.2 ⟨mem_map_of_mem (by simp), fun n hn => ?_⟩
    obtain ⟨y, hy, rfl⟩ := mem_map.1 hn
    rcases mem_append.1 hy with hy | hy
    · have hlt := (pairwise_append.1 h).2.2 y hy x (mem_singleton_self _)
      simp only [Shown.number] at hlt
      omega
    · rw [mem_singleton.1 hy]

theorem Tabulates.maxSeqForThread (h : Tabulates cfg s a) (hn : a.Numbered) (t : String) :
    (s.maxSeqForThread t).getD 0 = a.last t := by
  have hrows : (s.rows.filter fun r => r.threadId = t).map (DbStore.rowToDict cfg) =
      (a.ofThread t).map Shown.flagged := rows_filter h.rows (fun _ _ => rfl) fun _ => rfl
  have hseq : (s.rows.filter fun r => r.threadId = t).map DbRow.seq =
      (a.ofThread t).map Shown.seq := by
    have hmap := congrArg (List.map Shown.seq) hrows
    rwa [List.map_map, List.map_map] at hmap
  rw [DbStore.maxSeqForThread, hseq, max_eq_getLast (hn.climbs t), hn.last t]

theorem Tabulates.append (h : Tabulates cfg s a) {e : EventInput} {row : DbRow τ}
    (hrow : DbStore.rowToDict cfg row = (a.put e).1.flagged) (huser : row.userId = cfg.userId)
    (htask : TaskNamed row.eventMetadata) :
    Tabulates cfg { s with rows := s.rows ++ [row] } (a.put e).2 := by
  refine ⟨?_, fun r hr => ?_, fun r hr => ?_⟩
  · show (s.rows ++ [row]).map _ = (a.log ++ [(a.put e).1]).map _
    rw [map_append, map_append, h.rows, map_singleton, hrow]
    rfl
  · rcases mem_append.1 hr with hr | hr
    · exact h.user r hr
    · rwa [mem_singleton.1 hr]
  · rcases mem_append.1 hr with hr | hr
    · exact h.task r hr
    · rwa [mem_singleton.1 hr]

theorem Tabulates.put (h : Tabulates cfg s a) (hn : a.Numbered) (now : τ) {e : EventInput}
    (he : Tabular cfg s.maxTraceContent e) :
    ∃ row, (s.put cfg.fromisoformat cfg.userId now e).1 = .ok row ∧
      DbStore.rowToDict cfg row = (a.put e).1.flagged ∧
      Tabulates cfg (s.put cfg.fromisoformat cfg.userId now e).2 (a.put e).2 := by
  obtain ⟨row, hrow, hshown, huser, htask⟩ := newRow_shown he now (a.last e.threadId + 1)
  have hput : s.put cfg.fromisoformat cfg.userId now e =
      (.ok row, { s with rows := s.rows ++ [row] }) := by
    simp only [DbStore.put, h.maxSeqForThread hn, hrow]
  rw [hput]
  exact ⟨row, rfl, hshown, h.append hshown huser htask⟩

/-- The rows of a batch of one thread. -/
theorem Tabulates.batchRows {rows : List (DbRow τ)}
    (h : Tabulates cfg ⟨s.maxTraceContent, rows⟩ a) {events : List (τ × EventInput)}
    (he : ∀ e ∈ events, e.2.threadId = t ∧ Tabular cfg s.maxTraceContent e.2) :
    ∃ new, s.batchRows cfg.fromisoformat cfg.userId (a.last t)
        (events.map fun e => (e.1, DbStore.batchEvent e.2)) = .ok new ∧
      new.map (DbStore.rowToDict cfg) =
        (a.putBatch (events.map Prod.snd)).1.map Shown.flagged ∧
      Tabulates cfg ⟨s.maxTraceContent, rows ++ new⟩ (a.putBatch (events.map Prod.snd)).2 := by
  induction events generalizing a rows with
  | nil =>
    refine ⟨[], rfl, rfl, ?_⟩
    rw [append_nil]
    exact h
  | cons e events ih =>
    obtain ⟨⟨rfl, hhead⟩, htail⟩ := forall_mem_cons.1 he
    obtain ⟨row, hrow, hshown, huser, htask⟩ := newRow_shown hhead e.1 (a.last e.2.threadId + 1)
    obtain ⟨new, hnew, hmap, hrest⟩ := ih (h.append hshown huser htask) htail
    have hlast : (a.put e.2).2.last e.2.threadId = a.last e.2.threadId + 1 :=
      Function.update_self ..
    rw [hlast] at hnew
    refine ⟨row :: new, ?_, ?_, ?_⟩
    · have hevent : s.newRow cfg.fromisoformat ((DbStore.batchEvent e.2).userId.getD cfg.userId) e.1
          (a.last e.2.threadId + 1) (DbStore.batchEvent e.2).input = .ok row := hrow
      simp only [map_cons, DbStore.batchRows, hevent, hnew, bind, Except.bind]
    · show DbStore.rowToDict cfg row :: new.map _ = (a.put e.2).1.flagged :: List.map _ _
      rw [hmap, hshown]
      rfl
    · rw [append_cons]
      exact hrest

/-- A batch of one thread. -/
def OneThread (events : List EventInput) : Prop := ∃ t, ∀ e ∈ events, e.threadId = t

theorem dedup_length_le {l : List String} (h : ∀ x ∈ l, x = t) : ¬1 < l.dedup.length := by
  rw [eq_replicate_of_mem h]
  cases l with
  | nil => exact Nat.not_lt_zero 1
  | cons x l =>
    rw [length_cons, replicate_dedup (Nat.succ_ne_zero _)]
    exact Nat.lt_irrefl 1

theorem Tabulates.putBatch (h : Tabulates cfg s a) (hn : a.Numbered)
    {events : List (τ × EventInput)} (hone : OneThread (events.map Prod.snd))
    (he : ∀ e ∈ events, Tabular cfg s.maxTraceContent e.2) :
    ∃ new, (s.putBatch cfg.fromisoformat cfg.userId
        (events.map fun e => (e.1, DbStore.batchEvent e.2))).1 = .ok new ∧
      new.map (DbStore.rowToDict cfg) =
        (a.putBatch (events.map Prod.snd)).1.map Shown.flagged ∧
      Tabulates cfg (s.putBatch cfg.fromisoformat cfg.userId
        (events.map fun e => (e.1, DbStore.batchEvent e.2))).2
          (a.putBatch (events.map Prod.snd)).2 := by
  cases events with
  | nil => exact ⟨[], rfl, rfl, h⟩
  | cons e events =>
    obtain ⟨t, ht⟩ := hone
    have hthread : ∀ x ∈ e :: events, x.2.threadId = t :=
      fun x hx => ht x.2 (mem_map_of_mem hx)
    obtain rfl : e.2.threadId = t := hthread e mem_cons_self
    have hdedup : ¬1 < (((e :: events).map fun e => (e.1, DbStore.batchEvent e.2)).map
        fun e => e.2.threadId).dedup.length := by
      refine dedup_length_le (t := e.2.threadId) fun x hx => ?_
      rw [List.map_map] at hx
      obtain ⟨y, hy, rfl⟩ := List.mem_map.1 hx
      exact hthread y hy
    obtain ⟨new, hnew, hmap, hrest⟩ := h.batchRows (s := s)
      fun x hx => ⟨hthread x hx, he x hx⟩
    have hput : s.putBatch cfg.fromisoformat cfg.userId
        ((e :: events).map fun e => (e.1, DbStore.batchEvent e.2)) =
          (.ok new, { s with rows := s.rows ++ new }) := by
      have hseq : (s.maxSeqForThread (DbStore.batchEvent e.2).threadId).getD 0 =
          a.last e.2.threadId := h.maxSeqForThread hn _
      rw [map_cons] at hdedup hnew ⊢
      simp only [DbStore.putBatch]
      rw [if_neg hdedup, hseq, hnew]
    rw [hput]
    exact ⟨new, rfl, hmap, hrest⟩

/-! ### Queries -/

variable {rows : List (DbRow τ)} {xs : List Shown}

theorem rows_after (h : rows.map (DbStore.rowToDict cfg) = xs.map Shown.flagged)
    (cursor : Option ℤ) :
    (rows.filter fun r => cursor.all (· < DbStore.seqKey r)).map (DbStore.rowToDict cfg) =
      (after cursor xs).map Shown.flagged :=
  rows_filter h (fun _ _ => rfl) fun _ => rfl

theorem rows_before (h : rows.map (DbStore.rowToDict cfg) = xs.map Shown.flagged)
    (cursor : Option ℤ) :
    (rows.filter fun r => cursor.all (DbStore.seqKey r < ·)).map (DbStore.rowToDict cfg) =
      (before cursor xs).map Shown.flagged :=
  rows_filter h (fun _ _ => rfl) fun _ => rfl

theorem rows_messages (h : rows.map (DbStore.rowToDict cfg) = xs.map Shown.flagged) :
    (rows.filter fun r => r.category = "message").map (DbStore.rowToDict cfg) =
      (xs.filter Shown.isMessage).map Shown.flagged :=
  rows_filter h (fun _ _ => rfl) fun _ => rfl

theorem ascending_shown (h : rows.map (DbStore.rowToDict cfg) = xs.map Shown.flagged)
    (hxs : Climbs Shown.number xs) (limit : ℕ) :
    (DbStore.ascending limit rows).map (DbStore.rowToDict cfg) =
      (first limit xs).map Shown.flagged := by
  rw [DbStore.ascending, (climbs_rows h hxs).insertionSort_eq (List.Perm.refl _)]
  exact (first_map _ limit rows).trans (h ▸ (first_map _ limit xs).symm)

theorem descending_shown (h : rows.map (DbStore.rowToDict cfg) = xs.map Shown.flagged)
    (hxs : Climbs Shown.number xs) (limit : ℕ) :
    (DbStore.descending limit rows).reverse.map (DbStore.rowToDict cfg) =
      (latest limit xs).map Shown.flagged := by
  rw [DbStore.descending, latest_eq_downwards (climbs_rows h hxs), latest_map, h, ← latest_map]

theorem paged_shown (h : rows.map (DbStore.rowToDict cfg) = xs.map Shown.flagged)
    (hxs : Climbs Shown.number xs) (limit : ℕ) (beforeSeq afterSeq : Option ℤ) :
    (DbStore.paged limit beforeSeq afterSeq rows).map (DbStore.rowToDict cfg) =
      (page limit beforeSeq afterSeq xs).map Shown.flagged := by
  have hwindow := rows_after (rows_before h beforeSeq) afterSeq
  have hclimbs : Climbs Shown.number (after afterSeq (before beforeSeq xs)) :=
    (hxs.filter _).filter _
  rw [DbStore.paged, page]
  split
  · exact ascending_shown hwindow hclimbs limit
  · rename_i hnone
    obtain rfl : afterSeq = none := not_isSome_iff_eq_none.1 hnone
    have hall : after none (before beforeSeq xs) = before beforeSeq xs :=
      filter_eq_self.2 fun _ _ => rfl
    rw [hall] at hwindow hclimbs
    exact descending_shown hwindow hclimbs limit

theorem Tabulates.listMessages (h : Tabulates cfg s a) (hn : a.Numbered) (limit : ℕ)
    (beforeSeq afterSeq : Option ℤ) :
    (s.listMessages cfg t limit beforeSeq afterSeq).map (DbStore.rowToDict cfg) =
      (page limit beforeSeq afterSeq
        ((a.ofThread t).filter Shown.isMessage)).map Shown.flagged :=
  paged_shown (rows_messages (h.ofThread t)) ((hn.climbs t).filter _) limit beforeSeq afterSeq

theorem Tabulates.listMessagesByRun (h : Tabulates cfg s a) (hn : a.Numbered) (limit : ℕ)
    (beforeSeq afterSeq : Option ℤ) :
    (s.listMessagesByRun cfg t run limit beforeSeq afterSeq).map (DbStore.rowToDict cfg) =
      (page limit beforeSeq afterSeq
        ((a.ofRun t run).filter Shown.isMessage)).map Shown.flagged :=
  paged_shown (rows_messages (h.ofRun t run)) (((hn.climbs t).filter _).filter _) limit
    beforeSeq afterSeq

theorem bind_asString (htext : ∀ text, cfg.asString (.str text) = some text)
    {metadata : List (String × Value)} (h : TaskNamed metadata) (taskId : String) :
    decide ((metadata.lookup "task_id").bind cfg.asString = some taskId) =
      ofTask taskId metadata := by
  rw [ofTask]
  cases hlookup : metadata.lookup "task_id" with
  | none => rfl
  | some v =>
    obtain ⟨id, rfl⟩ := h v hlookup
    simp [htext]

theorem Tabulates.listEvents (h : Tabulates cfg s a) (hn : a.Numbered)
    (htext : ∀ text, cfg.asString (.str text) = some text) {eventTypes : Option (List String)}
    (htypes : eventTypes ≠ some []) (taskId : Option String) (limit : ℕ) (afterSeq : Option ℤ) :
    (s.listEvents cfg t run eventTypes taskId limit afterSeq).map (DbStore.rowToDict cfg) =
      (first limit (after afterSeq ((a.ofRun t run).filter fun x =>
        eventTypes.all (x.eventType ∈ ·) && taskId.all (ofTask · x.metadata)))).map
          Shown.flagged := by
  have hmine : ∀ r ∈ s.ofRun cfg t run, TaskNamed r.eventMetadata := fun r hr =>
    h.task r (mem_of_mem_filter (mem_of_mem_filter hr))
  have hfilter : (((s.ofRun cfg t run).filter fun r =>
      (eventTypes.getD []).isEmpty || r.eventType ∈ eventTypes.getD []).filter fun r =>
        taskId.all fun taskId =>
          (r.eventMetadata.lookup "task_id").bind cfg.asString = some taskId).map
            (DbStore.rowToDict cfg) =
      ((a.ofRun t run).filter fun x =>
        eventTypes.all (x.eventType ∈ ·) && taskId.all (ofTask · x.metadata)).map
          Shown.flagged := by
    rw [List.filter_filter]
    refine rows_filter (h.ofRun t run) (fun r hr => ?_) fun x => ?_
    · have htype : ((eventTypes.getD []).isEmpty || decide (r.eventType ∈ eventTypes.getD [])) =
          eventTypes.all (r.eventType ∈ ·) := by
        cases eventTypes with
        | none => rfl
        | some types =>
          cases types with
          | nil => exact absurd rfl htypes
          | cons type types => rfl
      rw [htype, Bool.and_comm]
      refine congrArg (_ && ·) ?_
      cases taskId with
      | none => rfl
      | some id => exact bind_asString htext (hmine r hr) id
    · refine congrArg (_ && ·) ?_
      cases taskId with
      | none => rfl
      | some id => exact (ofTask_flagged id x).symm
  exact ascending_shown (rows_after hfilter afterSeq)
    ((((hn.climbs t).filter _).filter _).filter _) limit

theorem Tabulates.countMessages (h : Tabulates cfg s a) (t : String) :
    s.countMessages cfg t = ((a.ofThread t).filter Shown.isMessage).length := by
  have hlength := congrArg List.length (rows_messages (h.ofThread t))
  rw [length_map, length_map] at hlength
  rw [DbStore.countMessages, countP_eq_length_filter, hlength]

/-! ### Deleting -/

theorem Tabulates.deleteByThread (h : Tabulates cfg s a) (t : String) :
    (s.deleteByThread cfg t).1 = (a.ofThread t).length ∧
      Tabulates cfg (s.deleteByThread cfg t).2 (a.deleteByThread t) := by
  have hlength := congrArg List.length (h.ofThread t)
  rw [length_map, length_map] at hlength
  refine ⟨hlength, rows_filter h.rows (fun r hr => ?_) fun _ => rfl,
    fun r hr => h.user r (mem_of_mem_filter hr),
    fun r hr => h.task r (mem_of_mem_filter hr)⟩
  have huser : cfg.userId = none ∨ r.userId = cfg.userId := .inr (h.user r hr)
  exact decide_eq_decide.2 (not_congr (and_iff_left huser))

theorem Tabulates.deleteByRun (h : Tabulates cfg s a) (t run : String) :
    (s.deleteByRun t run cfg.userId).1 = (a.ofRun t run).length ∧
      Tabulates cfg (s.deleteByRun t run cfg.userId).2 (a.deleteByRun t run) := by
  have hdeleted : ∀ r ∈ s.rows, DbStore.isDeleted t run cfg.userId r =
      decide (r.threadId = t ∧ r.runId = run) := by
    intro r hr
    have huser : cfg.userId = none ∨ r.userId = cfg.userId := .inr (h.user r hr)
    exact decide_eq_decide.2 (and_congr_right fun _ => and_iff_left huser)
  have hofRun : a.ofRun t run = a.log.filter fun x => x.threadId = t ∧ x.runId = run := by
    rw [EventLog.ofRun, EventLog.ofThread, List.filter_filter]
    refine List.filter_congr fun x _ => ?_
    rw [Bool.decide_and, Bool.and_comm]
  have hrun : (s.rows.filter (DbStore.isDeleted t run cfg.userId)).map (DbStore.rowToDict cfg) =
      (a.ofRun t run).map Shown.flagged := by
    rw [hofRun]
    exact rows_filter h.rows hdeleted fun _ => rfl
  have hlength := congrArg List.length hrun
  rw [length_map, length_map] at hlength
  refine ⟨hlength, rows_filter h.rows (fun r hr => ?_) fun _ => rfl,
    fun r hr => h.user r (mem_of_mem_filter hr),
    fun r hr => h.task r (mem_of_mem_filter hr)⟩
  rw [hdeleted r hr, ← decide_not]
  rfl

/-! ### All calls -/

/-- Rows can hold what a call writes, and a batch is of one thread. -/
def StoreCall.FitsRows (cfg : DbSetting τ) (maxTraceContent : ℕ) : StoreCall τ → Prop
  | .put _ e => Tabular cfg maxTraceContent e
  | .putBatch events =>
    OneThread (events.map Prod.snd) ∧ ∀ e ∈ events, Tabular cfg maxTraceContent e.2
  | _ => True

theorem maxTraceContent_exec (s : DbStore τ) (call : StoreCall τ) :
    (s.exec cfg call).2.maxTraceContent = s.maxTraceContent := by
  cases call with
  | put now e =>
    simp only [DbStore.exec, DbStore.put]
    split <;> rfl
  | putBatch events =>
    simp only [DbStore.exec, DbStore.putBatch]
    split
    · rfl
    · split
      · rfl
      · split <;> rfl
  | _ => rfl

/-- **The table answers as the list does, with its metadata.** -/
theorem Tabulates.exec (h : Tabulates cfg s a) (hn : a.Numbered)
    (htext : ∀ text, cfg.asString (.str text) = some text) {call : StoreCall τ}
    (hasks : call.Asks) (hfits : call.FitsRows cfg s.maxTraceContent) :
    (s.exec cfg call).1 = (a.exec call).1.flagged ∧
      Tabulates cfg (s.exec cfg call).2 (a.exec call).2 := by
  have hanswer : ∀ {rows : List (DbRow τ)} {xs : List Shown},
      rows.map (DbStore.rowToDict cfg) = xs.map Shown.flagged →
        DbStore.answer cfg rows = (StoreAnswer.records (xs.map some)).flagged := by
    intro rows xs hrows
    have hsome := congrArg (List.map some) hrows
    rw [List.map_map, List.map_map] at hsome
    refine congrArg StoreAnswer.records ?_
    rw [List.map_map]
    exact hsome
  cases call with
  | put now e =>
    obtain ⟨row, hrow, hshown, hput⟩ := h.put hn now.db hfits
    refine ⟨?_, hput⟩
    show DbStore.answerPut cfg ((s.put cfg.fromisoformat cfg.userId now.db e).1.map fun r => [r]) = _
    rw [hrow]
    have hlist : [row].map (DbStore.rowToDict cfg) = [(a.put e).1].map Shown.flagged :=
      congrArg (fun x => [x]) hshown
    exact hanswer hlist
  | putBatch events =>
    have hsnd : (events.map fun e => (e.1.db, e.2)).map Prod.snd = events.map Prod.snd := by
      rw [List.map_map]
      rfl
    have hevents : (events.map fun e => (e.1.db, DbStore.batchEvent e.2)) =
        (events.map fun e => (e.1.db, e.2)).map fun e => (e.1, DbStore.batchEvent e.2) := by
      rw [List.map_map]
      rfl
    have hrows : ∀ e ∈ events.map fun e => (e.1.db, e.2), Tabular cfg s.maxTraceContent e.2 := by
      intro e he
      obtain ⟨x, hx, rfl⟩ := mem_map.1 he
      exact hfits.2 x hx
    obtain ⟨new, hnew, hmap, hput⟩ := h.putBatch hn (hsnd ▸ hfits.1) hrows
    rw [hsnd, ← hevents] at *
    refine ⟨?_, hput⟩
    show DbStore.answerPut cfg (s.putBatch cfg.fromisoformat cfg.userId _).1 = _
    rw [hnew]
    exact hanswer hmap
  | listMessages t limit beforeSeq afterSeq =>
    exact ⟨hanswer (h.listMessages hn limit beforeSeq afterSeq), h⟩
  | listEvents t run eventTypes taskId limit afterSeq =>
    exact ⟨hanswer (h.listEvents hn htext hasks.2 taskId limit afterSeq), h⟩
  | listMessagesByRun t run limit beforeSeq afterSeq =>
    exact ⟨hanswer (h.listMessagesByRun hn limit beforeSeq afterSeq), h⟩
  | countMessages t => exact ⟨congrArg StoreAnswer.count (h.countMessages t), h⟩
  | deleteByThread t =>
    obtain ⟨hcount, hdelete⟩ := h.deleteByThread t
    exact ⟨congrArg StoreAnswer.count hcount, hdelete⟩
  | deleteByRun t run =>
    obtain ⟨hcount, hdelete⟩ := h.deleteByRun t run
    exact ⟨congrArg StoreAnswer.count hcount, hdelete⟩

end AfterFlow.Events
