import AfterFlow.Events.Queries

/-!
# The store in memory is a list of events

The projections of the store are the filters of its events, and bisecting them gives the pages of
the interface, for the numbers increase.
-/

namespace AfterFlow.Events

open Transition List Function Option

theorem map_filter_of {α β : Type} {f : α → β} {p : α → Bool} {q : β → Bool} {l : List α}
    (h : ∀ a ∈ l, p a = q (f a)) : (l.filter p).map f = (l.map f).filter q := by
  rw [List.filter_map]
  exact congrArg (List.map f) (List.filter_congr h)

/-- A query is within the interface: there are pages, and one cursor at most where it takes two. -/
def StoreCall.Asks {τ : Type} : StoreCall τ → Prop
  | .listMessages _ limit beforeSeq afterSeq => 1 ≤ limit ∧ (beforeSeq = none ∨ afterSeq = none)
  | .listEvents _ _ eventTypes _ limit _ => 1 ≤ limit ∧ eventTypes ≠ some []
  | .listMessagesByRun _ _ limit _ _ => 1 ≤ limit
  | _ => True

theorem sliceFromEnd_eq {α : Type} {limit : ℕ} (h : 1 ≤ limit) (l : List α) :
    sliceFromEnd limit l = latest limit l := if_neg (by omega)

/-- The store holds the events of the list, with their projections. -/
structure Mirrors (s : MemoryIndex) (a : EventLog) : Prop where
  events : ∀ t, (s.store.events t).map EventRecord.shown = a.ofThread t
  counters : s.store.seqCounters = a.last
  messages : ∀ t, s.messages t = (s.store.events t).filter fun r => r.category = "message"
  eventsByRun : ∀ t run, s.eventsByRun t run = (s.store.events t).filter fun r => r.runId = run
  messagesByRun : ∀ t run, s.messagesByRun t run = (s.messages t).filter fun r => r.runId = run

theorem Mirrors.empty : Mirrors .empty .empty :=
  ⟨fun _ => rfl, rfl, fun _ => rfl, fun _ _ => rfl, fun _ _ => rfl⟩

variable {s : MemoryIndex} {a : EventLog} {t run : String}

/-! ### Writing -/

theorem update_append {f : String → List EventRecord} {r : EventRecord} {k t : String} :
    update f k (f k ++ [r]) t = f t ++ if k = t then [r] else [] := by
  by_cases h : k = t
  · subst h
    simp
  · simp [h, Ne.symm h]

theorem appendByRun_eq {d : String → String → List EventRecord} {r : EventRecord} :
    MemoryIndex.appendByRun d r t run =
      d t run ++ if r.threadId = t ∧ r.runId = run then [r] else [] := by
  rw [MemoryIndex.appendByRun]
  by_cases ht : r.threadId = t
  · subst ht
    rw [update_self, update_append]
    simp
  · rw [update_of_ne (Ne.symm ht)]
    simp [ht]

theorem Mirrors.putOne (h : Mirrors s a) (now : String) (e : EventInput) :
    (s.putOne now e).1.shown = (a.put e).1 ∧ Mirrors (s.putOne now e).2 (a.put e).2 := by
  have hseq : s.store.seqCounters e.threadId = a.last e.threadId := congrFun h.counters _
  have hrecord : (s.putOne now e).1.shown = (a.put e).1 := by
    show (e.record now (s.store.seqCounters e.threadId + 1)).shown = _
    rw [hseq]
    rfl
  have hevents : ∀ t, (s.putOne now e).2.store.events t =
      s.store.events t ++ if e.threadId = t then [(s.putOne now e).1] else [] :=
    fun t => update_append
  have hmessages : ∀ t, (s.putOne now e).2.messages t = s.messages t ++
      if e.threadId = t then [(s.putOne now e).1].filter fun r => r.category = "message" else [] := by
    intro t
    show (if e.category = "message" then (_ : String → List EventRecord) else _) t = _
    by_cases hcategory : e.category = "message"
    · rw [if_pos hcategory, filter_singleton]
      have hself : decide ((s.putOne now e).1.category = "message") = true :=
        decide_eq_true hcategory
      rw [hself]
      exact update_append
    · rw [if_neg hcategory, filter_singleton]
      have hself : decide ((s.putOne now e).1.category = "message") = false :=
        decide_eq_false hcategory
      rw [hself]
      simp
  refine ⟨hrecord, fun t => ?_, ?_, fun t => ?_, fun t run => ?_, fun t run => ?_⟩
  · rw [hevents, map_append, h.events, EventLog.ofThread_put]
    split
    · rw [map_singleton, hrecord]
    · rfl
  · show update s.store.seqCounters e.threadId (s.store.seqCounters e.threadId + 1) = _
    rw [hseq, h.counters]
    rfl
  · rw [hmessages, hevents, filter_append, h.messages]
    split <;> rfl
  · show MemoryIndex.appendByRun s.eventsByRun (s.putOne now e).1 t run = _
    rw [appendByRun_eq, hevents, filter_append, h.eventsByRun]
    have hthread : (s.putOne now e).1.threadId = e.threadId := rfl
    rw [hthread]
    by_cases ht : e.threadId = t
    · simp [ht, filter_singleton]
    · simp [ht]
  · show (if e.category = "message" then (_ : String → String → List EventRecord) else _) t run = _
    rw [hmessages, filter_append, ← h.messagesByRun]
    by_cases hcategory : e.category = "message"
    · have hself : (s.putOne now e).1.category = "message" := hcategory
      have hthread : (s.putOne now e).1.threadId = e.threadId := rfl
      rw [if_pos hcategory]
      show MemoryIndex.appendByRun s.messagesByRun (s.putOne now e).1 t run = _
      rw [appendByRun_eq, hthread]
      by_cases ht : e.threadId = t
      · simp [ht, filter_singleton, hself]
      · simp [ht]
    · have hself : ¬(s.putOne now e).1.category = "message" := hcategory
      rw [if_neg hcategory]
      simp [hself]

theorem Mirrors.putBatch (h : Mirrors s a) (events : List (String × EventInput)) :
    (s.putBatch events).1.map EventRecord.shown = (a.putBatch (events.map Prod.snd)).1 ∧
      Mirrors (s.putBatch events).2 (a.putBatch (events.map Prod.snd)).2 := by
  induction events generalizing s a with
  | nil => exact ⟨rfl, h⟩
  | cons e events ih =>
    obtain ⟨hrecord, hput⟩ := h.putOne e.1 e.2
    obtain ⟨hrecords, hbatch⟩ := ih hput
    exact ⟨congrArg₂ List.cons hrecord hrecords, hbatch⟩

/-! ### Reading -/

theorem Mirrors.eventsByRun_map (h : Mirrors s a) :
    (s.eventsByRun t run).map EventRecord.shown = a.ofRun t run := by
  rw [h.eventsByRun, EventLog.ofRun, ← h.events]
  exact map_filter_of fun r _ => rfl

theorem Mirrors.messages_map (h : Mirrors s a) :
    (s.messages t).map EventRecord.shown = (a.ofThread t).filter Shown.isMessage := by
  rw [h.messages, ← h.events]
  exact map_filter_of fun r _ => rfl

theorem Mirrors.messagesByRun_map (h : Mirrors s a) :
    (s.messagesByRun t run).map EventRecord.shown = (a.ofRun t run).filter Shown.isMessage := by
  rw [h.messagesByRun, EventLog.ofRun, List.filter_filter]
  have hswap : ((a.ofThread t).filter fun x => x.isMessage && decide (x.runId = run)) =
      ((a.ofThread t).filter Shown.isMessage).filter fun x => x.runId = run := by
    rw [List.filter_filter]
    exact filter_congr fun x _ => Bool.and_comm _ _
  rw [hswap, ← h.messages_map]
  exact map_filter_of fun r _ => rfl

theorem climbs_shown {l : List EventRecord} (h : Climbs Shown.number (l.map EventRecord.shown)) :
    Climbs MemoryIndex.seqKey l := by
  show Climbs (Shown.number ∘ EventRecord.shown) l
  exact Climbs.map.1 h

theorem window_eq {l : List EventRecord} (h : Climbs MemoryIndex.seqKey l)
    (beforeSeq afterSeq : Option ℤ) :
    (l.take ((beforeSeq.map (bisectLeft MemoryIndex.seqKey l)).getD l.length)).drop
      ((afterSeq.map (bisectRight MemoryIndex.seqKey l)).getD 0) =
        l.filter fun r => afterSeq.all (· < MemoryIndex.seqKey r) ∧
          beforeSeq.all (MemoryIndex.seqKey r < ·) := by
  cases afterSeq with
  | none =>
    cases beforeSeq with
    | none => simp
    | some y => simpa using take_bisectLeft h y
  | some x =>
    cases beforeSeq with
    | none => simpa using drop_bisectRight h x
    | some y => simpa using slice_bisect h x y

/-- A page of an increasing list, by bisection. -/
theorem page_window {l : List EventRecord} (h : Climbs MemoryIndex.seqKey l) {limit : ℕ}
    (hlimit : 1 ≤ limit) (beforeSeq afterSeq : Option ℤ) :
    (if afterSeq.isSome then
        first limit ((l.take ((beforeSeq.map (bisectLeft MemoryIndex.seqKey l)).getD l.length)).drop
          ((afterSeq.map (bisectRight MemoryIndex.seqKey l)).getD 0))
      else sliceFromEnd limit
        ((l.take ((beforeSeq.map (bisectLeft MemoryIndex.seqKey l)).getD l.length)).drop
          ((afterSeq.map (bisectRight MemoryIndex.seqKey l)).getD 0))).map EventRecord.shown =
      page limit beforeSeq afterSeq (l.map EventRecord.shown) := by
  have hmap : (l.filter fun r => afterSeq.all (· < MemoryIndex.seqKey r) ∧
      beforeSeq.all (MemoryIndex.seqKey r < ·)).map EventRecord.shown =
        after afterSeq (before beforeSeq (l.map EventRecord.shown)) := by
    rw [after, before, List.filter_filter]
    refine map_filter_of fun r _ => ?_
    rw [Bool.decide_and, Bool.decide_eq_true, Bool.decide_eq_true]
    rfl
  rw [window_eq h, page]
  cases afterSeq with
  | some x =>
    simp only [isSome_some, if_true]
    rw [first_map, hmap]
  | none =>
    simp only [isSome_none, Bool.false_eq_true, if_false]
    rw [sliceFromEnd_eq hlimit, latest_map, hmap]
    simp [after]

theorem Mirrors.listMessages (h : Mirrors s a) (hn : a.Numbered) {limit : ℕ} (hlimit : 1 ≤ limit)
    {beforeSeq afterSeq : Option ℤ} (hone : beforeSeq = none ∨ afterSeq = none) :
    (s.listMessages t limit beforeSeq afterSeq).map EventRecord.shown =
      page limit beforeSeq afterSeq ((a.ofThread t).filter Shown.isMessage) := by
  have hclimbs : Climbs MemoryIndex.seqKey (s.messages t) :=
    climbs_shown (h.messages_map ▸ (hn.climbs t).filter _)
  rw [← h.messages_map, ← page_window hclimbs hlimit]
  refine congrArg (List.map EventRecord.shown) ?_
  cases beforeSeq with
  | none =>
    cases afterSeq with
    | none => simp [MemoryIndex.listMessages]
    | some x =>
      simp only [MemoryIndex.listMessages, isSome_some, if_true, map_none,
        getD_none, map_some, getD_some, take_length]
      rw [first, take_drop]
  | some y =>
    obtain rfl : afterSeq = none := hone.resolve_left (some_ne_none y)
    simp only [MemoryIndex.listMessages, isSome_none, Bool.false_eq_true, if_false,
      map_none, getD_none, map_some, getD_some, drop_zero]
    rw [sliceFromEnd_eq hlimit, latest, length_take, Nat.min_eq_left]
    exact ( takeWhile_prefix _).length_le

theorem Mirrors.listMessagesByRun (h : Mirrors s a) (hn : a.Numbered) {limit : ℕ}
    (hlimit : 1 ≤ limit) (beforeSeq afterSeq : Option ℤ) :
    (s.listMessagesByRun t run limit beforeSeq afterSeq).map EventRecord.shown =
      page limit beforeSeq afterSeq ((a.ofRun t run).filter Shown.isMessage) := by
  have hclimbs : Climbs MemoryIndex.seqKey (s.messagesByRun t run) :=
    climbs_shown (h.messagesByRun_map ▸ ((hn.climbs t).filter _).filter _)
  rw [← h.messagesByRun_map, ← page_window hclimbs hlimit]
  rfl

theorem Mirrors.listEvents (h : Mirrors s a) (eventTypes : Option (List String))
    (taskId : Option String) (limit : ℕ) (afterSeq : Option ℤ) :
    (s.listEvents t run eventTypes taskId limit afterSeq).map EventRecord.shown =
      first limit (after afterSeq ((a.ofRun t run).filter fun x =>
        eventTypes.all (x.eventType ∈ ·) && taskId.all (ofTask · x.metadata))) := by
  rw [MemoryIndex.listEvents, first_map, after, ← h.eventsByRun_map, List.filter_filter,
    List.filter_filter, List.filter_filter]
  refine congrArg (first limit) (map_filter_of fun r _ => ?_)
  show _ = (afterSeq.all (· < (r.seq : ℤ)) &&
    (eventTypes.all (r.eventType ∈ ·) && taskId.all (ofTask · r.metadata)))
  rw [Bool.and_assoc, Bool.and_comm (taskId.all _)]
  rfl

/-! ### Deleting -/

theorem Mirrors.deleteByThread (h : Mirrors s a) (t : String) :
    (s.deleteByThread t).1 = (a.ofThread t).length ∧
      Mirrors (s.deleteByThread t).2 (a.deleteByThread t) := by
  refine ⟨?_, fun t' => ?_, ?_, fun t' => ?_, fun t' run => ?_, fun t' run => ?_⟩
  · rw [← h.events, length_map]
    rfl
  · rw [EventLog.ofThread_deleteByThread]
    show (update s.store.events t [] t').map _ = _
    by_cases ht : t' = t
    · subst ht
      simp
    · rw [update_of_ne ht, if_neg ht, h.events]
  · show update s.store.seqCounters t 0 = _
    rw [h.counters]
    rfl
  · show update s.messages t [] t' = (update s.store.events t [] t').filter _
    by_cases ht : t' = t
    · subst ht
      simp
    · rw [update_of_ne ht, update_of_ne ht, h.messages]
  · show update s.eventsByRun t (fun _ => []) t' run =
      (update s.store.events t [] t').filter _
    by_cases ht : t' = t
    · subst ht
      simp
    · rw [update_of_ne ht, update_of_ne ht, h.eventsByRun]
  · show update s.messagesByRun t (fun _ => []) t' run =
      (update s.messages t [] t').filter _
    by_cases ht : t' = t
    · subst ht
      simp
    · rw [update_of_ne ht, update_of_ne ht, h.messagesByRun]

theorem filter_remaining {l : List EventRecord} {run' : String} :
    ((l.filter fun r => r.runId ≠ run).filter fun r => r.runId = run') =
      if run' = run then [] else l.filter fun r => r.runId = run' := by
  rw [List.filter_filter]
  split
  · rename_i hrun
    exact List.filter_eq_nil_iff.2 fun r _ => by simp [hrun]
  · rename_i hrun
    refine filter_congr fun r _ => ?_
    by_cases hr : r.runId = run'
    · simp [hr, hrun]
    · simp [hr]

/-- The index forgets the run's events. -/
theorem Mirrors.deleteByRun (h : Mirrors s a) (t run : String) :
    (s.deleteByRun t run).1 = (a.ofRun t run).length ∧
      Mirrors (s.deleteByRun t run).2 (a.deleteByRun t run) := by
  rw [MemoryIndex.deleteByRun]
  split
  · rename_i hnil
    have hthread : a.ofThread t = [] := by rw [← h.events, hnil, map_nil]
    refine ⟨by rw [EventLog.ofRun, hthread]; rfl, fun t' => ?_, h.counters, h.messages,
      h.eventsByRun, h.messagesByRun⟩
    rw [EventLog.ofThread_deleteByRun, h.events]
    split
    · rename_i ht
      rw [ht, hthread]
      rfl
    · rfl
  · rename_i hne
    have hdelete : s.store.deleteByRun t run = ((s.store.events t).length -
        ((s.store.events t).filter fun e => e.runId ≠ run).length,
        ⟨update s.store.events t ((s.store.events t).filter fun e => e.runId ≠ run),
          s.store.seqCounters⟩) := if_neg hne
    rw [hdelete]
    refine ⟨?_, fun t' => ?_, h.counters, fun t' => ?_, fun t' run' => ?_, fun t' run' => ?_⟩
    · show _ - _ = _
      rw [← h.eventsByRun_map, length_map, h.eventsByRun]
      have hsum := length_eq_length_filter_add (l := s.store.events t)
        fun r => decide (r.runId = run)
      have hother : ((s.store.events t).filter fun r => !decide (r.runId = run)) =
          (s.store.events t).filter fun e => e.runId ≠ run :=
        filter_congr fun r _ => (decide_not ..).symm
      rw [hother] at hsum
      omega
    · rw [EventLog.ofThread_deleteByRun]
      show (update s.store.events t _ t').map _ = _
      by_cases ht : t' = t
      · subst ht
        rw [update_self, if_pos rfl, ← h.events]
        exact map_filter_of fun r _ => rfl
      · rw [update_of_ne ht, if_neg ht, h.events]
    · show update s.messages t ((update s.store.events t _ t).filter _) t' =
        (update s.store.events t _ t').filter _
      rw [update_self]
      by_cases ht : t' = t
      · subst ht
        rw [update_self, update_self]
      · rw [update_of_ne ht, update_of_ne ht, h.messages]
    · show update s.eventsByRun t (update (s.eventsByRun t) run []) t' run' =
        (update s.store.events t _ t').filter _
      by_cases ht : t' = t
      · subst ht
        rw [update_self, update_self, filter_remaining, ← h.eventsByRun]
        exact update_apply ..
      · rw [update_of_ne ht, update_of_ne ht, h.eventsByRun]
    · show update s.messagesByRun t (update (s.messagesByRun t) run []) t' run' =
        (update s.messages t ((update s.store.events t _ t).filter _) t').filter _
      by_cases ht : t' = t
      · subst ht
        have hmessages : (((s.store.events t').filter fun e => e.runId ≠ run).filter
            fun e => e.category = "message") = (s.messages t').filter fun e => e.runId ≠ run := by
          rw [h.messages, List.filter_filter, List.filter_filter]
          exact List.filter_congr fun r _ => Bool.and_comm _ _
        rw [Function.update_self, Function.update_self, Function.update_self, hmessages,
          filter_remaining, ← h.messagesByRun]
        exact update_apply ..
      · rw [update_of_ne ht, update_of_ne ht, h.messagesByRun]

/-- **The store in memory answers as the list.** -/
theorem Mirrors.exec {τ : Type} (h : Mirrors s a) (hn : a.Numbered) {call : StoreCall τ}
    (hcall : call.Asks) :
    (s.exec call).1 = (a.exec call).1 ∧ Mirrors (s.exec call).2 (a.exec call).2 := by
  have hanswer : ∀ {rs : List EventRecord} {xs : List Shown}, rs.map EventRecord.shown = xs →
      MemoryIndex.answer rs = .records (xs.map some) := by
    rintro rs xs rfl
    rw [MemoryIndex.answer, List.map_map]
    rfl
  cases call with
  | put now e =>
    obtain ⟨hrecord, hput⟩ := h.putOne now.memory e
    have hlist : [(s.putOne now.memory e).1].map EventRecord.shown = [(a.put e).1] :=
      congrArg (fun x => [x]) hrecord
    exact ⟨hanswer hlist, hput⟩
  | putBatch events =>
    have hmap : events.map Prod.snd = (events.map fun e => (e.1.memory, e.2)).map Prod.snd := by
      rw [List.map_map]
      rfl
    obtain ⟨hrecords, hput⟩ := h.putBatch (events.map fun e => (e.1.memory, e.2))
    rw [← hmap] at hrecords hput
    exact ⟨hanswer hrecords, hput⟩
  | listMessages t limit beforeSeq afterSeq =>
    exact ⟨hanswer (h.listMessages hn hcall.1 hcall.2), h⟩
  | listEvents t run eventTypes taskId limit afterSeq =>
    exact ⟨hanswer (h.listEvents eventTypes taskId limit afterSeq), h⟩
  | listMessagesByRun t run limit beforeSeq afterSeq =>
    exact ⟨hanswer (h.listMessagesByRun hn hcall beforeSeq afterSeq), h⟩
  | countMessages t =>
    refine ⟨congrArg StoreAnswer.count ?_, h⟩
    rw [← h.messages_map, length_map]
  | deleteByThread t =>
    obtain ⟨hcount, hdelete⟩ := h.deleteByThread t
    exact ⟨congrArg StoreAnswer.count hcount, hdelete⟩
  | deleteByRun t run =>
    obtain ⟨hcount, hdelete⟩ := h.deleteByRun t run
    exact ⟨congrArg StoreAnswer.count hcount, hdelete⟩

end AfterFlow.Events
