import AfterFlow.Events.JsonlLog
import AfterFlow.Transition.Numbering
import AfterFlow.Transition.Runs
import Mathlib.Data.List.Dedup

/-!
# Numbers in a thread

Are the numbers of a thread increasing in the order in which they were assigned? The store in memory
counts them, so they are. The database takes one more than the greatest number it still has: where
the run with the greatest number was deleted, that number is assigned again. The files are in
between. A process counts, but a new process starts from what it reads in the files, so what it does
not find there, because it was deleted or is torn by a line end, it assigns again.

## Main results

* `numbers_increase` — the numbers of a thread increase in every run that forgets none
* `number_again` — a number is assigned twice
-/

namespace AfterFlow.Events

open PyStr Transition List Function

/-- A store with all records that were written to it, in the order of writing. -/
structure Ledger (σ ρ : Type) where
  store : σ
  written : List ρ

/-- The number of a record, under its thread. -/
def EventRecord.number (r : EventRecord) : String × ℕ := (r.threadId, r.seq)

def DbRow.number {τ : Type} (r : DbRow τ) : String × ℕ := (r.threadId, r.seq)

/-! ### In memory -/

inductive MemoryCall where
  | put (now : String) (e : EventInput)
  | putBatch (events : List (String × EventInput))
  | deleteByRun (threadId runId : String)

def memoryStep (s : Ledger MemoryStore EventRecord) :
    MemoryCall → Option (Ledger MemoryStore EventRecord)
  | .put now e =>
    let (record, store) := s.store.put now e
    some ⟨store, s.written ++ [record]⟩
  | .putBatch events =>
    let (records, store) := s.store.putBatch events
    some ⟨store, s.written ++ records⟩
  | .deleteByRun threadId runId => some ⟨(s.store.deleteByRun threadId runId).2, s.written⟩

/-- The numbers increase, and no thread has one above its counter. -/
structure MemoryStore.Counts (s : MemoryStore) (written : List EventRecord) : Prop where
  increasing : Increasing (written.map EventRecord.number)
  below : ∀ t, Below (written.map EventRecord.number) t (s.seqCounters t)

variable {w : List EventRecord}

theorem MemoryStore.Counts.putOne {s : MemoryStore} (h : s.Counts w) (now : String)
    (e : EventInput) : (s.putOne now e).2.Counts (w ++ [(s.putOne now e).1]) := by
  have hmap : (w ++ [(s.putOne now e).1]).map EventRecord.number =
      w.map EventRecord.number ++ [(e.threadId, s.seqCounters e.threadId + 1)] := by
    rw [map_append]
    rfl
  refine ⟨?_, fun t => ?_⟩
  · rw [hmap]
    exact h.increasing.give (h.below _) (Nat.lt_succ_self _)
  · rw [hmap]
    show Below _ t (update s.seqCounters e.threadId _ t)
    by_cases ht : t = e.threadId
    · subst ht
      rw [update_self]
      exact (h.below _).give (Nat.le_succ _)
    · rw [update_of_ne ht]
      exact (h.below t).give_of_ne (Ne.symm ht)

theorem MemoryStore.Counts.putBatch {s : MemoryStore} (h : s.Counts w)
    (events : List (String × EventInput)) :
    (s.putBatch events).2.Counts (w ++ (s.putBatch events).1) := by
  induction events generalizing s w with
  | nil => simpa [MemoryStore.putBatch] using h
  | cons e events ih =>
    have htail := ih (h.putOne e.1 e.2)
    rw [append_assoc] at htail
    exact htail

theorem MemoryStore.Counts.deleteByRun {s : MemoryStore} (h : s.Counts w) (t run : String) :
    (s.deleteByRun t run).2.Counts w := by
  have hcounters : (s.deleteByRun t run).2.seqCounters = s.seqCounters := by
    simp only [MemoryStore.deleteByRun]
    split <;> rfl
  refine ⟨h.increasing, fun t' => ?_⟩
  rw [hcounters]
  exact h.below t'

theorem memory_counts {s : Ledger MemoryStore EventRecord}
    (h : Runs memoryStep (fun _ _ => True) ⟨.empty, []⟩ s) : s.store.Counts s.written := by
  refine h.invariant (I := fun s => s.store.Counts s.written)
    ⟨.nil, fun t p hp => absurd hp not_mem_nil⟩ ?_
  rintro s l s' hs - hstep
  rcases l with ⟨now, e⟩ | ⟨events⟩ | ⟨t, run⟩ <;> cases hstep
  · exact hs.putOne now e
  · exact hs.putBatch events
  · exact hs.deleteByRun t run

/-! ### In the database -/

section Db

variable {τ : Type}

/-- The operations; a new process changes nothing. -/
inductive DbCall (τ : Type) where
  | put (userId : Option String) (now : τ) (e : EventInput)
  | putBatch (userId : Option String) (events : List (τ × DbEvent))
  | deleteByRun (threadId runId : String) (userId : Option String)
  | restart

@[grind =] def dbStep (fromisoformat : String → Option τ) (s : Ledger (DbStore τ) (DbRow τ)) :
    DbCall τ → Option (Ledger (DbStore τ) (DbRow τ))
  | .put userId now e =>
    match s.store.put fromisoformat userId now e with
    | (.ok row, store) => some ⟨store, s.written ++ [row]⟩
    | (.error _, store) => some ⟨store, s.written⟩
  | .putBatch userId events =>
    match s.store.putBatch fromisoformat userId events with
    | (.ok rows, store) => some ⟨store, s.written ++ rows⟩
    | (.error _, store) => some ⟨store, s.written⟩
  | .deleteByRun threadId runId userId =>
    some ⟨(s.store.deleteByRun threadId runId userId).2, s.written⟩
  | .restart => some s

/-- A deletion leaves, for every row it deletes, a row of the thread with a number as great. -/
def LeavesGreatest (s : Ledger (DbStore τ) (DbRow τ)) : DbCall τ → Prop
  | .deleteByRun threadId runId userId =>
    ∀ r ∈ s.store.rows, DbStore.isDeleted threadId runId userId r = true →
      ∃ r' ∈ s.store.rows, DbStore.isDeleted threadId runId userId r' = false ∧
        r'.threadId = threadId ∧ r.seq ≤ r'.seq
  | _ => True

instance (s : Ledger (DbStore τ) (DbRow τ)) (l : DbCall τ) : Decidable (LeavesGreatest s l) := by
  cases l <;> unfold LeavesGreatest <;> infer_instance

/-- The numbers increase, and no thread has one above those of its rows. -/
structure DbStore.Covers (rows written : List (DbRow τ)) : Prop where
  increasing : Increasing (written.map DbRow.number)
  reaches : ∀ t, Reaches (rows.map DbRow.number) (written.map DbRow.number) t

variable {rows written : List (DbRow τ)} {s : DbStore τ} {t : String}

theorem DbStore.maxSeq_below (s : DbStore τ) (t : String) :
    Below (s.rows.map DbRow.number) t ((s.maxSeqForThread t).getD 0) := by
  intro p hp hkey
  obtain ⟨r, hr, rfl⟩ := mem_map.1 hp
  have hmem : r.seq ∈ (s.rows.filter fun r => r.threadId = t).map DbRow.seq :=
    mem_map_of_mem (mem_filter.2 ⟨hr, decide_eq_true hkey⟩)
  cases hmax : s.maxSeqForThread t with
  | none =>
    rw [DbStore.maxSeqForThread, max?_eq_none_iff] at hmax
    rw [hmax] at hmem
    cases hmem
  | some m =>
    rw [DbStore.maxSeqForThread] at hmax
    exact (max?_eq_some_iff.1 hmax).2 _ hmem

theorem DbStore.Covers.write (h : Covers rows written) {n : ℕ} {r : DbRow τ}
    (hbelow : Below (written.map DbRow.number) r.threadId n) (hn : n < r.seq) :
    Covers (rows ++ [r]) (written ++ [r]) := by
  refine ⟨?_, fun t => ?_⟩
  · rw [map_append]
    exact h.increasing.give hbelow hn
  · rw [map_append, map_append]
    exact (h.reaches t).give

theorem newRow_number {fromisoformat : String → Option τ} {userId : Option String} {now : τ}
    {seq : ℕ} {e : EventInput} {r : DbRow τ}
    (h : s.newRow fromisoformat userId now seq e = .ok r) : r.number = (e.threadId, seq) := by
  simp only [DbStore.newRow, bind, Except.bind] at h
  split at h
  · cases h
  · cases h
    rfl

/-- The rows of a batch on one thread are written. -/
theorem DbStore.Covers.writeBatch (h : Covers rows written) {fromisoformat : String → Option τ}
    {userId : Option String} {n : ℕ} {events : List (τ × DbEvent)} {new : List (DbRow τ)}
    (hthread : ∀ e ∈ events, e.2.threadId = t)
    (hbelow : Below (written.map DbRow.number) t n)
    (hnew : s.batchRows fromisoformat userId n events = .ok new) :
    Covers (rows ++ new) (written ++ new) := by
  induction events generalizing n rows written new with
  | nil =>
    cases hnew
    simpa using h
  | cons e events ih =>
    simp only [DbStore.batchRows, bind, Except.bind] at hnew
    cases hrow : s.newRow fromisoformat (e.2.userId.getD userId) e.1 (n + 1) e.2.input with
    | error error =>
      rw [hrow] at hnew
      cases hnew
    | ok row =>
      rw [hrow] at hnew
      cases hrest : s.batchRows fromisoformat userId (n + 1) events with
      | error error =>
        rw [hrest] at hnew
        cases hnew
      | ok rest =>
        rw [hrest] at hnew
        cases hnew
        have hnumber : row.number = (t, n + 1) := by
          rw [newRow_number hrow]
          exact congrArg (·, n + 1) (hthread e mem_cons_self)
        have hseq : row.threadId = t ∧ row.seq = n + 1 := Prod.mk.inj hnumber
        have hwrite : Covers (rows ++ [row]) (written ++ [row]) :=
          h.write (by rwa [hseq.1]) (by omega)
        have hbelow' : Below ((written ++ [row]).map DbRow.number) t (n + 1) := by
          rw [map_append, map_singleton, hnumber]
          exact hbelow.give (Nat.le_succ n)
        have := ih hwrite (fun e he => hthread e (mem_cons_of_mem _ he)) hbelow' hrest
        rwa [append_assoc, append_assoc] at this

theorem mem_eq_of_dedup_length_le {l : List String} {a : String} (h : ¬1 < (a :: l).dedup.length) :
    ∀ b ∈ a :: l, b = a := by
  intro b hb
  have ha := mem_dedup.2 (mem_cons_self (a := a) (l := l))
  obtain ⟨c, hc⟩ := length_eq_one_iff.1
    (Nat.le_antisymm (Nat.not_lt.1 h) (length_pos_of_mem ha))
  have hb := mem_dedup.2 hb
  rw [hc] at ha hb
  exact (mem_singleton.1 hb).trans (mem_singleton.1 ha).symm

/-- The rows cover all that was written. -/
theorem db_covers {fromisoformat : String → Option τ} {maxTraceContent : ℕ}
    {s : Ledger (DbStore τ) (DbRow τ)}
    (h : Runs (dbStep fromisoformat) LeavesGreatest ⟨⟨maxTraceContent, []⟩, []⟩ s) :
    DbStore.Covers s.store.rows s.written := by
  have hinit : DbStore.Covers ([] : List (DbRow τ)) [] :=
    ⟨.nil, fun t p hp => absurd hp not_mem_nil⟩
  refine h.invariant (I := fun s => DbStore.Covers s.store.rows s.written) hinit ?_
  intro s l s' hs hC hstep
  cases l with
  | put userId now e =>
    simp only [dbStep, DbStore.put] at hstep
    cases hrow : s.store.newRow fromisoformat userId now
        ((s.store.maxSeqForThread e.threadId).getD 0 + 1) e with
    | error error =>
      rw [hrow] at hstep
      cases hstep
      exact hs
    | ok row =>
      rw [hrow] at hstep
      cases hstep
      obtain ⟨hthread, hseq⟩ := Prod.mk.inj (newRow_number hrow)
      exact hs.write (by
        rw [hthread]
        exact (hs.reaches _).below (s.store.maxSeq_below _)) (by omega)
  | putBatch userId events =>
    cases events with
    | nil =>
      cases hstep
      simpa using hs
    | cons first events =>
      simp only [dbStep, DbStore.putBatch] at hstep
      by_cases hone : 1 < ((first :: events).map fun e => e.2.threadId).dedup.length
      · rw [if_pos hone] at hstep
        cases hstep
        exact hs
      · rw [if_neg hone] at hstep
        cases hrows : s.store.batchRows fromisoformat userId
            ((s.store.maxSeqForThread first.2.threadId).getD 0) (first :: events) with
        | error error =>
          rw [hrows] at hstep
          cases hstep
          exact hs
        | ok rows =>
          rw [hrows] at hstep
          cases hstep
          refine hs.writeBatch (t := first.2.threadId) (fun e he => ?_)
            ((hs.reaches _).below (s.store.maxSeq_below _)) hrows
          exact mem_eq_of_dedup_length_le hone _
            (mem_map_of_mem (f := fun e => e.2.threadId) he)
  | deleteByRun threadId runId userId =>
    cases hstep
    refine ⟨hs.increasing, fun t => (hs.reaches t).drop fun p hp hkey => ?_⟩
    obtain ⟨r, hr, rfl⟩ := mem_map.1 hp
    have hkept : ∀ {r : DbRow τ}, r ∈ s.store.rows →
        DbStore.isDeleted threadId runId userId r = false →
        r ∈ (s.store.deleteByRun threadId runId userId).2.rows := fun hr hdel =>
      mem_filter.2 ⟨hr, by rw [hdel]; rfl⟩
    cases hdel : DbStore.isDeleted threadId runId userId r with
    | false => exact ⟨_, mem_map_of_mem (hkept hr hdel), hkey, Nat.le_refl _⟩
    | true =>
      obtain ⟨r', hr', hdel', hthread, hle⟩ := hC r hr hdel
      have hrt : r.threadId = threadId := by
        rw [DbStore.isDeleted, decide_eq_true_eq] at hdel
        exact hdel.1
      exact ⟨r'.number, mem_map_of_mem (hkept hr' hdel'),
        (hthread.trans hrt.symm).trans hkey, hle⟩
  | restart =>
    cases hstep
    exact hs

end Db

/-! ### In the files -/

section Jsonl

variable {loads : String → Option Value} {s : JsonlStore} {r : EventRecord}
  {kept : List EventRecord} {t run : String}

/-- The text of a whole record is a line of its file, whatever else is in the file. -/
theorem mem_splitlines_fileText {x : EventRecord} {rs : List EventRecord} (hr : r ∈ rs ++ [x])
    (hwhole : r.value.Whole) :
    r.value.chars ∈ splitlines (fileText rs ++ x.value.chars) := by
  have hno : ∀ c ∈ r.value.chars, isLineEnd c = false :=
    fun c hc => Bool.eq_false_iff.2 fun hend => hwhole.fine.lineEnd c hc hend
  induction rs with
  | nil =>
    obtain rfl := mem_singleton.1 hr
    obtain ⟨body, hbody⟩ := value_chars r
    have hline := splitlines_single hno (by rw [hbody]; exact cons_ne_nil _ _)
    show _ ∈ splitlines r.value.chars
    rw [hline]
    exact mem_singleton_self _
  | cons y rs ih =>
    rw [fileText_cons, append_assoc, cons_append, splitlines_append_newline]
    rcases mem_cons.1 hr with rfl | hr
    · rw [splitlines_append hno]
      exact mem_append_left _ mem_cons_self
    · exact mem_append_right _ (ih hr)

theorem mem_fileLines {rs : List EventRecord} (hr : r ∈ rs) (hwhole : r.value.Whole) :
    r.value.dumps ∈ fileLines (String.ofList (fileText rs)) := by
  rcases eq_nil_or_concat rs with rfl | ⟨rs, x, rfl⟩
  · cases hr
  · rw [concat_eq_append] at hr ⊢
    rw [fileLines_concat]
    exact mem_map_of_mem (mem_splitlines_fileText hr hwhole)

theorem le_foldlM_max {l : List Value} {m n : ℤ}
    (h : l.foldlM (fun maxSeq record => (seqOf record).map (max maxSeq)) m = .ok n) :
    m ≤ n ∧ ∀ v ∈ l, ∀ k, seqOf v = .ok k → k ≤ n := by
  induction l generalizing m with
  | nil =>
    cases h
    exact ⟨le_rfl, by simp⟩
  | cons v l ih =>
    rw [foldlM_cons] at h
    cases hv : seqOf v with
    | error e =>
      rw [hv] at h
      cases h
    | ok k =>
      rw [hv] at h
      obtain ⟨hle, hmem⟩ := ih h
      refine ⟨(le_max_left ..).trans hle, fun x hx j hj => ?_⟩
      rcases mem_cons.1 hx with rfl | hx
      · obtain rfl : k = j := by simpa [hv] using hj
        exact (le_max_right ..).trans hle
      · exact hmem x hx j hj

/-- A whole record of the files is found in them. -/
theorem Filed.le_loadSeq (h : Filed s kept) (hround : RoundTrips loads r) (hr : r ∈ kept)
    (hwhole : r.value.Whole) (hcounter : s.seqCounters r.threadId = none) {n : ℕ}
    (hload : s.loadSeq loads r.threadId = .ok n) : r.seq ≤ n := by
  rw [JsonlStore.loadSeq, hcounter] at hload
  cases hmax : s.computeMaxSeq loads r.threadId with
  | error e =>
    rw [hmax] at hload
    cases hload
  | ok m =>
    rw [hmax] at hload
    obtain rfl : m.toNat = n := Except.ok.inj hload
    have ht : isSafeId r.threadId = true := by
      by_contra hunsafe
      rw [JsonlStore.computeMaxSeq, validateId, if_neg hunsafe] at hmax
      cases hmax
    rw [computeMaxSeq_eq ht] at hmax
    have hfile : (s.files r.threadId).lookup r.runId =
        some (String.ofList (fileText (ofRun kept r.threadId r.runId))) := by
      rw [h.lookup, if_neg (ne_nil_of_mem (mem_ofRun.2 ⟨hr, rfl, rfl⟩))]
    have hread : r.value ∈ (s.files r.threadId).flatMap fun f =>
        (fileLines f.2).filterMap loads := by
      obtain ⟨before, after, hfiles, -⟩ := lookup_eq_some_iff.1 hfile
      refine mem_flatMap.2 ⟨_, hfiles ▸ mem_append_right _ mem_cons_self, ?_⟩
      exact mem_filterMap.2 ⟨_, mem_fileLines (mem_ofRun.2 ⟨hr, rfl, rfl⟩) hwhole, hround⟩
    have := (le_foldlM_max hmax).2 _ hread _ (seqOf_value r)
    omega

theorem deleteByRun_spec (loads : String → Option Value) (s : JsonlStore) (t run : String) :
    ((∃ error, s.deleteByRun loads t run = (.error error, s)) ∨
      ∃ n, s.deleteByRun loads t run = (.ok n, ⟨s.seqCounters, update s.files t
        ((s.files t).filter fun f => f.1 ≠ run)⟩)) := by
  cases hread : s.readRunEvents loads t run with
  | error error => exact .inl ⟨error, by simp only [JsonlStore.deleteByRun, hread]⟩
  | ok events => exact .inr ⟨events.length, by simp only [JsonlStore.deleteByRun, hread]⟩

/-- The records of a run whose file is deleted are gone. -/
theorem Filed.delete (h : Filed s kept) (t run : String) :
    Filed ⟨s.seqCounters, update s.files t ((s.files t).filter fun f => f.1 ≠ run)⟩
      (kept.filter fun r => ¬(r.threadId = t ∧ r.runId = run)) := by
  have hofRun : ∀ t' run', ofRun (kept.filter fun r => ¬(r.threadId = t ∧ r.runId = run)) t' run' =
      if t' = t ∧ run' = run then [] else ofRun kept t' run' := by
    intro t' run'
    rw [ofRun, filter_filter]
    split
    · rename_i heq
      obtain ⟨rfl, rfl⟩ := heq
      refine filter_eq_nil_iff.2 fun r _ => ?_
      simp
    · rename_i hne
      refine filter_congr fun r _ => ?_
      by_cases hr : r.threadId = t' ∧ r.runId = run'
      · obtain ⟨rfl, rfl⟩ := hr
        simp only [not_and] at hne
        simpa [not_and_or, Decidable.imp_iff_not_or] using hne
      · simp [hr]
  refine ⟨fun t' => ?_, h.increasing.filter _⟩
  obtain ⟨runs, hnodup, hmem, hfiles⟩ := h.dir t'
  by_cases ht : t' = t
  · subst ht
    refine ⟨runs.filter fun x => x ≠ run, hnodup.filter _, fun run' => ?_, ?_⟩
    · rw [hofRun, mem_filter, hmem]
      by_cases hrun : run' = run
      · simp [hrun]
      · simp [hrun]
    · show update s.files t' _ t' = _
      rw [update_self, hfiles, filter_map]
      refine map_congr_left fun run' hrun' => ?_
      have hne : run' ≠ run := of_decide_eq_true (mem_filter.1 hrun').2
      rw [hofRun, if_neg fun h => hne h.2]
  · refine ⟨runs, hnodup, fun run' => ?_, ?_⟩
    · rw [hofRun, if_neg fun h => ht h.1, hmem]
    · show update s.files t _ t' = _
      rw [update_of_ne ht, hfiles]
      refine map_congr_left fun run' _ => ?_
      rw [hofRun, if_neg fun h => ht h.1]

/-- The operations; a restart is a new process over the same files. -/
inductive JsonlCall where
  | put (now : String) (e : EventInput)
  | putBatch (events : List (String × EventInput))
  | deleteByRun (threadId runId : String)
  | restart

/-- A store with its ledger, and the records that were not deleted. -/
structure JsonlLedger extends Ledger JsonlStore EventRecord where
  kept : List EventRecord

namespace JsonlLedger

variable (loads : String → Option Value)

def put (s : JsonlLedger) (now : String) (e : EventInput) : Bool × JsonlLedger :=
  match s.store.put loads now e with
  | (.ok record, store) => (true, ⟨⟨store, s.written ++ [record]⟩, s.kept ++ [record]⟩)
  | (.error _, store) => (false, ⟨⟨store, s.written⟩, s.kept⟩)

/-- `put_batch`: one `put` after the other, until one raises. -/
@[grind =] def putBatch (s : JsonlLedger) : List (String × EventInput) → JsonlLedger
  | [] => s
  | (now, e) :: events =>
    match s.put loads now e with
    | (true, s) => s.putBatch events
    | (false, s) => s

def deleteByRun (s : JsonlLedger) (threadId runId : String) : JsonlLedger :=
  match s.store.deleteByRun loads threadId runId with
  | (.ok _, store) =>
    ⟨⟨store, s.written⟩, s.kept.filter fun r => ¬(r.threadId = threadId ∧ r.runId = runId)⟩
  | (.error _, store) => ⟨⟨store, s.written⟩, s.kept⟩

end JsonlLedger

@[grind =] def jsonlStep (loads : String → Option Value) (s : JsonlLedger) : JsonlCall → Option JsonlLedger
  | .put now e => some (s.put loads now e).2
  | .putBatch events => some (s.putBatch loads events)
  | .deleteByRun threadId runId => some (s.deleteByRun loads threadId runId)
  | .restart => some ⟨⟨s.store.restart, s.written⟩, s.kept⟩

/-- If the process has no counter for the thread, the files still have a record of the thread whose
number is as great as any, and none of its strings has a line end that is not escaped. -/
def FindsGreatest (s : JsonlLedger) (t : String) : Prop :=
  s.store.seqCounters t = none →
    ∀ x ∈ s.written, x.threadId = t →
      ∃ r ∈ s.kept, r.value.Whole ∧ r.threadId = t ∧ x.seq ≤ r.seq

/-- The threads written to are found. -/
def Finds (s : JsonlLedger) : JsonlCall → Prop
  | .put _ e => FindsGreatest s e.threadId
  | .putBatch events => ∀ e ∈ events, FindsGreatest s e.2.threadId
  | _ => True

/-- The files hold the records kept, the numbers increase, and no thread has one above its
counter. -/
structure JsonlLedger.Counts (s : JsonlLedger) : Prop where
  filed : Filed s.store s.kept
  subset : ∀ r ∈ s.kept, r ∈ s.written
  increasing : Increasing (s.written.map EventRecord.number)
  below : ∀ t n, s.store.seqCounters t = some n → Below (s.written.map EventRecord.number) t n

theorem JsonlLedger.Counts.load {s : JsonlLedger} (h : s.Counts)
    (hround : ∀ r ∈ s.written, RoundTrips loads r) {n : ℕ} (hfinds : FindsGreatest s t)
    (hload : s.store.loadSeq loads t = .ok n) : Below (s.written.map EventRecord.number) t n := by
  cases hcounter : s.store.seqCounters t with
  | some c =>
    rw [JsonlStore.loadSeq, hcounter] at hload
    cases hload
    exact h.below t n hcounter
  | none =>
    intro p hp hkey
    obtain ⟨x, hx, rfl⟩ := mem_map.1 hp
    obtain ⟨r, hr, hwhole, rfl, hle⟩ := hfinds hcounter x hx hkey
    exact hle.trans (h.filed.le_loadSeq (hround r (h.subset r hr)) hr hwhole hcounter hload)

theorem JsonlLedger.Counts.take {s : JsonlLedger} (h : s.Counts) {n : ℕ}
    (hbelow : Below (s.written.map EventRecord.number) t n) :
    JsonlLedger.Counts ⟨⟨s.store.take t (n + 1), s.written⟩, s.kept⟩ := by
  refine ⟨⟨h.filed.dir, h.filed.increasing⟩, h.subset, h.increasing, fun t' m hm => ?_⟩
  have hm : update s.store.seqCounters t (some (n + 1)) t' = some m := hm
  by_cases ht : t' = t
  · subst ht
    rw [update_self] at hm
    cases hm
    exact hbelow.mono (Nat.le_succ n)
  · rw [update_of_ne ht] at hm
    exact h.below t' m hm

theorem JsonlLedger.Counts.write {s : JsonlLedger} (h : s.Counts) {n : ℕ}
    (hcounter : s.store.seqCounters r.threadId = some r.seq) (hn : n < r.seq)
    (hbelow : Below (s.written.map EventRecord.number) r.threadId n) :
    JsonlLedger.Counts ⟨⟨s.store.appendFile r.threadId r.runId (r.value.dumps ++ "\n"),
      s.written ++ [r]⟩, s.kept ++ [r]⟩ := by
  have hmap : (s.written ++ [r]).map EventRecord.number =
      s.written.map EventRecord.number ++ [(r.threadId, r.seq)] := by
    rw [map_append]
    rfl
  refine ⟨h.filed.append fun x hx => ?_, fun x hx => ?_, ?_, fun t m hm => ?_⟩
  · obtain ⟨hx, hthread⟩ := mem_ofThread.1 hx
    exact (hbelow x.number (mem_map_of_mem (h.subset x hx)) hthread).trans_lt hn
  · rcases mem_append.1 hx with hx | hx
    · exact mem_append_left _ (h.subset x hx)
    · exact mem_append_right _ hx
  · rw [hmap]
    exact h.increasing.give hbelow hn
  · rw [hmap]
    have hm : s.store.seqCounters t = some m := hm
    by_cases ht : t = r.threadId
    · subst ht
      obtain rfl : r.seq = m := Option.some.inj (hcounter.symm.trans hm)
      exact hbelow.give hn.le
    · exact (h.below t m hm).give_of_ne (Ne.symm ht)

/-- What `put` does to a ledger: nothing, or the next number of the thread is taken, and the record
may be written. -/
theorem JsonlLedger.put_spec (loads : String → Option Value) (s : JsonlLedger) (now : String)
    (e : EventInput) :
    (s.put loads now e).2 = s ∨
      ∃ n, s.store.loadSeq loads e.threadId = .ok n ∧
        ((s.put loads now e).2 = ⟨⟨s.store.take e.threadId (n + 1), s.written⟩, s.kept⟩ ∨
          (s.put loads now e).2 = ⟨⟨(s.store.take e.threadId (n + 1)).appendFile e.threadId e.runId
            ((e.record now (n + 1)).value.dumps ++ "\n"), s.written ++ [e.record now (n + 1)]⟩,
            s.kept ++ [e.record now (n + 1)]⟩) := by
  cases hput : s.store.put loads now e with
  | mk result store =>
    obtain ⟨error, rfl, rfl⟩ | ⟨n, hn, ⟨error, rfl, rfl⟩ | ⟨-, -, rfl, rfl⟩⟩ :=
      Events.put_spec hput
    · exact .inl (by simp only [JsonlLedger.put, hput])
    · exact .inr ⟨n, hn, .inl (by simp only [JsonlLedger.put, hput])⟩
    · exact .inr ⟨n, hn, .inr (by simp only [JsonlLedger.put, hput])⟩

theorem JsonlLedger.written_put (loads : String → Option Value) (s : JsonlLedger) (now : String)
    (e : EventInput) :
    ∀ r ∈ s.written, r ∈ (s.put loads now e).2.written := by
  intro r hr
  obtain hs | ⟨n, -, hs | hs⟩ := s.put_spec loads now e
  · rwa [hs]
  · rwa [hs]
  · rw [hs]
    exact mem_append_left _ hr

theorem JsonlLedger.Counts.put {s : JsonlLedger} (h : s.Counts) {now : String} {e : EventInput}
    (hround : ∀ r ∈ (s.put loads now e).2.written, RoundTrips loads r)
    (hfinds : FindsGreatest s e.threadId) : (s.put loads now e).2.Counts := by
  have hload := fun n =>
    h.load (n := n) (fun r hr => hround r (s.written_put loads now e r hr)) hfinds
  obtain hs | ⟨n, hn, hs | hs⟩ := s.put_spec loads now e
  · rwa [hs]
  · rw [hs]
    exact h.take (hload n hn)
  · rw [hs]
    exact (h.take (hload n hn)).write (r := e.record now (n + 1)) (update_self ..)
      (Nat.lt_succ_self n) (hload n hn)

theorem FindsGreatest.put {s : JsonlLedger} (h : FindsGreatest s t) (now : String)
    (e : EventInput) : FindsGreatest (s.put loads now e).2 t := by
  have hne : ∀ {n : ℕ}, (s.store.take e.threadId (n + 1)).seqCounters t = none →
      t ≠ e.threadId ∧ s.store.seqCounters t = none := by
    intro n hnone
    have hnone : update s.store.seqCounters e.threadId (some (n + 1)) t = none := hnone
    by_cases ht : t = e.threadId
    · subst ht
      rw [update_self] at hnone
      cases hnone
    · rw [update_of_ne ht] at hnone
      exact ⟨ht, hnone⟩
  obtain hs | ⟨n, -, hs | hs⟩ := s.put_spec loads now e
  · rwa [hs]
  · rw [hs]
    exact fun hnone => h (hne hnone).2
  · rw [hs]
    intro hnone x hx hxt
    obtain ⟨ht, hnone⟩ := hne hnone
    rcases mem_append.1 hx with hx | hx
    · obtain ⟨r, hr, hfound⟩ := h hnone x hx hxt
      exact ⟨r, mem_append_left _ hr, hfound⟩
    · rw [mem_singleton.1 hx] at hxt
      exact absurd hxt.symm ht

theorem JsonlLedger.putBatch_cons (loads : String → Option Value) (s : JsonlLedger) (now : String)
    (e : EventInput) (events : List (String × EventInput)) :
    s.putBatch loads ((now, e) :: events) = (s.put loads now e).2 ∨
      s.putBatch loads ((now, e) :: events) = (s.put loads now e).2.putBatch loads events := by
  rw [JsonlLedger.putBatch]
  split
  · rename_i hput
    exact .inr (by rw [hput])
  · rename_i hput
    exact .inl (by rw [hput])

theorem JsonlLedger.written_putBatch (loads : String → Option Value) (s : JsonlLedger)
    (events : List (String × EventInput)) :
    ∀ r ∈ s.written, r ∈ (s.putBatch loads events).written := by
  induction events generalizing s with
  | nil => exact fun r hr => hr
  | cons e events ih =>
    intro r hr
    have hput := s.written_put loads e.1 e.2 r hr
    obtain hs | hs := s.putBatch_cons loads e.1 e.2 events
    · rwa [hs]
    · rw [hs]
      exact ih _ r hput

theorem JsonlLedger.Counts.putBatch {s : JsonlLedger} (h : s.Counts)
    {events : List (String × EventInput)}
    (hround : ∀ r ∈ (s.putBatch loads events).written, RoundTrips loads r)
    (hfinds : ∀ e ∈ events, FindsGreatest s e.2.threadId) : (s.putBatch loads events).Counts := by
  induction events generalizing s with
  | nil => exact h
  | cons e events ih =>
    have hput : (∀ r ∈ (s.put loads e.1 e.2).2.written, RoundTrips loads r) →
        (s.put loads e.1 e.2).2.Counts := fun hround =>
      h.put hround (hfinds e mem_cons_self)
    obtain hs | hs := s.putBatch_cons loads e.1 e.2 events
    · rw [hs] at hround ⊢
      exact hput hround
    · rw [hs] at hround ⊢
      refine ih (hput fun r hr => hround r (written_putBatch loads _ events r hr)) hround
        fun e' he' => ?_
      exact (hfinds e' (mem_cons_of_mem _ he')).put e.1 e.2

theorem JsonlLedger.Counts.deleteByRun {s : JsonlLedger} (h : s.Counts) (t run : String) :
    (s.deleteByRun loads t run).Counts := by
  obtain ⟨error, hdel⟩ | ⟨n, hdel⟩ := deleteByRun_spec loads s.store t run
  · simp only [JsonlLedger.deleteByRun, hdel]
    exact h
  · simp only [JsonlLedger.deleteByRun, hdel]
    exact ⟨h.filed.delete t run, fun r hr => h.subset r (mem_filter.1 hr).1, h.increasing,
      h.below⟩

theorem jsonl_counts {s : JsonlLedger}
    (h : Runs (jsonlStep loads) Finds ⟨⟨.empty, []⟩, []⟩ s)
    (hround : ∀ r ∈ s.written, RoundTrips loads r) : s.Counts := by
  have hinit : JsonlLedger.Counts ⟨⟨.empty, []⟩, []⟩ :=
    ⟨.empty, fun r hr => hr, .nil, fun t n hn => by cases hn⟩
  refine h.invariant (I := fun s => (∀ r ∈ s.written, RoundTrips loads r) → s.Counts)
    (fun _ => hinit) ?_ hround
  intro s l s' hs hC hstep hround
  cases l with
  | put now e =>
    cases hstep
    exact (hs fun r hr => hround r (s.written_put loads now e r hr)).put hround hC
  | putBatch events =>
    cases hstep
    exact (hs fun r hr => hround r (s.written_putBatch loads events r hr)).putBatch hround hC
  | deleteByRun t run =>
    cases hstep
    have hwritten : (s.deleteByRun loads t run).written = s.written := by
      rw [JsonlLedger.deleteByRun]
      split <;> rfl
    rw [hwritten] at hround
    exact (hs hround).deleteByRun t run
  | restart =>
    cases hstep
    obtain ⟨hfiled, hsubset, hincreasing, -⟩ := hs hround
    exact ⟨⟨hfiled.dir, hfiled.increasing⟩, hsubset, hincreasing, fun t n hn => by cases hn⟩

end Jsonl

/-! ### The three stores -/

/-- **Numbers increase.** In memory, the numbers of each thread always increase in the order in
which they are assigned; in the database, if no deletion takes the greatest number of a thread; in
the files, if a process that has no counter for a thread finds the greatest number in them. -/
theorem numbers_increase {τ : Type} (fromisoformat : String → Option τ) (maxTraceContent : ℕ)
    (loads : String → Option Value) :
    (∀ s, Runs memoryStep (fun _ _ => True) ⟨.empty, []⟩ s →
        Increasing (s.written.map EventRecord.number)) ∧
      (∀ s, Runs (dbStep fromisoformat) LeavesGreatest ⟨⟨maxTraceContent, []⟩, []⟩ s →
        Increasing (s.written.map DbRow.number)) ∧
      ∀ s, Runs (jsonlStep loads) Finds ⟨⟨.empty, []⟩, []⟩ s →
        (∀ r ∈ s.written, RoundTrips loads r) → Increasing (s.written.map EventRecord.number) :=
  ⟨fun _ h => (memory_counts h).increasing, fun _ h => (db_covers h).increasing,
    fun _ h hround => (jsonl_counts h hround).increasing⟩

/-- A message of a run of thread `thread-1`. -/
def runInput (runId : String) : EventInput :=
  ⟨"thread-1", runId, "llm.ai.response", "message", .str "hello", [], none⟩

def runRow (runId : String) (seq : ℕ) : DbRow Unit :=
  ⟨"thread-1", runId, none, "llm.ai.response", "message", "hello", [], seq, ()⟩

/-- Messages of two runs, the deletion of a run, and a message of a third. -/
def deletionCalls (runId : String) : List (DbCall Unit) :=
  [.put none () (runInput "run-1"), .put none () (runInput "run-2"),
    .deleteByRun "thread-1" runId none, .put none () (runInput "run-3")]

/-- The first run may be deleted; and a process that starts after a message finds its number. -/
theorem numbers_increase_demo :
    Increasing ([runRow "run-1" 1, runRow "run-2" 2, runRow "run-3" 3].map DbRow.number) ∧
      Increasing ([messageRecord "hello"].map EventRecord.number) := by
  have hcalls : runWith (dbStep fun _ => none) LeavesGreatest ⟨⟨10240, []⟩, []⟩
      (deletionCalls "run-1") = some ⟨⟨10240, [runRow "run-2" 2, runRow "run-3" 3]⟩,
        [runRow "run-1" 1, runRow "run-2" 2, runRow "run-3" 3]⟩ := rfl
  have hput : jsonlStep (loadsOnly (messageRecord "hello")) ⟨⟨.empty, []⟩, []⟩
      (.put "2026-01-01" (messageInput "hello")) =
        some ⟨⟨messageStore "hello", [messageRecord "hello"]⟩, [messageRecord "hello"]⟩ := by
    simp only [jsonlStep, JsonlLedger.put, put_messageInput, nil_append]
  have hjsonl : Runs (jsonlStep (loadsOnly (messageRecord "hello"))) Finds ⟨⟨.empty, []⟩, []⟩
      ⟨⟨(messageStore "hello").restart, [messageRecord "hello"]⟩, [messageRecord "hello"]⟩ :=
    (Runs.refl.tail (fun _ x hx => absurd hx not_mem_nil) hput).tail
      (C := Finds) (l := .restart) trivial rfl
  obtain ⟨-, hrows, hrecords⟩ :=
    numbers_increase (fun _ => none) 10240 (loadsOnly (messageRecord "hello"))
  exact ⟨hrows _ (runs_of_runWith hcalls),
    hrecords _ hjsonl (by simp [RoundTrips, loadsOnly])⟩

/-- The run with the greatest number is deleted, and the number is assigned again. -/
theorem number_again : ∃ s : Ledger (DbStore Unit) (DbRow Unit),
    Runs (dbStep fun _ => none) (fun _ _ => True) ⟨⟨10240, []⟩, []⟩ s ∧
      ¬Increasing (s.written.map DbRow.number) := by
  have hcalls : runWith (dbStep fun _ => none) (fun _ _ => True) ⟨⟨10240, []⟩, []⟩
      (deletionCalls "run-2") = some ⟨⟨10240, [runRow "run-1" 1, runRow "run-3" 2]⟩,
        [runRow "run-1" 1, runRow "run-2" 2, runRow "run-3" 2]⟩ := rfl
  refine ⟨_, runs_of_runWith hcalls, ?_⟩
  rw [Increasing]
  decide

end AfterFlow.Events
