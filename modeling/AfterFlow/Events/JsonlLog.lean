import AfterFlow.Events.Stores

/-!
# What is read back from the JSONL files

A file is read by lines, and `str.splitlines` ends lines at three characters that `json.dumps`
leaves in strings as they are. A record with such a character is torn into pieces when it is read.
No piece decodes to the record, for no piece has the character in it; so the record is lost, and its
number may be too. Without such characters every line is the text of a record, and decodes to it.

## Main results

* `Written.filed` — each file is the text of the records of its run
* `reads_back_iff` — exactly the records without such characters are read back
-/

namespace AfterFlow.Events

open PyStr List Function

variable {loads : String → Option Value} {r : EventRecord} {rs : List EventRecord}

/-! ### The lines of a file -/

/-- The text of a file to which some records were written. -/
def fileText (rs : List EventRecord) : List Char := rs.flatMap fun r => r.value.chars ++ ['\n']

theorem fileText_append (rs rs' : List EventRecord) :
    fileText (rs ++ rs') = fileText rs ++ fileText rs' := flatMap_append ..

theorem fileText_cons (r : EventRecord) (rs : List EventRecord) :
    fileText (r :: rs) = r.value.chars ++ '\n' :: fileText rs := by
  rw [fileText, flatMap_cons, append_assoc]
  rfl

theorem value_chars (r : EventRecord) : ∃ body, r.value.chars = '\x7b' :: (body ++ ['\x7d']) := by
  have hobj : ∀ k v fs, Value.chars (.obj ((k, v) :: fs)) = '\x7b' ::
      (Value.quote k ++ (": ".toList ++ (v.chars ++ Value.moreFields fs)) ++ ['\x7d']) := by
    intro k v fs
    simp [Value.chars]
  exact ⟨_, hobj _ _ _⟩

theorem fileText_chars (rs : List EventRecord) (r : EventRecord) :
    ∃ body, fileText rs ++ r.value.chars = '\x7b' :: (body ++ ['\x7d']) := by
  obtain ⟨last, hlast⟩ := value_chars r
  cases rs with
  | nil => exact ⟨last, hlast⟩
  | cons first rs =>
    obtain ⟨body, hbody⟩ := value_chars first
    exact ⟨body ++ ['\x7d'] ++ '\n' :: fileText rs ++ '\x7b' :: last, by
      rw [fileText_cons, hbody, hlast]
      simp⟩

theorem fileLines_concat (rs : List EventRecord) (r : EventRecord) :
    fileLines (String.ofList (fileText (rs ++ [r]))) =
      (splitlines (fileText rs ++ r.value.chars)).map String.ofList := by
  obtain ⟨body, hbody⟩ := fileText_chars rs r
  have hstrip : stripList isSpace (fileText (rs ++ [r])) = fileText rs ++ r.value.chars := by
    have htext : fileText (rs ++ [r]) = '\x7b' :: body ++ '\x7d' :: ['\n'] := by
      rw [fileText_append, fileText_cons, ← append_assoc, hbody]
      simp [fileText]
    rw [htext, hbody, stripList_cons_append (by decide) (by decide) (by decide)]
    simp
  rw [fileLines, strip, String.toList_ofList, String.toList_ofList, hstrip]

theorem fileLines_nil : fileLines (String.ofList (fileText [])) = [] := by decide

theorem chars_fine (v : Value) : Fine (fun _ => True) v.chars := v.fine fun _ _ _ _ _ => trivial

theorem Value.Whole.fine {v : Value} (h : v.Whole) : Fine (fun _ => False) v.chars :=
  Value.fine v fun s hs c hc hwide => by
    rw [h s hs c hc] at hwide
    cases hwide

theorem fileText_fine (rs : List EventRecord) : Fine (fun _ => True) (fileText rs) := by
  induction rs with
  | nil => exact .nil
  | cons r rs ih =>
    rw [fileText_cons]
    exact (chars_fine _).append (.char (by decide) (fun _ => trivial) ih)

theorem splitlines_fileText (h : ∀ x ∈ rs, x.value.Whole) (hr : r.value.Whole) :
    splitlines (fileText rs ++ r.value.chars) =
      (rs ++ [r]).map fun r => r.value.chars := by
  have hno : ∀ {r : EventRecord}, r.value.Whole → ∀ c ∈ r.value.chars, isLineEnd c = false :=
    fun h c hc => Bool.eq_false_iff.2 fun hend => h.fine.lineEnd c hc hend
  induction rs with
  | nil =>
    obtain ⟨body, hbody⟩ := value_chars r
    exact splitlines_single (hno hr) (by rw [hbody]; exact cons_ne_nil _ _)
  | cons x rs ih =>
    rw [fileText_cons, append_assoc, cons_append,
      splitlines_append (hno (h x mem_cons_self)),
      ih fun y hy => h y (mem_cons_of_mem _ hy)]
    rfl

/-! ### Decoding -/

/-- `json.loads` undoes `json.dumps` on a record. -/
def RoundTrips (loads : String → Option Value) (r : EventRecord) : Prop :=
  loads r.value.dumps = some r.value

/-- A text in which every line end is escaped, by no other escapes than `json.dumps` writes, decodes
to a value without the line ends that need no escape. -/
def ReadsEscapes (loads : String → Option Value) : Prop :=
  ∀ s v, Fine (fun _ => False) s.toList → loads s = some v → v.Whole

theorem dumps_ne_empty (r : EventRecord) : r.value.dumps ≠ "" := by
  obtain ⟨body, hbody⟩ := value_chars r
  intro h
  have := congrArg String.toList h
  rw [Value.dumps, String.toList_ofList, hbody] at this
  cases this

theorem filterMap_loads (hround : ∀ r ∈ rs, RoundTrips loads r) {f : String → Option Value}
    (hf : ∀ s, s ≠ "" → f s = loads s) :
    (rs.map fun r => r.value.dumps).filterMap f = rs.map EventRecord.value := by
  induction rs with
  | nil => rfl
  | cons r rs ih =>
    have hr : f r.value.dumps = some r.value := by
      rw [hf _ (dumps_ne_empty r)]
      exact hround r mem_cons_self
    rw [map_cons, filterMap_cons_some hr, map_cons,
      ih fun x hx => hround x (mem_cons_of_mem _ hx)]

theorem fileLines_whole (h : ∀ r ∈ rs, r.value.Whole) :
    fileLines (String.ofList (fileText rs)) = rs.map fun r => r.value.dumps := by
  rcases eq_nil_or_concat rs with rfl | ⟨rs, r, rfl⟩
  · exact fileLines_nil
  · rw [concat_eq_append] at h ⊢
    rw [fileLines_concat, splitlines_fileText (fun x hx => h x (by simp [hx])) (h r (by simp)),
      map_map]
    rfl

theorem whole_of_mem_fileLines (hescape : ReadsEscapes loads) {line : String} {v : Value}
    (hline : line ∈ fileLines (String.ofList (fileText rs))) (hv : loads line = some v) :
    v.Whole := by
  rcases eq_nil_or_concat rs with rfl | ⟨rs, r, rfl⟩
  · rw [fileLines_nil] at hline
    cases hline
  · rw [concat_eq_append, fileLines_concat] at hline
    obtain ⟨l, hl, rfl⟩ := mem_map.1 hline
    have hfine : Fine (fun _ => True) l := ((fileText_fine rs).append (chars_fine _)).lines hl
    refine hescape _ v ?_ hv
    rw [String.toList_ofList]
    exact hfine.mono fun c hc hend _ => by
      rw [no_lineEnd_of_mem_splitlines hl c hc] at hend
      cases hend

/-! ### Order -/

@[simp] theorem seqOf_value (r : EventRecord) : seqOf r.value = .ok (r.seq : ℤ) := by
  simp [seqOf, EventRecord.value, lookup_cons]

theorem mapM_seqOf (rs : List EventRecord) :
    (rs.map EventRecord.value).mapM (fun v => (seqOf v).map fun n => (n, v)) =
      .ok (rs.map fun r => ((r.seq : ℤ), r.value)) := by
  induction rs with
  | nil => rfl
  | cons r rs ih =>
    rw [map_cons, mapM_cons, ih, seqOf_value]
    rfl

theorem sortBySeq_value (h : rs.Pairwise fun a b => a.seq < b.seq) :
    sortBySeq (rs.map EventRecord.value) = .ok (rs.map EventRecord.value) := by
  have hsort : (do
      let keyed ← (rs.map EventRecord.value).mapM fun v => (seqOf v).map fun n => (n, v)
      .ok ((keyed.insertionSort fun a b => a.1 ≤ b.1).map Prod.snd) :
        Except StoreError (List Value)) = .ok (rs.map EventRecord.value) := by
    have hsorted : (rs.map fun r => ((r.seq : ℤ), r.value)).Pairwise fun a b => a.1 ≤ b.1 :=
      pairwise_map.2 (h.imp fun hab => by simpa using hab.le)
    rw [mapM_seqOf]
    show Except.ok _ = _
    rw [hsorted.insertionSort_eq, map_map]
    rfl
  match rs, hsort with
  | [], hsort => exact hsort
  | [_], _ => rfl
  | _ :: _ :: _, hsort => exact hsort

theorem foldlM_max (rs : List EventRecord) (m : ℤ) :
    (rs.map EventRecord.value).foldlM
      (fun maxSeq record => (seqOf record).map (max maxSeq)) m =
      .ok (rs.foldl (fun m r => max m (r.seq : ℤ)) m) := by
  induction rs generalizing m with
  | nil => rfl
  | cons r rs ih =>
    rw [map_cons, foldlM_cons, seqOf_value, foldl_cons]
    exact ih _

theorem foldl_max (rs : List EventRecord) (n : ℕ) :
    ∃ m : ℕ, rs.foldl (fun m r => max m (r.seq : ℤ)) n = m ∧ (∀ r ∈ rs, r.seq ≤ m) ∧
      n ≤ m ∧ (m = n ∨ ∃ r ∈ rs, r.seq = m) := by
  induction rs generalizing n with
  | nil => exact ⟨n, rfl, by simp, le_rfl, .inl rfl⟩
  | cons r rs ih =>
    obtain ⟨m, hm, hle, hn, hmax⟩ := ih (max n r.seq)
    have hcast : ((max n r.seq : ℕ) : ℤ) = max (n : ℤ) r.seq := by omega
    rw [hcast] at hm
    refine ⟨m, hm, ?_, (le_max_left ..).trans hn, ?_⟩
    · intro x hx
      rcases mem_cons.1 hx with rfl | hx
      · exact (le_max_right ..).trans hn
      · exact hle x hx
    · rcases hmax with rfl | ⟨x, hx, hseq⟩
      · rcases le_total n r.seq with h | h
        · exact .inr ⟨r, mem_cons_self, (max_eq_right h).symm⟩
        · exact .inl (max_eq_left h)
      · exact .inr ⟨x, mem_cons_of_mem _ hx, hseq⟩

theorem mem_of_sortBySeq {l l' : List Value} (h : sortBySeq l = .ok l') : ∀ v ∈ l', v ∈ l := by
  have hmapM : ∀ {l : List Value} {keyed}, (l.mapM fun v => (seqOf v).map fun n => (n, v)) =
      .ok keyed → keyed.map Prod.snd = l := by
    intro l
    induction l with
    | nil =>
      intro keyed h
      cases h
      rfl
    | cons v l ih =>
      intro keyed h
      rw [mapM_cons] at h
      cases hv : seqOf v with
      | error e => rw [hv] at h; cases h
      | ok n =>
        rw [hv] at h
        cases hl : l.mapM fun v => (seqOf v).map fun n => (n, v) with
        | error e => rw [hl] at h; cases h
        | ok keyed' =>
          rw [hl] at h
          cases h
          rw [map_cons, ih hl]
  have hsort : (do
      let keyed ← l.mapM fun v => (seqOf v).map fun n => (n, v)
      .ok ((keyed.insertionSort fun a b => a.1 ≤ b.1).map Prod.snd) :
        Except StoreError (List Value)) = .ok l' → ∀ v ∈ l', v ∈ l := by
    intro h v hv
    cases hl : l.mapM fun v => (seqOf v).map fun n => (n, v) with
    | error e => rw [hl] at h; cases h
    | ok keyed =>
      rw [hl] at h
      cases h
      obtain ⟨p, hp, rfl⟩ := mem_map.1 hv
      rw [← hmapM hl]
      exact mem_map_of_mem ((mem_insertionSort _).1 hp)
  simp only [sortBySeq] at h
  split at h
  · cases h
    exact fun v hv => hv
  · exact hsort h

/-! ### The files of a store -/

/-- The records of a thread. -/
def ofThread (w : List EventRecord) (threadId : String) : List EventRecord :=
  w.filter fun r => r.threadId = threadId

/-- The records of a run. -/
def ofRun (w : List EventRecord) (threadId runId : String) : List EventRecord :=
  w.filter fun r => r.threadId = threadId ∧ r.runId = runId

theorem mem_ofRun {w : List EventRecord} {t run : String} :
    r ∈ ofRun w t run ↔ r ∈ w ∧ r.threadId = t ∧ r.runId = run := by
  simp [ofRun]

theorem mem_ofThread {w : List EventRecord} {t : String} :
    r ∈ ofThread w t ↔ r ∈ w ∧ r.threadId = t := by
  simp [ofThread]

/-- The files of a store hold the records `w`: there is a file for each run that has some, and the
numbers of a thread increase. -/
structure Filed (s : JsonlStore) (w : List EventRecord) : Prop where
  dir : ∀ t, ∃ runs : List String, runs.Nodup ∧ (∀ run, run ∈ runs ↔ ofRun w t run ≠ []) ∧
    s.files t = runs.map fun run => (run, String.ofList (fileText (ofRun w t run)))
  increasing : w.Pairwise fun a b => a.threadId = b.threadId → a.seq < b.seq

theorem lookup_map {ν : Type} (runs : List String) (f : String → ν) (run : String) :
    (runs.map fun run => (run, f run)).lookup run = if run ∈ runs then some (f run) else none := by
  induction runs with
  | nil => rfl
  | cons x runs ih =>
    rw [map_cons, lookup_cons]
    by_cases h : run = x
    · subst h
      simp
    · have hbeq : (run == x) = false := by simpa using h
      simp [hbeq, ih, h]

variable {s s' : JsonlStore} {w : List EventRecord} {t run : String}

theorem Filed.empty : Filed JsonlStore.empty [] :=
  ⟨fun _ => ⟨[], nodup_nil, by simp [ofRun], rfl⟩, .nil⟩

theorem Filed.lookup (h : Filed s w) (t run : String) : (s.files t).lookup run =
    if ofRun w t run = [] then none else some (String.ofList (fileText (ofRun w t run))) := by
  obtain ⟨runs, -, hmem, hfiles⟩ := h.dir t
  rw [hfiles, lookup_map]
  by_cases hrun : ofRun w t run = []
  · simp [hmem, hrun]
  · simp [hmem, hrun]

/-- A record goes to the end of the file of its run. -/
theorem Filed.append (h : Filed s w) (hseq : ∀ x ∈ ofThread w r.threadId, x.seq < r.seq) :
    Filed (s.appendFile r.threadId r.runId (r.value.dumps ++ "\n")) (w ++ [r]) := by
  have hofRun : ∀ t run, ofRun (w ++ [r]) t run =
      ofRun w t run ++ if r.threadId = t ∧ r.runId = run then [r] else [] := by
    intro t run
    rw [ofRun, filter_append, filter_singleton]
    simp [ofRun]
  have htext : ∀ rs : List EventRecord, String.ofList (fileText rs) ++ (r.value.dumps ++ "\n") =
      String.ofList (fileText (rs ++ [r])) := by
    intro rs
    rw [fileText_append, String.ofList_append, fileText_cons, String.ofList_append]
    rfl
  refine ⟨fun t => ?_, ?_⟩
  · obtain ⟨runs, hnodup, hmem, hfiles⟩ := h.dir t
    by_cases ht : t = r.threadId
    · subst ht
      by_cases hrun : r.runId ∈ runs
      · refine ⟨runs, hnodup, fun run => ?_, ?_⟩
        · rw [hofRun]
          by_cases hr : r.runId = run
          · subst hr
            simp [hrun]
          · simp [hmem, hr]
        · rw [JsonlStore.appendFile, hfiles, lookup_map, if_pos hrun]
          simp only [update_self, map_map]
          refine map_congr_left fun run _ => ?_
          rw [hofRun, comp_apply]
          by_cases hr : run = r.runId
          · subst hr
            simp [htext]
          · simp [hr, Ne.symm hr]
      · refine ⟨runs ++ [r.runId], ?_, fun run => ?_, ?_⟩
        · exact nodup_append.2 ⟨hnodup, nodup_singleton _, by
            intro a ha b hb
            rw [mem_singleton.1 hb]
            exact fun h => hrun (h ▸ ha)⟩
        · rw [hofRun, mem_append, mem_singleton, hmem]
          by_cases hr : run = r.runId
          · subst hr
            simp
          · simp [hr, Ne.symm hr]
        · have hnone : ofRun w r.threadId r.runId = [] := by
            by_contra hne
            exact hrun ((hmem _).2 hne)
          rw [JsonlStore.appendFile, hfiles, lookup_map, if_neg hrun]
          simp only [update_self, map_append, map_cons, map_nil]
          congr 1
          · refine map_congr_left fun run hmem' => ?_
            have hr : r.runId ≠ run := fun h => hrun (h ▸ hmem')
            rw [hofRun]
            simp [hr]
          · rw [hofRun, hnone, if_pos ⟨rfl, rfl⟩, ← htext]
            simp [fileText]
    · refine ⟨runs, hnodup, fun run => ?_, ?_⟩
      · rw [hofRun, hmem]
        simp [Ne.symm ht]
      · show update s.files r.threadId _ t = _
        rw [update_of_ne ht, hfiles]
        refine map_congr_left fun run _ => ?_
        rw [hofRun]
        simp [Ne.symm ht]
  · refine pairwise_append.2 ⟨h.increasing, pairwise_singleton _ _, ?_⟩
    intro a ha b hb hab
    obtain rfl := mem_singleton.1 hb
    exact hseq a (mem_ofThread.2 ⟨ha, hab⟩)

/-! ### Runs of puts -/

/-- The stores reached from an empty one by any sequence of `put`, with the records written. -/
inductive Written (loads : String → Option Value) : JsonlStore → List EventRecord → Prop
  | empty : Written loads .empty []
  | put {s s' w now e r} : Written loads s w → s.put loads now e = (.ok r, s') →
      Written loads s' (w ++ [r])
  | raise {s s' w now e error} : Written loads s w → s.put loads now e = (.error error, s') →
      Written loads s' w

/-- The counter of a thread is at least every number of it; without one, the thread has no
record. -/
def Counted (s : JsonlStore) (w : List EventRecord) : Prop :=
  ∀ t, match s.seqCounters t with
    | none => ofThread w t = []
    | some seq => ∀ r ∈ ofThread w t, r.seq ≤ seq

theorem validateId_ok {value label : String} (h : isSafeId value = true) :
    validateId value label = .ok () := if_pos h

theorem writeRecord_ok (ht : isSafeId r.threadId = true) (hrun : isSafeId r.runId = true) :
    s.writeRecord r = .ok (s.appendFile r.threadId r.runId (r.value.dumps ++ "\n")) := by
  rw [JsonlStore.writeRecord, validateId_ok hrun, validateId_ok ht]
  simp only [bind, Except.bind]

theorem writeRecord_error (h : ¬(isSafeId r.threadId = true ∧ isSafeId r.runId = true)) :
    ∃ error, s.writeRecord r = .error error := by
  by_cases hrun : isSafeId r.runId = true
  · have ht : ¬isSafeId r.threadId = true := fun ht => h ⟨ht, hrun⟩
    refine ⟨.invalidId "thread_id" r.threadId, ?_⟩
    rw [JsonlStore.writeRecord, validateId_ok hrun, validateId, if_neg ht]
    simp only [bind, Except.bind]
  · refine ⟨.invalidId "run_id" r.runId, ?_⟩
    rw [JsonlStore.writeRecord, validateId, if_neg hrun]
    simp only [bind, Except.bind]

/-- The store once a number of a thread is taken. -/
def JsonlStore.take (s : JsonlStore) (threadId : String) (seq : ℕ) : JsonlStore :=
  { s with seqCounters := update s.seqCounters threadId (some seq) }

theorem put_ok {now : String} {e : EventInput} {seq : ℕ} (ht : isSafeId e.threadId = true)
    (hrun : isSafeId e.runId = true) (hload : s.loadSeq loads e.threadId = .ok seq) :
    s.put loads now e = (.ok (e.record now (seq + 1)), (s.take e.threadId (seq + 1)).appendFile
      e.threadId e.runId ((e.record now (seq + 1)).value.dumps ++ "\n")) := by
  have hwrite := writeRecord_ok (s := s.take e.threadId (seq + 1)) (r := e.record now (seq + 1))
    ht hrun
  rw [JsonlStore.take] at hwrite
  simp only [JsonlStore.put, hload, hwrite]
  rfl

/-- What `put` does: the next number is taken, and the record is written if the ids are safe. -/
theorem put_spec {now : String} {e : EventInput} {result : Except StoreError EventRecord}
    (h : s.put loads now e = (result, s')) :
    (∃ error, result = .error error ∧ s' = s) ∨
      ∃ seq, s.loadSeq loads e.threadId = .ok seq ∧
        ((∃ error, result = .error error ∧ s' = s.take e.threadId (seq + 1)) ∨
          (isSafeId e.threadId = true ∧ isSafeId e.runId = true ∧
            result = .ok (e.record now (seq + 1)) ∧
            s' = (s.take e.threadId (seq + 1)).appendFile e.threadId e.runId
              ((e.record now (seq + 1)).value.dumps ++ "\n"))) := by
  cases hload : s.loadSeq loads e.threadId with
  | error error =>
    simp only [JsonlStore.put, hload] at h
    obtain ⟨rfl, rfl⟩ := Prod.mk.inj h
    exact .inl ⟨error, rfl, rfl⟩
  | ok seq =>
    refine .inr ⟨seq, rfl, ?_⟩
    by_cases hsafe : isSafeId e.threadId = true ∧ isSafeId e.runId = true
    · rw [put_ok hsafe.1 hsafe.2 hload] at h
      obtain ⟨rfl, rfl⟩ := Prod.mk.inj h
      exact .inr ⟨hsafe.1, hsafe.2, rfl, rfl⟩
    · obtain ⟨error, hwrite⟩ := writeRecord_error (s := s.take e.threadId (seq + 1))
        (r := e.record now (seq + 1)) hsafe
      rw [JsonlStore.take] at hwrite
      simp only [JsonlStore.put, hload, hwrite] at h
      obtain ⟨rfl, rfl⟩ := Prod.mk.inj h
      exact .inl ⟨error, rfl, rfl⟩

theorem ofThread_append (w : List EventRecord) (r : EventRecord) (t : String) :
    ofThread (w ++ [r]) t = ofThread w t ++ if r.threadId = t then [r] else [] := by
  rw [ofThread, filter_append, filter_singleton]
  simp [ofThread]

theorem Filed.files_nil (h : Filed s w) (ht : ofThread w t = []) : s.files t = [] := by
  obtain ⟨runs, -, hmem, hfiles⟩ := h.dir t
  have hruns : runs = [] := by
    refine eq_nil_iff_forall_not_mem.2 fun run hrun => (hmem run).1 hrun ?_
    refine eq_nil_iff_forall_not_mem.2 fun r hr => ?_
    have : r ∈ ofThread w t := mem_ofThread.2 ⟨(mem_ofRun.1 hr).1, (mem_ofRun.1 hr).2.1⟩
    rw [ht] at this
    cases this
  rw [hfiles, hruns, map_nil]

theorem Counted.load (h : Counted s w) {seq : ℕ}
    (hload : s.loadSeq loads t = .ok seq) : ∀ r ∈ ofThread w t, r.seq ≤ seq := by
  have ht := h t
  cases hcounter : s.seqCounters t with
  | none =>
    rw [hcounter] at ht
    simp [show ofThread w t = [] from ht]
  | some c =>
    rw [JsonlStore.loadSeq, hcounter] at hload
    cases hload
    rw [hcounter] at ht
    exact ht

theorem Counted.take (h : Counted s w) {seq : ℕ} (hseq : ∀ r ∈ ofThread w t, r.seq ≤ seq) :
    Counted (s.take t (seq + 1)) w := by
  intro t'
  show match update s.seqCounters t (some (seq + 1)) t' with
    | none => ofThread w t' = []
    | some c => ∀ r ∈ ofThread w t', r.seq ≤ c
  by_cases ht : t' = t
  · subst ht
    rw [update_self]
    exact fun r hr => (hseq r hr).trans (Nat.le_succ _)
  · rw [update_of_ne ht]
    exact h t'

theorem Counted.append (h : Counted s w) (hseq : s.seqCounters r.threadId = some r.seq) :
    Counted s (w ++ [r]) := by
  intro t
  have ht := h t
  rw [ofThread_append]
  by_cases hr : r.threadId = t
  · subst hr
    rw [hseq] at ht ⊢
    rw [if_pos rfl]
    intro x hx
    rcases mem_append.1 hx with hx | hx
    · exact ht x hx
    · rw [mem_singleton.1 hx]
  · rw [if_neg hr, append_nil]
    exact ht

/-- Every file is the text of the records of its run. -/
theorem Written.filed (h : Written loads s w) :
    Filed s w ∧ Counted s w ∧ ∀ r ∈ w, isSafeId r.threadId = true ∧ isSafeId r.runId = true := by
  induction h with
  | empty => exact ⟨.empty, fun t => rfl, by simp⟩
  | @put s s' w now e r _ hput ih =>
    obtain ⟨hfiled, hcounted, hsafe⟩ := ih
    obtain ⟨error, herr, -⟩ | ⟨seq, hload, ⟨error, herr, -⟩ | ⟨ht, hrun, hr, rfl⟩⟩ := put_spec hput
    · cases herr
    · cases herr
    · obtain rfl : r = e.record now (seq + 1) := by simpa using hr
      have hle := hcounted.load hload
      have hfiled' : Filed (s.take e.threadId (seq + 1)) w := ⟨hfiled.dir, hfiled.increasing⟩
      refine ⟨hfiled'.append (r := e.record now (seq + 1)) fun x hx => Nat.lt_succ_of_le (hle x hx),
        Counted.append (r := e.record now (seq + 1)) (hcounted.take hle) (update_self ..),
        fun x hx => ?_⟩
      rcases mem_append.1 hx with hx | hx
      · exact hsafe x hx
      · rw [mem_singleton.1 hx]
        exact ⟨ht, hrun⟩
  | @raise s s' w now e error _ hput ih =>
    obtain ⟨hfiled, hcounted, hsafe⟩ := ih
    obtain ⟨_, -, rfl⟩ | ⟨seq, hload, ⟨_, -, rfl⟩ | ⟨_, _, hr, _⟩⟩ := put_spec hput
    · exact ⟨hfiled, hcounted, hsafe⟩
    · exact ⟨⟨hfiled.dir, hfiled.increasing⟩, hcounted.take (hcounted.load hload), hsafe⟩
    · cases hr

/-! ### Reading back -/

theorem computeMaxSeq_eq (ht : isSafeId t = true) : s.computeMaxSeq loads t =
    ((s.files t).flatMap fun f => (fileLines f.2).filterMap loads).foldlM
      (fun maxSeq record => (seqOf record).map (max maxSeq)) 0 := by
  rw [JsonlStore.computeMaxSeq, validateId_ok ht]
  simp only [bind, Except.bind]

theorem readRunEvents_eq {text : String} (ht : isSafeId t = true) (hrun : isSafeId run = true)
    (hfile : (s.files t).lookup run = some text) :
    s.readRunEvents loads t run = sortBySeq (decode loads text) := by
  rw [JsonlStore.readRunEvents, validateId_ok hrun, validateId_ok ht]
  simp only [bind, Except.bind, hfile]

/-- The numbers of the thread have a largest one, and it is recovered. -/
theorem Filed.computeMaxSeq (h : Filed s w) (hround : ∀ r ∈ w, RoundTrips loads r)
    (hwhole : ∀ r ∈ w, r.value.Whole) (ht : isSafeId t = true) :
    ∃ m : ℕ, s.computeMaxSeq loads t = .ok m ∧ (∀ r ∈ ofThread w t, r.seq ≤ m) ∧
      (m = 0 ∨ ∃ r ∈ ofThread w t, r.seq = m) := by
  obtain ⟨runs, -, hmem, hfiles⟩ := h.dir t
  have hdecode : ((s.files t).flatMap fun f => (fileLines f.2).filterMap loads) =
      (runs.flatMap (ofRun w t)).map EventRecord.value := by
    rw [hfiles, flatMap_map, map_flatMap]
    refine congrArg (fun f => runs.flatMap f) (funext fun run => ?_)
    show (fileLines (String.ofList (fileText (ofRun w t run)))).filterMap loads = _
    rw [fileLines_whole fun r hr => hwhole r (mem_ofRun.1 hr).1,
      filterMap_loads (fun r hr => hround r (mem_ofRun.1 hr).1) fun _ _ => rfl]
  have hrecords : ∀ r, r ∈ runs.flatMap (ofRun w t) ↔ r ∈ ofThread w t := by
    intro r
    rw [mem_flatMap]
    constructor
    · rintro ⟨run, -, hr⟩
      exact mem_ofThread.2 ⟨(mem_ofRun.1 hr).1, (mem_ofRun.1 hr).2.1⟩
    · intro hr
      have hmem' : r ∈ ofRun w t r.runId :=
        mem_ofRun.2 ⟨(mem_ofThread.1 hr).1, (mem_ofThread.1 hr).2, rfl⟩
      exact ⟨r.runId, (hmem _).2 (ne_nil_of_mem hmem'), hmem'⟩
  obtain ⟨m, hm, hle, -, hmax⟩ := foldl_max (runs.flatMap (ofRun w t)) 0
  refine ⟨m, ?_, fun r hr => hle r ((hrecords r).2 hr), ?_⟩
  · rw [computeMaxSeq_eq ht, hdecode, foldlM_max]
    exact congrArg Except.ok hm
  · exact hmax.imp id fun ⟨r, hr, hseq⟩ => ⟨r, (hrecords r).1 hr, hseq⟩

/-- The file of every run gives exactly the records of the run that were written so far, and a new
process finds the largest number that was ever written. -/
def ReadBack (loads : String → Option Value) (s : JsonlStore) (w : List EventRecord) : Prop :=
  ∀ r ∈ w, s.readRunEvents loads r.threadId r.runId =
      .ok ((ofRun w r.threadId r.runId).map EventRecord.value) ∧
    ∃ m : ℕ, s.restart.computeMaxSeq loads r.threadId = .ok m ∧
      (∃ x ∈ ofThread w r.threadId, x.seq = m) ∧ ∀ x ∈ ofThread w r.threadId, x.seq ≤ m

/-- **What is read back.** After any sequence of `put` the files give back exactly what was written
if and only if no string of a record has U+0085, U+2028 or U+2029 in it. -/
theorem reads_back_iff (h : Written loads s w) (hround : ∀ r ∈ w, RoundTrips loads r)
    (hescape : ReadsEscapes loads) : ReadBack loads s w ↔ ∀ r ∈ w, r.value.Whole := by
  obtain ⟨hfiled, -, hsafe⟩ := h.filed
  have hread : ∀ r ∈ w, s.readRunEvents loads r.threadId r.runId =
      sortBySeq (decode loads (String.ofList (fileText (ofRun w r.threadId r.runId)))) := by
    intro r hr
    have hne : ofRun w r.threadId r.runId ≠ [] := ne_nil_of_mem (mem_ofRun.2 ⟨hr, rfl, rfl⟩)
    exact readRunEvents_eq (hsafe r hr).1 (hsafe r hr).2 (by rw [hfiled.lookup, if_neg hne])
  constructor
  · intro hback r hr
    have hsort := (hread r hr).symm.trans (hback r hr).1
    have hmem := mem_of_sortBySeq hsort r.value
      (mem_map_of_mem (mem_ofRun.2 ⟨hr, rfl, rfl⟩))
    obtain ⟨line, hline, hv⟩ := mem_filterMap.1 hmem
    split at hv
    · cases hv
    · exact whole_of_mem_fileLines hescape hline hv
  · intro hwhole r hr
    have hrun : ∀ x ∈ ofRun w r.threadId r.runId, x ∈ w := fun x hx => (mem_ofRun.1 hx).1
    constructor
    · rw [hread r hr, decode, fileLines_whole fun x hx => hwhole x (hrun x hx),
        filterMap_loads (fun x hx => hround x (hrun x hx)) fun s hs => if_neg hs]
      refine sortBySeq_value ((hfiled.increasing.filter _).imp_of_mem ?_)
      intro a b ha hb hab
      exact hab ((mem_ofRun.1 ha).2.1.trans (mem_ofRun.1 hb).2.1.symm)
    · have hfiled' : Filed s.restart w := ⟨hfiled.dir, hfiled.increasing⟩
      obtain ⟨m, hm, hle, hmax⟩ := hfiled'.computeMaxSeq hround hwhole (hsafe r hr).1
      have hself : r ∈ ofThread w r.threadId := mem_ofThread.2 ⟨hr, rfl⟩
      refine ⟨m, hm, ?_, hle⟩
      rcases hmax with rfl | hmax
      · exact ⟨r, hself, Nat.le_zero.1 (hle r hself)⟩
      · exact hmax

/-- `json.loads` on the text of a record and on what cannot be decoded. -/
def loadsOnly (r : EventRecord) (s : String) : Option Value :=
  if s = r.value.dumps then some r.value else none

/-- A message of run `run-1` of thread `thread-1`. -/
def messageInput (content : String) : EventInput :=
  ⟨"thread-1", "run-1", "llm.ai.response", "message", .str content, [], none⟩

def messageRecord (content : String) : EventRecord := (messageInput content).record "2026-01-01" 1

/-- The store after a message. -/
def messageStore (content : String) : JsonlStore :=
  (JsonlStore.empty.take "thread-1" 1).appendFile "thread-1" "run-1"
    ((messageRecord content).value.dumps ++ "\n")

theorem put_messageInput (content : String) :
    JsonlStore.empty.put (loadsOnly (messageRecord content)) "2026-01-01" (messageInput content) =
      (.ok (messageRecord content), messageStore content) := by
  have hsafe : isSafeId "thread-1" = true ∧ isSafeId "run-1" = true := by decide
  have hload : JsonlStore.empty.loadSeq (loadsOnly (messageRecord content)) "thread-1" = .ok 0 := by
    show Except.map Int.toNat (JsonlStore.empty.computeMaxSeq (loadsOnly (messageRecord content))
      "thread-1") = _
    rw [computeMaxSeq_eq hsafe.1]
    rfl
  exact put_ok hsafe.1 hsafe.2 hload

theorem messageStore_written (content : String) : Written (loadsOnly (messageRecord content))
    (messageStore content) [messageRecord content] := .put .empty (put_messageInput content)

theorem reads_back_demo : ReadBack (loadsOnly (messageRecord "two\nlines"))
    (messageStore "two\nlines") [messageRecord "two\nlines"] := by
  have hwhole : (messageRecord "two\nlines").value.Whole := by
    rw [Value.Whole]
    decide
  refine (reads_back_iff (messageStore_written _) (by simp [RoundTrips, loadsOnly]) ?_).2
    (by simpa using hwhole)
  intro s v _ hv
  rw [loadsOnly] at hv
  split at hv
  · cases hv
    exact hwhole
  · cases hv

/-- A message with a line separator is not read back: neither half of its line can be decoded. -/
theorem torn_message_lost : Written (loadsOnly (messageRecord "two\u2028lines"))
      (messageStore "two\u2028lines") [messageRecord "two\u2028lines"] ∧
    RoundTrips (loadsOnly (messageRecord "two\u2028lines")) (messageRecord "two\u2028lines") ∧
    ¬ReadBack (loadsOnly (messageRecord "two\u2028lines"))
      (messageStore "two\u2028lines") [messageRecord "two\u2028lines"] := by
  refine ⟨messageStore_written _, by simp [RoundTrips, loadsOnly], fun h => ?_⟩
  have hsafe : isSafeId "thread-1" = true ∧ isSafeId "run-1" = true := by decide
  have htorn : (messageRecord "two\u2028lines").value.chars.any isLineEnd = true := by decide
  have hdecode : decode (loadsOnly (messageRecord "two\u2028lines"))
      ((messageRecord "two\u2028lines").value.dumps ++ "\n") = [] := by
    refine filterMap_eq_nil_iff.2 fun line hline => ?_
    obtain ⟨l, hl, rfl⟩ := mem_map.1 hline
    have hne : String.ofList l ≠ (messageRecord "two\u2028lines").value.dumps := by
      intro h
      rw [Value.dumps, String.ofList_inj] at h
      obtain ⟨c, hc, hend⟩ := any_eq_true.1 htorn
      have hno := no_lineEnd_of_mem_splitlines hl c (h ▸ hc)
      rw [hend] at hno
      cases hno
    simp [loadsOnly, hne]
  have hread : (messageStore "two\u2028lines").readRunEvents
      (loadsOnly (messageRecord "two\u2028lines")) "thread-1" "run-1" =
        sortBySeq (decode (loadsOnly (messageRecord "two\u2028lines"))
          ((messageRecord "two\u2028lines").value.dumps ++ "\n")) :=
    readRunEvents_eq hsafe.1 hsafe.2 rfl
  rw [hdecode] at hread
  have hback := hread.symm.trans (h _ (mem_singleton_self _)).1
  cases hback

end AfterFlow.Events
