import AfterFlow.Subagents.BackgroundTasks

/-!
# Every task call has its own subagent's outcome

As long as the table has no entry under the id of a call that starts, whoever looks up an id that is
in use finds the subagent of the call that uses it. All else is about one call at a time.

## Main results

* `World.Told.moves` — a call may change what is its own
* `World.Told.step` — the step lemma
* `own_outcome` — runs of orderly steps
* `outcome_of_another` — two calls with one id
-/

namespace AfterFlow.Subagents

open Transition List Function Option

variable {I R M : Type} {calls : I → Call R} {w w' : World I R M} {i j o : I}

/-! ### A subagent over time -/

namespace SubagentResult

variable {r r' r'' : SubagentResult M}

theorem Evolves.refl : r.Evolves r := ⟨prefix_rfl, fun _ => rfl, id⟩

theorem status_eq (h : r'.payload = r.payload) : r'.status = r.status := by
  have hstatus := congrArg SubagentResult.status h
  exact hstatus

theorem aiMessages_eq (h : r'.payload = r.payload) : r'.aiMessages = r.aiMessages := by
  have hmessages := congrArg SubagentResult.aiMessages h
  exact hmessages

theorem tokenUsageRecords_eq (h : r'.payload = r.payload) :
    r'.tokenUsageRecords = r.tokenUsageRecords := by
  have hrecords := congrArg SubagentResult.tokenUsageRecords h
  exact hrecords

theorem Evolves.status (h : r.Evolves r') (ht : r.status.isTerminal = true) :
    r'.status = r.status :=
  status_eq (h.settled ht)

theorem Evolves.trans (h : r.Evolves r') (h' : r'.Evolves r'') : r.Evolves r'' where
  messages := h.messages.trans h'.messages
  settled ht := (h'.settled ((h.status ht).symm ▸ ht)).trans (h.settled ht)
  reported hr := h'.reported (h.reported hr)

theorem evolves_of_open (hopen : r.status.isTerminal = false)
    (hmessages : r.aiMessages <+: r'.aiMessages) (hreported : r'.usageReported = r.usageReported) :
    r.Evolves r' where
  messages := hmessages
  settled ht := absurd ht (by simp [hopen])
  reported hr := hreported.trans hr

theorem evolves_of_payload (hpayload : r'.payload = r.payload)
    (hreported : r.usageReported = true → r'.usageReported = true) : r.Evolves r' where
  messages := aiMessages_eq hpayload ▸ prefix_rfl
  settled _ := hpayload
  reported := hreported

theorem taskResult?_payload : r.payload.taskResult? = r.taskResult? := rfl

theorem isTerminal_of_taskResult? {result : TaskResult} (h : r.taskResult? = some result) :
    r.status.isTerminal = true := by
  rw [taskResult?] at h
  cases hr : r.status with
  | completed | failed | cancelled | timedOut => rfl
  | pending | running => simp [hr] at h

variable {status : SubagentStatus} {result error stopReason : Option String}
  {records : Option (List TokenUsage)}

theorem evolves_trySetTerminal :
    r.Evolves (r.trySetTerminal status result error stopReason records) := by
  rw [trySetTerminal]
  split
  · exact .refl
  · rename_i hopen
    exact evolves_of_open (by simpa using hopen) prefix_rfl rfl

theorem trySetTerminal_of_open (hopen : r.status.isTerminal = false) :
    r.trySetTerminal status result error stopReason records =
      { r with
        result := result.or r.result
        error := error.or r.error
        stopReason := stopReason.or r.stopReason
        tokenUsageRecords := records.getD r.tokenUsageRecords
        status } := by
  simp [trySetTerminal, hopen]

theorem trySetTerminal_of_settled (hover : r.status.isTerminal = true) :
    r.trySetTerminal status result error stopReason records = r := by
  simp [trySetTerminal, hover]

theorem isTerminal_trySetTerminal (hstatus : status.isTerminal = true) :
    (r.trySetTerminal status result error stopReason records).status.isTerminal = true := by
  rw [trySetTerminal]
  split
  · assumption
  · exact hstatus

@[simp] theorem trySetTerminal_usageReported :
    (r.trySetTerminal status result error stopReason records).usageReported = r.usageReported := by
  rw [trySetTerminal]
  split <;> rfl

@[simp] theorem trySetTerminal_cancelEvent :
    (r.trySetTerminal status result error stopReason records).cancelEvent = r.cancelEvent := by
  rw [trySetTerminal]
  split <;> rfl

end SubagentResult

/-- What is told of a subagent stays true. -/
theorem Event.Own.mono {e : Event I R M} {objects objects' : I → SubagentResult M}
    (h : e.Own calls objects) (hevolves : ∀ i, (objects i).Evolves (objects' i)) :
    e.Own calls objects' := by
  cases e with
  | message i o m k =>
    obtain ⟨tail, htail⟩ := (hevolves i).messages
    refine ⟨h.1, ?_⟩
    rw [← htail, List.getElem?_append_left (List.getElem?_eq_some_iff.1 h.2).1]
    exact h.2
  | returned i o result usage =>
    obtain ⟨rfl, hresult, husage, hreported⟩ := h
    have hpayload := (hevolves o).settled (SubagentResult.isTerminal_of_taskResult? hresult)
    have hrecords := SubagentResult.tokenUsageRecords_eq hpayload
    refine ⟨rfl, ?_, hrecords.symm ▸ husage, fun hsome hne => ?_⟩
    · rw [← SubagentResult.taskResult?_payload, hpayload]
      exact hresult
    · exact (hevolves o).reported (hreported hsome (hrecords ▸ hne))
  | disappeared | pollingTimedOut | wrote => exact h
  | cutShort o => trivial
  | cancelled | removed => exact h
  | recorded i o run records =>
    obtain ⟨rfl, hrun, hterminal, hrecords, hreported⟩ := h
    have hpayload := (hevolves o).settled hterminal
    exact ⟨rfl, hrun, ((hevolves o).status hterminal).symm ▸ hterminal,
      hrecords.trans (SubagentResult.tokenUsageRecords_eq hpayload).symm,
      (hevolves o).reported hreported⟩

/-! ### The invariant -/

/-- A call that looks its subagent up has its entry in the table. -/
def Stage.Sound (i : I) (listed : Prop) : Stage I → Prop
  | .called => True
  | .polling _ _ | .awaiting => listed
  | .sleeping o _ _ | .awaited o => o = i ∧ listed
  | .over sweeping => sweeping = true → listed

/-- A worker has the subagent of its call. -/
def Worker.Sound (i : I) (r : SubagentResult M) : Worker I → Prop
  | .idle | .dead | .finished => True
  | .queued => r.status.isTerminal = false
  | .streaming o => o = i ∧ (r.status.isTerminal = true → r.cancelEvent = true)
  | .checked o => o = i ∧ r.status.isTerminal = false

/-- As long as the thread waits, no one but the worker ends the subagent. -/
def Watch.Sound (i : I) (r : SubagentResult M) (worker : Worker I) : Watch I → Prop
  | .idle | .over => True
  | .waiting o =>
    o = i ∧ worker ≠ .queued ∧ (worker ≠ .finished → r.status.isTerminal = false)
  | .expired o => o = i ∧ worker ≠ .queued ∧ r.cancelEvent = true

/-- What is true of one call. `listed` says that the entry under its id is its own, and `cut` that
the thread that waits has ended its subagent. -/
structure Sound (i : I) (r : SubagentResult M) (t : Task I) (listed cut : Prop) : Prop where
  stage : t.stage.Sound i listed
  worker : t.worker.Sound i r
  watch : t.watch.Sound i r t.worker
  fresh : t.stage = .called → r = {} ∧ t.worker = .idle ∧ t.watch = .idle ∧ t.collected = []
  listed : t.stage ≠ .called → r.status.isTerminal = false → listed
  records : r.tokenUsageRecords ≠ [] → r.status.isTerminal = true
  collected : r.status.isTerminal = true → ¬cut →
    t.worker = .finished ∧ r.tokenUsageRecords = t.collected

theorem Stage.Sound.mono {stage : Stage I} {listed listed' : Prop} (h : stage.Sound i listed)
    (hlisted : listed → listed') : stage.Sound i listed' := by
  cases stage with
  | called => trivial
  | polling | awaiting => exact hlisted h
  | sleeping | awaited => exact ⟨h.1, hlisted h.2⟩
  | «over» => exact fun hsweeping => hlisted (h hsweeping)

theorem Sound.mono {r : SubagentResult M} {t : Task I} {listed listed' cut cut' : Prop}
    (h : Sound i r t listed cut) (hlisted : listed → listed') (hcut : cut → cut') :
    Sound i r t listed' cut' where
  stage := h.stage.mono hlisted
  worker := h.worker
  watch := h.watch
  fresh := h.fresh
  listed hstage hopen := hlisted (h.listed hstage hopen)
  records := h.records
  collected hover hnot := h.collected hover fun hc => hnot (hcut hc)

theorem Sound.called_of_worker {r : SubagentResult M} {t : Task I} {listed cut : Prop}
    (h : Sound i r t listed cut) (hworker : t.worker ≠ .idle) : t.stage ≠ .called :=
  fun hcalled => hworker (h.fresh hcalled).2.1

theorem Sound.called_of_watch {r : SubagentResult M} {t : Task I} {listed cut : Prop}
    (h : Sound i r t listed cut) (hwatch : t.watch ≠ .idle) : t.stage ≠ .called :=
  fun hcalled => hwatch (h.fresh hcalled).2.2.1

theorem Sound.streaming {r : SubagentResult M} {t : Task I} {listed cut : Prop}
    (h : Sound i r t listed cut) (hworker : t.worker = .streaming o) :
    o = i ∧ (r.status.isTerminal = true → r.cancelEvent = true) := by
  have hsound := h.worker
  rwa [hworker] at hsound

theorem Sound.waiting {r : SubagentResult M} {t : Task I} {listed cut : Prop}
    (h : Sound i r t listed cut) (hwatch : t.watch = .waiting o) :
    o = i ∧ t.worker ≠ .queued ∧ (t.worker ≠ .finished → r.status.isTerminal = false) := by
  have hsound := h.watch
  rwa [hwatch] at hsound

theorem Watch.Sound.mono {watch : Watch I} {worker worker' : Worker I} {r r' : SubagentResult M}
    (h : watch.Sound i r worker) (hqueued : worker' ≠ .queued)
    (hopen : worker' ≠ .finished →
      worker ≠ .finished ∧ r'.status.isTerminal = r.status.isTerminal)
    (hcancel : r.cancelEvent = true → r'.cancelEvent = true) : watch.Sound i r' worker' := by
  cases watch with
  | idle | «over» => trivial
  | waiting o =>
    refine ⟨h.1, hqueued, fun hne => ?_⟩
    obtain ⟨hfinished, hsame⟩ := hopen hne
    exact hsame.trans (h.2.2 hfinished)
  | expired o => exact ⟨h.1, hqueued, hcancel h.2.2⟩

theorem Sound.goOn {r r' : SubagentResult M} {t t' : Task I} {listed cut : Prop}
    (h : Sound i r t listed cut) (hbusy : t.worker ≠ .idle) (hunfinished : t.worker ≠ .finished)
    (hworker : t'.worker.Sound i r') (hqueued : t'.worker ≠ .queued)
    (hstage : t'.stage = t.stage) (hwatch : t'.watch = t.watch) (hstatus : r'.status = r.status)
    (hcancel : r'.cancelEvent = r.cancelEvent)
    (hrecords : r'.tokenUsageRecords = r.tokenUsageRecords) : Sound i r' t' listed cut where
  stage := hstage ▸ h.stage
  worker := hworker
  watch := by
    rw [hwatch]
    exact h.watch.mono hqueued (fun _ => ⟨hunfinished, congrArg _ hstatus⟩) fun hc => hcancel.trans hc
  fresh hfresh := absurd (hstage.symm.trans hfresh) (h.called_of_worker hbusy)
  listed hcalled hopen := h.listed (hstage ▸ hcalled) (hstatus ▸ hopen)
  records hne := by
    rw [hstatus]
    exact h.records (hrecords ▸ hne)
  collected hover hcut := by
    rw [hstatus] at hover
    exact absurd (h.collected hover hcut).1 hunfinished

theorem Sound.cancel {r : SubagentResult M} {t : Task I} {listed cut : Prop}
    (h : Sound i r t listed cut) (hcalled : t.stage ≠ .called) :
    Sound i { r with cancelEvent := true } t listed cut where
  stage := h.stage
  worker := by
    have hworker := h.worker
    cases hw : t.worker with
    | idle | dead | finished => trivial
    | queued => rwa [hw] at hworker
    | streaming o =>
      rw [hw] at hworker
      exact ⟨hworker.1, fun _ => rfl⟩
    | checked o => rwa [hw] at hworker
  watch := by
    have hwatch := h.watch
    cases hw : t.watch with
    | idle | «over» => trivial
    | waiting o => rwa [hw] at hwatch
    | expired o =>
      rw [hw] at hwatch
      exact ⟨hwatch.1, hwatch.2.1, rfl⟩
  fresh := fun hfresh => absurd hfresh hcalled
  listed := h.listed
  records := h.records
  collected := h.collected

/-- The invariant. -/
structure World.Told (calls : I → Call R) (w : World I R M) : Prop where
  sound : ∀ i, Sound i (w.objects i) (w.tasks i) (w.find calls i = some i) (.cutShort i ∈ w.log)
  own : ∀ e ∈ w.log, e.Own calls w.objects
  once : (w.log.filterMap Event.recordedOf).Nodup
  flagged : ∀ i, (w.objects i).usageReported = true → i ∈ w.log.filterMap Event.recordedOf

theorem World.Begins.told (h : w.Begins) : w.Told calls where
  sound i := by
    rw [h.objects, h.tasks]
    exact ⟨trivial, trivial, trivial, fun _ => ⟨rfl, rfl, rfl, rfl⟩, fun hne => absurd rfl hne,
      fun hne => absurd rfl hne, fun hover => absurd hover Bool.false_ne_true⟩
  own e he := by simp [h.log] at he
  once := by simp [h.log]
  flagged i hi := by simp [h.objects] at hi

theorem World.Told.kept (h : w.Told calls) : w.Kept calls where
  own := h.own
  once := h.once
  reported i _ _ _ hmem hsome hne :=
    h.flagged i ((h.own _ hmem).2.2.2 hsome hne)
  collected i hover hcut := ((h.sound i).collected hover hcut).2

/-- The invariant holds again, and each subagent is later. -/
structure World.Leads (calls : I → Call R) (w w' : World I R M) : Prop where
  told : w'.Told calls
  evolves : ∀ i, (w.objects i).Evolves (w'.objects i)

theorem World.Leads.trans {w'' : World I R M} (h : w.Leads calls w') (h' : w'.Leads calls w'') :
    w.Leads calls w'' :=
  ⟨h'.told, fun i => (h.evolves i).trans (h'.evolves i)⟩

theorem World.Told.reported_of_mem (h : w.Told calls) (hi : i ∈ w.log.filterMap Event.recordedOf) :
    (w.objects i).usageReported = true := by
  obtain ⟨e, he, hrecorded⟩ := mem_filterMap.1 hi
  have hown := h.own e he
  cases e with
  | recorded caller o run records =>
    cases hrecorded
    obtain ⟨rfl, -, -, -, hreported⟩ := hown
    exact hreported
  | _ => cases hrecorded

/-! ### The cache -/

theorem World.Told.cacheUsage (h : w.Told calls) (i : I) (usage : Option TokenUsage) :
    w.Leads calls (w.cacheUsage calls i usage) := by
  rw [World.cacheUsage]
  split
  · exact ⟨⟨h.sound, h.own, h.once, h.flagged⟩, fun _ => .refl⟩
  · exact ⟨h, fun _ => .refl⟩

@[simp] theorem World.cacheUsage_objects (w : World I R M) (usage : Option TokenUsage) :
    (w.cacheUsage calls i usage).objects = w.objects := by
  rw [World.cacheUsage]
  split <;> rfl

@[simp] theorem World.cacheUsage_tasks (w : World I R M) (usage : Option TokenUsage) :
    (w.cacheUsage calls i usage).tasks = w.tasks := by
  rw [World.cacheUsage]
  split <;> rfl

@[simp] theorem World.cacheUsage_find (w : World I R M) (usage : Option TokenUsage) :
    (w.cacheUsage calls i usage).find calls = w.find calls := by
  rw [World.cacheUsage]
  split <;> rfl

/-! ### What a call may change -/

variable [DecidableEq I]

/-- **A call may change what is its own.** -/
theorem World.Told.moves (h : w.Told calls) (r : SubagentResult M) (t : Task I)
    (es : List (Event I R M)) (hobjects : w'.objects = update w.objects i r)
    (htasks : w'.tasks = update w.tasks i t) (hlog : w'.log = w.log ++ es)
    (hfind : ∀ j ≠ i, w.find calls j = some j → w'.find calls j = some j)
    (hevolves : (w.objects i).Evolves r)
    (hsound : Sound i r t (w'.find calls i = some i) (.cutShort i ∈ w'.log))
    (hown : ∀ e ∈ es, e.Own calls w'.objects)
    (honce : (w'.log.filterMap Event.recordedOf).Nodup)
    (hflagged : r.usageReported = true → i ∈ w'.log.filterMap Event.recordedOf) :
    w.Leads calls w' := by
  have hall : ∀ j, (w.objects j).Evolves (w'.objects j) := by
    intro j
    rw [hobjects]
    by_cases hj : j = i
    · subst hj
      rwa [update_self]
    · rw [update_of_ne hj]
      exact .refl
  refine ⟨⟨fun j => ?_, fun e he => ?_, honce, fun j hj => ?_⟩, hall⟩
  · by_cases hj : j = i
    · subst hj
      rw [hobjects, htasks, update_self, update_self]
      exact hsound
    · rw [hobjects, htasks, update_of_ne hj, update_of_ne hj]
      refine (h.sound j).mono (hfind j hj) fun hcut => ?_
      rw [hlog]
      exact mem_append_left _ hcut
  · rw [hlog] at he
    rcases mem_append.1 he with he | he
    · exact (h.own e he).mono hall
    · exact hown e he
  · by_cases hji : j = i
    · subst hji
      rw [hobjects, update_self] at hj
      exact hflagged hj
    · rw [hobjects, update_of_ne hji] at hj
      rw [hlog, filterMap_append]
      exact mem_append_left _ (h.flagged j hj)

/-- A call changes what is its own, and neither the table nor the journals. -/
theorem World.Told.changes (h : w.Told calls) (r : SubagentResult M) (t : Task I)
    (es : List (Event I R M)) (hobjects : w'.objects = update w.objects i r)
    (htasks : w'.tasks = update w.tasks i t) (hlog : w'.log = w.log ++ es)
    (hfind : w'.backgroundTasks = w.backgroundTasks) (hevolves : (w.objects i).Evolves r)
    (hreported : r.usageReported = (w.objects i).usageReported)
    (hsound : Sound i r t (w.find calls i = some i) (.cutShort i ∈ w.log ++ es))
    (hown : ∀ e ∈ es, e.Own calls w'.objects) (hnone : es.filterMap Event.recordedOf = []) :
    w.Leads calls w' := by
  have hsame : w'.find calls = w.find calls := by
    funext j
    exact congrFun hfind _
  have hrecorded : w'.log.filterMap Event.recordedOf = w.log.filterMap Event.recordedOf := by
    rw [hlog, filterMap_append, hnone, append_nil]
  refine h.moves r t es hobjects htasks hlog (fun j _ hj => ?_) hevolves ?_ hown ?_ fun hr => ?_
  · rwa [hsame]
  · rw [hsame, hlog]
    exact hsound
  · rw [hrecorded]
    exact h.once
  · rw [hrecorded]
    exact h.flagged i (hreported ▸ hr)

theorem World.Told.onTask (h : w.Told calls) (f : Task I → Task I)
    (hsound : Sound i (w.objects i) (f (w.tasks i)) (w.find calls i = some i)
      (.cutShort i ∈ w.log)) : w.Leads calls (w.onTask i f) :=
  h.changes (w.objects i) (f (w.tasks i)) [] (update_eq_self _ _).symm rfl
    (append_nil _).symm rfl .refl rfl (hsound.mono id fun hcut => mem_append_left _ hcut)
    (fun _ he => absurd he not_mem_nil) rfl

theorem World.goTo_stage (w : World I R M) {stage : Stage I} :
    ((w.goTo i stage).tasks i).stage = stage := by
  show (update w.tasks i _ i).stage = stage
  rw [update_self]

theorem World.Told.goTo (h : w.Told calls) (stage : Stage I) (hcalled : (w.tasks i).stage ≠ .called)
    (hstage : stage ≠ .called) (hsound : stage.Sound i (w.find calls i = some i)) :
    w.Leads calls (w.goTo i stage) :=
  h.onTask _
    { h.sound i with
      stage := hsound
      fresh := fun hfresh => absurd hfresh hstage
      listed := fun _ hopen => (h.sound i).listed hcalled hopen }

theorem World.Told.note (h : w.Told calls) (i : I) (es : List (Event I R M))
    (hown : ∀ e ∈ es, e.Own calls w.objects) (hnone : es.filterMap Event.recordedOf = []) :
    w.Leads calls (w.note es) :=
  h.changes (w.objects i) (w.tasks i) es (update_eq_self _ _).symm
    (update_eq_self _ _).symm rfl rfl .refl rfl
    ((h.sound i).mono id fun hcut => mem_append_left _ hcut) hown hnone

/-! ### Usage -/

section Usage

variable (w : World I R M)

@[simp] theorem World.reportUsage_tasks : (w.reportUsage calls i o).tasks = w.tasks := by
  rw [World.reportUsage]
  split
  · rfl
  · split <;> rfl

@[simp] theorem World.reportUsage_find :
    (w.reportUsage calls i o).find calls = w.find calls := by
  rw [World.reportUsage]
  split
  · rfl
  · split <;> rfl

@[simp] theorem World.reportUsage_payload :
    ((w.reportUsage calls i o).objects j).payload = (w.objects j).payload := by
  rw [World.reportUsage]
  split
  · rfl
  · split
    · rfl
    · show (update w.objects o _ j).payload = _
      by_cases hj : j = o
      · subst hj
        rw [update_self]
        rfl
      · rw [update_of_ne hj]

theorem World.usageReported_reportUsage (hsome : (calls i).recorder.isSome)
    (hne : (w.objects o).tokenUsageRecords ≠ []) :
    ((w.reportUsage calls i o).objects o).usageReported = true := by
  obtain ⟨run, hrun⟩ := isSome_iff_exists.1 hsome
  rw [World.reportUsage]
  split
  · rename_i hskip
    exact hskip.resolve_right hne
  · rw [hrun]
    show (update w.objects o _ o).usageReported = true
    rw [update_self]

end Usage

/-- A call reports its own subagent's usage, if it has not been reported. -/
theorem World.Told.reportUsage (h : w.Told calls) (i : I) :
    w.Leads calls (w.reportUsage calls i i) := by
  have hrefl : w.Leads calls w := ⟨h, fun _ => .refl⟩
  rw [World.reportUsage]
  split
  · exact hrefl
  rename_i hskip
  obtain ⟨hnot, hne⟩ := not_or.1 hskip
  split
  · exact hrefl
  · rename_i run hrun
    have hevolves : (w.objects i).Evolves { w.objects i with usageReported := true } :=
      SubagentResult.evolves_of_payload rfl fun _ => rfl
    have hrecorded : (w.log ++ [Event.recorded i i run (w.objects i).tokenUsageRecords]).filterMap
        Event.recordedOf = w.log.filterMap Event.recordedOf ++ [i] := filterMap_append
    refine h.moves _ (w.tasks i) [.recorded i i run (w.objects i).tokenUsageRecords] rfl
      (update_eq_self _ _).symm rfl (fun _ _ hj => hj) hevolves ?_ ?_ ?_ ?_
    · exact
        { (h.sound i).mono id fun hcut => mem_append_left _ hcut with
          fresh := fun hfresh => absurd
            (congrArg SubagentResult.tokenUsageRecords ((h.sound i).fresh hfresh).1) hne }
    · intro e he
      rw [mem_singleton.1 he]
      show i = i ∧ _ ∧ (update w.objects i _ i).status.isTerminal = true ∧
        _ = (update w.objects i _ i).tokenUsageRecords ∧
        (update w.objects i _ i).usageReported = true
      rw [update_self]
      exact ⟨rfl, hrun, (h.sound i).records hne, rfl, rfl⟩
    · show ((w.log ++ [_]).filterMap Event.recordedOf).Nodup
      rw [hrecorded]
      refine nodup_append.2 ⟨h.once, pairwise_singleton _ i, fun a ha b hb hab => hnot ?_⟩
      rw [mem_singleton.1 hb] at hab
      exact h.reported_of_mem (hab ▸ ha)
    · intro _
      show i ∈ (w.log ++ [_]).filterMap Event.recordedOf
      rw [hrecorded]
      exact mem_append_right _ (mem_singleton.2 rfl)

/-! ### The table -/

/-- A call that is over removes its own entry. -/
theorem World.Told.cleanup (h : w.Told calls) (hstage : (w.tasks i).stage = .over false)
    (hfind : w.find calls i = some i) : w.Leads calls (w.cleanup calls i) := by
  rw [World.cleanup]
  rw [hfind]
  dsimp only
  split
  · rename_i hover
    refine h.moves (w.objects i) (w.tasks i) [.removed i i] (update_eq_self _ _).symm
      (update_eq_self _ _).symm rfl (fun j hj hlisted => ?_) .refl ?_ ?_ ?_ ?_
    · show update w.backgroundTasks (calls i).toolCallId none (calls j).toolCallId =
        some j
      rw [update_of_ne]
      · exact hlisted
      · intro hid
        rw [World.find, hid] at hlisted
        exact hj (some.inj (hlisted.symm.trans hfind))
    · exact
        { (h.sound i).mono id fun hcut => mem_append_left _ hcut with
          stage := hstage ▸ fun hsweeping => absurd hsweeping Bool.false_ne_true
          listed := fun _ hopen => absurd hover (by simp [hopen]) }
    · intro e he
      rw [mem_singleton.1 he]
      exact rfl
    · show ((w.log ++ [Event.removed i i]).filterMap Event.recordedOf).Nodup
      rw [filterMap_append]
      exact (append_nil _).symm ▸ h.once
    · intro hreported
      show i ∈ (w.log ++ [Event.removed i i]).filterMap Event.recordedOf
      rw [filterMap_append]
      exact mem_append_left _ (h.flagged i hreported)
  · exact ⟨h, fun _ => .refl⟩

/-- A call puts its subagent under an id that is free. -/
theorem World.Told.start (h : w.Told calls) (hcalled : (w.tasks i).stage = .called)
    (hfree : w.find calls i = none) : w.Leads calls (w.start calls i) := by
  obtain ⟨hobject, hworker, hwatch, hcollected⟩ := (h.sound i).fresh hcalled
  have hlog : (w.start calls i).log = w.log ++ [] := by
    show w.log ++ ((w.find calls i).map _).toList = _
    rw [hfree]
    rfl
  have hlisted : (w.start calls i).find calls i = some i := update_self ..
  refine h.moves (w.objects i) { w.tasks i with stage := .polling 0 0, worker := .queued } []
    (update_eq_self _ _).symm rfl hlog (fun j hj hin => ?_) .refl ?_
    (fun _ he => absurd he not_mem_nil) ?_ fun hreported => ?_
  · show update w.backgroundTasks (calls i).toolCallId (some i) (calls j).toolCallId =
      some j
    rw [update_of_ne]
    · exact hin
    · intro hid
      rw [World.find, hid] at hin
      exact some_ne_none _ (hin.symm.trans hfree)
  · rw [hobject]
    refine ⟨hlisted, rfl, ?_, fun hfresh => ?_, fun _ _ => hlisted, fun hne => absurd rfl hne,
      fun hover => absurd hover Bool.false_ne_true⟩
    · show (w.tasks i).watch.Sound i _ _
      rw [hwatch]
      trivial
    · cases hfresh
  · rw [hlog, append_nil]
    exact h.once
  · rw [hlog, append_nil]
    exact h.flagged i hreported

/-! ### Workers and the threads that wait for them -/

theorem World.Told.begun (h : w.Told calls) (hworker : (w.tasks i).worker = .queued)
    (hopen : (w.objects i).status.isTerminal = false) :
    w.Leads calls (((w.onObject i fun r => { r with status := .running }).onTask i fun t =>
      { t with worker := .streaming i, watch := .waiting i }).note [.wrote i i]) := by
  have hsound := h.sound i
  have hcalled := hsound.called_of_worker (by simp [hworker])
  refine h.changes { w.objects i with status := .running }
    { w.tasks i with worker := .streaming i, watch := .waiting i } [.wrote i i] rfl rfl rfl rfl
    (SubagentResult.evolves_of_open hopen prefix_rfl rfl) rfl
    { stage := hsound.stage
      worker := ⟨rfl, fun hover => absurd hover Bool.false_ne_true⟩
      watch := ⟨rfl, by simp, fun _ => rfl⟩
      fresh := fun hfresh => absurd hfresh hcalled
      listed := fun _ _ => hsound.listed hcalled hopen
      records := fun hne => absurd (hsound.records hne) (by simp [hopen])
      collected := fun hover => absurd hover Bool.false_ne_true } (fun e he => ?_) rfl
  rw [mem_singleton.1 he]
  exact rfl

theorem World.Told.expired (h : w.Told calls) (hwatch : (w.tasks i).watch = .waiting i) :
    w.Leads calls (((w.onObject i fun r => { r with cancelEvent := true }).onTask i fun t =>
      { t with watch := .expired i }).note [.cancelled i i]) := by
  have hsound := h.sound i
  obtain ⟨-, hqueued, -⟩ := hsound.waiting hwatch
  have hcalled := hsound.called_of_watch (by simp [hwatch])
  refine h.changes { w.objects i with cancelEvent := true }
    { w.tasks i with watch := .expired i } [.cancelled i i] rfl rfl rfl rfl
    (SubagentResult.evolves_of_payload rfl fun hreported => hreported) rfl
    { (hsound.cancel hcalled).mono id fun hcut => mem_append_left _ hcut with
      watch := ⟨rfl, hqueued, rfl⟩
      fresh := fun hfresh => absurd hfresh hcalled } (fun e he => ?_) rfl
  rw [mem_singleton.1 he]
  exact rfl

/-- A worker ends its subagent. -/
theorem World.Told.settle (h : w.Told calls) (hworker : (w.tasks i).worker = .streaming i)
    {status : SubagentStatus} (hstatus : status.isTerminal = true)
    (result error stopReason : Option String) :
    w.Leads calls (w.settle i i status result error stopReason) := by
  have hsound := h.sound i
  have hcalled := hsound.called_of_worker (by simp [hworker])
  refine h.changes _ { w.tasks i with worker := .finished } [.wrote i i] rfl rfl rfl rfl
    SubagentResult.evolves_trySetTerminal SubagentResult.trySetTerminal_usageReported ?_ ?_ rfl
  · have hover : ((w.objects i).trySetTerminal status result error stopReason
        (some (w.tasks i).collected)).status.isTerminal = true :=
      SubagentResult.isTerminal_trySetTerminal hstatus
    refine
      { stage := hsound.stage
        worker := trivial
        watch := hsound.watch.mono (by simp) (fun hne => absurd rfl hne) (by simp)
        fresh := fun hfresh => absurd hfresh hcalled
        listed := fun _ hopen => absurd hover (by simp [hopen])
        records := fun _ => hover
        collected := fun _ hcut => ⟨rfl, ?_⟩ }
    -- what the thread that waits has not ended is still open while the worker streams
    have hopen : (w.objects i).status.isTerminal = false := by
      refine Bool.eq_false_iff.2 fun hover => ?_
      have hfinished := (hsound.collected hover fun hc => hcut (mem_append_left _ hc)).1
      rw [hworker] at hfinished
      cases hfinished
    show ((w.objects i).trySetTerminal status result error stopReason
      (some (w.tasks i).collected)).tokenUsageRecords = (w.tasks i).collected
    rw [SubagentResult.trySetTerminal_of_open hopen]
    rfl
  · intro e he
    rw [mem_singleton.1 he]
    exact rfl

/-- The thread that waits ends its subagent, if no worker is about to write. -/
theorem World.Told.cut (h : w.Told calls) (hwatch : (w.tasks i).watch ≠ .idle)
    (hworker : (w.tasks i).worker ≠ .queued) (hchecked : (w.tasks i).worker.isChecked = false)
    (hcancel : ∀ o, (w.tasks i).worker = .streaming o → (w.objects i).cancelEvent = true)
    {status : SubagentStatus} (hstatus : status.isTerminal = true) (error : String) :
    w.Leads calls (w.cut i i status error) := by
  have hsound := h.sound i
  have hcalled := hsound.called_of_watch hwatch
  have hover : ((w.objects i).trySetTerminal status none (some error) none
      none).status.isTerminal = true :=
    SubagentResult.isTerminal_trySetTerminal hstatus
  refine h.changes _ { w.tasks i with watch := .over } _ rfl rfl rfl rfl
    SubagentResult.evolves_trySetTerminal SubagentResult.trySetTerminal_usageReported
    { stage := hsound.stage
      worker := ?_
      watch := trivial
      fresh := fun hfresh => absurd hfresh hcalled
      listed := fun _ hopen => absurd hover (by simp [hopen])
      records := fun _ => hover
      collected := fun _ hcut => ?_ } ?_ ?_
  · show (w.tasks i).worker.Sound i _
    cases hw : (w.tasks i).worker with
    | idle | dead | finished => trivial
    | queued => exact absurd hw hworker
    | streaming o =>
      have hholder := hsound.worker
      rw [hw] at hholder
      exact ⟨hholder.1, fun _ => by simpa using hcancel o hw⟩
    | checked o => simp [hw, Worker.isChecked] at hchecked
  · -- the worker has ended the subagent before
    cases hbefore : (w.objects i).status.isTerminal with
    | false => simp [hbefore] at hcut
    | true =>
      have hnot : Event.cutShort i ∉ w.log := fun hc => hcut (mem_append_left _ hc)
      show _ ∧
        ((w.objects i).trySetTerminal status none (some error) none none).tokenUsageRecords = _
      rw [SubagentResult.trySetTerminal_of_settled hbefore]
      exact hsound.collected hbefore hnot
  · intro e he
    rcases mem_cons.1 he with rfl | he
    · exact rfl
    · split at he
      · cases he
      · rw [mem_singleton.1 he]
        trivial
  · split <;> rfl

/-! ### Calls -/

/-- A round of a call's loop. -/
theorem World.Told.poll (h : w.Told calls) {pollCount lastMessageCount : ℕ}
    (hstage : (w.tasks i).stage = .polling pollCount lastMessageCount) :
    w.Leads calls (w.poll calls i pollCount lastMessageCount) := by
  have hfind : w.find calls i = some i := by
    have hlisted := (h.sound i).stage
    rwa [hstage] at hlisted
  have hrunning : w.Leads calls (w.note (w.running i i lastMessageCount)) := by
    refine h.note i _ (fun e he => ?_) ?_
    · obtain ⟨p, hp, rfl⟩ := mem_map.1 he
      exact ⟨rfl, mem_zipIdx_iff_getElem?.1 (mem_of_mem_drop hp)⟩
    · rw [World.running, filterMap_map]
      exact filterMap_eq_nil_iff.2 fun _ _ => rfl
  rw [World.poll]
  rw [hfind]
  dsimp only
  split
  · rename_i result hresult
    let usage := summarizeUsage (w.objects i).tokenUsageRecords
    let cached := (w.note (w.running i i lastMessageCount)).cacheUsage calls i usage
    let reported := cached.reportUsage calls i i
    have hcache := hrunning.trans (hrunning.told.cacheUsage i usage)
    have hreport := hcache.trans (hcache.told.reportUsage i)
    have htasks : reported.tasks = w.tasks := by
      simp only [reported, cached, World.reportUsage_tasks, World.cacheUsage_tasks]
      rfl
    have hlisted : reported.find calls i = some i := by
      simp only [reported, cached, World.reportUsage_find, World.cacheUsage_find]
      exact hfind
    have hcached : cached.objects = w.objects := World.cacheUsage_objects _ _
    have hpayload : (reported.objects i).payload = (w.objects i).payload := by
      rw [World.reportUsage_payload, hcached]
    have hreturned : w.Leads calls (reported.note [.returned i i result usage]) := by
      refine hreport.trans (hreport.told.note i _ (fun e he => ?_) rfl)
      rw [mem_singleton.1 he]
      refine ⟨rfl, ?_, ?_, fun hsome hne => ?_⟩
      · rw [← SubagentResult.taskResult?_payload, hpayload]
        exact hresult
      · rw [SubagentResult.tokenUsageRecords_eq hpayload]
      · refine World.usageReported_reportUsage _ hsome ?_
        rwa [hcached, ← SubagentResult.tokenUsageRecords_eq hpayload]
    have hcalled : ((reported.note [.returned i i result usage]).tasks i).stage ≠ .called := by
      show (reported.tasks i).stage ≠ .called
      simp [htasks, hstage]
    have hover := hreturned.trans (hreturned.told.goTo (.over false) hcalled (by simp)
      fun hsweeping => absurd hsweeping Bool.false_ne_true)
    refine hover.trans (hover.told.cleanup ?_ hlisted)
    exact World.goTo_stage _
  · refine hrunning.trans (hrunning.told.goTo _ ?_ (by simp) ⟨rfl, hfind⟩)
    show (w.tasks i).stage ≠ .called
    simp [hstage]

theorem World.Told.requestCancel (h : w.Told calls) (hcalled : (w.tasks i).stage ≠ .called)
    (hfind : w.find calls i = some i) : w.Leads calls (w.requestCancel calls i) := by
  rw [World.requestCancel]
  rw [hfind]
  refine h.changes { w.objects i with cancelEvent := true } (w.tasks i) [.cancelled i i] rfl
    (update_eq_self _ _).symm rfl rfl
    (SubagentResult.evolves_of_payload rfl fun hreported => hreported) rfl ?_ (fun e he => ?_) rfl
  · exact ((h.sound i).mono id fun hcut => mem_append_left _ hcut).cancel hcalled
  · rw [mem_singleton.1 he]
    exact rfl

theorem World.requestCancel_tasks : (w.requestCancel calls i).tasks = w.tasks := by
  rw [World.requestCancel]
  split <;> rfl

theorem World.requestCancel_find : (w.requestCancel calls i).find calls = w.find calls := by
  rw [World.requestCancel]
  split <;> rfl

theorem World.Told.pollingTimedOut (h : w.Told calls) (hcalled : (w.tasks i).stage ≠ .called)
    (hfind : w.find calls i = some i) : w.Leads calls (w.pollingTimedOut calls i i) := by
  let usage := summarizeUsage ((w.reportUsage calls i i).objects i).tokenUsageRecords
  let cached := (w.reportUsage calls i i).cacheUsage calls i usage
  have hreport := h.reportUsage i
  have hcache := hreport.trans (hreport.told.cacheUsage i usage)
  have htasks : cached.tasks = w.tasks := by
    simp only [cached, World.reportUsage_tasks, World.cacheUsage_tasks]
  have hlisted : cached.find calls i = some i := by
    simp only [cached, World.reportUsage_find, World.cacheUsage_find]
    exact hfind
  have hcancel := hcache.trans (hcache.told.requestCancel (htasks ▸ hcalled) hlisted)
  have hnote := hcancel.trans (hcancel.told.note i
    [.pollingTimedOut i i ((w.reportUsage calls i i).objects i).status] (fun e he => by
      rw [mem_singleton.1 he]
      exact rfl) rfl)
  refine hnote.trans (hnote.told.goTo (.over true) ?_ (by simp) fun _ => ?_)
  · show ((cached.requestCancel calls i).tasks i).stage ≠ .called
    rw [World.requestCancel_tasks, htasks]
    exact hcalled
  · show (cached.requestCancel calls i).find calls i = some i
    rw [World.requestCancel_find]
    exact hlisted

/-- The end of a call that was cancelled, which has its own subagent. -/
theorem World.Told.afterCancel (h : w.Told calls) (hcalled : (w.tasks i).stage ≠ .called)
    (hfind : w.find calls i = some i) : w.Leads calls (w.afterCancel calls i (some i)) := by
  let popped : World I R M :=
    { w with usageCache := update w.usageCache (calls i).toolCallId none }
  have hpop : w.Leads calls popped :=
    ⟨⟨h.sound, h.own, h.once, h.flagged⟩, fun _ => .refl⟩
  have hreport := hpop.trans (hpop.told.reportUsage i)
  have hstage : ((popped.reportUsage calls i i).tasks i).stage ≠ .called := by
    rw [World.reportUsage_tasks]
    exact hcalled
  have hlisted : (popped.reportUsage calls i i).find calls i = some i := by
    rw [World.reportUsage_find]
    exact hfind
  unfold World.afterCancel
  dsimp only
  split
  · have hover := hreport.trans (hreport.told.goTo (.over false) hstage (by simp)
      fun hsweeping => absurd hsweeping Bool.false_ne_true)
    exact hover.trans (hover.told.cleanup (World.goTo_stage _) hlisted)
  · exact hreport.trans (hreport.told.goTo (.over true) hstage (by simp) fun _ => hlisted)

/-! ### Steps -/

/-- The worker looks whether it is cancelled. -/
theorem World.Told.check (h : w.Told calls)
    (hstep : step calls w (.check i) = some w') : w.Leads calls w' := by
  simp only [Subagents.step] at hstep
  split at hstep
  · rename_i o hworker
    have hsound := h.sound i
    obtain ⟨rfl, hcancelled⟩ := hsound.streaming hworker
    split at hstep <;> cases hstep
    · exact h.settle hworker rfl _ _ _
    · rename_i hcancel
      have hopen : (w.objects o).status.isTerminal = false :=
        Bool.eq_false_iff.2 fun hover => hcancel (hcancelled hover)
      exact h.onTask _ (hsound.goOn (by simp [hworker]) (by simp [hworker]) ⟨rfl, hopen⟩
        (by simp) rfl rfl rfl rfl rfl)
  · cases hstep

/-- The worker takes messages down. -/
theorem World.Told.capture (h : w.Told calls) {messages : List M}
    (hstep : step calls w (.capture i messages) = some w') : w.Leads calls w' := by
  simp only [Subagents.step] at hstep
  split at hstep
  · rename_i o hworker
    cases hstep
    have hsound := h.sound i
    obtain ⟨rfl, hopen⟩ : o = i ∧ (w.objects i).status.isTerminal = false := by
      have hchecked := hsound.worker
      rwa [hworker] at hchecked
    have hlater := hsound.mono id fun hcut => mem_append_left [Event.wrote o o] hcut
    refine h.changes { w.objects o with aiMessages := (w.objects o).aiMessages ++ messages }
      { w.tasks o with worker := .streaming o } [.wrote o o] rfl rfl rfl rfl
      (SubagentResult.evolves_of_open hopen (prefix_append _ _) rfl) rfl
      (hlater.goOn (by simp [hworker]) (by simp [hworker])
        ⟨rfl, fun hover => absurd hover (by simp [hopen])⟩ (by simp) rfl rfl rfl rfl rfl)
      (fun e he => ?_) rfl
    rw [mem_singleton.1 he]
    exact rfl
  · cases hstep

/-- The wait for the worker ends by the time limit. -/
theorem World.Told.timeOut (h : w.Told calls) (horderly : Orderly calls w (.timeOut i))
    (hstep : step calls w (.timeOut i) = some w') : w.Leads calls w' := by
  simp only [Subagents.step] at hstep
  split at hstep
  · rename_i o hwatch
    cases hstep
    have hexpired := (h.sound i).watch
    rw [hwatch] at hexpired
    obtain ⟨rfl, hqueued, hcancel⟩ := hexpired
    exact h.cut (by simp [hwatch]) hqueued (horderly.2 _ rfl) (fun _ _ => hcancel) rfl _
  · cases hstep

/-- The wait for the worker ends with an error. -/
theorem World.Told.crash (h : w.Told calls) {error : String}
    (hstep : step calls w (.crash i error) = some w') : w.Leads calls w' := by
  simp only [Subagents.step] at hstep
  split at hstep
  · rename_i o hwatch hworker
    have hsound := h.sound i
    obtain ⟨rfl, hqueued, hopen⟩ := hsound.waiting hwatch
    have hcalled := hsound.called_of_watch (by simp [hwatch])
    rw [hsound.listed hcalled (hopen (by simp [hworker]))] at hstep
    cases hstep
    exact h.cut (by simp [hwatch]) hqueued (by rw [hworker]; rfl) (by simp [hworker]) rfl _
  · cases hstep

/-- The worker begins. -/
theorem World.Told.«begin» (h : w.Told calls)
    (hstep : step calls w (.«begin» i) = some w') : w.Leads calls w' := by
  simp only [Subagents.step] at hstep
  split at hstep
  · rename_i hworker
    have hsound := h.sound i
    have hopen : (w.objects i).status.isTerminal = false := by
      have hqueued := hsound.worker
      rwa [hworker] at hqueued
    rw [hsound.listed (hsound.called_of_worker (by simp [hworker])) hopen] at hstep
    cases hstep
    exact h.begun hworker hopen
  · cases hstep

/-- The wait for the worker ends with it. -/
theorem World.Told.join (h : w.Told calls)
    (hstep : step calls w (.join i) = some w') : w.Leads calls w' := by
  simp only [Subagents.step] at hstep
  split at hstep
  · rename_i o hwatch hworker
    cases hstep
    have hsound := h.sound i
    exact h.onTask _
      { hsound with
        watch := trivial
        fresh := fun hfresh => absurd hfresh (hsound.called_of_watch (by simp [hwatch])) }
  · cases hstep

/-- The caller wakes up between two polls. -/
theorem World.Told.wake (h : w.Told calls)
    (hstep : step calls w (.wake i) = some w') : w.Leads calls w' := by
  simp only [Subagents.step] at hstep
  split at hstep
  · rename_i o pollCount lastMessageCount hstage
    have hlisted := (h.sound i).stage
    rw [hstage] at hlisted
    obtain ⟨rfl, hfind⟩ := hlisted
    have hcalled : (w.tasks o).stage ≠ .called := by simp [hstage]
    split at hstep <;> cases hstep
    · exact h.pollingTimedOut hcalled hfind
    · exact h.goTo _ hcalled (by simp) hfind
  · cases hstep

/-- The caller is cancelled, and cancels its subagent. -/
theorem World.Told.cancel (h : w.Told calls)
    (hstep : step calls w (.cancel i) = some w') : w.Leads calls w' := by
  simp only [Subagents.step] at hstep
  split at hstep
  · rename_i o pollCount lastMessageCount hstage
    cases hstep
    have hlisted := (h.sound i).stage
    rw [hstage] at hlisted
    obtain ⟨rfl, hfind⟩ := hlisted
    have hcalled : (w.tasks o).stage ≠ .called := by simp [hstage]
    have hcancel := h.requestCancel hcalled hfind
    refine hcancel.trans (hcancel.told.goTo .awaiting ?_ (by simp) ?_)
    · rwa [World.requestCancel_tasks]
    · rwa [World.requestCancel_find]
  · cases hstep

/-- The caller looks whether the subagent has ended. -/
theorem World.Told.look (h : w.Told calls)
    (hstep : step calls w (.look i) = some w') : w.Leads calls w' := by
  simp only [Subagents.step] at hstep
  split at hstep
  · rename_i o hstage hfind
    split at hstep <;> cases hstep
    have hlisted := (h.sound i).stage
    rw [hstage] at hlisted
    obtain rfl := some.inj (hlisted.symm.trans hfind)
    exact h.goTo _ (by simp [hstage]) (by simp) ⟨rfl, hlisted⟩
  · cases hstep

/-- The caller's wait for a cancelled subagent ends. -/
theorem World.Told.finish (h : w.Told calls)
    (hstep : step calls w (.finish i) = some w') : w.Leads calls w' := by
  simp only [Subagents.step] at hstep
  split at hstep
  · rename_i o hstage
    cases hstep
    have hlisted := (h.sound i).stage
    rw [hstage] at hlisted
    obtain ⟨rfl, hfind⟩ := hlisted
    exact h.afterCancel (by simp [hstage]) hfind
  · cases hstep

/-- The caller waits no longer for a subagent that it has cancelled. -/
theorem World.Told.giveUp (h : w.Told calls)
    (hstep : step calls w (.giveUp i) = some w') : w.Leads calls w' := by
  simp only [Subagents.step] at hstep
  have hsound := (h.sound i).stage
  split at hstep
  · rename_i hstage
    rw [hstage] at hsound
    cases hstep
    rw [hsound]
    exact h.afterCancel (by simp [hstage]) hsound
  · rename_i o hstage
    rw [hstage] at hsound
    cases hstep
    rw [hsound.2]
    exact h.afterCancel (by simp [hstage]) hsound.2
  · cases hstep

/-- The caller takes its ended subagent off the table. -/
theorem World.Told.sweep (h : w.Told calls)
    (hstep : step calls w (.sweep i) = some w') : w.Leads calls w' := by
  simp only [Subagents.step] at hstep
  split at hstep
  · rename_i hstage
    have hfind : w.find calls i = some i := by
      have hlisted := (h.sound i).stage
      rw [hstage] at hlisted
      exact hlisted rfl
    rw [hfind] at hstep
    dsimp only at hstep
    split at hstep <;> cases hstep
    have hover := h.goTo (i := i) (.over false) (by simp [hstage]) (by simp)
      fun hsweeping => absurd hsweeping Bool.false_ne_true
    exact hover.trans (hover.told.cleanup (World.goTo_stage _) hfind)
  · cases hstep

/-- **A step keeps the invariant**, and a terminal status stays. -/
theorem World.Told.step (h : w.Told calls) {a : Act I M} (horderly : Orderly calls w a)
    (hstep : step calls w a = some w') : w.Leads calls w' := by
  cases a with
  | start i =>
    simp only [Subagents.step] at hstep
    split at hstep
    · rename_i hstage
      cases hstep
      exact h.start hstage (horderly.1 i rfl)
    · cases hstep
  | «begin» i => exact h.«begin» hstep
  | check i => exact h.check hstep
  | capture i messages => exact h.capture hstep
  | count i usage =>
    simp only [Subagents.step] at hstep
    split at hstep
    · rename_i o hworker
      cases hstep
      have hsound := h.sound i
      exact h.onTask _ (hsound.goOn (by simp [hworker]) (by simp [hworker]) hsound.worker
        (by simp [hworker]) rfl rfl rfl rfl rfl)
    · cases hstep
  | settle i outcome =>
    simp only [Subagents.step] at hstep
    split at hstep
    · rename_i o _ _ hworker
      cases hstep
      obtain ⟨rfl, -⟩ := (h.sound i).streaming hworker
      exact h.settle hworker rfl _ _ _
    · rename_i o _ _ hworker
      cases hstep
      obtain ⟨rfl, -⟩ := (h.sound i).streaming hworker
      exact h.settle hworker rfl _ _ _
    · cases hstep
  | die i =>
    simp only [Subagents.step] at hstep
    split at hstep
    · rename_i o hworker
      cases hstep
      exact h.onTask _ ((h.sound i).goOn (by simp [hworker]) (by simp [hworker]) trivial (by simp)
        rfl rfl rfl rfl rfl)
    · cases hstep
  | join i => exact h.join hstep
  | expire i =>
    simp only [Subagents.step] at hstep
    split at hstep
    · rename_i o hwatch
      cases hstep
      obtain ⟨rfl, -⟩ := (h.sound i).waiting hwatch
      exact h.expired hwatch
    · cases hstep
  | timeOut i => exact h.timeOut horderly hstep
  | crash i error => exact h.crash hstep
  | poll i =>
    simp only [Subagents.step] at hstep
    split at hstep
    · rename_i hstage
      cases hstep
      exact h.poll hstage
    · cases hstep
  | wake i => exact h.wake hstep
  | cancel i => exact h.cancel hstep
  | look i => exact h.look hstep
  | finish i => exact h.finish hstep
  | giveUp i => exact h.giveUp hstep
  | sweep i => exact h.sweep hstep
  | leave i =>
    simp only [Subagents.step] at hstep
    split at hstep
    · rename_i hstage
      cases hstep
      exact h.goTo _ (by simp [hstage]) (by simp)
        fun hsweeping => absurd hsweeping Bool.false_ne_true
    · cases hstep

/-- **Every task call has its own subagent's outcome, once**, where no call starts under an id that
is in the table, and no timeout is written while a worker is about to write. -/
theorem own_outcome {w₀ : World I R M} (hbegins : w₀.Begins)
    (hrun : Runs (step calls) (Orderly calls) w₀ w)
    (hlater : Runs (step calls) (Orderly calls) w w') :
    w.Kept calls ∧ ∀ i, (w.objects i).Evolves (w'.objects i) := by
  have htold : w.Told calls := hrun.invariant hbegins.told fun _ _ _ h horderly hstep =>
    (h.step horderly hstep).told
  have hleads : w.Leads calls w' := hlater.invariant ⟨htold, fun _ => .refl⟩
    fun _ _ _ h horderly hstep => h.trans (h.told.step horderly hstep)
  exact ⟨htold.kept, hleads.evolves⟩

/-! ### Two calls with one id -/

inductive DemoCaller where
  | first
  | second
  deriving DecidableEq

/-- Two runs, in which the provider has called its first tool call by the same id. -/
def demoCalls : DemoCaller → Call String
  | .first => ⟨"call_0", 900, some "run-1", true⟩
  | .second => ⟨"call_0", 900, some "run-2", true⟩

/-- No call has started. -/
def demoWorld : World DemoCaller String String where
  objects _ := {}
  tasks _ := {}
  backgroundTasks _ := none
  usageCache _ := none
  log := []

theorem demoWorld_begins : demoWorld.Begins := ⟨fun _ => rfl, fun _ => rfl, fun _ => rfl, rfl⟩

/-- One call after the other, and the second is timed out. -/
def demoActs : List (Act DemoCaller String) :=
  [.start .first, .begin .first, .check .first, .capture .first ["tea"], .poll .first,
    .count .first ⟨3, 4, 7⟩, .settle .first (.completed "tea" none), .join .first, .wake .first,
    .poll .first, .start .second, .begin .second, .expire .second, .timeOut .second, .poll .second]

theorem own_outcome_demo : ∃ w, runWith (step demoCalls) (Orderly demoCalls) demoWorld demoActs =
    some w ∧ w.Kept demoCalls ∧ ∀ i, (w.objects i).Evolves (w.objects i) := by
  obtain ⟨w, hw⟩ : ∃ w, runWith (step demoCalls) (Orderly demoCalls) demoWorld demoActs = some w :=
    isSome_iff_exists.mp (by decide +kernel)
  exact ⟨w, hw, own_outcome demoWorld_begins (runs_of_runWith hw) .refl⟩

/-- **A call returns what another user's subagent has found**, when both calls have one id. -/
theorem outcome_of_another : ¬∀ w w' : World DemoCaller String String,
    Runs (step demoCalls) (fun _ _ => True) demoWorld w →
    Runs (step demoCalls) (fun _ _ => True) w w' →
      w.Kept demoCalls ∧ ∀ i, (w.objects i).Evolves (w'.objects i) := by
  intro h
  have hlast : ((runWith (step demoCalls) (fun _ _ => True) demoWorld
      [.start .first, .start .second, .begin .second, .check .second, .capture .second ["tea"],
        .settle .second (.completed "tea" none), .poll .first]).any fun w =>
      .returned .first .second (.completed (some "tea") none) none ∈ w.log) = true := by
    decide +kernel
  obtain ⟨w, hw, hreturned⟩ := (any_eq_true _ _).mp hlast
  have hown := (h w w (runs_of_runWith hw) .refl).1.own _ (of_decide_eq_true hreturned)
  cases hown.1

/-- A worker that has seen no cancellation gives a message to a subagent that has timed out
since. -/
example : ((runWith (step demoCalls) (fun _ _ => True) demoWorld
    [.start .first, .begin .first, .check .first, .expire .first, .timeOut .first,
      .capture .first ["tea"]]).any fun w =>
    (w.objects .first).status = .timedOut ∧ (w.objects .first).aiMessages = ["tea"]) = true := by
  decide +kernel

end AfterFlow.Subagents
