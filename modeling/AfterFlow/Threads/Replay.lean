import AfterFlow.Threads.Turns

/-!
# What a regeneration replays

Every answer of the thread stands behind the question of its run, and the first checkpoint that has
the question comes right after the one that the question was put to. A run from there finds the same
messages.

That is so where a compaction does not come between an answer and its question, and in the other
cases that `Orderly` names.

## Main results

* `World.Seen.base` — the checkpoint that is found
* `turns_addMessages` — what a later step adds
* `World.Kept.step` — what each step keeps
* `regenerate_replays` — a payload replays the turn of its answer
* `question_replaced` — a compaction that leaves an older question
-/

namespace AfterFlow.Threads.Regeneration

open Agents.DynamicContext Transition List Option
open Agents (Summarizer preserveDynamicContextReminders prepareCompaction prepareCompaction_perm)

variable {s : Summarizer} {R : Reading} {w w' : World} {messages updates l : List Message}
  {m x : Message} {context : Context} {T : Turn}

/-! ### The checkpoints -/

@[simp] theorem World.checkpoints_put (w : World) (v : Values) :
    (w.put v).checkpoints = ⟨some w.checkpoints.length, v⟩ :: w.checkpoints := rfl

/-- The ids of the checkpoints are in order. -/
def World.Numbered (w : World) : Prop :=
  w.checkpoints.map Checkpoint.checkpointId = ((List.range w.checkpoints.length).map some).reverse

theorem World.Numbered.put (h : w.Numbered) (v : Values) : (w.put v).Numbered := by
  rw [World.Numbered] at h ⊢
  simp [h, range_succ]

theorem World.Numbered.isSome {c : Checkpoint} (h : w.Numbered) (hc : c ∈ w.checkpoints) :
    c.checkpointId.isSome := by
  have hmem : c.checkpointId ∈ w.checkpoints.map Checkpoint.checkpointId := mem_map_of_mem hc
  rw [h, mem_reverse] at hmem
  obtain ⟨n, -, hn⟩ := mem_map.mp hmem
  rw [← hn]
  rfl

theorem World.Numbered.checkpointWith {c : Checkpoint} {n : ℕ} (h : w.Numbered)
    (hc : c ∈ w.checkpoints) (hn : c.checkpointId = some n) : w.checkpointWith n = some c := by
  have hnodup : (w.checkpoints.map Checkpoint.checkpointId).Nodup := by
    rw [h, nodup_reverse]
    exact nodup_range.map (some_injective _)
  rw [World.checkpointWith]
  cases hfind : w.checkpoints.find? fun c => c.checkpointId = some n with
  | none => exact absurd (decide_eq_true hn) (find?_eq_none.mp hfind c hc)
  | some c' =>
    have hn' : c'.checkpointId = some n := by simpa using find?_some hfind
    rw [inj_on_of_nodup_map hnodup (mem_of_find?_eq_some hfind) hc (hn'.trans hn.symm)]

/-- The first checkpoint that has the id comes right after one with the values. -/
def World.Seen (w : World) (id : String) (values : Values) : Prop :=
  ∃ newer c p older, w.checkpoints = newer ++ c :: p :: older ∧ p.values = values ∧
    id ∈ idsOf c.values.messages ∧ ∀ c' ∈ p :: older, id ∉ idsOf c'.values.messages

section Scan

variable {id : String} {v values : Values}

theorem World.Seen.of_suffix (h : w.Seen id values) (hsuffix : w.checkpoints <:+ w'.checkpoints) :
    w'.Seen id values := by
  obtain ⟨newer, c, p, older, heq, hrest⟩ := h
  obtain ⟨more, hmore⟩ := hsuffix
  exact ⟨more ++ newer, c, p, older, by rw [← hmore, heq, append_assoc], hrest⟩

theorem World.Seen.put (h : w.Seen id values) (v : Values) : (w.put v).Seen id values :=
  h.of_suffix (suffix_cons _ _)

theorem World.IsNew.seen (h : w.IsNew id) (hne : w.checkpoints ≠ []) (hid : id ∈ idsOf v.messages) :
    (w.put v).Seen id w.values := by
  obtain ⟨p, older, heq⟩ := exists_cons_of_ne_nil hne
  refine ⟨[], ⟨some w.checkpoints.length, v⟩, p, older, ?_, ?_, hid, ?_⟩
  · rw [World.checkpoints_put, heq, nil_append]
  · simp [World.values, heq]
  · rw [← heq]
    exact h

theorem mem_map_messageId (hid : id ≠ "") :
    some id ∈ messages.map messageId ↔ id ∈ idsOf messages := by
  simp only [List.mem_map, idsOf, messageId]
  refine exists_congr fun m => and_congr_right fun _ => ?_
  split
  · rename_i hempty
    exact ⟨fun h => (Option.some_ne_none _ h.symm).elim, fun h => absurd (h.symm.trans hempty) hid⟩
  · exact some_inj

theorem scanForHuman_of_not_mem {previous : Option Checkpoint} {c : Checkpoint}
    {cs : List Checkpoint} (hid : id ≠ "") (h : id ∉ idsOf c.values.messages) :
    scanForHuman id previous (c :: cs) =
      scanForHuman id (if c.checkpointId.isSome then some c else previous) cs := by
  have hnot := mt (mem_map_messageId hid).mp h
  cases previous with
  | none | some => exact if_neg hnot

theorem scanForHuman_of_mem {p c : Checkpoint} {cs : List Checkpoint} (hid : id ≠ "")
    (h : id ∈ idsOf c.values.messages) : scanForHuman id (some p) (c :: cs) = .ok p :=
  if_pos ((mem_map_messageId hid).mpr h)

theorem scanForHuman_eq_ok (hid : id ≠ "") {older newer : List Checkpoint} {p c : Checkpoint}
    {previous : Option Checkpoint} (hp : p.checkpointId.isSome)
    (hbefore : ∀ c' ∈ p :: older, id ∉ idsOf c'.values.messages)
    (hc : id ∈ idsOf c.values.messages) :
    scanForHuman id previous (older ++ p :: c :: newer) = .ok p := by
  induction older generalizing previous with
  | nil =>
    rw [nil_append, scanForHuman_of_not_mem hid (hbefore p (by simp)), if_pos hp]
    exact scanForHuman_of_mem hid hc
  | cons c' older ih =>
    rw [cons_append, scanForHuman_of_not_mem hid (hbefore c' (by simp))]
    exact ih fun x hx => hbefore x (by grind)

/-- **The checkpoint that is found** is the one that the question came after, if none that is not
listed has the question. -/
theorem World.Seen.base {found : Checkpoint} (h : w.Seen id values) (hid : id ≠ "")
    (hnumbered : w.Numbered)
    (hlisted : ∀ c ∈ w.checkpoints.drop regenerateHistoryScanLimit, id ∉ idsOf c.values.messages)
    (hfound : w.findBaseCheckpointBeforeHuman id = .ok found) :
    found ∈ w.checkpoints ∧ found.values = values := by
  obtain ⟨newer, c, p, older, heq, hp, hc, hbefore⟩ := h
  have hpmem : p ∈ w.checkpoints := by simp [heq]
  rw [World.findBaseCheckpointBeforeHuman] at hfound
  have hlt : newer.length < regenerateHistoryScanLimit := by
    by_contra hge
    refine hlisted c ?_ hc
    rw [heq, drop_append_of_le_length (Nat.not_lt.mp hge)]
    simp
  obtain ⟨k, hk⟩ : ∃ k, regenerateHistoryScanLimit - newer.length = k + 1 :=
    ⟨regenerateHistoryScanLimit - newer.length - 1, by omega⟩
  rw [heq, take_append, hk, take_succ_cons, reverse_append, reverse_cons,
    append_assoc, singleton_append] at hfound
  cases k with
  | zero =>
    -- the checkpoint before is not listed
    rw [take_zero, reverse_nil, nil_append, scanForHuman,
      if_pos ((mem_map_messageId hid).mpr hc)] at hfound
    cases hfound
  | succ k =>
    rw [take_succ_cons, reverse_cons, append_assoc, singleton_append,
      scanForHuman_eq_ok hid (hnumbered.isSome hpmem) ?_ hc] at hfound
    · cases hfound
      exact ⟨hpmem, hp⟩
    · intro c' hc'
      refine hbefore c' ?_
      rcases mem_cons.mp hc' with rfl | hc'
      · exact mem_cons_self
      · exact mem_cons_of_mem _ (mem_of_mem_take (mem_reverse.mp hc'))

end Scan

/-! ### The messages of a later step -/

section Later

variable {g : Message → Message} {new : List Message}

theorem splitLast_map {p : Message → Bool} (h : ∀ m ∈ l, p (g m) = p m) :
    splitLast p (l.map g) = (splitLast p l).map fun t => (t.1.map g, g t.2.1, t.2.2.map g) := by
  induction l with
  | nil => rfl
  | cons m l ih =>
    rw [map_cons, splitLast, splitLast, ih fun x hx => h x (mem_cons_of_mem _ hx)]
    cases splitLast p l with
    | some t => rfl
    | none =>
      rw [map_none]
      dsimp only
      rw [h m mem_cons_self]
      split <;> rfl

theorem lastHuman_map (h : ∀ m ∈ l, isVisibleHumanMessage (g m) = isVisibleHumanMessage m ∧
    (isVisibleHumanMessage m = true → g m = m)) : lastHuman (l.map g) = lastHuman l := by
  induction l using List.reverseRecOn with
  | nil => rfl
  | append_singleton l m ih =>
    have hl := ih fun x hx => h x (mem_append_left _ hx)
    obtain ⟨hsame, heq⟩ := h m (by simp)
    rw [map_append, map_singleton]
    cases hm : isVisibleHumanMessage m with
    | true => rw [heq hm, lastHuman_concat hm, lastHuman_concat hm]
    | false =>
      rw [lastHuman_append (by simpa using hsame.trans hm), lastHuman_append (by simpa using hm),
        hl]

theorem lastTurn_map (hhuman : ∀ m ∈ l, isVisibleHumanMessage (g m) = isVisibleHumanMessage m ∧
    (isVisibleHumanMessage m = true → g m = m))
    (hai : ∀ m ∈ l, R.isVisibleAiMessage (g m) = R.isVisibleAiMessage m)
    (hid : ∀ m, (g m).id = m.id) : R.lastTurn (l.map g) = R.lastTurn l := by
  simp only [Reading.lastTurn]
  rw [splitLast_map hai]
  cases hsplit : splitLast R.isVisibleAiMessage l with
  | none => rfl
  | some t =>
    obtain ⟨pre, answer, post⟩ := t
    have hpre : ∀ m ∈ pre, m ∈ l := by
      rw [(splitLast_spec hsplit).1]
      exact fun m hm => mem_append_left _ hm
    simp [lastHuman_map fun m hm => hhuman m (hpre m hm), hid]

/-- A message of the run goes through the reducer. -/
theorem turns_addMessage (hhuman : isVisibleHumanMessage m = false)
    (hover : ∀ x ∈ messages, x.id = m.id →
      isVisibleHumanMessage x = false ∧ R.isVisibleAiMessage x = R.isVisibleAiMessage m) :
    lastHuman (addMessage messages m) = lastHuman messages ∧
      ∀ t ∈ R.lastTurn (addMessage messages m), t ∈ R.lastTurn messages ∨
        (t.1 = m.id ∧ m.id ∉ idsOf messages ∧ t.2 ∈ lastHuman messages) := by
  by_cases hm : m.id ∈ idsOf messages
  · have hplace : addMessage messages m = messages.map fun x => if x.id = m.id then m else x :=
      if_pos hm
    have hvisible : ∀ x ∈ messages,
        isVisibleHumanMessage (if x.id = m.id then m else x) = isVisibleHumanMessage x ∧
          (isVisibleHumanMessage x = true → (if x.id = m.id then m else x) = x) := by
      intro x hx
      split
      · obtain ⟨hnot, -⟩ := hover x hx ‹_›
        exact ⟨hhuman.trans hnot.symm, fun h => absurd (hnot.symm.trans h) Bool.false_ne_true⟩
      · exact ⟨rfl, fun _ => rfl⟩
    rw [hplace]
    refine ⟨lastHuman_map hvisible, fun t ht => .inl ?_⟩
    rwa [lastTurn_map hvisible] at ht
    · intro x hx
      split
      · exact (hover x hx ‹_›).2.symm
      · rfl
    · intro x
      split
      · exact Eq.symm ‹_›
      · rfl
  · have hplace : addMessage messages m = messages ++ [m] := addMessage_fresh hm
    rw [hplace]
    refine ⟨lastHuman_append (by simpa using hhuman), fun t ht => ?_⟩
    cases hai : R.isVisibleAiMessage m with
    | false =>
      rw [lastTurn_append (by simpa using hai)] at ht
      exact .inl ht
    | true =>
      rw [lastTurn_concat hai] at ht
      obtain ⟨question, hquestion, rfl⟩ := map_eq_some_iff.mp ht
      exact .inr ⟨rfl, hm, hquestion⟩

theorem mem_addMessage (h : x ∈ addMessage messages m) : x = m ∨ x ∈ messages := by
  rw [addMessage] at h
  split at h
  · obtain ⟨y, hy, rfl⟩ := mem_map.mp h
    split
    · exact .inl rfl
    · exact .inr hy
  · rcases mem_append.mp h with h | h
    · exact .inr h
    · exact .inl (mem_singleton.mp h)

/-- **What a later step adds**: the latest turn is the one before, or that of a new answer, and the
latest question stays. -/
theorem turns_addMessages (hdistinct : (idsOf updates).Nodup)
    (hhuman : ∀ m ∈ updates, isVisibleHumanMessage m = false)
    (hover : ∀ m ∈ updates, ∀ x ∈ messages, x.id = m.id →
      isVisibleHumanMessage x = false ∧ R.isVisibleAiMessage x = R.isVisibleAiMessage m) :
    lastHuman (addMessages messages updates) = lastHuman messages ∧
      ∀ t ∈ R.lastTurn (addMessages messages updates), t ∈ R.lastTurn messages ∨
        (t.1 ∈ idsOf updates ∧ t.1 ∉ idsOf messages ∧ t.2 ∈ lastHuman messages) := by
  induction updates generalizing messages with
  | nil => exact ⟨rfl, fun t ht => .inl ht⟩
  | cons m updates ih =>
    rw [idsOf_cons, nodup_cons] at hdistinct
    obtain ⟨hlast, hturn⟩ := turns_addMessage (hhuman m mem_cons_self) (hover m mem_cons_self)
    have hover' : ∀ m' ∈ updates, ∀ x ∈ addMessage messages m, x.id = m'.id →
        isVisibleHumanMessage x = false ∧ R.isVisibleAiMessage x = R.isVisibleAiMessage m' := by
      intro m' hm' x hx hid
      rcases mem_addMessage hx with rfl | hx
      · exact absurd (hid ▸ mem_map_of_mem hm') hdistinct.1
      · exact hover m' (mem_cons_of_mem _ hm') x hx hid
    obtain ⟨hlast', hturn'⟩ := ih hdistinct.2
      (fun m' hm' => hhuman m' (mem_cons_of_mem _ hm')) hover'
    refine ⟨hlast'.trans hlast, fun t ht => ?_⟩
    rcases hturn' t ht with ht | ⟨hmem, hnot, hquestion⟩
    · rcases hturn t ht with ht | ⟨hid, hnot, hquestion⟩
      · exact .inl ht
      · exact .inr ⟨by simp [hid], hid ▸ hnot, hquestion⟩
    · refine .inr ⟨mem_cons_of_mem _ hmem, fun hold => hnot ?_, hlast ▸ hquestion⟩
      exact mem_map_id_addMessage hold

theorem nodup_addMessages (h : (idsOf messages).Nodup) :
    (idsOf (addMessages messages updates)).Nodup := by
  induction updates generalizing messages with
  | nil => exact h
  | cons m updates ih =>
    refine @ih (addMessage messages m) ?_
    rw [idsOf, map_id_addMessage]
    split
    · exact h
    · refine nodup_append.mpr ⟨h, nodup_singleton _, ?_⟩
      rintro a ha b hb rfl
      exact absurd (mem_singleton.mp hb ▸ ha) ‹_›

theorem nodup_summarised {force : Bool} {summary : Option String} {v : Values}
    (h : (idsOf v.messages).Nodup) : (idsOf (summarised s force summary v).messages).Nodup := by
  simp only [summarised]
  split
  · rename_i parts text hparts
    have hperm := (prepareCompaction_perm hparts).map Message.id
    have hboth := hperm.nodup_iff.mpr h
    rw [map_append, nodup_append] at hboth
    exact hboth.2.1
  · exact h

end Later

/-! ### What a run was begun with -/

/-- The first call of a run found the question of the turn. -/
structure Turn.Called (s : Summarizer) (R : Reading) (T : Turn) (call : Call) : Prop where
  dated : lastInjectedDate call.before = lastInjectedDate T.before
  renews : call.context.renews T.before = T.renewed
  files : T.renewed = false → T.files = call.context.files
  input : call.input = T.question ∨ call.input = T.again R
  opened : call.opened = T.opened R call.context
  messages : call.messages =
    (summarised s false call.context.summary ⟨call.opened, T.summaryText⟩).messages
  human : lastHuman call.messages = some (T.asked R)

/-- The run was begun with the question of the turn, and where it was first asked can be found. -/
structure World.Asks (s : Summarizer) (R : Reading) (w : World) (run : String) (T : Turn)
    (call : Call) : Prop where
  called : w.calls run = some call
  ready : T.Ready
  seen : w.Seen (T.asked R).id (T.base R)
  first : T.Called s R call

def World.AsksFor (s : Summarizer) (R : Reading) (w : World) (run : String) (question : Message) :
    Prop :=
  ∃ T call, w.Asks s R run T call ∧ T.asked R = question

/-- What holds of the checkpoints, whatever a run is about to do. -/
structure World.Sound (s : Summarizer) (R : Reading) (w : World) : Prop where
  numbered : w.Numbered
  distinct : ∀ c ∈ w.checkpoints, (idsOf c.values.messages).Nodup
  /-- The latest answer of every checkpoint stands behind the question of its run. -/
  answers : ∀ c ∈ w.checkpoints, ∀ t ∈ R.lastTurn c.values.messages,
    ∃ run, w.producer t.1 = some run ∧ w.AsksFor s R run t.2
  rows : ∀ row ∈ w.rows, ∀ id ∈ row.messageId, ∀ run ∈ w.producer id, row.runId = run
  recorded : ∀ run, (w.calls run).isSome → run ∈ w.records.map RunRecord.runId

section Sound

variable {run : String} {question : Message} {v : Values}

theorem World.AsksFor.mono (h : w.AsksFor s R run question)
    (hsuffix : w.checkpoints <:+ w'.checkpoints)
    (hcalls : ∀ call, w.calls run = some call → w'.calls run = some call) :
    w'.AsksFor s R run question := by
  obtain ⟨T, call, ⟨hcalled, hready, hseen, hfirst⟩, hasked⟩ := h
  exact ⟨T, call, ⟨hcalls _ hcalled, hready, hseen.of_suffix hsuffix, hfirst⟩, hasked⟩

theorem World.AsksFor.put (h : w.AsksFor s R run question) (v : Values) :
    (w.put v).AsksFor s R run question :=
  h.mono (suffix_cons _ _) fun _ hcall => hcall

namespace World.Sound

theorem values_mem (w : World) :
    w.values.messages = [] ∨ ∃ c ∈ w.checkpoints, c.values = w.values := by
  rw [World.values]
  cases w.checkpoints with
  | nil => exact .inl rfl
  | cons c older => exact .inr ⟨c, mem_cons_self, rfl⟩

theorem messages_nodup (h : w.Sound s R) : (idsOf w.messages).Nodup := by
  rw [World.messages]
  rcases values_mem w with hnil | ⟨c, hc, hvalues⟩
  · rw [hnil]
    exact nodup_nil
  · rw [← hvalues]
    exact h.distinct c hc

theorem messages_answers (h : w.Sound s R) : ∀ t ∈ R.lastTurn w.messages,
    ∃ run, w.producer t.1 = some run ∧ w.AsksFor s R run t.2 := by
  rw [World.messages]
  rcases values_mem w with hnil | ⟨c, hc, hvalues⟩
  · rw [hnil]
    exact fun t ht => by cases ht
  · rw [← hvalues]
    exact h.answers c hc

theorem put (h : w.Sound s R) (hdistinct : (idsOf v.messages).Nodup)
    (hanswers : ∀ t ∈ R.lastTurn v.messages,
      ∃ run, w.producer t.1 = some run ∧ w.AsksFor s R run t.2) : (w.put v).Sound s R where
  numbered := h.numbered.put v
  distinct := forall_mem_cons.mpr ⟨hdistinct, h.distinct⟩
  answers c hc t ht := by
    have hfound : ∃ run, w.producer t.1 = some run ∧ w.AsksFor s R run t.2 := by
      rcases mem_cons.mp hc with rfl | hc
      · exact hanswers t ht
      · exact h.answers c hc t ht
    obtain ⟨run, hrun, hasks⟩ := hfound
    exact ⟨run, hrun, hasks.put v⟩
  rows := h.rows
  recorded := h.recorded

theorem put_values (h : w.Sound s R) : (w.put w.values).Sound s R :=
  h.put h.messages_nodup h.messages_answers

theorem put_summarised {force : Bool} {summary : Option String} (h : w.Sound s R)
    (hkeeps : Keeps R w.messages (summarised s force summary w.values).messages) :
    (w.put (summarised s force summary w.values)).Sound s R :=
  h.put (nodup_summarised h.messages_nodup) fun t ht => h.messages_answers t (hkeeps.turn t ht)

theorem congr (h : w.Sound s R) (hcheckpoints : w'.checkpoints = w.checkpoints)
    (hproducer : w'.producer = w.producer)
    (hcalls : ∀ run call, w.calls run = some call → w'.calls run = some call)
    (hrows : ∀ row ∈ w'.rows, ∀ id ∈ row.messageId, ∀ run ∈ w.producer id, row.runId = run)
    (hrecorded : ∀ run, (w'.calls run).isSome → run ∈ w'.records.map RunRecord.runId) :
    w'.Sound s R where
  numbered := by
    rw [World.Numbered]
    rw [hcheckpoints]
    exact h.numbered
  distinct := by
    rw [hcheckpoints]
    exact h.distinct
  answers c hc t ht := by
    rw [hcheckpoints] at hc
    obtain ⟨run, hrun, hasks⟩ := h.answers c hc t ht
    rw [hproducer]
    exact ⟨run, hrun, hasks.mono (hcheckpoints ▸ suffix_refl _) (hcalls run)⟩
  rows := by
    rw [hproducer]
    exact hrows
  recorded := hrecorded

end World.Sound

end Sound

/-! ### A run on its way to its first call -/

/-- What the run has found, after each of its steps. -/
@[grind =] def ActiveRun.found (R : Reading) (a : ActiveRun) (T : Turn) : List Message :=
  match a.stage with
  | .input => a.before
  | .applied => a.before ++ [a.input]
  | .attached => a.before ++ [R.attach a.context.files a.input]
  | .injected | .called => T.opened R a.context

/-- The question's id is not in the thread yet. -/
def ActiveRun.unseen (a : ActiveRun) (T : Turn) (fresh : Bool) : Bool :=
  fresh && (a.stage = .input || T.renewed && a.stage ≠ .injected)

/-- The run is on its way to its first call with the question of the turn; `fresh` where it is the
first to ask it. -/
structure World.Opening (R : Reading) (w : World) (a : ActiveRun) (T : Turn) (fresh : Bool) :
    Prop where
  ready : T.Ready
  renews : a.context.renews T.before = T.renewed
  forgets : fresh = false → T.renewed = true → a.context.Forgets T.before
  files : fresh = true ∨ T.renewed = false → a.context.files = T.files
  before : a.before = if fresh then T.before else (T.base R).messages
  input : a.input = if fresh then T.question else T.again R
  values : w.values = ⟨a.found R T, T.summaryText⟩
  new : a.unseen T fresh = true → w.IsNew (T.asked R).id
  seen : a.unseen T fresh = false → w.Seen (T.asked R).id (T.base R)

theorem World.IsNew.put {id : String} {v : Values} (h : w.IsNew id) (hid : id ∉ idsOf v.messages) :
    (w.put v).IsNew id :=
  forall_mem_cons.mpr ⟨hid, h⟩

theorem World.IsNew.not_mem {id : String} (h : w.IsNew id) : id ∉ idsOf w.messages := by
  rw [World.messages]
  rcases World.Sound.values_mem w with hnil | ⟨c, hc, hvalues⟩
  · rw [hnil]
    exact not_mem_nil
  · rw [← hvalues]
    exact h c hc

theorem isVisibleAiMessage_of_human (h : m.kind = .human) : R.isVisibleAiMessage m = false := by
  simp [Reading.isVisibleAiMessage, h]

namespace World.Opening

variable {a : ActiveRun} {fresh : Bool}

theorem input_kind (h : w.Opening R a T fresh) : a.input.kind = .human := by
  rw [h.input]
  cases fresh with
  | true | false => exact h.ready.kind

theorem input_nodup (h : w.Opening R a T fresh) : (idsOf (a.before ++ [a.input])).Nodup := by
  rw [h.before, h.input]
  cases fresh with
  | true => exact h.ready.distinct
  | false => exact h.ready.again_nodup

theorem input_not_mem (h : w.Opening R a T fresh) : a.input.id ∉ idsOf a.before := by
  rw [h.before, h.input]
  cases fresh with
  | true => exact h.ready.not_mem
  | false => exact h.ready.again_not_mem

theorem injected (h : w.Opening R a T fresh) :
    injected a.context (a.before ++ [R.attach a.context.files a.input]) = T.opened R a.context := by
  rw [h.before, h.input]
  cases fresh with
  | true =>
    rw [if_pos rfl, if_pos rfl, h.files (.inl rfl)]
    exact h.ready.injected_first h.renews
  | false => exact h.ready.injected_rerun h.renews (h.forgets rfl) fun hrenewed =>
      h.files (.inr hrenewed)

theorem proceed_eq (h : w.Opening R a T fresh) (hinjected : a.stage ≠ .injected)
    (hcalled : a.stage ≠ .called) : R.proceed s a w.values =
      ⟨({ a with stage := a.stage.next } : ActiveRun).found R T, T.summaryText⟩ := by
  rw [h.values]
  rw [Reading.proceed, ActiveRun.found]
  cases hstage : a.stage with
  | input => exact congrArg (Values.mk · _) (applied_of_new h.input_not_mem)
  | applied => exact congrArg (Values.mk · _) (attached_concat h.input_nodup h.input_kind)
  | attached => exact congrArg (Values.mk · _) h.injected
  | injected => exact absurd hstage hinjected
  | called => exact absurd hstage hcalled

theorem dated (h : w.Opening R a T fresh) :
    lastInjectedDate a.before = lastInjectedDate T.before := by
  rw [h.before]
  cases fresh with
  | true => rfl
  | false =>
    rw [Turn.base]
    cases T.renewed with
    | false => simp
    | true =>
      refine lastInjectedDate_append_plain fun m hm => ?_
      rw [if_pos rfl, mem_singleton] at hm
      rw [hm, attach_isReminder]
      exact isReminder_of_isTarget h.ready.target

theorem lastTurn_before (h : w.Opening R a T fresh) :
    R.lastTurn a.before = R.lastTurn T.before := by
  rw [h.before]
  cases fresh with
  | true => rfl
  | false =>
    rw [Turn.base]
    cases T.renewed with
    | false => simp
    | true =>
      refine lastTurn_append fun m hm => isVisibleAiMessage_of_human ?_
      rw [if_pos rfl, mem_singleton] at hm
      rw [hm, attach_kind]
      exact h.ready.kind

theorem lastTurn_found (h : w.Opening R a T fresh) :
    R.lastTurn (a.found R T) = R.lastTurn T.before := by
  have hinput : ∀ m : Message, m.kind = .human →
      R.lastTurn (a.before ++ [m]) = R.lastTurn T.before := by
    intro m hm
    rw [lastTurn_append (by simpa using isVisibleAiMessage_of_human hm), h.lastTurn_before]
  rw [ActiveRun.found]
  cases a.stage with
  | input => exact h.lastTurn_before
  | applied => exact hinput _ h.input_kind
  | attached => exact hinput _ (attach_kind.trans h.input_kind)
  | injected | called => exact h.ready.lastTurn_opened

theorem nodup_found (h : w.Opening R a T fresh) : (idsOf (a.found R T)).Nodup := by
  have hinput := h.input_nodup
  rw [ActiveRun.found]
  cases a.stage with
  | input =>
    rw [idsOf_append] at hinput
    exact (nodup_append.mp hinput).1
  | applied => exact hinput
  | attached => simpa [idsOf_append] using hinput
  | injected | called => exact h.ready.opened_nodup

theorem congr (h : w.Opening R a T fresh) (hcheckpoints : w'.checkpoints = w.checkpoints) :
    w'.Opening R a T fresh :=
  { h with
    values := by
      rw [World.values, hcheckpoints]
      exact h.values
    new := fun hunseen => by
      rw [World.IsNew, hcheckpoints]
      exact h.new hunseen
    seen := fun hunseen => (h.seen hunseen).of_suffix (hcheckpoints ▸ suffix_refl _) }

theorem put_values (h : w.Opening R a T fresh) : (w.put w.values).Opening R a T fresh :=
  { h with
    new := fun hunseen => (h.new hunseen).put (h.new hunseen).not_mem
    seen := fun hunseen => (h.seen hunseen).put _ }

theorem asked_mem_opened (h : T.Ready) : (T.asked R).id ∈ idsOf (T.opened R context) := by
  obtain ⟨hidden, hopened, -⟩ := @Turn.Ready.opened_eq R context T h
  simp [hopened, idsOf_append]

/-- Until the date is put there, the id that the question will have is not in the thread. -/
theorem new_next (h : w.Opening R a T fresh) (hinjected : a.stage ≠ .injected)
    (hcalled : a.stage ≠ .called)
    (hunseen : ({ a with stage := a.stage.next } : ActiveRun).unseen T fresh = true) :
    a.unseen T fresh = true ∧
      (T.asked R).id ∉ idsOf (({ a with stage := a.stage.next } : ActiveRun).found R T) := by
  rw [ActiveRun.unseen] at hunseen ⊢
  rw [Bool.and_eq_true] at hunseen
  obtain ⟨rfl, hunseen⟩ := hunseen
  have hinput : a.input = T.question := h.input
  have hbefore : a.before = T.before := h.before
  have hasked : T.renewed = true → (T.asked R).id = T.question.id ++ "__user" := fun hrenewed => by
    simp [Turn.asked, hrenewed]
  rw [ActiveRun.found]
  cases hstage : a.stage with
  | input =>
    have hrenewed : T.renewed = true := by simpa [hstage, Stage.next] using hunseen
    simp [Stage.next, hbefore, hinput, idsOf_append, hasked hrenewed, h.ready.user]
  | applied =>
    have hrenewed : T.renewed = true := by simpa [hstage, Stage.next] using hunseen
    simp [Stage.next, hbefore, hinput, idsOf_append, hasked hrenewed, h.ready.user, hrenewed]
  | attached => simp [hstage, Stage.next] at hunseen
  | injected => exact absurd hstage hinjected
  | called => exact absurd hstage hcalled

/-- The question's id comes into the thread. -/
theorem seen_next (h : w.Opening R a T fresh) (hinjected : a.stage ≠ .injected)
    (hcalled : a.stage ≠ .called) (hunseen : a.unseen T fresh = true)
    (hnext : ({ a with stage := a.stage.next } : ActiveRun).unseen T fresh = false) :
    w.values = T.base R ∧
      (T.asked R).id ∈ idsOf (({ a with stage := a.stage.next } : ActiveRun).found R T) := by
  rw [ActiveRun.unseen] at hunseen hnext
  rw [Bool.and_eq_true] at hunseen
  obtain ⟨rfl, hunseen⟩ := hunseen
  have hinput : a.input = T.question := h.input
  have hbefore : a.before = T.before := h.before
  have hfiles : a.context.files = T.files := h.files (.inl rfl)
  rw [h.values]
  simp only [ActiveRun.found, Turn.base]
  cases hstage : a.stage with
  | input =>
    have hrenewed : T.renewed = false := by simpa [hstage, Stage.next] using hnext
    simp [Stage.next, hbefore, hinput, idsOf_append, Turn.asked, hrenewed]
  | applied =>
    have hrenewed : T.renewed = false := by simpa [hstage, Stage.next] using hnext
    simp [hstage, hrenewed] at hunseen
  | attached =>
    have hrenewed : T.renewed = true := by simpa [hstage] using hunseen
    exact ⟨by simp [hbefore, hinput, hfiles, hrenewed], asked_mem_opened h.ready⟩
  | injected => exact absurd hstage hinjected
  | called => exact absurd hstage hcalled

/-- **What a step on the way to the first call keeps.** -/
theorem proceed (h : w.Opening R a T fresh) (hwritten : w.checkpoints ≠ [])
    (hinjected : a.stage ≠ .injected) (hcalled : a.stage ≠ .called) :
    (w.put (R.proceed s a w.values)).Opening R { a with stage := a.stage.next } T fresh :=
  { h with
    values := h.proceed_eq hinjected hcalled
    new := fun hunseen => by
      obtain ⟨hnow, hnot⟩ := h.new_next hinjected hcalled hunseen
      refine (h.new hnow).put ?_
      rw [h.proceed_eq hinjected hcalled]
      exact hnot
    seen := fun hnext => by
      cases hunseen : a.unseen T fresh with
      | false => exact (h.seen hunseen).put _
      | true =>
        obtain ⟨hbase, hmem⟩ := h.seen_next hinjected hcalled hunseen hnext
        rw [← hbase]
        refine (h.new hunseen).seen hwritten ?_
        rw [h.proceed_eq hinjected hcalled]
        exact hmem }

end World.Opening

/-! ### The payload -/

section Payload

variable {threadId target : String} {payload : RegeneratePrepareResponse}

theorem eq_of_messageId {id : String} (h : messageId m = some id) : m.id = id := by
  rw [messageId] at h
  split at h
  · cases h
  · exact some.inj h

/-- **What a payload tells**: its question is that of the latest turn. -/
theorem prepareRegeneratePayload_eq_ok (hdistinct : (idsOf w.messages).Nodup)
    (h : prepareRegeneratePayload R threadId w target = .ok payload) : ∃ question base m,
    (target, question) ∈ R.lastTurn w.messages ∧
      payload.input = R.cleanHumanMessageForRegenerate question ∧
      w.findBaseCheckpointBeforeHuman question.id = .ok base ∧
      base.checkpointId = some payload.checkpoint ∧
      m ∈ w.messages ∧ m.id = target ∧ w.findTargetRunId R target m = .ok payload.targetRunId := by
  rw [prepareRegeneratePayload] at h
  cases hlatest : w.checkpoints.head? with
  | none =>
    rw [hlatest] at h
    cases h
  | some latest =>
    have hmessages : w.messages = latest.values.messages := by
      simp [World.messages, World.values, hlatest]
    rw [hmessages] at hdistinct ⊢
    rw [hlatest] at h
    dsimp only at h
    split at h
    · cases h
    · rename_i earlier targetMessage later hsplit
      split at h
      · cases h
      · split at h
        · cases h
        · rename_i hai hlast
          split at h
          · cases h
          · rename_i question hquestion
            split at h
            · cases h
            · rename_i id hid
              rw [← eq_of_messageId hid] at h
              have hturn := lastTurn_of_splitFirst hdistinct hsplit (not_not.mp hlast)
              obtain ⟨hsplit', htarget⟩ := splitFirst_spec hsplit
              cases hbase : w.findBaseCheckpointBeforeHuman question.id with
              | error e =>
                rw [hbase] at h
                cases h
              | ok base =>
                cases hrun : w.findTargetRunId R target targetMessage with
                | error e =>
                  rw [hbase, hrun] at h
                  cases h
                | ok run =>
                  rw [hbase, hrun] at h
                  cases hcheckpoint : base.checkpointId with
                  | none =>
                    simp only [Except.bind, hcheckpoint] at h
                    cases h
                  | some checkpoint =>
                    simp only [Except.bind, hcheckpoint] at h
                    cases h
                    refine ⟨question, base, targetMessage, ?_, rfl, hbase, hcheckpoint, ?_,
                      eq_of_messageId (of_decide_eq_true htarget), hrun⟩
                    · rw [hturn, hquestion]
                      rfl
                    · simp [hsplit']

/-- **The run that is found** is the one that gave the answer, if its row is listed, or no other
run's text is taken for it. -/
theorem findTargetRunId_eq_ok {run found : String} {m : Message}
    (hrows : ∀ row ∈ w.rows, ∀ id ∈ row.messageId, ∀ run ∈ w.producer id, row.runId = run)
    (htraced : w.Traced R target) (hrun : w.producer target = some run) (hm : m ∈ w.messages)
    (hid : m.id = target) (h : w.findTargetRunId R target m = .ok found) : found = run := by
  rw [World.findTargetRunId] at h
  split at h
  · rename_i row hrow
    cases h
    obtain ⟨hmem, hlisted⟩ := And.intro (mem_of_find?_eq_some hrow) (find?_some hrow)
    simp only [Bool.and_eq_true, decide_eq_true_eq] at hlisted
    exact hrows row (mem_reverse.mp (mem_of_mem_take hmem)) target hlisted.1.2 run hrun
  · rename_i hnone
    split at h
    · rename_i record hrecord
      cases h
      have hmatches := find?_some hrecord
      rw [Bool.and_eq_true, decide_eq_true_eq] at hmatches
      rcases htraced.run with ⟨row, hrow, hanswer, hrowid, hne⟩ | hrecords
      · have hnot := find?_eq_none.mp hnone row hrow
        simp [hanswer, hrowid, hne] at hnot
      · have hfound := hrecords m hm hid record (mem_of_find?_eq_some hrecord) hmatches.1 hmatches.2
        exact some.inj (hfound.symm.trans hrun)
    · cases h

end Payload

/-! ### What each step keeps -/

/-- What holds of a run that is under way. -/
structure World.Running (s : Summarizer) (R : Reading) (w : World) (a : ActiveRun) : Prop where
  written : w.checkpoints ≠ []
  recorded : a.run ∈ w.records.map RunRecord.runId
  opening : a.stage ≠ .called → w.calls a.run = none ∧ ∃ T fresh, w.Opening R a T fresh
  /-- What the model answers next is behind the question of its run. -/
  asks : a.stage = .called → ∀ h ∈ lastHuman w.messages, w.AsksFor s R a.run h

/-- The checkpoints are sound, and so is what the run under way has found. -/
structure World.Kept (s : Summarizer) (R : Reading) (w : World) : Prop where
  sound : w.Sound s R
  running : ∀ a ∈ w.active, w.Running s R a

section Kept

variable {a : ActiveRun} {run threadId target : String} {payload : RegeneratePrepareResponse}

theorem World.Begins.kept (h : w.Begins) : w.Kept s R where
  sound :=
    { numbered := by simp [World.Numbered, h.checkpoints]
      distinct := by simp [h.checkpoints]
      answers := by simp [h.checkpoints]
      rows := fun row _ id _ run hrun => by simp [h.producer] at hrun
      recorded := fun run hrun => by simp [h.calls] at hrun }
  running a ha := by simp [h.active] at ha

theorem World.Kept.put_values (h : w.Kept s R) : (w.put w.values).Kept s R where
  sound := h.sound.put_values
  running a ha := by
    have hrunning := h.running a ha
    refine ⟨cons_ne_nil _ _, hrunning.recorded, fun hstage => ?_, fun hstage q hq => ?_⟩
    · obtain ⟨hcalls, T, fresh, hopening⟩ := hrunning.opening hstage
      exact ⟨hcalls, T, fresh, hopening.put_values⟩
    · exact (hrunning.asks hstage q hq).put _

theorem World.Kept.startRun (h : w.Kept s R) {input : Message} {v : Values} {fresh : Bool}
    (hrun : run ∉ w.records.map RunRecord.runId) (hdistinct : (idsOf v.messages).Nodup)
    (hanswers : ∀ t ∈ R.lastTurn v.messages,
      ∃ run, w.producer t.1 = some run ∧ w.AsksFor s R run t.2)
    (hopening : (w.put v).Opening R ⟨run, v.messages, input, context, .input⟩ T fresh) :
    (w.startRun run input context v).Kept s R where
  sound := (h.sound.put hdistinct hanswers).congr rfl rfl (fun _ _ hcall => hcall) h.sound.rows
    fun run hrun => mem_cons_of_mem _ (h.sound.recorded run hrun)
  running a ha := by
    obtain rfl := some.inj ha
    refine ⟨cons_ne_nil _ _, mem_cons_self, fun _ => ⟨?_, T, fresh, hopening.congr rfl⟩,
      fun hstage => by cases hstage⟩
    by_contra hcalls
    exact hrun (h.sound.recorded run (isSome_iff_ne_none.mpr hcalls))

/-- The turn of a message that the user sends. -/
def turnOf (w : World) (input : Message) (context : Context) : Turn where
  before := w.messages
  summaryText := w.values.summaryText
  question := input
  files := context.files
  renewed := context.renews w.messages

theorem World.Opens.ready {input : Message} (h : w.Opens input context)
    (hdistinct : (idsOf w.messages).Nodup) : (turnOf w input context).Ready where
  target := h.target
  visible := h.visible
  plain := h.plain
  id_ne := h.id_ne
  distinct := by
    rw [idsOf_append]
    refine nodup_append.mpr ⟨hdistinct, nodup_singleton _, ?_⟩
    rintro x hx y hy rfl
    rw [idsOf_cons, idsOf_nil, mem_singleton] at hy
    exact h.fresh.not_mem (hy ▸ hx)
  user := h.user.not_mem
  memory := h.memory.not_mem
  first := h.first

theorem World.Opens.opening {input : Message} (h : w.Opens input context)
    (hdistinct : (idsOf w.messages).Nodup) :
    (w.put w.values).Opening R ⟨run, w.messages, input, context, .input⟩ (turnOf w input context)
      true where
  ready := h.ready hdistinct
  renews := rfl
  forgets hfresh := by cases hfresh
  files _ := rfl
  before := rfl
  input := rfl
  values := rfl
  new _ := by
    have hnew : w.IsNew ((turnOf w input context).asked R).id := by
      rw [Turn.asked, turnOf]
      dsimp only
      split
      · exact h.user
      · exact h.fresh
    exact hnew.put hnew.not_mem
  seen hunseen := by simp [ActiveRun.unseen] at hunseen

/-- **What the payload leads to**: the turn of the answer. -/
theorem World.Kept.prepared (h : w.Kept s R) (htraced : w.Traced R target)
    (hpayload : prepareRegeneratePayload R threadId w target = .ok payload) : ∃ T call base,
    w.producer target = some payload.targetRunId ∧ w.Asks s R payload.targetRunId T call ∧
      payload.input = R.cleanHumanMessageForRegenerate (T.asked R) ∧
      w.checkpointWith payload.checkpoint = some base ∧ base ∈ w.checkpoints ∧
      base.values = T.base R := by
  obtain ⟨question, base, m, hturn, hinput, hbase, hcheckpoint, hm, hid, hrun⟩ :=
    prepareRegeneratePayload_eq_ok h.sound.messages_nodup hpayload
  obtain ⟨run, hproducer, T, call, hasks, rfl⟩ := h.sound.messages_answers _ hturn
  obtain rfl := findTargetRunId_eq_ok h.sound.rows htraced hproducer hm hid hrun
  obtain ⟨hmem, hvalues⟩ := hasks.seen.base hasks.ready.asked_id_ne h.sound.numbered
    (htraced.question _ hturn) hbase
  exact ⟨T, call, base, hproducer, hasks, hinput,
    h.sound.numbered.checkpointWith hmem hcheckpoint, hmem, hvalues⟩

theorem Turn.Ready.toMessage (h : T.Ready) :
    (R.cleanHumanMessageForRegenerate (T.asked R)).toMessage = T.again R :=
  clean_attach h.plain h.visible (@Turn.Ready.asked_id_ne R T h)

/-- What two runs find alike they find alike before the question of the turn. -/
theorem World.Asks.alike {call : Call} (h : w.Asks s R run T call)
    (halike : Alike call.before context call.context) :
    context.renews T.before = T.renewed ∧
      (T.renewed = true → context.Forgets T.before ∧ call.context.Forgets T.before) ∧
      (T.renewed = false → context.files = T.files) := by
  have hrenews : ∀ c : Context, c.renews call.before = c.renews T.before := fun c => by
    simp only [Context.renews]
    rw [h.first.dated]
  have hforgets : ∀ c : Context, c.Forgets call.before → c.Forgets T.before := fun c hc => by
    rw [Context.Forgets] at hc ⊢
    rwa [h.first.dated] at hc
  have hcall : call.context.renews call.before = T.renewed := (hrenews _).trans h.first.renews
  refine ⟨?_, fun hrenewed => ?_, fun hrenewed => ?_⟩
  · rw [← hrenews, halike.renews, hcall]
  · obtain ⟨hcontext, hfirst⟩ := halike.forgets (hcall.trans hrenewed)
    exact ⟨hforgets _ hcontext, hforgets _ hfirst⟩
  · rw [halike.files (hcall.trans hrenewed), h.first.files hrenewed]

theorem World.Asks.opening {call : Call} (h : w.Asks s R run T call)
    (halike : Alike call.before context call.context) {run' : String} :
    (w.put (T.base R)).Opening R ⟨run', (T.base R).messages, T.again R, context, .input⟩ T
      false where
  ready := h.ready
  renews := (h.alike halike).1
  forgets _ hrenewed := ((h.alike halike).2.1 hrenewed).1
  files hfiles := by
    rcases hfiles with hfiles | hrenewed
    · cases hfiles
    · exact (h.alike halike).2.2 hrenewed
  before := rfl
  input := rfl
  values := rfl
  new hunseen := by cases hunseen
  seen _ := h.seen.put _

/-- The first call of a run is made. -/
theorem World.Kept.call {fresh : Bool} (h : w.Kept s R) (hopening : w.Opening R a T fresh)
    (hcalls : w.calls a.run = none) (hrecorded : a.run ∈ w.records.map RunRecord.runId)
    (hstage : a.stage = .injected)
    (hkeeps : Keeps R w.messages (R.proceed s a w.values).messages)
    (hhuman : (lastHuman (R.proceed s a w.values).messages).isSome) :
    (w.proceed s R a).Kept s R := by
  have hfound : w.values = ⟨T.opened R a.context, T.summaryText⟩ := by
    rw [hopening.values, ActiveRun.found, hstage]
  have hmessages : w.messages = T.opened R a.context := congrArg Values.messages hfound
  have hproceed : R.proceed s a w.values = summarised s false a.context.summary w.values := by
    rw [Reading.proceed, hstage]
  have hlast : lastHuman (R.proceed s a w.values).messages = some (T.asked R) := by
    obtain ⟨question, hquestion⟩ := isSome_iff_exists.mp hhuman
    have hsame := hkeeps.human question hquestion
    rw [hmessages, hopening.ready.lastHuman_opened] at hsame
    rw [hquestion, ← hsame]
  have hasks : (w.proceed s R a).AsksFor s R a.run (T.asked R) := by
    refine ⟨T, ⟨a.before, a.input, a.context, w.messages, (R.proceed s a w.values).messages⟩,
      ⟨?_, hopening.ready, ?_, ?_⟩, rfl⟩
    · simp [World.proceed, hstage]
    · have hunseen : a.unseen T fresh = false := by
        simp [ActiveRun.unseen, hstage]
      exact (hopening.seen hunseen).put _
    · refine ⟨hopening.dated, hopening.renews,
        fun hrenewed => (hopening.files (.inr hrenewed)).symm, ?_, hmessages, ?_, hlast⟩
      · have hinput := hopening.input
        cases fresh with
        | true => exact .inl hinput
        | false => exact .inr hinput
      · dsimp only
        rw [hproceed, hfound, hmessages]
  have hothers : ∀ run call, w.calls run = some call → (w.proceed s R a).calls run = some call := by
    intro run call hcall
    have hne : run ≠ a.run := fun heq => by simp [heq, hcalls] at hcall
    simp [World.proceed, hstage, hne, hcall]
  refine ⟨?_, fun a' ha' => ?_⟩
  · rw [hproceed] at hkeeps
    refine (h.sound.put_summarised hkeeps).congr ?_ rfl hothers h.sound.rows fun run hrun => ?_
    · rw [← hproceed]
      rfl
    · simp only [World.proceed, hstage, if_pos] at hrun
      split at hrun
      · rename_i heq
        exact heq ▸ hrecorded
      · exact h.sound.recorded run hrun
  · obtain rfl := some.inj ha'
    refine ⟨cons_ne_nil _ _, hrecorded, fun hne => ?_, fun _ q hq => ?_⟩
    · exact absurd (by rw [hstage]; rfl) hne
    · obtain rfl : T.asked R = q := some.inj (hlast.symm.trans hq)
      exact hasks

/-- A step on the way to the first call. -/
theorem World.Kept.proceed (h : w.Kept s R) (ha : a ∈ w.active) (hcalled : a.stage ≠ .called)
    (horderly : a.stage = .injected → Keeps R w.messages (R.proceed s a w.values).messages ∧
      (lastHuman (R.proceed s a w.values).messages).isSome) : (w.proceed s R a).Kept s R := by
  obtain ⟨hwritten, hrecorded, hopening, -⟩ := h.running a ha
  obtain ⟨hcalls, T, fresh, hopening⟩ := hopening hcalled
  by_cases hstage : a.stage = .injected
  · obtain ⟨hkeeps, hhuman⟩ := horderly hstage
    exact h.call hopening hcalls hrecorded hstage hkeeps hhuman
  · have hnext := @World.Opening.proceed s R w T a fresh hopening hwritten hstage hcalled
    have hvalues : R.proceed s a w.values =
        ⟨({ a with stage := a.stage.next } : ActiveRun).found R T, T.summaryText⟩ := hnext.values
    have hsound : (w.put (R.proceed s a w.values)).Sound s R := by
      refine h.sound.put ?_ fun t ht => ?_
      · rw [hvalues]
        exact hnext.nodup_found
      · rw [hvalues, hnext.lastTurn_found, ← hopening.lastTurn_found] at ht
        have hmessages : w.messages = a.found R T := congrArg Values.messages hopening.values
        exact h.sound.messages_answers t (hmessages ▸ ht)
    have hsame : (w.proceed s R a).calls = w.calls := if_neg hstage
    refine ⟨hsound.congr rfl rfl (fun _ _ hcall => by rwa [hsame]) h.sound.rows fun run hrun => ?_,
      fun a' ha' => ?_⟩
    · rw [hsame] at hrun
      exact h.sound.recorded run hrun
    · obtain rfl := some.inj ha'
      refine ⟨cons_ne_nil _ _, hrecorded, fun _ => ⟨?_, T, fresh, hnext.congr rfl⟩, fun hnow => ?_⟩
      · rw [hsame]
        exact hcalls
      · -- only the step after the injection calls the model
        dsimp only at hnow
        cases hcases : a.stage <;> simp_all [Stage.next]

/-- A later step of the run. -/
theorem World.Kept.advance (h : w.Kept s R) (ha : a ∈ w.active) (hcalled : a.stage = .called)
    (happends : w.Appends R a updates) : (w.advance a updates).Kept s R := by
  obtain ⟨hwritten, hrecorded, -, hasks⟩ := h.running a ha
  obtain ⟨hlast, hturns⟩ := @turns_addMessages R w.messages updates happends.distinct happends.human
    happends.over
  have hmono : ∀ run question, w.AsksFor s R run question →
      (w.advance a updates).AsksFor s R run question := fun run question hfor =>
    hfor.mono (suffix_cons _ _) fun _ hcall => hcall
  -- who has answered before has answered still
  have hproducer : ∀ c ∈ w.checkpoints, ∀ id ∈ idsOf c.values.messages,
      (w.advance a updates).producer id = w.producer id := by
    intro c hc id hid
    refine if_neg ?_
    rintro ⟨hmem, hnot⟩
    obtain ⟨m, hm, rfl⟩ := mem_map.mp hmem
    exact (happends.new m hm).elim hnot fun hnew => hnew c hc hid
  refine ⟨⟨h.sound.numbered.put _, ?_, fun c hc t ht => ?_, fun row hrow id hid run hrun => ?_,
    h.sound.recorded⟩, fun a' ha' => ?_⟩
  · exact forall_mem_cons.mpr ⟨nodup_addMessages h.sound.messages_nodup, h.sound.distinct⟩
  · rcases mem_cons.mp hc with rfl | hc
    · rcases hturns t ht with hturn | ⟨hmem, hnot, hquestion⟩
      · obtain ⟨run, hrun, hfor⟩ := h.sound.messages_answers t hturn
        refine ⟨run, ?_, hmono _ _ hfor⟩
        rw [← hrun]
        exact if_neg fun hnew => hnew.2 (mem_of_lastTurn hturn)
      · exact ⟨a.run, if_pos ⟨hmem, hnot⟩, hmono _ _ (hasks hcalled t.2 hquestion)⟩
    · obtain ⟨run, hrun, hfor⟩ := h.sound.answers c hc t ht
      exact ⟨run, (hproducer c hc t.1 (mem_of_lastTurn ht)).trans hrun, hmono _ _ hfor⟩
  · by_cases hnew : id ∈ idsOf updates ∧ id ∉ idsOf w.messages
    · obtain rfl : a.run = run := some.inj ((if_pos hnew).symm.trans hrun)
      obtain ⟨m, hm, rfl⟩ := mem_map.mp hnew.1
      exact happends.rows m hm hnew.2 row hrow hid
    · exact h.sound.rows row hrow id hid run ((if_neg hnew).symm.trans hrun)
  · obtain rfl : a = a' := some.inj (ha.symm.trans ha')
    refine ⟨cons_ne_nil _ _, hrecorded, fun hne => absurd hcalled hne, fun _ q hq => ?_⟩
    exact hmono _ _ (hasks hcalled q (hlast ▸ hq))

theorem World.Kept.summarise {force : Bool} {summary : Option String} (h : w.Kept s R)
    (hcalled : ∀ a ∈ w.active, a.stage = .called)
    (hkeeps : Keeps R w.messages (summarised s force summary w.values).messages) :
    (w.put (summarised s force summary w.values)).Kept s R where
  sound := h.sound.put_summarised hkeeps
  running a ha := by
    obtain ⟨-, hrecorded, -, hasks⟩ := h.running a ha
    refine ⟨cons_ne_nil _ _, hrecorded, fun hne => absurd (hcalled a ha) hne, fun _ q hq => ?_⟩
    exact (hasks (hcalled a ha) q (hkeeps.human q hq)).put _

/-- **What each step keeps.** -/
theorem World.Kept.step {l : Act} (h : w.Kept s R) (horderly : Orderly s R w l)
    (hstep : Regeneration.step s R threadId w l = some w') : w'.Kept s R := by
  cases l with
  | start run input context =>
    simp only [Regeneration.step] at hstep
    split at hstep <;> cases hstep
    rename_i hcan
    exact h.startRun hcan.2.2 h.sound.messages_nodup h.sound.messages_answers
      (horderly.opening h.sound.messages_nodup)
  | regenerate run target context =>
    simp only [Regeneration.step] at hstep
    split at hstep
    · rename_i hcan
      split at hstep
      · cases hstep
      · rename_i payload hpayload
        obtain ⟨htraced, halike⟩ := horderly
        obtain ⟨T, call, base, hproducer, hasks, hinput, hlocated, hmem, hvalues⟩ :=
          h.prepared htraced hpayload
        rw [hlocated, map_some] at hstep
        cases hstep
        have hopening := @World.Asks.opening s R w context T payload.targetRunId call hasks
          (halike _ hproducer call hasks.called) run
        rw [hinput, hasks.ready.toMessage, hvalues]
        refine h.startRun hcan.2.2 ?_ ?_ hopening
        · exact hasks.ready.base_nodup
        · rw [← hvalues]
          exact h.sound.answers base hmem
    · cases hstep
  | proceed =>
    simp only [Regeneration.step] at hstep
    obtain ⟨a, ha, rfl⟩ := map_eq_some_iff.mp hstep
    obtain ⟨ha, hstage⟩ := filter_eq_some_iff.mp ha
    exact h.proceed ha (of_decide_eq_true hstage) (horderly a ha)
  | advance updates =>
    simp only [Regeneration.step] at hstep
    obtain ⟨a, ha, rfl⟩ := map_eq_some_iff.mp hstep
    obtain ⟨ha, hstage⟩ := filter_eq_some_iff.mp ha
    exact h.advance ha (of_decide_eq_true hstage) (horderly a ha)
  | summarise text =>
    simp only [Regeneration.step] at hstep
    obtain ⟨a, ha, rfl⟩ := map_eq_some_iff.mp hstep
    obtain ⟨ha, hstage⟩ := filter_eq_some_iff.mp ha
    refine h.summarise (fun a' ha' => ?_) horderly
    obtain rfl : a = a' := some.inj (ha.symm.trans ha')
    exact of_decide_eq_true hstage
  | compactThread force text =>
    simp only [Regeneration.step] at hstep
    split at hstep
    · rename_i hnone
      split at hstep <;> cases hstep
      · exact h
      · refine h.summarise (fun a ha => ?_) horderly
        rw [isNone_iff_eq_none.mp hnone] at ha
        cases ha
    · cases hstep
  | writeThreadGoal =>
    cases hstep
    exact h.put_values
  | updateThreadState values =>
    simp only [Regeneration.step] at hstep
    split at hstep <;> cases hstep
    obtain rfl : values = w.values := horderly
    exact h.put_values
  | log row =>
    cases hstep
    refine ⟨h.sound.congr rfl rfl (fun _ _ hcall => hcall) ?_ h.sound.recorded, fun a ha => ?_⟩
    · intro row' hrow' id hid run hrun
      rcases mem_append.mp hrow' with hrow' | hrow'
      · exact h.sound.rows row' hrow' id hid run hrun
      · obtain rfl := mem_singleton.mp hrow'
        exact horderly id hid run hrun
    · obtain ⟨hwritten, hrecorded, hopening, hasks⟩ := h.running a ha
      refine ⟨hwritten, hrecorded, fun hstage => ?_, fun hstage q hq => ?_⟩
      · obtain ⟨hcalls, T, fresh, hopening⟩ := hopening hstage
        exact ⟨hcalls, T, fresh, hopening.congr rfl⟩
      · exact (hasks hstage q hq).mono (suffix_refl _) fun _ hcall => hcall
  | finish status lastAiMessage =>
    simp only [Regeneration.step] at hstep
    obtain ⟨a, ha, rfl⟩ := map_eq_some_iff.mp hstep
    refine ⟨h.sound.congr rfl rfl (fun _ _ hcall => hcall) h.sound.rows fun run hrun => ?_,
      fun a' ha' => by cases ha'⟩
    have hids : (w.records.map fun record =>
        if record.runId = a.run then { record with status, lastAiMessage } else record).map
          RunRecord.runId = w.records.map RunRecord.runId := by
      rw [List.map_map]
      refine List.map_congr_left fun record _ => ?_
      rw [Function.comp_apply]
      split <;> rfl
    rw [hids]
    exact h.sound.recorded run hrun

end Kept

/-! ### The promise -/

section Promise

variable {a : ActiveRun} {run threadId target : String} {payload : RegeneratePrepareResponse}
  {call : Call}

theorem summarised_sublist {force : Bool} {summary : Option String} {v : Values} :
    (summarised s force summary v).messages.Sublist v.messages := by
  simp only [summarised]
  split
  · rename_i parts text hparts
    rw [prepareCompaction] at hparts
    split at hparts
    · cases hparts
    · dsimp only at hparts
      split at hparts
      · cases hparts
      · split at hparts <;> cases hparts
        rw [preserveDynamicContextReminders]
        have hsplit := take_append_drop (s.determineCutoffIndex v.messages) v.messages
        split
        · refine List.Sublist.trans (List.Sublist.append_right filter_sublist _) ?_
          rw [hsplit]
        · exact drop_sublist _ _
  · exact List.Sublist.refl _

/-- Of what a run finds, the question is the only text of the user under its id. -/
theorem Turn.Ready.filter_opened (h : T.Ready) :
    (T.opened R context).filter (isTextUnder (T.asked R).id) = [T.asked R] := by
  obtain ⟨hkind, hplain, hname, hsuffix⟩ := isTarget_iff.1 h.target
  obtain ⟨hidden, hopened, hhidden⟩ := @Turn.Ready.opened_eq R context T h
  have hbefore : ∀ m ∈ T.before, m.id ≠ (T.asked R).id ∧ m.id ++ "__user" ≠ (T.asked R).id := by
    intro m hm
    have hmem : m.id ∈ idsOf T.before := mem_map_of_mem hm
    cases hrenewed : T.renewed with
    | true =>
      have hasked : (T.asked R).id = T.question.id ++ "__user" := by simp [Turn.asked, hrenewed]
      rw [hasked]
      refine ⟨fun heq => h.user (heq ▸ hmem), fun heq => h.not_mem ?_⟩
      have hid : m.id = T.question.id := by simpa using heq
      exact hid ▸ hmem
    | false =>
      have hasked : (T.asked R).id = T.question.id := by simp [Turn.asked, hrenewed]
      rw [hasked]
      refine ⟨fun heq => h.not_mem (heq ▸ hmem), fun heq => ?_⟩
      rw [← heq, String.toList_append, ← Bool.not_eq_true, isSuffixOf_iff_suffix] at hsuffix
      exact hsuffix (suffix_append _ _)
  have htext : (T.asked R).isUserText = true := by
    refine (@attach_isUserText R T.question T.files).trans ?_
    simp [Message.isUserText, hkind, hplain, hname]
  rw [hopened, filter_append, filter_append, filter_eq_nil_iff.mpr, filter_eq_nil_iff.mpr]
  · simp [isTextUnder, htext]
  · intro m hm
    simp [isTextUnder, Message.isUserText, (hhidden m hm).1]
  · intro m hm
    simp [isTextUnder, hbefore m hm]

theorem getOriginalUserContentText_asked :
    R.getOriginalUserContentText (T.asked R) = R.getOriginalUserContentText T.question :=
  @getOriginalUserContentText_attach R T.question T.files

theorem Turn.Ready.textsUnder_eq (h : T.Ready) (hsub : l.Sublist (T.opened R context))
    (hlast : lastHuman l = some (T.asked R)) :
    textsUnder R (T.asked R).id l = [R.getOriginalUserContentText T.question] := by
  have hfilter := hsub.filter (isTextUnder (T.asked R).id)
  have hmem : T.asked R ∈ (T.opened R context).filter (isTextUnder (T.asked R).id) := by
    rw [h.filter_opened]
    exact mem_cons_self
  have hasked : T.asked R ∈ l := mem_reverse.mp (mem_of_find?_eq_some hlast)
  have hin : T.asked R ∈ l.filter (isTextUnder (T.asked R).id) :=
    mem_filter.mpr ⟨hasked, (mem_filter.mp hmem).2⟩
  rw [h.filter_opened, sublist_singleton] at hfilter
  rw [textsUnder]
  rcases hfilter with hnil | hone
  · rw [hnil] at hin
    cases hin
  · rw [hone, map_singleton, getOriginalUserContentText_asked]

theorem textsUnder_same {l' : List Message} {id : String} (h : List.Forall₂ SameMessage l l') :
    textsUnder R id l = textsUnder R id l' := by
  refine map_filter_same h fun m m' hm => ?_
  rcases hm with rfl | ⟨hreminder, hreminder', -⟩
  · exact ⟨rfl, fun _ => rfl⟩
  · simp [isTextUnder, Message.isUserText, hreminder, hreminder']

/-- The message that is sent again is the one that the run was begun with. -/
theorem World.Asks.sameHuman (h : w.Asks s R run T call) :
    SameHuman R (R.cleanHumanMessageForRegenerate (T.asked R)) call.input := by
  have hid : messageId (T.asked R) = some (T.asked R).id := if_neg h.ready.asked_id_ne
  have hname : (T.asked R).name.filter (fun name => name ≠ "") = T.question.name := by
    refine (congrArg (Option.filter _) (@attach_name R T.question T.files)).trans ?_
    exact h.ready.plain.filter_name
  rcases h.first.input with hinput | hinput
  · rw [hinput]
    refine ⟨?_, hname, getOriginalUserContentText_asked⟩
    rw [Reading.cleanHumanMessageForRegenerate, hid, Turn.asked]
    cases T.renewed with
    | true => exact .inr rfl
    | false => exact .inl rfl
  · rw [hinput]
    exact ⟨.inl hid, hname, getOriginalUserContentText_asked⟩

/-- **A payload replays the turn of its answer**, in every thread whose steps are orderly: its input
is what the run of the answer began with, and a run from its checkpoint calls the model with the
same messages, the text of the user once among them. -/
theorem regenerate_replays {w₀ : World} (hbegins : w₀.Begins)
    (hrun : Runs (step s R threadId) (Orderly s R) w₀ w) (htraced : w.Traced R target)
    (hpayload : prepareRegeneratePayload R threadId w target = .ok payload) :
    ∃ run call base, Replay s R w target payload run call base := by
  have hkept : w.Kept s R :=
    hrun.invariant hbegins.kept fun _ _ _ h horderly hstep => h.step horderly hstep
  obtain ⟨T, call, base, hproducer, hasks, hinput, hlocated, -, hvalues⟩ :=
    hkept.prepared htraced hpayload
  refine ⟨payload.targetRunId, call, base, hproducer, hasks.called, rfl, ?_, hlocated, ?_⟩
  · rw [hinput]
    exact hasks.sameHuman
  · intro context halike hagrees
    obtain ⟨hrenews, hforgets, hfiles⟩ := hasks.alike halike
    have hopened : R.opened (T.base R).messages (T.again R) context = T.opened R context :=
      hasks.ready.opened_again hrenews (fun hrenewed => (hforgets hrenewed).1) hfiles
    have hsame : List.Forall₂ SameMessage (T.opened R context) call.opened := by
      rw [hasks.first.opened]
      exact hasks.ready.opened_same (fun hrenewed => (hforgets hrenewed).1)
        fun hrenewed => (hforgets hrenewed).2
    rw [hinput, hasks.ready.toMessage, hvalues] at hagrees ⊢
    rw [hopened] at hagrees
    have hcalls : List.Forall₂ SameMessage (R.firstCall s (T.base R) (T.again R) context)
        call.messages := by
      rw [Reading.firstCall]
      rw [hopened, hasks.first.messages]
      exact summarised_same hsame hagrees halike.summary
    refine ⟨hcalls, ?_⟩
    have hsub : call.messages.Sublist (T.opened R call.context) := by
      rw [hasks.first.messages, hasks.first.opened]
      exact summarised_sublist
    refine (textsUnder_same hcalls).trans ?_
    refine (hasks.ready.textsUnder_eq hsub hasks.first.human).trans ?_
    exact congrArg (fun text => [text]) getOriginalUserContentText_asked.symm

end Promise

/-! ### A thread whose first question stays -/

instance (m : Message) : Decidable (Plain m) :=
  decidable_of_iff (isText m.content = true ∧ m.name ≠ some "" ∧
    m.kwargs.others.lookup originalUserContentKey = none)
    ⟨fun h => ⟨h.1, h.2.1, h.2.2⟩, fun h => ⟨h.text, h.name, h.original⟩⟩

instance (context : Context) (messages : List Message) : Decidable (context.Forgets messages) :=
  inferInstanceAs (Decidable (_ → _))

instance (messages : List Message) (context first : Context) :
    Decidable (Alike messages context first) :=
  decidable_of_iff (context.renews messages = first.renews messages ∧
      (first.renews messages = true → context.Forgets messages ∧ first.Forgets messages) ∧
      (first.renews messages = false → context.files = first.files) ∧
      context.summary.isSome = first.summary.isSome)
    ⟨fun h => ⟨h.1, h.2.1, h.2.2.1, h.2.2.2⟩, fun h => ⟨h.renews, h.forgets, h.files, h.summary⟩⟩

instance (w : World) (input : Message) (context : Context) : Decidable (w.Opens input context) :=
  decidable_of_iff (input.isTarget = true ∧ isVisibleHumanMessage input = true ∧ Plain input ∧
      input.id ≠ "" ∧ w.IsNew input.id ∧ w.IsNew (input.id ++ "__user") ∧
      w.IsNew (input.id ++ "__memory") ∧
      (context.renews w.messages = true → lastInjectedDate w.messages = none →
        ∀ m ∈ w.messages, m.isTarget = false))
    ⟨fun h => ⟨h.1, h.2.1, h.2.2.1, h.2.2.2.1, h.2.2.2.2.1, h.2.2.2.2.2.1, h.2.2.2.2.2.2.1,
      h.2.2.2.2.2.2.2⟩, fun h => ⟨h.target, h.visible, h.plain, h.id_ne, h.fresh, h.user, h.memory,
        h.first⟩⟩

instance (R : Reading) (w : World) (target : String) : Decidable (w.Traced R target) :=
  decidable_of_iff ((∀ t ∈ R.lastTurn w.messages,
      ∀ c ∈ w.checkpoints.drop regenerateHistoryScanLimit, t.2.id ∉ idsOf c.values.messages) ∧
      ((∃ row ∈ w.rows.reverse.take regenerateHistoryScanLimit,
        row.isAnswer = true ∧ row.messageId = some target ∧ row.runId ≠ "") ∨
      ∀ m ∈ w.messages, m.id = target → ∀ record ∈ w.records.take 10, record.status = "success" →
        R.runLastAiMatchesMessage record m = true → w.producer target = some record.runId))
    ⟨fun h => ⟨h.1, h.2⟩, fun h => ⟨h.question, h.run⟩⟩

instance (R : Reading) (messages kept : List Message) : Decidable (Keeps R messages kept) :=
  decidable_of_iff ((∀ t ∈ R.lastTurn kept, t ∈ R.lastTurn messages) ∧
      ∀ h ∈ lastHuman kept, h ∈ lastHuman messages)
    ⟨fun h => ⟨h.1, h.2⟩, fun h => ⟨h.turn, h.human⟩⟩

instance (R : Reading) (w : World) (a : ActiveRun) (updates : List Message) :
    Decidable (w.Appends R a updates) :=
  decidable_of_iff ((idsOf updates).Nodup ∧ (∀ m ∈ updates, isVisibleHumanMessage m = false) ∧
      (∀ m ∈ updates, m.id ∈ idsOf w.messages ∨ w.IsNew m.id) ∧
      (∀ m ∈ updates, ∀ x ∈ w.messages, x.id = m.id →
        isVisibleHumanMessage x = false ∧ R.isVisibleAiMessage x = R.isVisibleAiMessage m) ∧
      ∀ m ∈ updates, m.id ∉ idsOf w.messages → ∀ row ∈ w.rows,
        row.messageId = some m.id → row.runId = a.run)
    ⟨fun h => ⟨h.1, h.2.1, h.2.2.1, h.2.2.2.1, h.2.2.2.2⟩,
      fun h => ⟨h.distinct, h.human, h.new, h.over, h.rows⟩⟩

instance (s : Summarizer) (R : Reading) (w : World) (a : Act) : Decidable (Orderly s R w a) := by
  cases a <;> unfold Orderly <;> infer_instance

/-- What the tool `bash` says is no answer. -/
def demoReading : Reading where
  isAi m := m.name ≠ some "bash"
  messageToText _ := []
  messageContentToText _ := []
  prepend _ _ := .text []

/-- Of seven messages all but the last two are summarised. -/
def demoSummarizer : Summarizer where
  shouldSummarize messages _ := messages.length = 7
  determineCutoffIndex messages := messages.length - 2

def demoMessage (id : String) (kind : Kind) (name : Option String) : Message :=
  ⟨id, kind, name, .text id.toList, ⟨false, false, none, []⟩⟩

def demoContext (day : ProperText) : Context := ⟨none, day, [], demoUuid, false, some "so far"⟩

def demoWorld : World := ⟨[], [], [], none, fun _ => none, fun _ => none⟩

theorem demoWorld_begins : demoWorld.Begins := ⟨rfl, rfl, fun _ => rfl, fun _ => rfl⟩

/-- A run goes on to its first call, takes some steps, answers and is over. -/
def demoRun (run answer : String) (steps : List Act) : List Act :=
  List.replicate 4 .proceed ++ steps ++ [.advance [demoMessage answer .other none],
    .log ⟨"llm.ai.response", some answer, run⟩, .finish "success" (some answer.toList)]

def monday : ProperText := ⟨"2026-05-04, Monday", by decide⟩

def tuesday : ProperText := ⟨"2026-05-05, Tuesday", by decide⟩

/-- Two turns on two days, and the second again. -/
def demoTurns : List Act :=
  .start "1" (demoMessage "x" .human none) (demoContext monday) :: demoRun "1" "a" [] ++
    .start "2" (demoMessage "y" .human none) (demoContext tuesday) :: demoRun "2" "b" [] ++
    .regenerate "3" "b" (demoContext tuesday) :: demoRun "3" "c" []

theorem regenerate_replays_demo : ∃ w payload run call base,
    runWith (step demoSummarizer demoReading "t") (Orderly demoSummarizer demoReading) demoWorld
      demoTurns = some w ∧
    prepareRegeneratePayload demoReading "t" w "c" = .ok payload ∧
    Replay demoSummarizer demoReading w "c" payload run call base := by
  have hlast : ((runWith (step demoSummarizer demoReading "t") (Orderly demoSummarizer demoReading)
      demoWorld demoTurns).any fun w => w.Traced demoReading "c" ∧
        (prepareRegeneratePayload demoReading "t" w "c").toOption.isSome) = true := by
    decide +kernel
  obtain ⟨w, hw, hcall⟩ := (any_eq_true _ _).mp hlast
  obtain ⟨htraced, hsome⟩ := of_decide_eq_true hcall
  cases hpayload : prepareRegeneratePayload demoReading "t" w "c" with
  | error e =>
    rw [hpayload] at hsome
    cases hsome
  | ok payload =>
    obtain ⟨run, call, base, hreplay⟩ :=
      regenerate_replays demoWorld_begins (runs_of_runWith hw) htraced hpayload
    exact ⟨w, payload, run, call, base, hw, hpayload, hreplay⟩

/-- A second run with tool calls, which is compacted while it goes on. -/
def demoLongRun : List Act :=
  .start "1" (demoMessage "x" .human none) (demoContext monday) :: demoRun "1" "a" [] ++
    .start "2" (demoMessage "z" .human none) (demoContext monday) :: demoRun "2" "e"
      [.advance [demoMessage "b" .other none], .advance [demoMessage "t" .other (some "bash")],
        .advance [demoMessage "c" .other none], .summarise "so far"]

/-- **The first question of the thread is sent again in the place of the last**: the compaction has
taken the last question, and has left the first with its reminder. -/
theorem question_replaced : ¬∀ w payload run call,
    Runs (step demoSummarizer demoReading "t") (fun _ _ => True) demoWorld w →
    prepareRegeneratePayload demoReading "t" w "e" = .ok payload →
    w.producer "e" = some run → w.calls run = some call →
    SameHuman demoReading payload.input call.input := by
  intro hall
  have hlast : ((runWith (step demoSummarizer demoReading "t") (fun _ _ => True) demoWorld
      demoLongRun).any fun w => w.producer "e" = some "2" ∧
        (w.calls "2").any (fun call => call.input.id = "z") ∧
        (prepareRegeneratePayload demoReading "t" w "e").toOption.any fun payload =>
          payload.targetRunId = "2" ∧ payload.input.id = some "x__user") = true := by
    decide +kernel
  obtain ⟨w, hw, hend⟩ := (any_eq_true _ _).mp hlast
  obtain ⟨hproducer, hcalls, hpayload⟩ := of_decide_eq_true hend
  obtain ⟨call, hcall, hinput⟩ := (any_eq_true _ _).mp hcalls
  obtain ⟨payload, hok, hid⟩ := (any_eq_true _ _).mp hpayload
  cases hprepare : prepareRegeneratePayload demoReading "t" w "e" with
  | error e =>
    rw [hprepare] at hok
    cases hok
  | ok payload' =>
    rw [hprepare] at hok
    cases hok
    have hsame := (hall w payload "2" call (runs_of_runWith hw) hprepare hproducer hcall).id
    rw [of_decide_eq_true hinput, (of_decide_eq_true hid).2] at hsame
    revert hsame
    decide

/-- With a memory, the question is put before it the second time. -/
example :
    let context := { demoContext monday with memoryContext := "tea".toList }
    let question := demoMessage "x" .human none
    idsOf (demoReading.opened [] question context) = ["x", "x__memory", "x__user"] ∧
      idsOf (demoReading.opened [question] { question with id := "x__user" } context) =
        ["x", "x__user", "x__memory"] := by
  decide +kernel

end AfterFlow.Threads.Regeneration
