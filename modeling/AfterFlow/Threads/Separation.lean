import AfterFlow.Threads.Branching

/-!
# Branches are apart from their parents

A call works under an id that no one else has, until the row tells it. What it has found stays in
the parent's history, which only grows, and what it has written stays the oldest checkpoint of the
branch. So what is true of a call is kept by whatever the others do, except that a run which starts
on the parent makes a turn that is going to be copied an earlier one.

The handle of a sandbox is the thread's own as long as no handle is copied to another thread.

## Main results

* `lastVisible_of_matches` — what the scan finds ends with the target, if the target is visible
* `World.Sound.mono` — what others do to a call
* `World.Kept.step` — the step lemma
* `branch_separate` — runs of orderly steps
* `branch_in_parent_sandbox` — a tool call of a branch in the sandbox of its parent
-/

namespace AfterFlow.Threads.Branching

open Transition List Function Option

variable {I R : Type} {messages : List (Message R)} {targets : List String}

/-! ### What the scans find -/

theorem indexById_lt {id : String} {n : ℕ} (h : indexById id messages = some n) :
    n < messages.length := by
  induction messages generalizing n with
  | nil => cases h
  | cons m ms ih =>
    rw [indexById] at h
    split at h
    · cases h
      exact Nat.succ_lt_succ (ih ‹_›)
    · split at h <;> cases h
      exact Nat.succ_pos _

theorem foldr_max_mem {l : List ℕ} (h : l ≠ []) : l.foldr max 0 ∈ l := by
  induction l with
  | nil => exact absurd rfl h
  | cons n l ih =>
    rw [foldr_cons]
    rcases Nat.le_total n (l.foldr max 0) with hle | hle
    · rw [Nat.max_eq_right hle]
      by_cases hl : l = []
      · subst hl
        have hn : n = 0 := Nat.le_zero.1 hle
        exact hn ▸ mem_cons_self
      · exact mem_cons_of_mem n (ih hl)
    · rw [Nat.max_eq_left hle]
      exact mem_cons_self

theorem targetEndIndex_lt (h : matchesBranchTarget messages targets = true) :
    targetEndIndex messages targets < messages.length := by
  rw [matchesBranchTarget] at h
  simp only [Bool.and_eq_true, decide_eq_true_eq, List.all_eq_true] at h
  obtain ⟨⟨⟨hne, hfound⟩, -⟩, -⟩ := h
  obtain ⟨id, hid⟩ := List.exists_mem_of_ne_nil _ hne
  obtain ⟨n, hn⟩ := Option.isSome_iff_exists.1 (hfound id hid)
  have hindices : targets.filterMap (fun id => indexById id messages) ≠ [] :=
    List.ne_nil_of_mem (List.mem_filterMap.2 ⟨id, hid, hn⟩)
  obtain ⟨id', -, hid'⟩ := List.mem_filterMap.1 (foldr_max_mem hindices)
  exact indexById_lt hid'

/-- **What the scan finds ends with the target, if the target is visible.** -/
theorem lastVisible_of_matches (h : matchesBranchTarget messages targets = true)
    (hvisible : ∀ m ∈ lastTarget messages targets, m.isBranchVisible = true) :
    ∃ m, lastTarget messages targets = some m ∧ lastVisible messages = some m := by
  have hlt := targetEndIndex_lt h
  have htarget : lastTarget messages targets = some messages[targetEndIndex messages targets] :=
    getElem?_eq_getElem hlt
  refine ⟨_, htarget, ?_⟩
  have hafter : (messages.drop (targetEndIndex messages targets + 1)).filter
      Message.isBranchVisible = [] := by
    rw [matchesBranchTarget] at h
    rw [Bool.and_eq_true, Bool.not_eq_true', List.any_eq_false] at h
    exact List.filter_eq_nil_iff.2 h.2
  calc lastVisible messages
      = ((messages.take (targetEndIndex messages targets) ++
          messages[targetEndIndex messages targets] ::
            messages.drop (targetEndIndex messages targets + 1)).filter
              Message.isBranchVisible).getLast? := by
        rw [← drop_eq_getElem_cons hlt, take_append_drop, lastVisible]
    _ = some messages[targetEndIndex messages targets] := by
        rw [filter_append, filter_cons_of_pos (hvisible _ htarget), hafter,
          getLast?_append]
        rfl

theorem findBranchCheckpoint_spec {checkpoints : List (Checkpoint R)} {c : Checkpoint R}
    (h : findBranchCheckpoint checkpoints targets = some c) :
    c ∈ checkpoints ∧ matchesBranchTarget c.messages targets = true := by
  rw [findBranchCheckpoint] at h
  exact ⟨mem_of_mem_take (mem_of_find?_eq_some h), by simpa using find?_some h⟩

/-! ### What is true of a call -/

variable {calls : I → Call} {threadOf : R → String} {w w' : World I R} {i j : I} {r : R}
  {call : Call} {stage : CallStage R} {c : Checkpoint R} {t : String}

/-- The checkpoint is one of the parent's, and its turn may be copied. -/
structure World.Turn (w : World I R) (call : Call) (c : Checkpoint R) : Prop where
  mem : c ∈ w.checkpoints call.threadId
  ends : ∃ m, lastTarget c.messages call.targetMessageIds = some m ∧
    lastVisible c.messages = some m
  sandbox : c.sandbox = none

/-- There is nothing under the id, and no one else knows it. -/
structure World.Untold (w : World I R) (t : String) : Prop where
  ids : w.ids t = .drawn
  checkpoints : w.checkpoints t = []
  row : w.rows t = none

/-- The thread began with the messages of the checkpoint. -/
def World.Holds (w : World I R) (t : String) (c : Checkpoint R) : Prop :=
  ∃ c', (w.checkpoints t).getLast? = some c' ∧ c'.messages = c.messages

/-- No run has started on the parent since the turn of the checkpoint. -/
def World.Current (w : World I R) (call : Call) (c : Checkpoint R) : Prop :=
  w.lastRun call.threadId = turnOf c.messages

/-- What is true of a call. -/
@[grind =] def World.Sound (w : World I R) (call : Call) : CallStage R → Prop
  | .called | .finding _ => True
  | .looking _ c => c ∈ w.checkpoints call.threadId ∧
      matchesBranchTarget c.messages call.targetMessageIds = true
  | .putting _ c latest t _ => w.Turn call c ∧ w.Untold t ∧ (latest = true → w.Current call c)
  | .creating _ c latest t => w.Turn call c ∧ (w.ids t = .drawn ∧ w.rows t = none ∧ w.Holds t c) ∧
      (latest = true → w.Current call c)
  | .copying c t => w.Turn call c ∧ w.Holds t c ∧ w.Current call c
  | .done c t _ => w.Turn call c ∧ w.Holds t c
  | .raised drawn => ∀ t ∈ drawn, w.Untold t

/-- What others may do to a call: histories grow, what is under an id that is not told stays, and no
run starts on a parent whose files are going to be copied. -/
structure World.Leaves (w w' : World I R) (call : Call) (stage : CallStage R) : Prop where
  checkpoints : ∀ t, w.checkpoints t <:+ w'.checkpoints t
  drawn : ∀ t ∈ stage.drawn, w.ids t = .drawn →
    w'.ids t = .drawn ∧ w'.checkpoints t = w.checkpoints t ∧ w'.rows t = w.rows t
  lastRun : stage.copies = true → w'.lastRun call.threadId = w.lastRun call.threadId

theorem World.Leaves.of_eq (hcheckpoints : w'.checkpoints = w.checkpoints) (hids : w'.ids = w.ids)
    (hrows : w'.rows = w.rows) (hlast : w'.lastRun = w.lastRun) : w.Leaves w' call stage where
  checkpoints t := by rw [hcheckpoints]
  drawn t _ h := by
    rw [hids, hcheckpoints, hrows]
    exact ⟨h, rfl, rfl⟩
  lastRun _ := by rw [hlast]

theorem World.Turn.mono (h : w.Turn call c) (hgrows : ∀ t, w.checkpoints t <:+ w'.checkpoints t) :
    w'.Turn call c :=
  ⟨(hgrows _).subset h.mem, h.ends, h.sandbox⟩

theorem World.Holds.mono (h : w.Holds t c) (hgrows : ∀ t, w.checkpoints t <:+ w'.checkpoints t) :
    w'.Holds t c := by
  obtain ⟨c', hlast, hmessages⟩ := h
  obtain ⟨later, hlater⟩ := hgrows t
  refine ⟨c', ?_, hmessages⟩
  rw [← hlater, getLast?_append, hlast]
  rfl

theorem World.Leaves.untold (h : w.Leaves w' call stage) (ht : t ∈ stage.drawn)
    (huntold : w.Untold t) : w'.Untold t := by
  obtain ⟨hids, hcheckpoints, hrow⟩ := h.drawn t ht huntold.ids
  exact ⟨hids, hcheckpoints.trans huntold.checkpoints, hrow.trans huntold.row⟩

/-- **What others do to a call leaves true what was true of it.** -/
theorem World.Sound.mono (h : w.Sound call stage) (hleaves : w.Leaves w' call stage) :
    w'.Sound call stage := by
  have hcurrent : ∀ c : Checkpoint R, stage.copies = true → w.Current call c → w'.Current call c :=
    fun c hcopies hc => (hleaves.lastRun hcopies).trans hc
  cases stage with
  | called | finding => trivial
  | looking source c => exact ⟨(hleaves.checkpoints _).subset h.1, h.2⟩
  | putting source c latest t id =>
    obtain ⟨hturn, huntold, hlatest⟩ := h
    exact ⟨hturn.mono hleaves.checkpoints, hleaves.untold rfl huntold,
      fun hl => hcurrent c hl (hlatest hl)⟩
  | creating source c latest t =>
    obtain ⟨hturn, ⟨hids, hrow, hholds⟩, hlatest⟩ := h
    obtain ⟨hids', -, hrow'⟩ := hleaves.drawn t rfl hids
    exact ⟨hturn.mono hleaves.checkpoints,
      ⟨hids', hrow'.trans hrow, hholds.mono hleaves.checkpoints⟩,
      fun hl => hcurrent c hl (hlatest hl)⟩
  | copying c t =>
    obtain ⟨hturn, hholds, hnow⟩ := h
    exact ⟨hturn.mono hleaves.checkpoints, hholds.mono hleaves.checkpoints, hcurrent c rfl hnow⟩
  | done c t mode => exact ⟨h.1.mono hleaves.checkpoints, h.2.mono hleaves.checkpoints⟩
  | raised drawn => exact fun t ht => hleaves.untold ht (h t ht)

/-! ### The invariant -/

/-- The sandboxes that the state of a run names are the thread's own. -/
def RunStage.Owns (acquiredFor : String → Option String) (threadId : String) : RunStage R → Prop
  | .running c updates => (∀ s ∈ c.sandbox, acquiredFor s = some threadId) ∧
      ∀ s ∈ updates, acquiredFor s = some threadId
  | .writing c => ∀ s ∈ c.sandbox, acquiredFor s = some threadId
  | .waiting | .started | .over => True

/-- The call has found the parent's row, and goes on. -/
@[grind =] def CallStage.based : CallStage R → Bool
  | .called | .raised _ => false
  | _ => true

/-- What is true of threads, runs and sandboxes. -/
structure World.Kept (calls : I → Call) (threadOf : R → String) (p : I → Prop) (w : World I R) :
    Prop where
  /-- What is true of the calls of which it is claimed. -/
  sound : ∀ i, p i → w.Sound (calls i) (w.call i)
  drawn : ∀ i t, (w.call i).drawn = some t → w.ids t ≠ .fresh
  apart : ∀ i j t, (w.call i).drawn = some t → (w.call j).drawn = some t → i = j
  other : ∀ i t, (w.call i).drawn = some t → t ≠ (calls i).threadId
  parents : ∀ i, (w.call i).based = true → w.ids (calls i).threadId = .told
  runs : ∀ r, w.run r ≠ .waiting → w.ids (threadOf r) = .told
  rows : ∀ t, w.ids t ≠ .told → w.rows t = none
  fresh : ∀ t, w.ids t = .fresh → w.checkpoints t = []
  owned : ∀ t, ∀ c ∈ w.checkpoints t, ∀ s ∈ c.sandbox, w.acquiredFor s = some t
  held : ∀ r, (w.run r).Owns w.acquiredFor (threadOf r)
  files : ∀ q ∈ w.copies, q.2.2 = turnOf q.2.1.messages
  toolCalls : ∀ q ∈ w.toolCalls, w.acquiredFor q.2 = some q.1

variable {p : I → Prop}

attribute [local simp] CallStage.drawn CallStage.based

theorem World.Begins.kept (h : w.Begins) : w.Kept calls threadOf (fun _ => True) where
  sound i _ := by
    rw [h.call]
    trivial
  drawn i t ht := by simp [h.call] at ht
  apart i j t ht := by simp [h.call] at ht
  other i t ht := by simp [h.call] at ht
  parents i hi := by simp [h.call] at hi
  runs r hr := absurd (h.run r) hr
  rows t ht := (h.untold t ht).2
  fresh t ht := (h.untold t (by simp [ht])).1
  owned := h.sandbox
  held r := by
    rw [h.run]
    trivial
  files := by simp [h.copies]
  toolCalls := by simp [h.toolCalls]

theorem World.Kept.mono {q : I → Prop} (h : w.Kept calls threadOf p) (hq : ∀ i, q i → p i) :
    w.Kept calls threadOf q :=
  { h with sound := fun i hi => h.sound i (hq i hi) }

theorem World.Kept.separate (h : w.Kept calls threadOf fun _ => True) : w.Separate calls where
  messages i c t mode hcall := by
    have hsound := h.sound i trivial
    rw [hcall] at hsound
    exact ⟨hsound.1.mem, hsound.1.ends, hsound.2⟩
  files := h.files
  sandbox := h.toolCalls
  raised i t hcall := by
    have hsound := h.sound i trivial
    rw [hcall] at hsound
    exact ⟨(hsound t rfl).checkpoints, (hsound t rfl).row⟩

/-- The call has written the checkpoint of the branch. -/
def CallStage.written : CallStage R → Bool
  | .creating _ _ _ _ | .copying _ _ | .done _ _ _ => true
  | _ => false

theorem World.Sound.untold (h : w.Sound call stage) (hwritten : stage.written = false)
    (ht : stage.drawn = some t) : w.Untold t := by
  cases stage with
  | called | finding | looking => cases ht
  | putting source c latest t' id =>
    cases ht
    exact h.2.1
  | creating | copying | done => cases hwritten
  | raised drawn => exact h t ht

/-! ### What calls do -/

section Steps

variable [DecidableEq I]

/-- A call goes on to a stage of which what is claimed is true. -/
theorem World.Kept.goTo (h : w.Kept calls threadOf (· ≠ i)) (hsound : w.Sound (calls i) stage)
    (hparent : stage.based = true → w.ids (calls i).threadId = .told)
    (hdrawn : ∀ t ∈ stage.drawn, w.ids t ≠ .fresh ∧ t ≠ (calls i).threadId ∧
      ∀ j, j ≠ i → (w.call j).drawn ≠ some t) :
    (w.goTo i stage).Kept calls threadOf fun _ => True := by
  have hself : (w.goTo i stage).call i = stage := update_self ..
  have hother : ∀ j, j ≠ i → (w.goTo i stage).call j = w.call j := fun j hj =>
    update_of_ne hj ..
  have hleaves : ∀ (call : Call) (stage' : CallStage R), w.Leaves (w.goTo i stage) call stage' :=
    fun _ _ => .of_eq rfl rfl rfl rfl
  refine { h with sound := ?_, drawn := ?_, apart := ?_, other := ?_, parents := ?_ }
  · intro j _
    by_cases hj : j = i
    · rw [hj, hself]
      exact hsound.mono (hleaves _ _)
    · rw [hother j hj]
      exact (h.sound j hj).mono (hleaves _ _)
  · intro j t ht
    by_cases hj : j = i
    · rw [hj, hself] at ht
      exact (hdrawn t ht).1
    · rw [hother j hj] at ht
      exact h.drawn j t ht
  · intro j k t hjt hkt
    by_cases hj : j = i
    · by_cases hk : k = i
      · rw [hj, hk]
      · rw [hj, hself] at hjt
        rw [hother k hk] at hkt
        exact absurd hkt ((hdrawn t hjt).2.2 k hk)
    · rw [hother j hj] at hjt
      by_cases hk : k = i
      · rw [hk, hself] at hkt
        exact absurd hjt ((hdrawn t hkt).2.2 j hj)
      · rw [hother k hk] at hkt
        exact h.apart j k t hjt hkt
  · intro j t ht
    by_cases hj : j = i
    · rw [hj, hself] at ht
      rw [hj]
      exact (hdrawn t ht).2.1
    · rw [hother j hj] at ht
      exact h.other j t ht
  · intro j hbased
    by_cases hj : j = i
    · rw [hj, hself] at hbased
      rw [hj]
      exact hparent hbased
    · rw [hother j hj] at hbased
      exact h.parents j hbased

theorem World.Kept.goOn (h : w.Kept calls threadOf (· ≠ i)) (hsound : w.Sound (calls i) stage)
    (hparent : stage.based = true → w.ids (calls i).threadId = .told)
    (hdrawn : ∀ t ∈ stage.drawn, (w.call i).drawn = some t) :
    (w.goTo i stage).Kept calls threadOf fun _ => True :=
  h.goTo hsound hparent fun t ht =>
    ⟨h.drawn i t (hdrawn t ht), h.other i t (hdrawn t ht),
      fun j hj hjt => hj (h.apart j i t hjt (hdrawn t ht))⟩

section

omit [DecidableEq I]

/-- A checkpoint is put, on a thread that is told, or by the call that has drawn its id. -/
theorem World.Kept.put {q : I → Prop} (h : w.Kept calls threadOf p) (hids : w.ids t ≠ .fresh)
    (howned : ∀ s ∈ c.sandbox, w.acquiredFor s = some t)
    (hq : ∀ j, q j → p j ∧ ((w.call j).drawn = some t → w.ids t ≠ .drawn)) :
    (w.put t c).Kept calls threadOf q := by
  have hself : (w.put t c).checkpoints t = c :: w.checkpoints t := update_self ..
  have hother : ∀ t', t' ≠ t → (w.put t c).checkpoints t' = w.checkpoints t' := fun t' ht' =>
    update_of_ne ht' ..
  refine { h with sound := ?_, fresh := ?_, owned := ?_ }
  · intro j hj
    obtain ⟨hp, huntold⟩ := hq j hj
    refine (h.sound j hp).mono ⟨fun t' => ?_, fun t' ht' hdrawn => ?_, fun _ => rfl⟩
    · by_cases ht' : t' = t
      · rw [ht', hself]
        exact suffix_cons ..
      · rw [hother t' ht']
    · have hne : t' ≠ t := fun heq => huntold (heq ▸ ht') (heq ▸ hdrawn)
      exact ⟨hdrawn, hother t' hne, rfl⟩
  · intro t' hfresh
    have hne : t' ≠ t := fun heq => hids (heq ▸ hfresh)
    rw [hother t' hne]
    exact h.fresh t' hfresh
  · intro t' c' hc'
    by_cases ht' : t' = t
    · rw [ht', hself] at hc'
      rw [ht']
      rcases mem_cons.1 hc' with rfl | hc'
      · exact howned
      · exact h.owned t c' hc'
    · rw [hother t' ht'] at hc'
      exact h.owned t' c' hc'

theorem World.ids_setRow {row : ThreadMetaRow} {t' : String} (hids : w.ids t' = .told) :
    (w.setRow t row).ids t' = .told := by
  by_cases ht' : t' = t
  · rw [ht']
    exact update_self ..
  · exact (update_of_ne ht' ..).trans hids

/-- The call that has drawn an id tells it. -/
theorem World.Kept.setRow (h : w.Kept calls threadOf p) (hdrawn : (w.call i).drawn = some t)
    {row : ThreadMetaRow} : (w.setRow t row).Kept calls threadOf fun j => p j ∧ j ≠ i := by
  have hself : (w.setRow t row).ids t = .told := update_self ..
  have hother : ∀ t', t' ≠ t → (w.setRow t row).ids t' = w.ids t' ∧
      (w.setRow t row).rows t' = w.rows t' := fun t' ht' =>
    ⟨update_of_ne ht' .., update_of_ne ht' ..⟩
  refine
    { h with
      sound := ?_
      drawn := ?_
      parents := fun j hj => ids_setRow (h.parents j hj)
      runs := fun r hr => ids_setRow (h.runs r hr)
      rows := ?_
      fresh := ?_ }
  · intro j hj
    refine (h.sound j hj.1).mono ⟨fun _ => suffix_rfl, fun t' ht' hids => ?_, fun _ => rfl⟩
    have hne : t' ≠ t := fun heq => hj.2 (h.apart j i t (heq ▸ ht') hdrawn)
    exact ⟨(hother t' hne).1.trans hids, rfl, (hother t' hne).2⟩
  · intro j t' ht'
    by_cases heq : t' = t
    · rw [heq, hself]
      exact Known.noConfusion
    · rw [(hother t' heq).1]
      exact h.drawn j t' ht'
  · intro t' hids
    have hne : t' ≠ t := fun heq => hids (heq ▸ hself)
    rw [(hother t' hne).2]
    exact h.rows t' ((hother t' hne).1 ▸ hids)
  · intro t' hids
    have hne : t' ≠ t := fun heq => by simp [heq, hself] at hids
    exact h.fresh t' ((hother t' hne).1.symm.trans hids)

/-- An id that nobody has drawn is drawn. -/
theorem World.Kept.draw (h : w.Kept calls threadOf p) (hfresh : w.ids t = .fresh) :
    (w.draw t).Kept calls threadOf p := by
  have hself : (w.draw t).ids t = .drawn := update_self ..
  have hother : ∀ t', w.ids t' ≠ .fresh → (w.draw t).ids t' = w.ids t' := by
    intro t' ht'
    have hne : t' ≠ t := fun heq => ht' ((congrArg w.ids heq).trans hfresh)
    exact update_of_ne hne ..
  have htold : ∀ t', w.ids t' = .told → (w.draw t).ids t' = .told := fun t' ht' =>
    (hother t' (by simp [ht'])).trans ht'
  refine
    { h with
      sound := ?_
      drawn := fun j t' ht' => by
        rw [hother t' (h.drawn j t' ht')]
        exact h.drawn j t' ht'
      parents := fun j hj => htold _ (h.parents j hj)
      runs := fun r hr => htold _ (h.runs r hr)
      rows := fun t' hids => h.rows t' fun ht' => hids (htold t' ht')
      fresh := ?_ }
  · intro j hj
    refine (h.sound j hj).mono ⟨fun _ => suffix_rfl, fun t' _ hids => ?_, fun _ => rfl⟩
    exact ⟨(hother t' (by simp [hids])).trans hids, rfl, rfl⟩
  · intro t' hids
    by_cases ht' : t' = t
    · rw [ht', hself] at hids
      cases hids
    · exact h.fresh t' ((update_of_ne ht' ..).symm.trans hids)

end

/-- What a call awaits comes back. -/
theorem World.Kept.next (h : w.Kept calls threadOf fun _ => True)
    (hnext : w.next calls i = some w') : w'.Kept calls threadOf fun _ => True := by
  have hbut : w.Kept calls threadOf (· ≠ i) := h.mono fun _ _ => trivial
  have hsound := h.sound i trivial
  have hparent := h.parents i
  rw [World.next] at hnext
  dsimp only at hnext
  split at hnext
  · rename_i hcall
    split at hnext
    · cases hnext
      exact hbut.goOn (by simp [World.Sound]) (by simp)
        (by simp)
    · rename_i source hsource
      have htold : w.ids (calls i).threadId = .told := by
        by_contra hids
        exact absurd (hsource.symm.trans (h.rows _ hids)) (some_ne_none _)
      split at hnext <;> cases hnext <;>
        exact hbut.goOn (by simp [World.Sound]) (fun _ => htold) (by simp)
  · rename_i source hcall
    have htold := hparent (by simp [hcall])
    split at hnext
    · cases hnext
      exact hbut.goOn (by simp [World.Sound]) (fun _ => htold) (by simp)
    · rename_i c hc
      split at hnext <;> cases hnext
      · exact hbut.goOn (by simp [World.Sound]) (fun _ => htold) (by simp)
      · exact hbut.goOn (findBranchCheckpoint_spec hc) (fun _ => htold) (by simp)
  · rename_i source c latest t id hcall
    have htold := hparent (by simp [hcall])
    have hdrawn : (w.call i).drawn = some t := by rw [hcall]; rfl
    cases hnext
    rw [hcall] at hsound
    obtain ⟨hturn, huntold, hlatest⟩ := hsound
    have hput : (w.put t { c with id := id }).Kept calls threadOf (· ≠ i) := by
      refine h.put (by simp [huntold.ids]) (by simp [hturn.sandbox]) fun j hj => ⟨trivial, ?_⟩
      exact fun hdrawn' => absurd (h.apart j i t hdrawn' hdrawn) hj
    refine hput.goOn ⟨hturn.mono fun t' => ?_, ⟨huntold.ids, huntold.row, ?_⟩, hlatest⟩
      (fun _ => htold) fun t' ht' => ht' ▸ hdrawn
    · by_cases ht' : t' = t
      · subst ht'
        rw [huntold.checkpoints]
        exact nil_suffix
      · exact (update_of_ne ht' _ w.checkpoints).symm ▸ suffix_rfl
    · refine ⟨{ c with id := id }, ?_, rfl⟩
      show (update w.checkpoints t _ t).getLast? = _
      rw [update_self, huntold.checkpoints]
      rfl
  · rename_i source c latest t hcall
    have htold := hparent (by simp [hcall])
    have hdrawn : (w.call i).drawn = some t := by rw [hcall]; rfl
    rw [hcall] at hsound
    obtain ⟨hturn, ⟨hids, hrow, hholds⟩, hlatest⟩ := hsound
    split at hnext
    · rename_i hsome
      rw [hrow] at hsome
      cases hsome
    · cases hnext
      refine ((h.setRow hdrawn).mono fun j hj => ⟨trivial, hj⟩).goOn ?_
        (fun _ => ids_setRow htold) ?_
      · cases latest with
        | true => exact ⟨⟨hturn.mem, hturn.ends, hturn.sandbox⟩, hholds, hlatest rfl⟩
        | false => exact ⟨⟨hturn.mem, hturn.ends, hturn.sandbox⟩, hholds⟩
      · intro t' ht'
        have heq : t' = t := by
          cases latest <;> exact (some.inj ht').symm
        exact heq ▸ hdrawn
  all_goals cases hnext

theorem World.Kept.look (h : w.Kept calls threadOf fun _ => True) {source : ThreadMetaRow}
    {id : String} {raises : Bool} (hcall : w.call i = .looking source c)
    (hfits : w.Fits calls i c raises) (hfresh : w.ids t = .fresh) :
    ((w.draw t).goTo i (.putting source c (!raises && branchTargetsLatestTurn
      (w.checkpoints (calls i).threadId) (calls i).targetMessageIds) t id)).Kept calls threadOf
        fun _ => True := by
  have hsound := h.sound i trivial
  rw [hcall] at hsound
  have htold := h.parents i (by simp [hcall])
  have hdraw : (w.draw t).Kept calls threadOf (· ≠ i) := (h.draw hfresh).mono fun _ _ => trivial
  have hdrawn : (w.draw t).ids t = .drawn := update_self ..
  have hne : (calls i).threadId ≠ t := fun heq => by simp [← heq, htold] at hfresh
  have huntold : w.rows t = none := h.rows t (by simp [hfresh])
  refine hdraw.goTo ⟨⟨hsound.1, lastVisible_of_matches hsound.2 hfits.visible, hfits.sandbox⟩,
    ⟨hdrawn, h.fresh t hfresh, huntold⟩, fun hlatest => ?_⟩ (fun _ => ?_) fun t' ht' => ?_
  · obtain ⟨hraises, hlook⟩ := (Bool.and_eq_true _ _).mp hlatest
    exact hfits.current (by simpa using hraises) hlook
  · exact (update_of_ne hne ..).trans htold
  · cases ht'
    exact ⟨by simp [hdrawn], hne.symm, fun j _ hj => h.drawn j t hj hfresh⟩

theorem World.Kept.copy (h : w.Kept calls threadOf fun _ => True) (found : Bool)
    (hcall : w.call i = .copying c t) :
    (if found then
      { w with copies := w.copies ++ [(i, c, w.lastRun (calls i).threadId)] }.goTo i
        (.done c t .currentThreadBestEffort)
    else w.goTo i (.done c t .notFound)).Kept calls threadOf fun _ => True := by
  have hsound := h.sound i trivial
  rw [hcall] at hsound
  obtain ⟨hturn, hholds, hcurrent⟩ := hsound
  have htold := h.parents i (by simp [hcall])
  have hdrawn : (w.call i).drawn = some t := by rw [hcall]; rfl
  have hbut : w.Kept calls threadOf (· ≠ i) := h.mono fun _ _ => trivial
  split
  · have hcopied : World.Kept calls threadOf (· ≠ i)
        { w with copies := w.copies ++ [(i, c, w.lastRun (calls i).threadId)] } := by
      refine { hbut with sound := fun j hj => ?_, files := fun q hq => ?_ }
      · exact (h.sound j trivial).mono (.of_eq rfl rfl rfl rfl)
      · rcases mem_append.1 hq with hq | hq
        · exact h.files q hq
        · rw [mem_singleton.1 hq]
          exact hcurrent
    exact hcopied.goOn ⟨⟨hturn.mem, hturn.ends, hturn.sandbox⟩, hholds⟩ (fun _ => htold)
      fun t' ht' => ht' ▸ hdrawn
  · exact hbut.goOn ⟨hturn, hholds⟩ (fun _ => htold) fun t' ht' => ht' ▸ hdrawn

theorem World.Kept.raise (h : w.Kept calls threadOf fun _ => True)
    (hunwritten : ∀ t, (w.call i).drawn = some t → w.Untold t) :
    (w.goTo i (.raised (w.call i).drawn)).Kept calls threadOf fun _ => True :=
  (h.mono fun _ _ => trivial).goOn hunwritten (fun hbased => by cases hbased) fun _ ht' => ht'

theorem World.Kept.fail (h : w.Kept calls threadOf fun _ => True)
    (hlisted : (w.call i).unlisted = false) (hfail : w.fail i = some w') :
    w'.Kept calls threadOf fun _ => True := by
  have hsound := h.sound i trivial
  rw [World.fail] at hfail
  split at hfail
  · cases hfail
  · cases hfail
  · cases hfail
  · rename_i c t hcall
    cases hfail
    rw [hcall] at hsound
    have htold := h.parents i (by simp [hcall])
    refine (h.mono fun _ _ => trivial).goOn ⟨hsound.1, hsound.2.1⟩ (fun _ => htold)
      fun t' ht' => ?_
    rw [hcall]
    exact ht'
  · rename_i hdone _ hcopying
    cases hfail
    refine h.raise fun t ht => hsound.untold ?_ ht
    cases hcall : w.call i with
    | creating => simp [hcall, CallStage.unlisted] at hlisted
    | copying c t' => exact absurd hcall (hcopying c t')
    | done c t' mode => exact absurd hcall (hdone c t' mode)
    | _ => rfl

theorem World.Kept.cancel (h : w.Kept calls threadOf fun _ => True)
    (hwritten : (w.call i).written = false) :
    (w.goTo i (.raised (w.call i).drawn)).Kept calls threadOf fun _ => True :=
  h.raise fun _ ht => (h.sound i trivial).untold hwritten ht

end Steps

/-! ### What runs do -/

theorem RunStage.Owns.mono {acquiredFor acquiredFor' : String → Option String} {stage : RunStage R}
    (h : stage.Owns acquiredFor t)
    (hacquired : ∀ s, acquiredFor s = some t → acquiredFor' s = some t) :
    stage.Owns acquiredFor' t := by
  cases stage with
  | waiting | started | «over» => trivial
  | running c updates =>
    exact ⟨fun s hs => hacquired s (h.1 s hs), fun s hs => hacquired s (h.2 s hs)⟩
  | writing c => exact fun s hs => hacquired s (h s hs)

theorem mem_of_mergeSandbox {updates : List String} {held merged : Option String}
    (h : updates.foldlM mergeSandbox held = some merged) :
    ∀ s ∈ merged, s ∈ held ∨ s ∈ updates := by
  induction updates generalizing held with
  | nil =>
    cases h
    exact fun s hs => .inl hs
  | cons new updates ih =>
    intro s hs
    obtain ⟨held', hmerge, hrest⟩ := bind_eq_some_iff.1 h
    rcases ih hrest s hs with hs | hs
    · cases held with
      | none =>
        cases hmerge
        cases hs
        exact .inr mem_cons_self
      | some old =>
        unfold mergeSandbox at hmerge
        dsimp only at hmerge
        split at hmerge <;> cases hmerge
        exact .inl hs
    · exact .inr (mem_cons_of_mem _ hs)

theorem World.acquire_spec {s : String} (h : w.acquire t s = some w') :
    w'.acquiredFor s = some t ∧
    ∀ s' t', w.acquiredFor s' = some t' → w'.acquiredFor s' = some t' := by
  rw [World.acquire] at h
  split at h
  · rename_i hfree
    cases h
    refine ⟨update_self .., fun s' t' hs' => ?_⟩
    by_cases heq : s' = s
    · subst heq
      rw [hfree t' hs']
      exact update_self ..
    · exact (update_of_ne heq ..).trans hs'
  · cases h

theorem World.Kept.acquire (h : w.Kept calls threadOf p) {s : String}
    (hacquire : w.acquire t s = some w') : w'.Kept calls threadOf p := by
  obtain ⟨-, hmono⟩ := acquire_spec hacquire
  rw [World.acquire] at hacquire
  split at hacquire <;> cases hacquire
  refine
    { h with
      sound := fun j hj => (h.sound j hj).mono (.of_eq rfl rfl rfl rfl)
      owned := fun t' c hc s' hs' => hmono _ _ (h.owned t' c hc s' hs')
      held := fun r => (h.held r).mono fun s' => hmono s' _
      toolCalls := fun q hq => hmono _ _ (h.toolCalls q hq) }

theorem World.Kept.useSandbox (h : w.Kept calls threadOf p) {s : String}
    (hs : w.acquiredFor s = some t) : (w.useSandbox t s).Kept calls threadOf p := by
  refine { h with sound := fun j hj => ?_, toolCalls := fun q hq => ?_ }
  · exact (h.sound j hj).mono (.of_eq rfl rfl rfl rfl)
  · rcases mem_append.1 hq with hq | hq
    · exact h.toolCalls q hq
    · rw [mem_singleton.1 hq]
      exact hs

theorem World.Kept.putTold (h : w.Kept calls threadOf p) (htold : w.ids t = .told)
    (howned : ∀ s ∈ c.sandbox, w.acquiredFor s = some t) : (w.put t c).Kept calls threadOf p :=
  h.put (by simp [htold]) howned fun _ hj => ⟨hj, fun _ => by simp [htold]⟩

theorem World.Kept.owned_getD (h : w.Kept calls threadOf p) {found : Option (Checkpoint R)}
    (hfound : ∀ c ∈ found, c ∈ w.checkpoints t) :
    ∀ s ∈ (found.getD ⟨"", [], none⟩).sandbox, w.acquiredFor s = some t := by
  cases found with
  | none => exact fun s hs => by cases hs
  | some c => exact h.owned t c (hfound c rfl)

section Steps

variable [DecidableEq R]

theorem World.Kept.runTo (h : w.Kept calls threadOf p) {stage : RunStage R}
    (htold : w.ids (threadOf r) = .told) (howns : stage.Owns w.acquiredFor (threadOf r)) :
    (w.runTo r stage).Kept calls threadOf p := by
  have hself : (w.runTo r stage).run r = stage := update_self ..
  have hother : ∀ r', r' ≠ r → (w.runTo r stage).run r' = w.run r' := fun r' hr' =>
    update_of_ne hr' ..
  refine { h with sound := fun j hj => ?_, runs := fun r' hr' => ?_, held := fun r' => ?_ }
  · exact (h.sound j hj).mono (.of_eq rfl rfl rfl rfl)
  · by_cases heq : r' = r
    · rw [heq]
      exact htold
    · rw [hother r' heq] at hr'
      exact h.runs r' hr'
  · by_cases heq : r' = r
    · rw [heq, hself]
      exact howns
    · rw [hother r' heq]
      exact h.held r'

theorem World.Kept.start (h : w.Kept calls threadOf p) (htold : w.ids (threadOf r) = .told)
    (hidle : ∀ i, (calls i).threadId = threadOf r → (w.call i).copies = false) :
    ({ w with lastRun := update w.lastRun (threadOf r) (some r) }.runTo r .started).Kept
      calls threadOf p := by
  have hlast : World.Kept calls threadOf p
      { w with lastRun := update w.lastRun (threadOf r) (some r) } := by
    refine { h with sound := fun j hj => ?_ }
    refine (h.sound j hj).mono ⟨fun _ => suffix_rfl, fun _ _ hids => ⟨hids, rfl, rfl⟩,
      fun hcopies => update_of_ne (fun heq => ?_) ..⟩
    exact absurd hcopies (by simp [hidle j heq])
  exact hlast.runTo htold trivial

/-- A tool call runs in a sandbox of its thread. -/
theorem World.Kept.tool (h : w.Kept calls threadOf p) {updates : List String} {s : String}
    (hrun : w.run r = .running c updates)
    (htool : w.tool threadOf r c updates s = some w') : w'.Kept calls threadOf p := by
  have howns := h.held r
  rw [hrun] at howns
  have htold := h.runs r (by simp [hrun])
  rw [World.tool] at htool
  split at htool
  · rename_i held hheld
    cases htool
    exact h.useSandbox (howns.1 held (eq_some_of_filter_eq_some hheld))
  · obtain ⟨w₁, hacquire, rfl⟩ := map_eq_some_iff.1 htool
    obtain ⟨hs, hmono⟩ := acquire_spec hacquire
    have htold₁ : w₁.ids (threadOf r) = .told := by
      rw [World.acquire] at hacquire
      split at hacquire <;> cases hacquire
      exact htold
    refine ((h.acquire hacquire).useSandbox hs).runTo htold₁
      ⟨fun s' hs' => hmono _ _ (howns.1 s' hs'), fun s' hs' => ?_⟩
    split at hs'
    · rcases mem_append.1 hs' with hs' | hs'
      · exact hmono _ _ (howns.2 s' hs')
      · rw [mem_singleton.1 hs']
        exact hs
    · exact hmono _ _ (howns.2 s' hs')

end Steps

/-! ### Steps -/

variable [DecidableEq I] [DecidableEq R]

/-- **Every orderly step keeps the invariant.** -/
theorem World.Kept.step {l : Act I R} (h : w.Kept calls threadOf fun _ => True)
    (horderly : Orderly calls threadOf w l) (hstep : step calls threadOf w l = some w') :
    w'.Kept calls threadOf fun _ => True := by
  simp only [Branching.step] at hstep
  cases l with
  | next i => exact h.next hstep
  | look i raises t id =>
    dsimp only at hstep
    split at hstep
    · rename_i source c hcall
      split at hstep <;> cases hstep
      unfold Orderly at horderly
      dsimp only at horderly
      rw [hcall] at horderly
      exact h.look hcall horderly ‹_›
    · cases hstep
  | copy i found =>
    dsimp only at hstep
    split at hstep
    · rename_i c t hcall
      have hcopy := h.copy found hcall
      split at hstep <;> cases hstep
      · rwa [if_pos ‹_›] at hcopy
      · rwa [if_neg ‹_›] at hcopy
    · cases hstep
  | fail i => exact h.fail horderly hstep
  | cancel i =>
    dsimp only at hstep
    split at hstep
    · cases hstep
    · cases hstep
    · rename_i hdone _
      cases hstep
      refine h.cancel ?_
      unfold Orderly at horderly
      dsimp only at horderly
      cases hcall : w.call i with
      | creating | copying => simp [hcall] at horderly
      | done c t mode => exact absurd hcall (hdone c t mode)
      | _ => rfl
  | start r =>
    dsimp only at hstep
    split at hstep <;> cases hstep
    rename_i hwaits
    exact h.start hwaits.2 horderly
  | load r =>
    dsimp only at hstep
    split at hstep <;> cases hstep
    rename_i hstarted
    refine h.runTo (h.runs r (by simp [hstarted])) ⟨h.owned_getD fun c hc => ?_, by simp⟩
    exact mem_of_mem_head? hc
  | tool r s =>
    dsimp only at hstep
    split at hstep
    · exact h.tool ‹_› hstep
    · cases hstep
  | advance r messages id =>
    dsimp only at hstep
    split at hstep
    · rename_i c updates hrun
      have htold := h.runs r (by simp [hrun])
      have howns := h.held r
      rw [hrun] at howns
      split at hstep
      · split at hstep <;> cases hstep
        · exact h.runTo htold trivial
        · rename_i sandbox hmerge
          refine h.runTo htold fun s hs => ?_
          rcases mem_of_mergeSandbox hmerge s hs with hs | hs
          · exact howns.1 s hs
          · exact howns.2 s hs
      · cases hstep
    · cases hstep
  | put r =>
    dsimp only at hstep
    split at hstep
    · rename_i c hrun
      cases hstep
      have htold := h.runs r (by simp [hrun])
      have howns := h.held r
      rw [hrun] at howns
      exact (h.putTold htold howns).runTo htold ⟨howns, by simp⟩
    · cases hstep
  | finish r =>
    dsimp only at hstep
    split at hstep <;> cases hstep
    exact h.runTo (h.runs r ‹_›) trivial
  | edit t n messages id =>
    dsimp only at hstep
    split at hstep <;> cases hstep
    rename_i hedit
    exact h.putTold hedit.1 (h.owned_getD fun c hc => mem_of_getElem? hc)
  | acquire t s => exact h.acquire hstep
  | lose s =>
    cases hstep
    exact { h with sound := fun j hj => (h.sound j hj).mono (.of_eq rfl rfl rfl rfl) }

omit [DecidableEq R] in
/-- What comes back leaves a thread as it is under whose id nothing is to be written. -/
theorem World.next_frame (ht : (w.call i).drawn ≠ some t) (hnext : w.next calls i = some w') :
    w'.checkpoints t = w.checkpoints t ∧ w'.rows t = w.rows t := by
  rw [World.next] at hnext
  dsimp only at hnext
  split at hnext
  · split at hnext
    · cases hnext
      exact ⟨rfl, rfl⟩
    · split at hnext <;> cases hnext <;> exact ⟨rfl, rfl⟩
  · split at hnext
    · cases hnext
      exact ⟨rfl, rfl⟩
    · split at hnext <;> cases hnext <;> exact ⟨rfl, rfl⟩
  · rename_i source c latest newThreadId id hcall
    cases hnext
    have hne : t ≠ newThreadId := fun heq => ht (by rw [hcall, heq]; rfl)
    exact ⟨update_of_ne hne .., rfl⟩
  · rename_i source c latest newThreadId hcall
    split at hnext <;> cases hnext
    · exact ⟨rfl, rfl⟩
    · have hne : t ≠ newThreadId := fun heq => ht (by rw [hcall, heq]; rfl)
      exact ⟨rfl, update_of_ne hne ..⟩
  all_goals cases hnext

/-- A call writes only under the id that it has drawn. -/
theorem step_frame {l : Act I R} (hcaller : l.caller = some i) (ht : (w.call i).drawn ≠ some t)
    (hstep : step calls threadOf w l = some w') :
    w'.checkpoints t = w.checkpoints t ∧ w'.rows t = w.rows t := by
  simp only [Branching.step] at hstep
  cases l with
  | next j =>
    cases hcaller
    exact World.next_frame ht hstep
  | look j raises newThreadId id =>
    dsimp only at hstep
    split at hstep
    · split at hstep <;> cases hstep
      exact ⟨rfl, rfl⟩
    · cases hstep
  | copy j found =>
    dsimp only at hstep
    split at hstep
    · split at hstep <;> cases hstep <;> exact ⟨rfl, rfl⟩
    · cases hstep
  | fail j =>
    unfold World.fail at hstep
    dsimp only at hstep
    split at hstep <;> cases hstep <;> exact ⟨rfl, rfl⟩
  | cancel j =>
    dsimp only at hstep
    split at hstep <;> cases hstep
    exact ⟨rfl, rfl⟩
  | _ => cases hcaller

/-- **A branch is apart from its parent.** Its messages are those of the parent up to the turn,
files are copied only from the latest turn, sandboxes are not shared, what raises leaves nothing,
and no step of a call writes to the parent. -/
theorem branch_separate {w₀ : World I R} (hbegins : w₀.Begins)
    (hruns : Runs (step calls threadOf) (Orderly calls threadOf) w₀ w) :
    w.Separate calls ∧
    ∀ i l w', l.caller = some i → step calls threadOf w l = some w' →
      w'.checkpoints (calls i).threadId = w.checkpoints (calls i).threadId ∧
      w'.rows (calls i).threadId = w.rows (calls i).threadId := by
  have hkept : w.Kept calls threadOf fun _ => True :=
    hruns.invariant hbegins.kept fun _ _ _ h horderly hstep => h.step horderly hstep
  exact ⟨hkept.separate, fun i l w' hcaller hstep =>
    step_frame hcaller (fun hdrawn => hkept.other i _ hdrawn rfl) hstep⟩

/-! ### A branch in its parent's sandbox -/

instance (w : World I R) (i : I) (c : Checkpoint R) (raises : Bool) :
    Decidable (w.Fits calls i c raises) :=
  decidable_of_iff
    ((∀ m ∈ lastTarget c.messages (calls i).targetMessageIds, m.isBranchVisible = true) ∧
      c.sandbox = none ∧
      (raises = false → branchTargetsLatestTurn (w.checkpoints (calls i).threadId)
        (calls i).targetMessageIds = true → w.lastRun (calls i).threadId = turnOf c.messages))
    ⟨fun h => ⟨h.1, h.2.1, h.2.2⟩, fun h => ⟨h.visible, h.sandbox, h.current⟩⟩

instance [Fintype I] (w : World I R) (a : Act I R) :
    Decidable (Orderly calls threadOf w a) := by
  cases a with
  | look i raises t id =>
    unfold Orderly
    dsimp only
    cases w.call i <;> infer_instance
  | cancel i =>
    unfold Orderly
    dsimp only
    cases w.call i <;> infer_instance
  | _ =>
    simp only [Orderly]
    infer_instance

/-- One caller branches from the answer of the first run. -/
def demoCalls (_ : Unit) : Call := ⟨"parent", "answer", [], none⟩

/-- The first two runs are the parent's, the third is the branch's. -/
def demoThreads : Fin 3 → String
  | 0 | 1 => "parent"
  | 2 => "branch"

/-- The parent is there, and nothing has been said. -/
def demoWorld : World Unit (Fin 3) where
  checkpoints _ := []
  rows t := if t = "parent" then some ⟨some "Tea", false, none⟩ else none
  ids t := if t = "parent" then .told else .fresh
  live _ := false
  call _ := .called
  run _ := .waiting
  lastRun _ := none
  acquiredFor _ := none
  toolCalls := []
  copies := []

theorem demoWorld_begins : demoWorld.Begins where
  call _ := rfl
  run _ := rfl
  ids t := by
    rw [demoWorld]
    dsimp only
    split <;> exact Known.noConfusion
  untold t ht := by
    refine ⟨rfl, if_neg fun heq => ht ?_⟩
    exact if_pos heq
  sandbox _ _ hc := by cases hc
  toolCalls := rfl
  copies := rfl

def demoMessages : List (Message (Fin 3)) :=
  [⟨some "question", .human, false, "tea?", some 0⟩, ⟨some "answer", .ai, false, "tea", some 0⟩]

/-- A turn of the parent, with a tool call or without. -/
def demoTurn (tools : List (Act Unit (Fin 3))) : List (Act Unit (Fin 3)) :=
  [.start 0, .load 0] ++ tools ++ [.advance 0 demoMessages "1", .put 0, .finish 0]

/-- The branch from its answer, and a tool call of the branch. -/
def demoBranch : List (Act Unit (Fin 3)) :=
  [.next (), .next (), .look () false "branch" "2", .next (), .next (), .copy () true, .start 2,
    .load 2, .tool 2 "branch's"]

theorem branch_separate_demo : ∃ w, runWith (step demoCalls demoThreads)
    (Orderly demoCalls demoThreads) demoWorld (demoTurn [] ++ demoBranch) = some w ∧
      w.Separate demoCalls := by
  obtain ⟨w, hw⟩ : ∃ w, runWith (step demoCalls demoThreads) (Orderly demoCalls demoThreads)
      demoWorld (demoTurn [] ++ demoBranch) = some w :=
    isSome_iff_exists.mp (by decide +kernel)
  exact ⟨w, hw, (branch_separate demoWorld_begins (runs_of_runWith hw)).1⟩

/-- **A branch works in its parent's sandbox**, whose handle is copied with the checkpoint. -/
theorem branch_in_parent_sandbox : ¬∀ w : World Unit (Fin 3),
    Runs (step demoCalls demoThreads) (fun _ _ => True) demoWorld w → w.Separate demoCalls := by
  intro h
  have hlast : ((runWith (step demoCalls demoThreads) (fun _ _ => True) demoWorld
      (demoTurn [.tool 0 "parent's"] ++ demoBranch)).any fun w =>
        ("branch", "parent's") ∈ w.toolCalls ∧
          w.acquiredFor "parent's" = some "parent") = true := by
    decide +kernel
  obtain ⟨w, hw, hcall⟩ := (any_eq_true _ _).mp hlast
  obtain ⟨htool, hacquired⟩ := of_decide_eq_true hcall
  have hown := (h w (runs_of_runWith hw)).sandbox _ htool
  exact absurd (hacquired.symm.trans hown) (by decide)

/-- The row cannot be created, and the checkpoint is left. -/
example : ((runWith (step demoCalls demoThreads) (fun _ _ => True) demoWorld (demoTurn [] ++
    [.next (), .next (), .look () false "branch" "2", .next (), .fail ()])).any fun w =>
      w.call () = .raised (some "branch") ∧ w.checkpoints "branch" ≠ []) = true := by
  decide +kernel

/-- A run starts after the second scan, and its thread's files are copied. -/
example : ((runWith (step demoCalls demoThreads) (fun _ _ => True) demoWorld (demoTurn [] ++
    [.next (), .next (), .look () false "branch" "2", .start 1, .next (), .next (),
      .copy () true])).any fun w =>
        w.copies = [((), ⟨"1", demoMessages, none⟩, some 1)]) = true := by
  decide +kernel

end AfterFlow.Threads.Branching
