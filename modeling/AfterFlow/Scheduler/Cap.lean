import AfterFlow.Scheduler.Overlap
import Mathlib.Algebra.GroupWithZero.Nat
import Mathlib.Data.String.Basic

/-!
# The cap on scheduled runs

`run_once` counts the active runs, claims as many due tasks as the cap leaves room for, and
dispatches them one after the other. Runs may end while it does, and runs may be triggered by hand.

As long as one poll ends before the next starts, the polls keep the cap: what a poll may still
create is set aside for it when it has counted, and nothing else creates scheduled runs.

The claim takes the first of the tasks that are enabled or were left running by a claim whose lease
has expired. Leases that were granted and not given back are remembered, so that statements can
speak of them.

## Main results

* `polls_keep_cap` — the cap holds, and every poll claims what it leaves room for
* `polls_keep_cap_stuck` — a task that was left running is claimed before one that is enabled
-/

namespace AfterFlow.Scheduler

open Coop Coro Logic List

/-! ### What is counted and what is claimed -/

/-- The queued and running rows that scheduled triggers have created. -/
def Store.countScheduled (s : Store) : ℕ :=
  s.runs.countP fun row => row.trigger = .scheduled && row.status.isActive

/-- The rows that a claim may take: enabled with a free lease, or running with an expired one. -/
def Store.claimable (s : Store) (now : Time) : List TaskRow := s.tasks.filter (TaskRow.isDue now)

/-- Due no later; among those that are due at once, by id. -/
def TaskRow.Earlier (a b : TaskRow) : Prop :=
  a.nextRunAt.getD 0 < b.nextRunAt.getD 0 ∨ a.nextRunAt.getD 0 = b.nextRunAt.getD 0 ∧ a.id ≤ b.id

/-- A claim takes as many claimable rows as it may, the earliest first, each once, and leases
them. -/
structure Store.Claims (cfg : Setting) (now : Time) (limit : ℕ) (before after : Store)
    (claimed : List TaskRow) : Prop where
  length : claimed.length = min limit (before.claimable now).length
  claimable : ∀ c ∈ claimed, ∃ row ∈ before.claimable now,
    c = row.claim cfg.leaseOwner (now + cfg.leaseSeconds)
  once : (claimed.map TaskRow.id).Nodup
  sorted : claimed.Pairwise TaskRow.Earlier
  first : ∀ row ∈ before.claimable now, row.id ∉ claimed.map TaskRow.id → ∀ c ∈ claimed,
    c.Earlier row
  tasks : after.tasks = before.tasks.map fun row =>
    if row.id ∈ claimed.map TaskRow.id then row.claim cfg.leaseOwner (now + cfg.leaseSeconds)
    else row
  runs : after.runs = before.runs

section Claim

variable {s : Store} {now : Time} {limit : ℕ}

theorem TaskRow.Earlier.trans {a b c : TaskRow} (hab : a.Earlier b) (hbc : b.Earlier c) :
    a.Earlier c := by
  obtain hab | ⟨hab, hab'⟩ := hab
  · obtain hbc | ⟨hbc, -⟩ := hbc
    · exact .inl (hab.trans hbc)
    · exact .inl (hbc ▸ hab)
  · obtain hbc | ⟨hbc, hbc'⟩ := hbc
    · exact .inl (hab ▸ hbc)
    · exact .inr ⟨hab.trans hbc, hab'.trans hbc'⟩

theorem TaskRow.Earlier.total (a b : TaskRow) : a.Earlier b ∨ b.Earlier a := by
  obtain hlt | heq | hgt := Nat.lt_trichotomy (a.nextRunAt.getD 0) (b.nextRunAt.getD 0)
  · exact .inl (.inl hlt)
  · exact (le_total a.id b.id).imp (fun hid => .inr ⟨heq, hid⟩) fun hid => .inr ⟨heq.symm, hid⟩
  · exact .inr (.inl hgt)

instance : IsTrans TaskRow TaskRow.Earlier := ⟨fun _ _ _ => TaskRow.Earlier.trans⟩

instance : Std.Total TaskRow.Earlier := ⟨TaskRow.Earlier.total⟩

instance (a b : TaskRow) : Decidable (a.Earlier b) := inferInstanceAs (Decidable (_ ∨ _ ∧ _))

theorem Store.dueTasks_eq (s : Store) (now : Time) (limit : ℕ) :
    s.dueTasks now limit = ((s.claimable now).insertionSort TaskRow.Earlier).take limit := rfl

theorem Store.length_dueTasks (s : Store) (now : Time) (limit : ℕ) :
    (s.dueTasks now limit).length = min limit (s.claimable now).length := by
  rw [Store.dueTasks_eq, length_take, length_insertionSort]

theorem Store.dueTasks_sorted (s : Store) (now : Time) (limit : ℕ) :
    (s.dueTasks now limit).Pairwise TaskRow.Earlier :=
  (pairwise_insertionSort TaskRow.Earlier _).take

theorem Store.dueTasks_first {row due : TaskRow} (hrow : row ∈ s.claimable now)
    (hnot : row ∉ s.dueTasks now limit) (hdue : due ∈ s.dueTasks now limit) :
    due.Earlier row := by
  have hsorted := pairwise_insertionSort TaskRow.Earlier (s.claimable now)
  rw [← take_append_drop limit (List.insertionSort _ _), pairwise_append] at hsorted
  refine hsorted.2.2 due hdue row ?_
  have hmem := (mem_insertionSort TaskRow.Earlier).2 hrow
  rw [← take_append_drop limit (List.insertionSort _ _), mem_append] at hmem
  exact hmem.resolve_left hnot

theorem Store.nodup_dueTasks (hids : (s.tasks.map TaskRow.id).Nodup) :
    ((s.dueTasks now limit).map TaskRow.id).Nodup := by
  have hclaimable : ((s.claimable now).map TaskRow.id).Nodup :=
    hids.sublist (filter_sublist.map TaskRow.id)
  have hperm := (perm_insertionSort TaskRow.Earlier (s.claimable now)).map TaskRow.id
  exact (hperm.nodup_iff.2 hclaimable).sublist ((take_sublist _ _).map TaskRow.id)

theorem map_id_claim (l : List TaskRow) (owner : String) (expires : Time) :
    (l.map (TaskRow.claim owner expires)).map TaskRow.id = l.map TaskRow.id := by
  rw [map_map]
  rfl

/-- **What a claim does.** -/
theorem Store.claimDueTasks_claims (cfg : Setting) (hids : (s.tasks.map TaskRow.id).Nodup)
    (now : Time) (limit : ℕ) : Store.Claims cfg now limit s
      (s.claimDueTasks now cfg.leaseOwner cfg.leaseSeconds limit).2
      (s.claimDueTasks now cfg.leaseOwner cfg.leaseSeconds limit).1 := by
  constructor
  · rw [Store.claimDueTasks, length_map, Store.length_dueTasks]
  · intro c hc
    obtain ⟨row, hrow, rfl⟩ := mem_map.1 hc
    exact ⟨row, (mem_insertionSort TaskRow.Earlier).1 (mem_of_mem_take hrow), rfl⟩
  · rw [Store.claimDueTasks, map_id_claim]
    exact Store.nodup_dueTasks hids
  · exact (Store.dueTasks_sorted s now limit).map _ fun _ _ hab => hab
  · intro row hrow hnot c hc
    rw [Store.claimDueTasks, map_id_claim] at hnot
    obtain ⟨due, hdue, rfl⟩ := mem_map.1 hc
    have hfirst : due.Earlier row :=
      Store.dueTasks_first hrow (fun hmem => hnot (mem_map_of_mem hmem)) hdue
    exact hfirst
  · simp only [Store.claimDueTasks, map_id_claim]
  · rfl

end Claim

/-! ### Leases -/

/-- The leases that are held: of which task, and until when. -/
abbrev Leases := List (String × Time)

/-- A claim grants leases, and the end of a dispatch gives one back. -/
@[grind =] def rememberLeases (cfg : Setting) :
    (op : SchedOp) → Except SchedExn op.Reply → Store → Leases → Leases
  | .claimDueTasks now _, .ok rows, _, m =>
    (rows.map fun row => (row.id, now + cfg.leaseSeconds)) ++
      m.filter fun lease => lease.1 ∉ rows.map TaskRow.id
  | .updateAfterLaunch task _, .ok _, _, m => m.filter fun lease => lease.1 ≠ task.id
  | _, _, _, m => m

/-- The rows carry the leases that are held, and their ids are `ids`. -/
structure Leased (ids : List String) (w : World Leases) : Prop where
  ids : w.store.tasks.map TaskRow.id = ids
  held : ∀ lease ∈ w.memory, ∀ row ∈ w.store.tasks, row.id = lease.1 →
    row.leaseExpiresAt = some lease.2

section Leases

variable {ids : List String} {w : World Leases} {cfg : Setting}

theorem Leased.onTask (h : Leased ids w) {id : String} {f : TaskRow → TaskRow}
    (hid : ∀ row, (f row).id = row.id) {m : Leases} (hm : m ⊆ w.memory)
    (hf : ∀ lease ∈ m, lease.1 = id → ∀ row, (f row).leaseExpiresAt = row.leaseExpiresAt)
    (uuids : ℕ) : Leased ids ⟨w.store.onTask id f, uuids, m⟩ := by
  constructor
  · rw [← h.ids]
    show (w.store.tasks.map _).map TaskRow.id = _
    rw [map_map]
    refine map_congr_left fun row _ => ?_
    show (if row.id = id then f row else row).id = row.id
    split
    · exact hid row
    · rfl
  · intro lease hlease row hrow hrowId
    obtain ⟨t, ht, rfl⟩ := Store.mem_onTask.1 hrow
    by_cases htask : t.id = id
    · rw [if_pos htask] at hrowId ⊢
      rw [hid] at hrowId
      rw [hf lease hlease (hrowId ▸ htask)]
      exact h.held lease (hm hlease) t ht hrowId
    · rw [if_neg htask] at hrowId ⊢
      exact h.held lease (hm hlease) t ht hrowId

/-- A claim. -/
theorem Leased.claim (h : Leased ids w) (cfg : Setting) (now : Time) (limit : ℕ) (uuids : ℕ) :
    Leased ids ⟨(w.store.claimDueTasks now cfg.leaseOwner cfg.leaseSeconds limit).2, uuids,
      rememberLeases cfg (.claimDueTasks now limit)
        (.ok (w.store.claimDueTasks now cfg.leaseOwner cfg.leaseSeconds limit).1) w.store
        w.memory⟩ := by
  constructor
  · rw [← h.ids]
    show (w.store.tasks.map _).map TaskRow.id = _
    rw [map_map]
    refine map_congr_left fun row _ => ?_
    show (if row.id ∈ _ then _ else row : TaskRow).id = row.id
    split <;> rfl
  · intro lease hlease row hrow hid
    obtain ⟨t, ht, rfl⟩ := mem_map.1 hrow
    rw [rememberLeases, Store.claimDueTasks, map_id_claim, mem_append] at hlease
    obtain hnew | hold := hlease
    · obtain ⟨c, hc, rfl⟩ := mem_map.1 hnew
      obtain ⟨due, hdue, rfl⟩ := mem_map.1 hc
      have hmem : t.id ∈ (w.store.dueTasks now limit).map TaskRow.id := by
        have htid : t.id = due.id := by
          rw [← show _ = due.id from hid]
          split <;> rfl
        rw [htid]
        exact mem_map_of_mem hdue
      rw [if_pos hmem]
      rfl
    · obtain ⟨hmem, hfree⟩ := mem_filter.1 hold
      have hfree : lease.1 ∉ (w.store.dueTasks now limit).map TaskRow.id := by simpa using hfree
      by_cases hclaimed : t.id ∈ (w.store.dueTasks now limit).map TaskRow.id
      · rw [if_pos hclaimed] at hid
        exact absurd (show t.id = lease.1 from hid) fun hne => hfree (hne ▸ hclaimed)
      · rw [if_neg hclaimed] at hid ⊢
        exact h.held lease hmem t ht hid

/-- **Every operation keeps the leases.** -/
theorem Leased.answer (h : Leased ids w) (op : SchedOp) (out : Outcome) :
    Leased ids ((schedBackend cfg (rememberLeases cfg)).answer op out w).2 := by
  cases out with
  | fault => exact h
  | ok =>
    cases op with
    | claimDueTasks now limit => exact h.claim cfg now limit w.uuids
    | updateAfterLaunch task u =>
      have hheld : (w.memory.filter fun lease => lease.1 ≠ task.id) ⊆ w.memory :=
        filter_subset_self _
      refine h.onTask (fun row => TaskRow.updateAfterLaunch_id u) hheld
        (fun lease hlease hid => ?_) w.uuids
      have hne := (mem_filter.1 hlease).2
      rw [decide_eq_true_eq] at hne
      exact absurd hid hne
    | updateTask caller existing taskId userId u =>
      show Leased ids ⟨(w.store.updateTask taskId userId u).2, w.uuids, w.memory⟩
      obtain hnone | ⟨found, -, -, hsome⟩ := w.store.updateTask_cases taskId userId u
      · rw [hnone]
        exact h
      · rw [hsome]
        exact h.onTask (fun row => TaskRow.update_id u) (List.Subset.refl _)
          (fun _ _ _ _ => rfl) w.uuids
    | createRun row skips =>
      constructor
      · rw [← h.ids]
        show (perform cfg (.createRun row skips) w.store).2.tasks.map TaskRow.id = _
        rw [perform]
        split <;> rfl
      · intro lease hlease task htask
        refine h.held lease hlease task ?_
        have htasks : (perform cfg (.createRun row skips) w.store).2.tasks = w.store.tasks := by
          rw [perform]
          split <;> rfl
        rw [← htasks]
        exact htask
    | _ => exact ⟨h.ids, h.held⟩

/-- **Every run keeps the leases.** -/
theorem leased_run {C : SchedSys Leases → Label SchedCall Empty → Prop} {s : SchedSys Leases}
    (h : Leased ids w) (hrun : Steps (scheduler cfg (rememberLeases cfg)) C ⟨w, []⟩ s) :
    Leased ids s.world := by
  refine (scheduler_keeps (R := fun _ => True) (E := fun _ => True) (I := Leased ids)
    (fun _ _ _ _ => trivial) (fun _ _ _ _ => trivial) (fun _ _ _ _ _ => trivial)
    (fun s i out op _ _ _ hI => hI.answer op out) ?_ ⟨h, allAwait_nil⟩ hrun).1
  intro w w' hdraw hI
  obtain ⟨hstore, hmemory⟩ := hdraw
  exact ⟨hstore ▸ hI.ids, hstore ▸ hmemory ▸ hI.held⟩

theorem Leased.not_claimed (h : Leased ids w) {lease : String × Time} (hlease : lease ∈ w.memory)
    {now : Time} (hnow : now ≤ lease.2) (limit : ℕ) :
    lease.1 ∉ (w.store.dueTasks now limit).map TaskRow.id := by
  intro hmem
  obtain ⟨row, hrow, hid⟩ := mem_map.1 hmem
  obtain ⟨htasks, hdue⟩ := Store.isDue_of_mem_dueTasks hrow
  rw [TaskRow.isDue, h.held lease hlease row htasks hid] at hdue
  simp only [Option.all_some, Option.any_some, decide_eq_false (Nat.not_lt.2 hnow),
    Bool.and_false, Bool.or_self, Bool.false_eq_true] at hdue

end Leases

/-! ### One poll at a time -/

def SchedCall.isPoll : SchedCall → Bool
  | .poll _ => true
  | _ => false

/-- The loop of the service starts a poll when the one before has ended, and only polls dispatch
scheduled runs. -/
def InTurn (s : SchedSys Leases) : Label SchedCall Empty → Prop
  | .spawn (.poll _) => ∀ t ∈ s.tasks, t.req.isPoll = true → t.result.isSome = true
  | .spawn (.dispatch _ _ trigger) => trigger = .manual
  | _ => True

instance (s : SchedSys Leases) (l : Label SchedCall Empty) : Decidable (InTurn s l) :=
  match l with
  | .spawn (.poll _) =>
    inferInstanceAs (Decidable (∀ t ∈ s.tasks, t.req.isPoll = true → t.result.isSome = true))
  | .spawn (.dispatch _ _ trigger) => inferInstanceAs (Decidable (trigger = .manual))
  | .spawn (.complete _ _) | .spawn (.pause _ _) | .spawn (.resume _ _)
  | .spawn (.update _ _ _ _ _) | .spawn (.trigger _ _ _) | .resume _ _ | .env _ => .isTrue trivial

/-- While a poll is under way, all others have ended. -/
def OnePoll (s : SchedSys Leases) : Prop :=
  s.tasks.Pairwise fun t t' =>
    t.req.isPoll = true → t'.req.isPoll = true → t.result.isSome = true ∨ t'.result.isSome = true

section InTurn

variable {cfg : Setting} {s s' : SchedSys Leases} {w : World Leases}

/-- A list stays pairwise related if an element is replaced by one that has all its relations. -/
theorem pairwise_set {α : Type} {R : α → α → Prop} {l : List α} (h : l.Pairwise R) {i : ℕ} {a b : α}
    (ha : l[i]? = some a) (hleft : ∀ x, R x a → R x b) (hright : ∀ x, R a x → R b x) :
    (l.set i b).Pairwise R := by
  induction l generalizing i with
  | nil => exact h
  | cons c l ih =>
    obtain ⟨hc, hl⟩ := pairwise_cons.1 h
    cases i with
    | zero =>
      obtain rfl : c = a := Option.some.inj ha
      exact pairwise_cons.2 ⟨fun x hx => hright x (hc x hx), hl⟩
    | succ i =>
      refine pairwise_cons.2 ⟨fun x hx => ?_, ih hl ha⟩
      obtain hx | rfl := mem_or_eq_of_mem_set hx
      · exact hc x hx
      · exact hleft c (hc a (mem_of_getElem? ha))

theorem result_of_begin {b : Backend (World Leases) SchedOp SchedOp.Reply SchedExn}
    {p : SchedProc Leases Unit} {out : Outcome} (h : (p.begin b out w).isSome = true) :
    p.result = none := by
  cases p with
  | pure | raise => cases h
  | _ => rfl

/-- **Polls that start in turn run one at a time.** -/
theorem onePoll_run (h : Steps (scheduler cfg (rememberLeases cfg)) InTurn ⟨w, []⟩ s) :
    OnePoll s := by
  induction h with
  | refl => exact List.Pairwise.nil
  | @tail s₁ s₂ l _ hturn hstep ih =>
    cases l with
    | spawn call =>
      rw [OnePoll, (step_spawn hstep).2, pairwise_append]
      refine ⟨ih, pairwise_singleton _ _, fun t ht t' ht' hpoll hpoll' => .inl ?_⟩
      rw [mem_singleton.1 ht'] at hpoll'
      cases call with
      | poll now => exact hturn t ht hpoll
      | _ => cases hpoll'
    | env e => exact e.elim
    | resume i out =>
      obtain ⟨t, answer, w', p, ht, hbegin, -, htasks⟩ := step_resume hstep
      have hresult : t.result = none := result_of_begin (Option.isSome_of_eq_some hbegin)
      rw [OnePoll, htasks]
      refine pairwise_set ih ht (fun x hx hpoll hpoll' => ?_) fun x hx hpoll hpoll' => ?_
      · obtain hended | hended := hx hpoll hpoll'
        · exact .inl hended
        · rw [hresult] at hended
          cases hended
      · obtain hended | hended := hx hpoll hpoll'
        · rw [hresult] at hended
          cases hended
        · exact .inr hended

end InTurn

/-! ### Room under the cap -/

abbrev SchedEvent := Event (World Leases) SchedOp SchedOp.Reply SchedExn

/-- A poll that has counted and done nothing else waits to claim what the cap leaves room for; if it
leaves none, the poll has ended. -/
def ClaimsRoom (cfg : Setting) (call : SchedCall)
    (trace : List SchedEvent) (waits : Option SchedOp) : Prop :=
  ∀ now active, call = .poll now → answersOf trace = [⟨.countActiveRuns, .ok active⟩] →
    waits = if active < cfg.maxConcurrentRuns then
      some (.claimDueTasks now (cfg.maxConcurrentRuns - active)) else none

/-- A poll owns the number of rows that it may still create. -/
def capping (cfg : Setting) :
    Logic (World Leases) SchedOp SchedOp.Reply SchedExn Unit SchedCall ℕ where
  inv w n := w.store.countScheduled + n ≤ cfg.maxConcurrentRuns
  rel _ _ _ := True
  link call trace waits n :=
    (n ≠ 0 → call.isPoll = true ∧ waits.isSome = true) ∧ ClaimsRoom cfg call trace waits
  allowed call _ waits _ _ frame := call.isPoll = true → waits.isSome = true → frame = 0
  done _ _ _ := True
  rel_refl _ _ := trivial
  rel_trans _ _ := trivial
  rel_weaken _ := trivial

/-- Operations that neither create a run nor bring one back to life. -/
def Spares : SchedOp → Prop
  | .createRun _ _ => False
  | .updateStatus _ _ u => u.status.isActive = false ∨ u.protectTerminal = true
  | _ => True

abbrev CapCtx := Ctx (World Leases) SchedOp SchedOp.Reply SchedExn ℕ

/-- Inside a call there is room for `n` more rows. -/
structure Room (cfg : Setting) (call : SchedCall) (n : ℕ) (c : CapCtx) : Prop where
  room : c.now.store.countScheduled + (n + c.frame) ≤ cfg.maxConcurrentRuns
  poll : n ≠ 0 → call.isPoll = true
  /-- A poll has counted and claimed. -/
  later : call.isPoll = true → 2 ≤ c.answers.length

/-- Safe in `capping`. -/
abbrev Capped {β : Type} (cfg : Setting) (call : SchedCall) (p : SchedProc Leases β)
    (Q : Except SchedExn β → CapCtx → Prop) (c : CapCtx) : Prop :=
  (capping cfg).Safe (schedBackend cfg (rememberLeases cfg)) call p Q c

section Room

variable {β : Type} {cfg : Setting} {call : SchedCall} {n : ℕ} {c : CapCtx} {w : World Leases}

theorem Settles.spares {op : SchedOp} (h : Settles op) : Spares op := by
  cases op with
  | createRun | updateStatus => exact h
  | _ => trivial

theorem RunRow.updateStatus_isActive {u : StatusUpdate} {row : RunRow}
    (hu : u.status.isActive = false ∨ u.protectTerminal = true)
    (h : (row.updateStatus u).status.isActive = true) : row.status.isActive = true := by
  rw [RunRow.updateStatus_status] at h
  rw [RunStatus.isActive_eq_not_isTerminal] at h ⊢
  split at h
  · exact h
  · rename_i hnot
    obtain hdead | hprotect := hu
    · rw [RunStatus.isActive_eq_not_isTerminal] at hdead
      rw [hdead] at h
      cases h
    · simpa [hprotect] using hnot

theorem countScheduled_spares {op : SchedOp} (hop : Spares op) (out : Outcome) :
    ((schedBackend cfg (rememberLeases cfg)).answer op out w).2.store.countScheduled ≤
      w.store.countScheduled := by
  cases out with
  | fault => exact Nat.le_refl _
  | ok =>
    cases op with
    | createRun row skips => exact hop.elim
    | updateStatus caller id u =>
      show (w.store.runs.map _).countP _ ≤ w.store.runs.countP _
      rw [countP_map]
      refine countP_mono_left fun row _ hrow => ?_
      simp only [Function.comp_apply, Bool.and_eq_true, decide_eq_true_eq] at hrow ⊢
      split at hrow
      · rw [RunRow.updateStatus_trigger] at hrow
        exact ⟨hrow.1, RunRow.updateStatus_isActive hop hrow.2⟩
      · exact hrow
    | updateTask caller existing taskId userId u =>
      show (w.store.updateTask taskId userId u).2.countScheduled ≤ _
      obtain hnone | ⟨found, -, -, hsome⟩ := w.store.updateTask_cases taskId userId u
      · rw [hnone]
      · rw [hsome]
        exact Nat.le_refl _
    | _ => exact Nat.le_refl _

theorem Room.claimsRoom (h : Room cfg call n c) (waits : Option SchedOp) :
    ClaimsRoom cfg call c.close waits := by
  intro now active hcall htrace
  have hlater := h.later (by rw [hcall]; rfl)
  rw [← Ctx.answersOf_close, htrace, length_singleton] at hlater
  omega

theorem Room.yield (h : Room cfg call n c) (op : SchedOp) :
    (capping cfg).Yield call c (some op) n :=
  ⟨h.room, trivial, fun hn => ⟨h.poll hn, rfl⟩, h.claimsRoom (some op)⟩

theorem Room.mono (h : Room cfg call n c) {m : ℕ} (hm : m ≤ n) : Room cfg call m c := by
  refine ⟨?_, fun hm0 => h.poll (by omega), h.later⟩
  have hroom := h.room
  omega

theorem Room.final (h : Room cfg call n c) (res : Except SchedExn Unit) :
    (capping cfg).Final call res c := by
  have hzero := h.mono (Nat.zero_le n)
  exact ⟨⟨0, hzero.room, trivial, fun hne => absurd rfl hne, h.claimsRoom none⟩, trivial⟩

theorem Room.draws (h : Room cfg call n c) (hw : Draws c.now w) :
    Room cfg call n { c with now := w } := by
  refine ⟨?_, h.poll, h.later⟩
  show w.store.countScheduled + (n + c.frame) ≤ _
  rw [hw.1]
  exact h.room

theorem Room.next (h : Room cfg call n c) {op : SchedOp} {reply : Except SchedExn op.Reply}
    {w w' : World Leases} {frame m : ℕ} (hm : m ≠ 0 → n ≠ 0)
    (hroom : w'.store.countScheduled + (m + frame) ≤ cfg.maxConcurrentRuns) :
    Room cfg call m ⟨c.close, some ⟨op, reply⟩, w, frame, w'⟩ := by
  refine ⟨hroom, fun hne => h.poll (hm hne), fun hpoll => ?_⟩
  have hlater := h.later hpoll
  show 2 ≤ (answersOf c.close ++ [_]).length
  rw [Ctx.answersOf_close, length_append]
  omega

theorem capped_spares {p : SchedProc Leases β} (h : Room cfg call n c)
    (hp : Calls (fun _ => True) Spares p c.now) {Q : Except SchedExn β → CapCtx → Prop}
    (hQ : ∀ res c, Room cfg call n c → Q res c) : Capped cfg call p Q c := by
  refine Safe.of_awaits (K := Room cfg call n) n hp (fun c w hc hw => hc.draws hw)
    (fun c op hc _ => hc.yield op) ?_ hQ h
  intro c op w frame out hc hop _ hinv _
  have hcount : ((schedBackend cfg (rememberLeases cfg)).answer op out w).2.store.countScheduled ≤
      w.store.countScheduled := countScheduled_spares hop out
  have hroom : w.store.countScheduled + (n + frame) ≤ cfg.maxConcurrentRuns := hinv
  exact ⟨answer_replies (fun _ _ => trivial) (fun _ _ _ _ => trivial) op out,
    hc.next id (by omega)⟩

/-! ### The calls -/

variable {task : TaskRow} {now : Time} {trigger : Trigger} {threadId : String} {taskRunId : ℕ}

/-- What creating a run takes. -/
def Trigger.cost : Trigger → ℕ
  | .manual => 0
  | .scheduled => 1

theorem countScheduled_createRun (s : Store) (row : RunRow) :
    (s.createRun row).countScheduled ≤ s.countScheduled + row.trigger.cost := by
  rw [Store.countScheduled, Store.createRun, countP_append, countP_singleton]
  refine Nat.add_le_add_left ?_ _
  cases row.trigger with
  | manual => exact Nat.le_refl 0
  | scheduled =>
    show (if _ then 1 else 0) ≤ 1
    split
    · exact Nat.le_refl 1
    · exact Nat.zero_le 1

theorem spares_launchTask {w : World Leases} : Calls (fun _ => True) Spares
    (launchTask cfg task taskRunId threadId now trigger : SchedProc Leases DispatchResult) w := by
  refine Awaits.call_bind trivial fun result _ _ => ?_
  refine Awaits.ofExcept_bind fun nextAt _ => ?_
  refine Awaits.call_bind (.inr rfl) fun _ _ _ => ?_
  exact Awaits.call_bind trivial fun _ _ _ => trivial

theorem capped_createRun {row : RunRow} {skips : Bool} (h : Room cfg call (n + row.trigger.cost) c)
    {Q : Except SchedExn Unit → CapCtx → Prop} (hQ : ∀ res c, Room cfg call n c → Q res c) :
    Capped cfg call (schedAwait (.createRun row skips)) Q c := by
  refine Safe.call (n + row.trigger.cost) (h.yield _) fun w frame out _ hinv _ => hQ _ _ ?_
  have hroom : w.store.countScheduled + (n + row.trigger.cost + frame) ≤ cfg.maxConcurrentRuns :=
    hinv
  refine h.next (fun hn => by omega) ?_
  have hcount : ((schedBackend cfg (rememberLeases cfg)).answer (.createRun row skips) out
      w).2.store.countScheduled ≤ w.store.countScheduled + row.trigger.cost := by
    cases out with
    | fault => exact Nat.le_add_right _ _
    | ok =>
      show (perform cfg (.createRun row skips) w.store).2.countScheduled ≤ _
      rw [perform]
      split
      · exact Nat.le_add_right _ _
      · exact countScheduled_createRun w.store row
  omega

/-- **A dispatch** uses up what its run takes. -/
theorem capped_dispatchTask (h : Room cfg call (n + trigger.cost) c)
    {Q : Except SchedExn DispatchResult → CapCtx → Prop}
    (hQ : ∀ res c, Room cfg call n c → Q res c) :
    Capped cfg call (dispatchTask cfg task now trigger) Q c := by
  have hunused : ∀ {c}, Room cfg call (n + trigger.cost) c → Room cfg call n c := fun hc =>
    hc.mono (Nat.le_add_right n _)
  rw [dispatchTask, Capped, Coro.bind_def, Safe.bind_iff]
  refine capped_spares h calls_executionThreadId fun threadId c hc => ?_
  cases threadId with
  | error e => exact hQ _ _ (hunused hc)
  | ok threadId =>
    rw [then_ok, Coro.bind_def, Safe.bind_iff]
    refine capped_spares hc (settles_overlaps.mono fun _ => Settles.spares) fun skips c hc => ?_
    cases skips with
    | error e => exact hQ _ _ (hunused hc)
    | ok skips =>
      rw [then_ok]
      split
      · exact hQ _ _ (hunused hc)
      · rw [Coro.bind_def, Safe.bind_iff]
        refine capped_spares hc calls_uuid4 fun taskRunId c hc => ?_
        cases taskRunId with
        | error e => exact hQ _ _ (hunused hc)
        | ok taskRunId =>
          rw [then_ok, Coro.bind_def, Safe.bind_iff]
          refine capped_createRun hc fun res c hc => ?_
          cases res with
          | error e => exact hQ _ _ hc
          | ok created =>
            rw [then_ok]
            split
            · exact capped_spares hc (settles_finalizeSkip.mono fun _ => Settles.spares) hQ
            · rw [Safe.tryCatch_iff]
              refine capped_spares hc spares_launchTask fun res c hc => ?_
              cases res with
              | ok result => exact hQ _ _ hc
              | error e =>
                exact capped_spares hc (settles_launchFailed.mono fun _ => Settles.spares) hQ

theorem capped_claimed {claimed : List TaskRow} (h : Room cfg call n c) (hn : claimed.length ≤ n) :
    Capped cfg call (Coro.forEach claimed fun task =>
      (dispatchTask cfg task now .scheduled).bind fun _ => .pure ())
      ((capping cfg).Final call) c := by
  refine Safe.forEach (fun l c => Room cfg call l.length c) (fun task l c hc => ?_)
    (fun c hc => hc.final _) (h.mono hn)
  rw [Safe.bind_iff]
  have hroom : Room cfg call (l.length + Trigger.scheduled.cost) c := hc
  refine capped_dispatchTask hroom fun res c hc => ?_
  cases res with
  | error e => exact hc.final _
  | ok result => exact hc

theorem countScheduled_le_countActiveRuns (s : Store) : s.countScheduled ≤ s.countActiveRuns := by
  refine countP_mono_left fun row _ hrow => ?_
  rw [Bool.and_eq_true] at hrow
  exact hrow.2

/-- **A poll** sets aside what the cap leaves room for when it has counted. -/
theorem capped_runOnce {frame : ℕ} (hinv : w.store.countScheduled + frame ≤ cfg.maxConcurrentRuns) :
    Capped cfg (.poll now) (runOnce cfg now) ((capping cfg).Final (.poll now))
      ⟨[], none, w, frame, w⟩ := by
  have hstart : ∀ waits, ClaimsRoom cfg (.poll now) [⟨none, w, w⟩] waits :=
    fun waits now active _ htrace => by cases htrace
  rw [runOnce, Capped, Coro.bind_def, Safe.bind_iff]
  refine Safe.call 0 ⟨by rwa [Nat.zero_add], trivial, fun hne => absurd rfl hne, hstart _⟩
    fun w₁ frame₁ out _ hinv₁ halone => ?_
  have hroom₁ : w₁.store.countScheduled + (0 + frame₁) ≤ cfg.maxConcurrentRuns := hinv₁
  obtain rfl : frame₁ = 0 := halone rfl rfl
  cases out with
  | fault =>
    refine ⟨⟨0, hinv₁, trivial, fun hne => absurd rfl hne, fun _ active _ htrace => ?_⟩, trivial⟩
    have hreply := congrArg head? htrace
    cases hreply
  | ok =>
    have hcounted : ∀ now' active, SchedCall.poll now = .poll now' →
        answersOf [(⟨none, w, w⟩ : SchedEvent), ⟨some ⟨.countActiveRuns,
          .ok w₁.store.countActiveRuns⟩, w₁, w₁⟩] = [⟨.countActiveRuns, .ok active⟩] →
        now = now' ∧ w₁.store.countActiveRuns = active := by
      intro now' active hcall htrace
      cases hcall
      injection htrace with hanswer
      injection hanswer with _ hreply
      injection hreply with hcount
      exact ⟨rfl, hcount⟩
    rw [show ((schedBackend cfg (rememberLeases cfg)).answer SchedOp.countActiveRuns .ok w₁).1 =
      .ok w₁.store.countActiveRuns from rfl, then_ok]
    split
    · rename_i hfull
      refine ⟨⟨0, hinv₁, trivial, fun hne => absurd rfl hne, fun now' active hcall htrace => ?_⟩,
        trivial⟩
      obtain ⟨-, rfl⟩ := hcounted now' active hcall htrace
      rw [if_neg (Nat.not_lt.2 hfull)]
    · rename_i hleft
      rw [Coro.bind_def, Safe.bind_iff]
      refine Safe.call (cfg.maxConcurrentRuns - w₁.store.countActiveRuns)
        ⟨?_, trivial, fun _ => ⟨rfl, rfl⟩, fun now' active hcall htrace => ?_⟩
        fun w₂ frame₂ out _ hinv₂ _ => ?_
      · have hle := countScheduled_le_countActiveRuns w₁.store
        show w₁.store.countScheduled + (cfg.maxConcurrentRuns - w₁.store.countActiveRuns + 0) ≤ _
        omega
      · obtain ⟨rfl, rfl⟩ := hcounted now' active hcall htrace
        rw [if_pos (Nat.lt_of_not_le hleft)]
      · cases out with
        | fault =>
          refine Room.final (n := cfg.maxConcurrentRuns - w₁.store.countActiveRuns) ?_ _
          exact ⟨hinv₂, fun _ => rfl, fun _ => Nat.le_refl 2⟩
        | ok =>
          refine capped_claimed (n := cfg.maxConcurrentRuns - w₁.store.countActiveRuns) ?_ ?_
          · exact ⟨hinv₂, fun _ => rfl, fun _ => Nat.le_refl 2⟩
          · rw [Store.claimDueTasks, length_map, Store.length_dueTasks]
            exact Nat.min_le_left _ _

theorem room_start {frame : ℕ} (hinv : w.store.countScheduled + frame ≤ cfg.maxConcurrentRuns)
    (hcall : call.isPoll = false) : Room cfg call 0 ⟨[], none, w, frame, w⟩ := by
  refine ⟨by rwa [Nat.zero_add], fun hne => absurd rfl hne, fun hpoll => ?_⟩
  rw [hcall] at hpoll
  cases hpoll

end Room

/-! ### Runs -/

/-- **Every call keeps the cap**, if it does not dispatch a scheduled run on its own. -/
theorem capping_safe (cfg : Setting) (call : SchedCall)
    (hcall : ∀ task now, call ≠ .dispatch task now .scheduled) :
    SafeHandler (capping cfg) (schedBackend cfg (rememberLeases cfg)) call (handler cfg call) := by
  refine ⟨⟨fun hne => absurd rfl hne, fun now active _ htrace => by cases htrace⟩,
    fun w frame hinv => ?_⟩
  have hinv : w.store.countScheduled + frame ≤ cfg.maxConcurrentRuns := by
    rw [← Nat.zero_add frame]
    exact hinv
  have hspares : call.isPoll = false → (∀ op, CallOp (fun _ => True) cfg.cal call op → Settles op) →
      Capped cfg call (handler cfg call) ((capping cfg).Final call) ⟨[], none, w, frame, w⟩ :=
    fun hpoll hop => capped_spares (room_start hinv hpoll)
      ((handler_awaits call).mono fun op h => (hop op h).spares) fun res c hc => hc.final res
  cases call with
  | poll now => exact capped_runOnce hinv
  | complete record now => exact hspares rfl fun op => CallOp.settles (.inl ⟨_, _, rfl⟩)
  | pause user id => exact hspares rfl fun op => CallOp.settles (.inr (.inl ⟨_, _, rfl⟩))
  | resume user id => exact hspares rfl fun op => CallOp.settles (.inr (.inr (.inl ⟨_, _, rfl⟩)))
  | update user id body now later =>
    exact hspares rfl fun op => CallOp.settles (.inr (.inr (.inr ⟨_, _, _, _, _, rfl⟩)))
  | dispatch task now trigger =>
    rw [handler, Coro.bind_def, Safe.bind_iff]
    have hroom : Room cfg (.dispatch task now trigger) (0 + trigger.cost)
        ⟨[], none, w, frame, w⟩ := by
      cases trigger with
      | manual => exact room_start hinv rfl
      | scheduled => exact absurd rfl (hcall task now)
    refine capped_dispatchTask hroom fun res c hc => ?_
    cases res with
    | error | ok => exact hc.final _
  | trigger user id now =>
    rw [handler, triggerScheduledTask, Coro.bind_def, Safe.bind_iff]
    refine capped_spares (room_start hinv rfl) (calls_readTask fun _ => trivial) fun res c hc => ?_
    cases res with
    | error e => exact hc.final _
    | ok found =>
      rw [then_ok]
      dsimp only
      rw [Coro.bind_def, Safe.bind_iff]
      have hroom : Room cfg (.trigger user id now) (0 + Trigger.manual.cost) c := hc
      refine capped_dispatchTask hroom fun res c hc => ?_
      cases res with
      | error e => exact hc.final _
      | ok result =>
        rw [then_ok]
        cases result.outcome <;> exact hc.final _

theorem sum_eq_zero {ts : List (Task (World Leases) SchedOp SchedOp.Reply SchedExn Unit SchedCall)}
    {gs : List ℕ}
    (hlink : List.Forall₂ (fun t g => (capping cfg).link t.req t.trace t.pending g) ts gs)
    (hended : ∀ t ∈ ts, t.req.isPoll = true → t.result.isSome = true) : gs.sum = 0 := by
  induction hlink with
  | nil => rfl
  | @cons t g ts gs hown _ ih =>
    rw [sum_cons, ih fun t' ht' => hended t' (mem_cons_of_mem t ht'), Nat.add_zero]
    by_contra hne
    obtain ⟨hpoll, hwaits⟩ := hown.1 hne
    have hresult := hended t mem_cons_self hpoll
    obtain ⟨req, trace, proc⟩ := t
    cases proc <;> cases hwaits
    cases hresult

theorem capping_admits (cfg : Setting) : Admits (capping cfg)
    (scheduler cfg (rememberLeases cfg)) fun s l => InTurn s l ∧ OnePoll s where
  spawn s call hC := capping_safe cfg call fun task now hcall => by
    have hturn := hC.1
    rw [hcall] at hturn
    cases hturn
  env _ e := e.elim
  resume s out l₁ t l₂ gs₁ gs₂ hC htasks hlink₁ hlink₂ hpoll hwaits := by
    have hone := hC.2
    have hresult : t.result.isSome = true → False := by
      obtain ⟨req, trace, proc⟩ := t
      cases proc <;> cases hwaits
      exact Bool.noConfusion
    rw [OnePoll, htasks, pairwise_append, pairwise_cons] at hone
    obtain ⟨-, ⟨hright, -⟩, hleft⟩ := hone
    rw [sum_eq_zero hlink₁ fun t' ht' hpoll' => ?_, sum_eq_zero hlink₂ fun t' ht' hpoll' => ?_]
    · exact (hright t' ht' hpoll hpoll').resolve_left hresult
    · exact (hleft t' ht' t mem_cons_self hpoll' hpoll).resolve_right hresult

/-- **The cap.** In any run in which one poll ends before the next starts, the queued and running
rows of scheduled triggers never exceed the cap. A poll that has counted claims what the cap leaves
room for, and ends if there is none; a claim takes that many of the claimable tasks or all of them,
the earliest first, each once, and none whose lease is held and has not expired. -/
theorem polls_keep_cap (cfg : Setting) (w : World Leases) (hmemory : w.memory = [])
    (hids : (w.store.tasks.map TaskRow.id).Nodup)
    (hstart : w.store.countScheduled ≤ cfg.maxConcurrentRuns) (s : SchedSys Leases)
    (h : Steps (scheduler cfg (rememberLeases cfg)) InTurn ⟨w, []⟩ s) :
    s.world.store.countScheduled ≤ cfg.maxConcurrentRuns ∧
      (∀ t ∈ s.tasks, ∀ now active, t.req = .poll now →
        answersOf t.trace = [⟨.countActiveRuns, .ok active⟩] →
        t.pending = if active < cfg.maxConcurrentRuns then
          some (.claimDueTasks now (cfg.maxConcurrentRuns - active)) else none) ∧
      ∀ now limit, ∃ claimed after,
        perform cfg (.claimDueTasks now limit) s.world.store = (.ok claimed, after) ∧
          Store.Claims cfg now limit s.world.store after claimed ∧
          ∀ lease ∈ s.world.memory, now ≤ lease.2 → lease.1 ∉ claimed.map TaskRow.id := by
  have hgood : Good (capping cfg) (schedBackend cfg (rememberLeases cfg)) s :=
    (sound (capping_admits cfg) (Good.init hstart)
      (Steps.with_fact (fun _ hs => onePoll_run hs) h)).1
  have hleased : Leased (w.store.tasks.map TaskRow.id) s.world := by
    refine leased_run ⟨rfl, fun lease hlease => ?_⟩ h
    rw [hmemory] at hlease
    exact absurd hlease not_mem_nil
  refine ⟨?_, fun t ht now active hcall htrace => ?_, fun now limit => ⟨_, _, rfl, ?_, ?_⟩⟩
  · obtain ⟨gs, -, hinv⟩ := hgood
    have hroom : s.world.store.countScheduled + gs.sum ≤ cfg.maxConcurrentRuns := hinv
    omega
  · obtain ⟨g, -, hclaims⟩ := hgood.link ht
    exact hclaims now active hcall htrace
  · exact Store.claimDueTasks_claims cfg (hleased.ids ▸ hids) now limit
  · intro lease hlease hnow
    rw [Store.claimDueTasks, map_id_claim]
    exact hleased.not_claimed hlease hnow limit

/-- One run at a time. -/
def oneRun : Setting := { demoSetting with maxConcurrentRuns := 1 }

/-- Two tasks that are due at 10 and at 20. -/
def beforePolls : SchedSys Leases :=
  ⟨⟨⟨[onceTask, { onceTask with id := "task-2", nextRunAt := some 20 }], []⟩, 0, []⟩, []⟩

/-- The first task is dispatched, and the next poll finds no room. -/
theorem polls_keep_cap_full : ∃ s : SchedSys Leases, s.world.store.countScheduled = 1 ∧
    s.tasks.length = 2 ∧ s.world.store.countScheduled ≤ oneRun.maxConcurrentRuns ∧
      (∀ t ∈ s.tasks, ∀ now active, t.req = .poll now →
        answersOf t.trace = [⟨.countActiveRuns, .ok active⟩] →
        t.pending = if active < oneRun.maxConcurrentRuns then
          some (.claimDueTasks now (oneRun.maxConcurrentRuns - active)) else none) ∧
      ∀ now limit, ∃ claimed after,
        perform oneRun (.claimDueTasks now limit) s.world.store = (.ok claimed, after) ∧
          Store.Claims oneRun now limit s.world.store after claimed ∧
          ∀ lease ∈ s.world.memory, now ≤ lease.2 → lease.1 ∉ claimed.map TaskRow.id := by
  have hrun : (runWith (scheduler oneRun (rememberLeases oneRun)) InTurn beforePolls
      [.spawn (.poll 25), .resume 0 .ok, .resume 0 .ok, .resume 0 .ok, .resume 0 .ok, .resume 0 .ok,
        .resume 0 .ok, .resume 0 .ok, .resume 0 .ok, .spawn (.poll 30), .resume 1 .ok,
        .resume 1 .ok]).isSome = true := rfl
  exact ⟨_, rfl, rfl, polls_keep_cap oneRun beforePolls.world rfl (by decide) (Nat.zero_le 1) _
    (Steps.of_runWith_get hrun)⟩

/-- A call of the database fails after the first poll has claimed the first task, which is left
running. When its lease has expired, a poll with room for one run claims it again, and not the task
that is enabled and due. -/
theorem polls_keep_cap_stuck : ∃ s : SchedSys Leases,
    Steps (scheduler oneRun (rememberLeases oneRun)) InTurn beforePolls s ∧
      pendingAt s 1 = some (.claimDueTasks 50 1) ∧
      (s.world.store.claimable 50).length = 2 ∧
      ((s.world.store.claimable 50).filter fun row => row.status = .enabled).map TaskRow.id =
        ["task-2"] ∧
      (s.world.store.claimDueTasks 50 oneRun.leaseOwner oneRun.leaseSeconds 1).1.map TaskRow.id =
        ["task-1"] := by
  have hrun : (runWith (scheduler oneRun (rememberLeases oneRun)) InTurn beforePolls
      [.spawn (.poll 15), .resume 0 .ok, .resume 0 .ok, .resume 0 .ok, .resume 0 .fault,
        .spawn (.poll 50), .resume 1 .ok, .resume 1 .ok]).isSome = true := rfl
  exact ⟨_, Steps.of_runWith_get hrun, rfl, rfl, rfl, rfl⟩

end AfterFlow.Scheduler
