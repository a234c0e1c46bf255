import AfterFlow.Runs.Manager

/-!
# Memory and store agree in the end

A status changes in memory under the lock, and is written to the store after the lock is released. A
write that waits for its next attempt can be overtaken by the write of a later status, and then puts
the old status back. The store ends up with what memory says exactly if no write commits an old
status for good: when it commits, it writes what the record says now, or somebody is still about to
write that.

The resource of a call is the statuses it announced and has not written, and the lock. A call that
creates a run owns the lock with the id of the run, whose row may be missing until then.

## Main results

* `stored_status_converges` — the headline
* `stored_status_diverges` — a retried write puts a running run over an interrupted one
-/

namespace AfterFlow.Runs

open Coop Logic List Option

/-- A call of the manager. -/
inductive RunCall where
  | setStatus (runId : ℕ) (status : RunStatus) (error : Option String)
  | setFinalizing (runId : ℕ) (finalizing : Bool)
  | cancel (runId : ℕ) (action : AbortAction)
  | createOrReject (info : RunInfo)
  | updateRunCompletion (runId : ℕ) (data : CompletionData)

/-- What changes besides: tasks come and go, and time passes. -/
inductive RunTick where
  | task (runId : ℕ) (handle : Option RunTask)
  | clock (now : ℕ)

def RunTick.apply : RunTick → RunWorld → RunWorld
  | .task runId handle, w => w.modify runId fun r => { r with task := handle }
  | .clock now, w => { w with now }

variable (policy : RetryPolicy)

/-- The code of a call. -/
@[grind =] def RunCall.proc : RunCall → RunProc Unit
  | setStatus runId status error => Runs.setStatus policy runId status error
  | setFinalizing runId finalizing => Runs.setFinalizing runId finalizing
  | cancel runId action => do
    let _ ← Runs.cancel policy runId action
    return ()
  | createOrReject info => do
    let _ ← Runs.createOrReject policy info
    return ()
  | updateRunCompletion runId data => Runs.updateRunCompletion policy runId data

/-- Calls of the manager at once. A failing store operation is a transient failure. -/
def managerProgram : Program RunWorld RunOp RunOp.Reply ManagerExn Unit RunCall RunTick where
  perform := RunOp.perform
  fault := .database true
  handler := RunCall.proc policy
  tick := RunTick.apply

abbrev ManagerState := Sys RunWorld RunOp RunOp.Reply ManagerExn Unit RunCall

/-! ### The condition -/

/-- A status may be written: it is the one of the record, or that one is still to be written. -/
def RunWorld.InOrder (w : RunWorld) (runId : ℕ) (status : RunStatus) : Prop :=
  ∀ r ∈ w.runs, r.runId = runId → r.status = status ∨ (runId, r.status) ∈ w.owed

instance (w : RunWorld) (runId : ℕ) (status : RunStatus) : Decidable (w.InOrder runId status) :=
  inferInstanceAs (Decidable (∀ r ∈ w.runs, r.runId = runId → _))

/-- The lock is given to one call at a time. Only store operations fail, and not at the last
attempt. -/
def Absorbed (w : RunWorld) : Option RunOp → Outcome → Prop
  | some .acquire, out => out = .ok ∧ w.locked = false
  | some (.store _ attempt _), .fault => attempt < policy.maxAttempts
  | some (.store ..), .ok => True
  | _, out => out = .ok

/-- A write that commits is in order. -/
def WritesInOrder (w : RunWorld) : Option RunOp → Outcome → Prop
  | some (.store runId _ call), .ok => w.InOrder runId call.status
  | _, _ => True

def Ordered (w : RunWorld) (waits : Option RunOp) (out : Outcome) : Prop :=
  Absorbed policy w waits out ∧ WritesInOrder w waits out

instance (w : RunWorld) (waits : Option RunOp) (out : Outcome) :
    Decidable (Absorbed policy w waits out) :=
  match waits, out with
  | some .acquire, _ => inferInstanceAs (Decidable (_ ∧ _))
  | some (.store ..), .fault => inferInstanceAs (Decidable (_ < _))
  | some (.store ..), .ok => .isTrue trivial
  | none, _ => inferInstanceAs (Decidable (_ = _))
  | some .sleep, _ => inferInstanceAs (Decidable (_ = _))
  | some (.outside _), _ => inferInstanceAs (Decidable (_ = _))
  | some .never, _ => inferInstanceAs (Decidable (_ = _))

instance (w : RunWorld) (waits : Option RunOp) (out : Outcome) :
    Decidable (WritesInOrder w waits out) :=
  match waits, out with
  | some (.store runId _ call), .ok => inferInstanceAs (Decidable (w.InOrder runId call.status))
  | some (.store ..), .fault => .isTrue trivial
  | none, _ => .isTrue trivial
  | some .acquire, _ => .isTrue trivial
  | some .sleep, _ => .isTrue trivial
  | some (.outside _), _ => .isTrue trivial
  | some .never, _ => .isTrue trivial

instance (w : RunWorld) (waits : Option RunOp) (out : Outcome) :
    Decidable (Ordered policy w waits out) :=
  inferInstanceAs (Decidable (_ ∧ _))

/-- A condition on every operation of a run. -/
def EveryStep (C : RunWorld → Option RunOp → Outcome → Prop) (s : ManagerState) :
    Label RunCall RunTick → Prop
  | .resume i out => ∀ t ∈ s.tasks[i]?, C s.world t.pending out
  | _ => True

instance (C : RunWorld → Option RunOp → Outcome → Prop) [∀ w waits out, Decidable (C w waits out)]
    (s : ManagerState) (l : Label RunCall RunTick) : Decidable (EveryStep C s l) :=
  match l with
  | .resume i _ => match h : s.tasks[i]? with
    | none => .isTrue fun t ht => by rw [h] at ht; cases ht
    | some t => decidable_of_iff (C s.world t.pending _)
        ⟨fun hC t' ht => by rw [h] at ht; cases ht; exact hC, fun hC => hC t h⟩
  | .spawn _ => .isTrue trivial
  | .env _ => .isTrue trivial

/-! ### The invariant -/

/-- Announced statuses, and the lock, with the id of the run that is being created under it. -/
abbrev Dues := Multiset (ℕ × RunStatus) × Multiset (Option ℕ)

/-- The resource of a call that has announced some statuses. -/
def owing (l : List (ℕ × RunStatus)) : Dues := (l, 0)

/-- The resource of a call that holds the lock. -/
def holding (creating : Option ℕ) : Dues := (0, {creating})

/-- A run has a row with its status, or with another one while its own is still to be written. -/
def RunWorld.Synced (w : RunWorld) (runId : ℕ) (status : RunStatus) : Prop :=
  ∃ row, w.rows runId = some row ∧ (row.status = status ∨ (runId, status) ∈ w.owed)

structure Accounted (w : RunWorld) (g : Dues) : Prop where
  owed : w.owed = g.1
  lock : g.2.card = if w.locked then 1 else 0
  ids : (w.runs.map RunRecord.runId).Nodup
  fresh : ∀ r ∈ w.runs, r.runId < w.uuids
  rows : ∀ p ∈ w.owed, (w.rows p.1).isSome
  synced : ∀ r ∈ w.runs, some r.runId ∈ g.2 ∨ w.Synced r.runId r.status

def RunRecord.keys (r : RunRecord) : ℕ × RunStatus := (r.runId, r.status)

/-- What the holder of the lock relies on: no status changes. -/
def Respects (g : Dues) (w w' : RunWorld) : Prop :=
  g.2 ≠ 0 → w'.runs.map RunRecord.keys = w.runs.map RunRecord.keys

def convergence : Logic RunWorld RunOp RunOp.Reply ManagerExn Unit RunCall Dues where
  inv := Accounted
  rel := Respects
  link _ _ waits g := waits = none → g = 0
  allowed _ _ waits out w _ := Ordered policy w waits out
  done _ _ _ := True
  rel_refl _ _ := fun _ => rfl
  rel_trans h₁ h₂ := fun hg => (h₂ hg).trans (h₁ hg)
  rel_weaken h := fun hg => h fun h0 => hg (Multiset.le_zero.mp (h0 ▸ Multiset.le_add_right _ _))

namespace Accounted

variable {w : RunWorld} {g : Dues} {runId : ℕ} {status : RunStatus}

theorem perform_row (runId : ℕ) (call : StoreCall) (h : (w.rows runId).isSome ∨ ∃ p, call = .put p) :
    ∃ row, (call.perform runId w).2.rows runId = some row ∧ row.status = call.status := by
  have hupdate : ∀ f : RunRow → RunRow, (w.rows runId).isSome →
      ∃ row, (w.modifyRow runId f).rows runId = some (f row) := by
    intro f hsome
    obtain ⟨row, hrow⟩ := isSome_iff_exists.mp hsome
    exact ⟨row, (Function.update_self ..).trans (by rw [hrow, map_some])⟩
  cases call with
  | put p =>
    refine ⟨_, Function.update_self .., ?_⟩
    split <;> rfl
  | updateStatus st error =>
    have hsome := h.resolve_right (by rintro ⟨p, hp⟩; cases hp)
    obtain ⟨row, hrow⟩ := hupdate _ hsome
    exact ⟨_, hrow, rfl⟩
  | updateRunCompletion st usage error =>
    have hsome := h.resolve_right (by rintro ⟨p, hp⟩; cases hp)
    obtain ⟨row, hrow⟩ := hupdate _ hsome
    exact ⟨_, hrow, rfl⟩

theorem perform_rows_of_ne (call : StoreCall) {other : ℕ} (h : other ≠ runId) :
    (call.perform runId w).2.rows other = w.rows other := by
  cases call <;> exact Function.update_of_ne h _ _

theorem perform_owed (call : StoreCall) : (call.perform runId w).2.owed = w.owed := by
  cases call <;> rfl

theorem perform_runs (call : StoreCall) : (call.perform runId w).2.runs = w.runs := by
  cases call <;> rfl

theorem perform_isSome (call : StoreCall) {other : ℕ} (h : (w.rows other).isSome) :
    ((call.perform runId w).2.rows other).isSome := by
  by_cases hid : other = runId
  · subst hid
    obtain ⟨row, hrow, -⟩ := perform_row _ call (.inl h)
    rw [hrow, isSome_some]
  · rwa [perform_rows_of_ne call hid]

theorem store (h : Accounted w g) (call : StoreCall) (ho : w.InOrder runId call.status) :
    Accounted (call.perform runId w).2 g := by
  have hlock : (call.perform runId w).2.locked = w.locked := by cases call <;> rfl
  have huuids : (call.perform runId w).2.uuids = w.uuids := by cases call <;> rfl
  refine ⟨(perform_owed call).trans h.owed, by rw [hlock]; exact h.lock, ?_, ?_, fun p hp => ?_,
    fun r hr => ?_⟩
  · rw [perform_runs]
    exact h.ids
  · rw [perform_runs, huuids]
    exact h.fresh
  · rw [perform_owed] at hp
    exact perform_isSome call (h.rows p hp)
  · rw [perform_runs] at hr
    refine (h.synced r hr).imp_right ?_
    rintro ⟨row, hrow, hst⟩
    rw [RunWorld.Synced, perform_owed]
    by_cases hid : r.runId = runId
    · obtain ⟨row', hrow', hst'⟩ := perform_row (w := w) runId call
        (.inl (by rw [← hid, hrow, isSome_some]))
      refine ⟨row', by rw [hid]; exact hrow', ?_⟩
      rw [hst', hid]
      exact (ho r hr hid).imp_left Eq.symm
    · exact ⟨row, by rw [perform_rows_of_ne call hid, hrow], hst⟩

/-- The write of an announced status is over, and it was in order. -/
theorem settled (h : Accounted w (owing [(runId, status)] + g)) (ho : w.InOrder runId status)
    (hrow : ∃ row, w.rows runId = some row ∧ row.status = status) :
    Accounted (w.settled runId status) g := by
  have howed : w.owed = (runId, status) ::ₘ g.1 := h.owed
  have herase : (w.settled runId status).owed = g.1 := by
    rw [RunWorld.settled, howed, Multiset.erase_cons_head]
  refine ⟨herase, ?_, h.ids, h.fresh, fun p hp => h.rows p (Multiset.mem_of_mem_erase hp),
    fun r hr => ?_⟩
  · rw [← zero_add g.2]
    exact h.lock
  · have hsynced := h.synced r hr
    rw [show (owing [(runId, status)] + g).2 = g.2 from zero_add g.2] at hsynced
    refine hsynced.imp_right ?_
    rintro ⟨row, hr', hst⟩
    rw [RunWorld.Synced, herase]
    by_cases hkey : (r.runId, r.status) = (runId, status)
    · obtain ⟨rfl, hstatus⟩ := Prod.mk.inj hkey
      obtain ⟨row', hrow', hst'⟩ := hrow
      exact ⟨row', hrow', .inl (hst'.trans hstatus.symm)⟩
    · have hrest : (r.runId, r.status) ∈ w.owed → (r.runId, r.status) ∈ g.1 := by
        intro hm
        rw [howed] at hm
        exact (Multiset.mem_cons.mp hm).resolve_left hkey
      by_cases hid : r.runId = runId
      · obtain ⟨row', hrow', -⟩ := hrow
        have hne : r.status ≠ status := fun hs => hkey (by rw [hid, hs])
        refine ⟨row', hid ▸ hrow', .inr (hrest ?_)⟩
        rw [hid]
        exact (ho r hr hid).resolve_left hne
      · exact ⟨row, hr', hst.imp_right hrest⟩

theorem find?_mem {r : RunRecord} (hr : w.find? runId = some r) : r ∈ w.runs ∧ r.runId = runId := by
  refine ⟨mem_of_find?_eq_some hr, ?_⟩
  simpa using find?_some hr

theorem runs_modify {f : RunRecord → RunRecord} (hf : ∀ r, (f r).runId = r.runId) :
    (w.modify runId f).runs.map RunRecord.runId = w.runs.map RunRecord.runId := by
  rw [RunWorld.modify, List.map_map]
  refine List.map_congr_left fun r _ => ?_
  show (if r.runId = runId then f r else r).runId = r.runId
  split
  · exact hf r
  · rfl

theorem mem_modify (runId : ℕ) {f : RunRecord → RunRecord} {r : RunRecord}
    (hr : r ∈ (w.modify runId f).runs) :
    ∃ r₀ ∈ w.runs, r = if r₀.runId = runId then f r₀ else r₀ := by
  obtain ⟨r₀, hr₀, rfl⟩ := mem_map.mp hr
  exact ⟨r₀, hr₀, rfl⟩

theorem modify {f : RunRecord → RunRecord} (h : Accounted w g)
    (hid : ∀ r, (f r).runId = r.runId) (hst : ∀ r, (f r).status = r.status) :
    Accounted (w.modify runId f) g := by
  refine ⟨h.owed, h.lock, by rw [runs_modify hid]; exact h.ids, fun r hr => ?_, h.rows,
    fun r hr => ?_⟩ <;> obtain ⟨r₀, hr₀, rfl⟩ := mem_modify runId hr <;> split
  · rw [hid]
    exact h.fresh r₀ hr₀
  · exact h.fresh r₀ hr₀
  · rw [hid, hst]
    exact h.synced r₀ hr₀
  · exact h.synced r₀ hr₀

/-- A new status is announced. -/
theorem transition (status : RunStatus) {f : RunRecord → RunRecord} {r : RunRecord} (h : Accounted w g)
    (hr : w.find? runId = some r) (hnot : ∀ id, some id ∉ g.2) (hid : ∀ r, (f r).runId = r.runId) :
    Accounted (w.transition runId status f) (owing [(runId, status)] + g) := by
  obtain ⟨hmem, hrid⟩ := find?_mem hr
  have hsome : (w.rows runId).isSome := by
    obtain ⟨row, hrow, -⟩ := (h.synced r hmem).resolve_left (hnot _)
    rw [← hrid, hrow, isSome_some]
  have howed : (w.transition runId status f).owed = (runId, status) ::ₘ w.owed := rfl
  refine ⟨?_, ?_, ?_, fun r hr => ?_, fun p hp => ?_, fun r hr => .inr ?_⟩
  · rw [howed, h.owed]
    rfl
  · rw [show (owing [(runId, status)] + g).2 = g.2 from zero_add g.2]
    exact h.lock
  · rw [show (w.transition runId status f).runs.map RunRecord.runId = w.runs.map RunRecord.runId from
      runs_modify fun r => hid r]
    exact h.ids
  · obtain ⟨r₀, hr₀, rfl⟩ := mem_modify runId (f := fun r => { f r with status }) hr
    split
    · show (f r₀).runId < w.uuids
      rw [hid]
      exact h.fresh r₀ hr₀
    · exact h.fresh r₀ hr₀
  · rw [howed] at hp
    obtain rfl | hp := Multiset.mem_cons.mp hp
    · exact hsome
    · exact h.rows p hp
  · obtain ⟨r₀, hr₀, rfl⟩ := mem_modify runId (f := fun r => { f r with status }) hr
    obtain ⟨row, hrow, hst⟩ := (h.synced r₀ hr₀).resolve_left (hnot _)
    split
    · rename_i heq
      refine ⟨row, ?_, .inr ?_⟩
      · show w.rows (f r₀).runId = some row
        rw [hid, hrow]
      · show ((f r₀).runId, status) ∈ (w.transition runId status f).owed
        rw [howed, hid, heq]
        exact Multiset.mem_cons_self _ _
    · exact ⟨row, hrow, hst.imp_right fun hm => howed ▸ Multiset.mem_cons_of_mem hm⟩

theorem acquired (h : Accounted w g) (hfree : w.locked = false) :
    Accounted { w with locked := true } (holding none + g) := by
  have hcard : g.2.card = 0 := by rw [h.lock, hfree, if_neg Bool.false_ne_true]
  refine ⟨h.owed.trans (zero_add g.1).symm, ?_, h.ids, h.fresh, h.rows, fun r hr => .inr ?_⟩
  · show (({none} : Multiset (Option ℕ)) + g.2).card = _
    rw [Multiset.card_add, hcard, Multiset.card_singleton]
    rfl
  · exact (h.synced r hr).resolve_left (by rw [Multiset.card_eq_zero.mp hcard]; exact Multiset.notMem_zero _)

theorem released (h : Accounted w (holding none + g)) : Accounted w.release g := by
  have hlock : (({none} : Multiset (Option ℕ)) + g.2).card = if w.locked then 1 else 0 := h.lock
  rw [Multiset.card_add, Multiset.card_singleton] at hlock
  have hcard : g.2.card = 0 := by split at hlock <;> omega
  refine ⟨h.owed.trans (zero_add g.1), hcard, h.ids, h.fresh, h.rows, fun r hr => ?_⟩
  refine (h.synced r hr).imp_left fun hm => ?_
  rw [show (holding none + g).2 = {none} + g.2 from rfl, Multiset.card_eq_zero.mp hcard, add_zero] at hm
  simp at hm

theorem frame_idle {creating : Option ℕ} {o : List (ℕ × RunStatus)} {frame : Dues}
    (h : Accounted w (owing o + (holding creating + frame))) : frame.2 = 0 := by
  have hlock : ((0 : Multiset (Option ℕ)) + ({creating} + frame.2)).card = if w.locked then 1 else 0 :=
    h.lock
  rw [zero_add, Multiset.card_add, Multiset.card_singleton] at hlock
  refine Multiset.card_eq_zero.mp ?_
  split at hlock <;> omega

theorem lock_of (a b : Option ℕ) (h : Accounted w (holding a + g)) :
    (holding b + g).2.card = if w.locked then 1 else 0 := by
  rw [← h.lock]
  show (({b} : Multiset (Option ℕ)) + g.2).card = (({a} : Multiset (Option ℕ)) + g.2).card
  rw [Multiset.card_add, Multiset.card_add, Multiset.card_singleton, Multiset.card_singleton]

theorem idle (h : Accounted w (holding none + g)) : g.2 = 0 :=
  frame_idle (o := []) (by rwa [show owing [] = 0 from rfl, zero_add])

theorem no_creating (h : Accounted w (holding none + g)) (id : ℕ) : some id ∉ (holding none + g).2 := by
  rw [show (holding none + g).2 = {none} + g.2 from rfl, h.idle, add_zero]
  simp

theorem inserted (h : Accounted w (holding none + g)) (info : RunInfo) :
    Accounted (w.insertRecord info).2 (holding (some w.uuids) + g) := by
  have hruns : (w.insertRecord info).2.runs = w.runs ++ [(w.insertRecord info).1] := rfl
  refine ⟨h.owed, h.lock_of _ _, ?_, fun r hr => ?_, h.rows, fun r hr => ?_⟩
  · rw [hruns, map_append, nodup_append]
    refine ⟨h.ids, nodup_singleton _, fun id hid id' hid' => ?_⟩
    obtain ⟨r, hr, rfl⟩ := mem_map.mp hid
    obtain rfl := mem_singleton.mp hid'
    exact (h.fresh r hr).ne
  · rw [hruns] at hr
    obtain hr | hr := mem_append.mp hr
    · exact (h.fresh r hr).trans (Nat.lt_succ_self _)
    · obtain rfl := mem_singleton.mp hr
      exact Nat.lt_succ_self _
  · rw [hruns] at hr
    obtain hr | hr := mem_append.mp hr
    · exact .inr ((h.synced r hr).resolve_left (h.no_creating _))
    · obtain rfl := mem_singleton.mp hr
      exact .inl (Multiset.mem_add.mpr (.inl (Multiset.mem_singleton_self _)))

theorem created (h : Accounted w (holding (some runId) + g))
    (hrow : ∃ row, w.rows runId = some row ∧ row.status = status)
    (hst : ∀ r ∈ w.runs, r.runId = runId → r.status = status) : Accounted w (holding none + g) := by
  have hidle : g.2 = 0 := frame_idle (o := []) (by rwa [show owing [] = 0 from rfl, zero_add])
  refine ⟨h.owed, h.lock_of _ _, h.ids, h.fresh, h.rows, fun r hr => .inr ?_⟩
  by_cases hid : r.runId = runId
  · obtain ⟨row, hrow, hrst⟩ := hrow
    exact ⟨row, hid ▸ hrow, .inl (hrst.trans (hst r hr hid).symm)⟩
  · refine (h.synced r hr).resolve_left ?_
    rw [show (holding (some runId) + g).2 = {some runId} + g.2 from rfl, hidle, add_zero]
    simpa using hid

theorem owing_cons (p : ℕ × RunStatus) (l : List (ℕ × RunStatus)) :
    owing (p :: l) = owing [p] + owing l := rfl

theorem interrupted (action : AbortAction) (ids : List ℕ) (h : Accounted w g)
    (hnot : ∀ id, some id ∉ g.2) :
    Accounted (interruptAll action ids w).2
      (owing ((interruptAll action ids w).1.map fun r => (r.runId, .interrupted)) + g) := by
  induction ids generalizing w g with
  | nil => exact (zero_add g).symm ▸ h
  | cons id ids ih =>
    rw [interruptAll]
    cases hr : w.find? id with
    | none => exact ih h hnot
    | some r =>
      dsimp only
      split
      · exact ih h hnot
      · have hstep : Accounted (w.interrupt id action) (owing [(id, .interrupted)] + g) :=
          h.transition .interrupted hr hnot fun _ => rfl
        have hrest := ih hstep (by
          rw [show (owing [(id, .interrupted)] + g).2 = g.2 from zero_add g.2]
          exact hnot)
        rw [map_cons, owing_cons, add_assoc, (find?_mem hr).2]
        rw [add_left_comm] at hrest
        exact hrest

end Accounted

/-! ### The calls -/

section Calls

variable {policy : RetryPolicy} {call : RunCall} {α : Type}

/-- A step has come this far, owning `g`. -/
structure At (g : Dues) (c : Ctx RunWorld RunOp RunOp.Reply ManagerExn Dues) : Prop where
  inv : Accounted c.now (g + c.frame)
  rel : Respects c.frame c.start c.now

abbrev RunCtx := Ctx RunWorld RunOp RunOp.Reply ManagerExn Dues

abbrev Sure (policy : RetryPolicy) (call : RunCall) (p : RunProc α)
    (Q : Except ManagerExn α → RunCtx → Prop) (c : RunCtx) : Prop :=
  (convergence policy).Safe (managerProgram policy).toBackend call p Q c

variable {g : Dues} {c : RunCtx}

theorem At.yield (h : At g c) (op : RunOp) : (convergence policy).Yield call c (some op) g :=
  ⟨h.inv, h.rel, fun hn => by cases hn⟩

/-- The attempts of a write succeed, at a moment when the write is in order. -/
theorem safe_retrying {runId left attempt : ℕ} {write : StoreCall} {delay : ℚ}
    {Q : Except ManagerExn Bool → RunCtx → Prop} (F : RunWorld → Prop)
    (hF : ∀ s s', F s → Respects g s s' → F s')
    (hcount : policy.maxAttempts ≤ attempt + left) (h : At g c) (hfact : F c.now)
    (hQ : ∀ s frame trace answer, F s → Accounted s (g + frame) → s.InOrder runId write.status →
      Q (.ok (write.perform runId s).1) ⟨trace, answer, s, frame, (write.perform runId s).2⟩) :
    Sure policy call (retrying policy runId write left attempt delay) Q c := by
  induction left generalizing attempt delay c with
  | zero =>
    refine Safe.call g (h.yield _) fun s frame out hr hi ha => ?_
    cases out with
    | ok => exact hQ s frame _ _ (hF _ _ hfact hr) hi ha.2
    | fault => exact absurd ha.1 (by show ¬ attempt < _; omega)
  | succ left ih =>
    rw [retrying, Sure, Safe.tryCatch_iff]
    refine Safe.call g (h.yield _) fun s frame out hr hi ha => ?_
    have hfact' := hF _ _ hfact hr
    cases out with
    | ok => exact hQ s frame _ _ hfact' hi ha.2
    | fault =>
      have hat : At g ⟨c.close, some ⟨.store runId attempt write, .error (.database true)⟩, s,
        frame, s⟩ := ⟨hi, fun _ => rfl⟩
      show Sure policy call (if ¬ isRetryable (.database true) then _ else _) Q _
      rw [if_neg (by decide)]
      split
      · rw [Sure, Safe.bind_iff]
        refine Safe.call g (hat.yield _) fun s' frame' out' hr' hi' ha' => ?_
        obtain rfl : out' = .ok := ha'.1
        exact ih (by omega) ⟨hi', fun _ => rfl⟩ (hF _ _ hfact' hr')
      · exact ih (by omega) hat hfact'

theorem safe_callStore {runId : ℕ} {write : StoreCall} {Q : Except ManagerExn Bool → RunCtx → Prop}
    (F : RunWorld → Prop) (hF : ∀ s s', F s → Respects g s s' → F s') (h : At g c)
    (hfact : F c.now)
    (hQ : ∀ s frame trace answer, F s → Accounted s (g + frame) → s.InOrder runId write.status →
      Q (.ok (write.perform runId s).1) ⟨trace, answer, s, frame, (write.perform runId s).2⟩) :
    Sure policy call (callStoreWithRetry policy runId write) Q c :=
  safe_retrying F hF (by omega) h hfact hQ

theorem safe_write {runId : ℕ} {write : StoreCall} {Q : Except ManagerExn Bool → RunCtx → Prop}
    (h : At g c) (hQ : ∀ updated c', At g c' → Q (.ok updated) c') :
    Sure policy call (callStoreWithRetry policy runId write) Q c :=
  safe_callStore (fun _ => True) (fun _ _ _ _ => trivial) h trivial
    fun s frame trace answer _ hi ho => hQ _ _ ⟨hi.store write ho, fun _ => by
      rw [Accounted.perform_runs]⟩

theorem safe_catchException {p : RunProc α} {handle : ManagerExn → RunProc α}
    {Q : Except ManagerExn α → RunCtx → Prop}
    (h : Sure policy call p (fun res c => ∃ a, res = .ok a ∧ Q (.ok a) c) c) :
    Sure policy call (catchException p handle) Q c := by
  rw [catchException, Sure, Safe.tryCatch_iff]
  refine Safe.mono (fun res c' hc => ?_) h
  obtain ⟨a, rfl, hQ⟩ := hc
  exact hQ

theorem safe_persistSnapshot {runId : ℕ} {payload : RunRow}
    {Q : Except ManagerExn Bool → RunCtx → Prop} (h : At g c)
    (hQ : ∀ persisted c', At g c' → Q (.ok persisted) c') :
    Sure policy call (persistSnapshotToStore policy runId payload) Q c := by
  refine safe_catchException ?_
  rw [Sure, Coro.bind_def, Safe.bind_iff]
  exact safe_write h fun _ c' hc => ⟨true, rfl, hQ true c' hc⟩

/-- **An announced status is written.** Its row is there, so nothing is put back. -/
theorem safe_persistStatus {record : RunRecord} {status : RunStatus} {error : Option String}
    {Q : Except ManagerExn Bool → RunCtx → Prop} (h : At (owing [(record.runId, status)] + g) c)
    (hQ : ∀ persisted c', At g c' → Q (.ok persisted) c') :
    Sure policy call (persistStatus policy record status error) Q c := by
  rw [Sure, persistStatus, Coro.bind_def, Safe.bind_iff, safe_get, then_ok, Coro.bind_def,
    Safe.bind_iff]
  refine safe_catchException ?_
  rw [Sure, Coro.bind_def, Safe.bind_iff]
  refine safe_callStore (fun _ => True) (fun _ _ _ _ => trivial) h trivial
    fun s frame trace answer _ hi ho => ?_
  have howed : (record.runId, status) ∈ s.owed := by
    rw [hi.owed]
    exact Multiset.mem_add.mpr (.inl (Multiset.mem_add.mpr (.inl (Multiset.mem_singleton_self _))))
  have hsome : (s.rows record.runId).isSome := hi.rows _ howed
  rw [then_ok, show (StoreCall.updateStatus status error).perform record.runId s =
    ((s.rows record.runId).isSome, _) from rfl, hsome, if_pos rfl]
  refine ⟨true, rfl, hQ true _ ⟨?_, fun _ => ?_⟩⟩
  · refine Accounted.settled (by rw [← add_assoc]; exact hi.store (.updateStatus status error) ho) ?_
      (Accounted.perform_row _ (.updateStatus status error) (.inl hsome))
    intro r hr hid
    exact ho r hr hid
  · rfl

/-- **The lock.** What happens while it is held is shown for its holder, and it is given back. -/
theorem safe_underLock {body : RunProc α} {Q : Except ManagerExn α → RunCtx → Prop} (h : At g c)
    (hbody : ∀ s start frame trace answer, Accounted s (holding none + (g + frame)) →
      Sure policy call body (fun res c' => Q res { c' with now := c'.now.release })
        ⟨trace, answer, start, frame, s⟩) :
    Sure policy call (underLock body) Q c := by
  rw [underLock, Sure, safe_withLock]
  refine Safe.call g (h.yield _) fun s frame out hr hi ha => ?_
  obtain ⟨rfl, hfree⟩ : out = .ok ∧ s.locked = false := ha.1
  exact hbody { s with locked := true } s frame c.close _ (hi.acquired hfree)

theorem safe_updateLocked {f : RunWorld → α × RunWorld} {Q : Except ManagerExn α → RunCtx → Prop}
    (h : At g c)
    (hf : ∀ s frame, Accounted s (holding none + (g + frame)) → ∃ g',
      Accounted (f s).2 (holding none + (g' + frame)) ∧ ∀ c', At g' c' → Q (.ok (f s).1) c') :
    Sure policy call (underLock (Coro.update f)) Q c := by
  refine safe_underLock h fun s start frame trace answer hi => ?_
  obtain ⟨g', hi', hQ⟩ := hf s frame hi
  refine hQ _ ⟨hi'.released, fun hne => absurd ?_ hne⟩
  have hidle : (g + frame).2 = 0 := Accounted.frame_idle (o := []) (by
    rw [show owing [] = 0 from rfl, zero_add]
    exact hi)
  exact Multiset.le_zero.mp (hidle ▸ Multiset.le_add_left _ _)

theorem At.final {res : Except ManagerExn Unit} (h : At 0 c) : (convergence policy).Final call res c :=
  ⟨⟨0, h.inv, h.rel, fun _ => rfl⟩, trivial⟩

theorem At.of_released {w start : RunWorld} {frame : Dues} {trace : List (Event RunWorld RunOp RunOp.Reply ManagerExn)}
    {answer : Option (Answer RunOp RunOp.Reply ManagerExn)} (h : Accounted w (holding none + (g + frame))) :
    At g ⟨trace, answer, start, frame, w.release⟩ :=
  ⟨h.released, fun hne => absurd (Multiset.le_zero.mp (h.idle ▸ Multiset.le_add_left _ _)) hne⟩

/-- The part of `create_or_reject` under the lock. -/
theorem safe_admitRun {info : RunInfo} {Q : Except ManagerExn (RunRecord × List RunRecord) → RunCtx → Prop}
    {w start : RunWorld} {frame : Dues} {trace : List (Event RunWorld RunOp RunOp.Reply ManagerExn)}
    {answer : Option (Answer RunOp RunOp.Reply ManagerExn)} (h : Accounted w (holding none + frame))
    (hraise : ∀ e c', At 0 c' → Q (.error e) c')
    (hret : ∀ record rs c', At (owing (rs.map fun r => (r.runId, .interrupted))) c' →
      Q (.ok (record, rs)) c') :
    Sure policy call (admitRun policy info) (fun res c' => Q res { c' with now := c'.now.release })
      ⟨trace, answer, start, frame, w⟩ := by
  have hraised : ∀ e, Q (.error e) ⟨trace, answer, start, frame, w.release⟩ := fun e =>
    hraise e _ (.of_released (by rwa [zero_add]))
  rw [admitRun]
  by_cases henqueue : info.multitaskStrategy = .enqueue
  · rw [if_pos henqueue]
    exact hraised _
  rw [if_neg henqueue, Sure, Coro.bind_def, Safe.bind_iff, safe_get, then_ok]
  by_cases hconflict : info.multitaskStrategy = .reject ∧ w.inflight info.threadId ≠ []
  · rw [if_pos hconflict]
    exact hraised _
  rw [if_neg hconflict, Coro.bind_def, Safe.bind_iff, safe_update, then_ok, Coro.bind_def, Safe.bind_iff,
    Safe.tryCatch_iff, persistNewRunToStore, Coro.bind_def, Safe.bind_iff]
  have hidle : frame.2 = 0 := h.idle
  refine safe_callStore (g := holding (some w.uuids))
    (fun s => s.runs.map RunRecord.keys = (w.insertRecord info).2.runs.map RunRecord.keys)
    (fun s s' hs hr => (hr fun h0 => by simp [holding] at h0).trans hs)
    ⟨h.inserted info, fun hne => absurd hidle hne⟩ rfl
    fun s frame' trace' answer' hkeys hi ho => ?_
  rw [then_ok, Coro.pure_def, safe_pure, catch_ok, then_ok]
  -- nobody has touched the new run
  have hst : ∀ r ∈ s.runs, r.runId = w.uuids → r.status = .pending := by
    intro r hr hid
    have hmem : r.keys ∈ (w.insertRecord info).2.runs.map RunRecord.keys :=
      hkeys ▸ mem_map_of_mem hr
    obtain ⟨r', hr', hk⟩ := mem_map.mp hmem
    obtain ⟨hid', hst'⟩ := Prod.mk.inj hk
    obtain hr' | hr' := mem_append.mp hr'
    · exact absurd (hid'.trans hid) (h.fresh r' hr').ne
    · rw [mem_singleton.mp hr'] at hst'
      exact hst'.symm
  have hi' : Accounted ((StoreCall.put (w.insertRecord info).1.payload).perform w.uuids s).2
      (holding none + frame') := by
    refine (hi.store _ ho).created (Accounted.perform_row _ _ (.inr ⟨_, rfl⟩)) ?_
    rw [Accounted.perform_runs]
    exact hst
  split
  · exact hret _ [] _ (.of_released (by rwa [show owing (List.map _ []) = 0 from rfl, zero_add]))
  · rw [Coro.bind_def, Safe.bind_iff, safe_update, then_ok]
    refine hret _ _ _ (.of_released ?_)
    rw [add_left_comm]
    exact hi'.interrupted _ _ hi'.no_creating

theorem safe_setStatus {runId : ℕ} {status : RunStatus} {error : Option String} (h : At 0 c) :
    Sure policy call (setStatus policy runId status error) ((convergence policy).Final call) c := by
  rw [setStatus, Sure, Coro.bind_def, Safe.bind_iff]
  refine safe_updateLocked h fun s frame hi => ?_
  rw [RunWorld.setStatus]
  cases hr : s.find? runId with
  | none => exact ⟨0, hi, fun c' hc => hc.final⟩
  | some record =>
    refine ⟨owing [(runId, status)], ?_, fun c' hc => ?_⟩
    · rw [add_left_comm]
      have hi' := hi.transition status hr hi.no_creating
        (f := fun r => { r with error := error.orElse fun _ => r.error }) fun _ => rfl
      rwa [zero_add] at hi'
    · rw [then_ok]
      dsimp only
      rw [Coro.bind_def, Safe.bind_iff]
      rw [← add_zero (owing _), ← (Accounted.find?_mem hr).2] at hc
      exact safe_persistStatus hc fun _ c'' hc'' => hc''.final

theorem safe_cancel {runId : ℕ} {action : AbortAction} {Q : Except ManagerExn Bool → RunCtx → Prop}
    (h : At 0 c) (hQ : ∀ known c', At 0 c' → Q (.ok known) c') :
    Sure policy call (cancel policy runId action) Q c := by
  rw [cancel, Sure, Coro.bind_def, Safe.bind_iff]
  refine safe_updateLocked h fun s frame hi => ?_
  rw [RunWorld.cancel]
  cases hr : s.find? runId with
  | none => exact ⟨0, hi, fun c' hc => hQ _ c' hc⟩
  | some record =>
    dsimp only
    split
    · exact ⟨0, hi, fun c' hc => hQ _ c' hc⟩
    split
    · exact ⟨0, hi, fun c' hc => hQ _ c' hc⟩
    refine ⟨owing [(runId, .interrupted)], ?_, fun c' hc => ?_⟩
    · rw [add_left_comm]
      have hi' := hi.transition .interrupted hr hi.no_creating
        (f := fun r => r.abort action) fun _ => rfl
      rwa [zero_add] at hi'
    · rw [then_ok]
      dsimp only
      rw [Coro.bind_def, Safe.bind_iff]
      rw [← add_zero (owing _), ← (Accounted.find?_mem hr).2] at hc
      exact safe_persistStatus hc fun _ c'' hc'' => hQ _ c'' hc''

theorem safe_createOrReject {info : RunInfo} {Q : Except ManagerExn RunRecord → RunCtx → Prop}
    (h : At 0 c) (hQ : ∀ res c', At 0 c' → Q res c') :
    Sure policy call (createOrReject policy info) Q c := by
  rw [createOrReject, Sure, Coro.bind_def, Safe.bind_iff]
  refine safe_underLock h fun s start frame trace answer hi => ?_
  rw [zero_add] at hi
  refine safe_admitRun hi (fun e c' hc => hQ _ c' hc) fun record rs c' hc => ?_
  rw [then_ok]
  dsimp only
  rw [Coro.bind_def, Safe.bind_iff]
  refine Safe.forEach (fun rs c => At (owing (rs.map fun r => (r.runId, .interrupted))) c)
    (fun r rs c hc => ?_) (fun c hc => hQ _ c hc) hc
  rw [map_cons, Accounted.owing_cons] at hc
  rw [Coro.bind_def, Safe.bind_iff]
  exact safe_persistStatus hc fun _ c' hc' => hc'

theorem safe_updateRunCompletion {runId : ℕ} {data : CompletionData} (h : At 0 c) :
    Sure policy call (updateRunCompletion policy runId data) ((convergence policy).Final call) c := by
  rw [updateRunCompletion, Sure, Coro.bind_def, Safe.bind_iff]
  refine safe_updateLocked h fun s frame hi =>
    ⟨0, hi.modify (f := fun r => r.complete data) (fun _ => rfl) (fun _ => rfl), fun c' hc => ?_⟩
  refine safe_catchException ?_
  rw [Sure, writeCompletion.eq_def, Coro.bind_def, Safe.bind_iff]
  refine safe_write hc fun updated c₁ h₁ => ?_
  rw [then_ok]
  split
  · exact ⟨(), rfl, h₁.final⟩
  split
  · exact ⟨(), rfl, h₁.final⟩
  rw [Coro.bind_def, Safe.bind_iff]
  refine safe_persistSnapshot h₁ fun persisted c₂ h₂ => ?_
  rw [then_ok]
  split
  · rw [Coro.bind_def, Safe.bind_iff]
    exact safe_write h₂ fun _ c₃ h₃ => ⟨(), rfl, h₃.final⟩
  · exact ⟨(), rfl, h₂.final⟩

/-- **Every call keeps the account.** -/
theorem convergence_safe (policy : RetryPolicy) (call : RunCall) :
    SafeHandler (convergence policy) (managerProgram policy).toBackend call (call.proc policy) := by
  refine ⟨fun _ => rfl, fun s frame hi => ?_⟩
  have h : At 0 ⟨[], none, s, frame, s⟩ := ⟨hi, fun _ => rfl⟩
  cases call with
  | setStatus runId status error => exact safe_setStatus h
  | setFinalizing runId finalizing =>
    exact safe_updateLocked h fun s frame hi =>
      ⟨0, hi.modify (f := fun r => { r with finalizing }) (fun _ => rfl) (fun _ => rfl),
        fun c' hc => hc.final⟩
  | cancel runId action =>
    rw [RunCall.proc, Coro.bind_def, Safe.bind_iff]
    exact safe_cancel h fun _ c' hc => hc.final
  | createOrReject info =>
    rw [RunCall.proc, Coro.bind_def, Safe.bind_iff]
    refine safe_createOrReject h fun res c' hc => ?_
    cases res with
    | ok | error => exact hc.final
  | updateRunCompletion runId data => exact safe_updateRunCompletion h

end Calls

/-! ### The headline -/

theorem convergence_admits (policy : RetryPolicy) :
    Admits (convergence policy) (managerProgram policy) (EveryStep (Ordered policy)) where
  spawn _ req _ := convergence_safe policy req
  env s e g _ h := by
    cases e with
    | task runId handle =>
      refine ⟨h.modify (f := fun r => { r with task := handle }) (fun _ => rfl) fun _ => rfl,
        fun _ => ?_⟩
      show ((s.world.modify runId fun r => { r with task := handle }).runs).map _ = _
      rw [RunWorld.modify, List.map_map]
      refine List.map_congr_left fun r _ => ?_
      show (if r.runId = runId then _ else r : RunRecord).keys = r.keys
      split <;> rfl
    | clock now => exact ⟨⟨h.owed, h.lock, h.ids, h.fresh, h.rows, h.synced⟩, fun _ => rfl⟩
  resume s out l₁ t l₂ gs₁ gs₂ hC htasks _ _ := by
    refine hC t ?_
    rw [htasks, getElem?_append_right (Nat.le_refl _), Nat.sub_self, getElem?_cons_zero]
    rfl

/-- No call is in progress, and every run has a row with its status. -/
structure RunWorld.Settled (w : RunWorld) : Prop where
  owed : w.owed = 0
  free : w.locked = false
  ids : (w.runs.map RunRecord.runId).Nodup
  fresh : ∀ r ∈ w.runs, r.runId < w.uuids
  rows : ∀ r ∈ w.runs, ∃ row, w.rows r.runId = some row ∧ row.status = r.status

theorem RunWorld.settled_iff (w : RunWorld) : w.Settled ↔ Accounted w 0 ∧ w.locked = false := by
  refine ⟨fun h => ⟨⟨h.owed, ?_, h.ids, h.fresh, fun p hp => ?_, fun r hr => .inr ?_⟩, h.free⟩,
    fun ⟨h, hfree⟩ => ⟨h.owed, hfree, h.ids, h.fresh, fun r hr => ?_⟩⟩
  · rw [h.free]
    rfl
  · rw [h.owed] at hp
    exact absurd hp (Multiset.notMem_zero p)
  · obtain ⟨row, hrow, hst⟩ := h.rows r hr
    exact ⟨row, hrow, .inl hst⟩
  · obtain ⟨row, hrow, hst⟩ := (h.synced r hr).resolve_left (Multiset.notMem_zero _)
    refine ⟨row, hrow, hst.resolve_right ?_⟩
    rw [h.owed]
    exact Multiset.notMem_zero _

/-- **The store agrees with memory once no call is in flight.** Any number of calls, any
interleaving, any transient failures that the retries absorb, tasks that come and go. If no write
commits an old status for good, then after the last call every run has a row with its status. -/
theorem stored_status_converges (policy : RetryPolicy) {w : RunWorld} (hw : w.Settled)
    {s : ManagerState} (hs : Steps (managerProgram policy) (EveryStep (Ordered policy)) ⟨w, []⟩ s)
    (hfin : ∀ t ∈ s.tasks, t.result.isSome) :
    ∀ r ∈ s.world.runs, ∃ row, s.world.rows r.runId = some row ∧ row.status = r.status := by
  have hgood := (sound (convergence_admits policy) (Good.init (w.settled_iff.mp hw).1) hs).1
  have hinv : Accounted s.world 0 := hgood.quiescent hfin fun t ht g hres hlink => hlink ?_
  · intro r hr
    obtain ⟨row, hrow, hst⟩ := (hinv.synced r hr).resolve_left (Multiset.notMem_zero _)
    refine ⟨row, hrow, hst.resolve_right ?_⟩
    rw [hinv.owed]
    exact Multiset.notMem_zero _
  · rw [Task.pending]
    rw [Task.result] at hres
    cases hp : t.proc <;> rw [hp] at hres <;> first | rfl | cases hres

def emptyManager : RunWorld := { outside := fun _ => .error "down" }

theorem emptyManager_settled : emptyManager.Settled := by
  constructor <;> simp [emptyManager]

/-- A new run is marked running, the write fails once, and the run is cancelled in the meantime. -/
def overtaken (late early : List (Label RunCall RunTick)) : List (Label RunCall RunTick) :=
  [.spawn (.createOrReject { threadId := "t" })] ++ List.replicate 3 (.resume 0 .ok) ++
  [.spawn (.setStatus 0 .running none), .spawn (.cancel 0 .interrupt)] ++
  List.replicate 2 (.resume 1 .ok) ++ [.resume 1 .fault] ++ List.replicate 2 (.resume 2 .ok) ++
  late ++ List.replicate 2 (.resume 1 .ok) ++ early

/-- The cancellation is written last. -/
def writtenInOrder : ManagerState :=
  (runWith (managerProgram {}) (EveryStep (Ordered {})) ⟨emptyManager, []⟩
    (overtaken [] [.resume 2 .ok])).get (by decide +kernel)

theorem stored_status_converges_demo :
    (writtenInOrder.world.runs.map RunRecord.status = [.interrupted]) ∧
    ∀ r ∈ writtenInOrder.world.runs,
      ∃ row, writtenInOrder.world.rows r.runId = some row ∧ row.status = r.status :=
  ⟨by decide +kernel, stored_status_converges {} emptyManager_settled (Steps.of_runWith_get _)
    (by decide +kernel)⟩

/-- The retry of the older write comes last. -/
def writtenOutOfOrder : ManagerState :=
  (runWith (managerProgram {}) (EveryStep (Absorbed {})) ⟨emptyManager, []⟩
    (overtaken [.resume 2 .ok] [])).get (by decide +kernel)

/-- **The store can keep an old status.** No call is in flight, every failure was absorbed, and a
run that is interrupted in memory is running in the store. -/
theorem stored_status_diverges :
    Steps (managerProgram {}) (EveryStep (Absorbed {})) ⟨emptyManager, []⟩ writtenOutOfOrder ∧
    (∀ t ∈ writtenOutOfOrder.tasks, t.result.isSome) ∧
    writtenOutOfOrder.world.runs.map RunRecord.keys = [(0, .interrupted)] ∧
    (writtenOutOfOrder.world.rows 0).map RunRow.status = some .running :=
  ⟨Steps.of_runWith_get _, by decide +kernel, by decide +kernel, by decide +kernel⟩

end AfterFlow.Runs
