import AfterFlow.Chain.Linked
import AfterFlow.Demo
import AfterFlow.Rules
import Mathlib.Algebra.Order.Group.Multiset

/-!
# The audit chain

Any number of `append_event` calls to any cases, interleaved at their awaits, while everything but
the audit events may change under them and any operation may fail. A call reads the last event of
the case and inserts the next one without a lock in between. What makes this right is
`UNIQUE(case_id, seq)`: rows are only ever added, so if the number after the one read is still free,
the event read is still the last one.

A call owns the rows it has committed. All rows there are, are the ones there were plus the ones
owned.

## Main results

* `Chained.insert` — an insert that the constraint lets pass keeps the invariant
* `audit_good` — it holds on every run
* `audit_chain_never_forks` — the chains of a run, and what every call contributed to them
-/

namespace AfterFlow

open Coop Coop.Logic Chain List

/-! ### The verifier -/

/-- The text the hash of a stored event is recomputed from. -/
def CaseEvent.hashed (row : CaseEvent) (prev : String) : String :=
  prev ++ ":" ++ toString row.caseId ++ ":" ++ row.eventType ++ ":" ++ row.actor ++ ":" ++
    row.runId.getD "" ++ ":" ++ row.traceId.getD "" ++ ":" ++ row.metadata.dumps

/-- How audit events are chained. -/
def auditScheme (rt : Runtime) : Scheme CaseEvent String where
  prev := CaseEvent.prevHash
  hash := CaseEvent.eventHash
  digest := fun prev row => rt.sha256 (row.hashed prev)

/-- What `verify_event_chain` reports. -/
structure Verification where
  valid : Bool
  brokenAt : Option ℕ
  count : ℕ
  deriving DecidableEq

def verifyEventChain (rt : Runtime) (t : EventTable) (caseId : Uuid) : Verification :=
  let rows := t.chain caseId
  match (auditScheme rt).brokenAt "" 0 rows with
  | some index => ⟨false, some index, rows.length⟩
  | none => ⟨true, none, rows.length⟩

theorem verifyEventChain_eq_iff {rt : Runtime} {t : EventTable} {caseId : Uuid} :
    verifyEventChain rt t caseId = ⟨true, none, (t.chain caseId).length⟩ ↔
      (auditScheme rt).Linked "" (t.chain caseId) := by
  rw [← Scheme.brokenAt_eq_none (i := 0), verifyEventChain]
  cases (auditScheme rt).brokenAt "" 0 (t.chain caseId) <;> simp

theorem verifyEventChain_valid {rt : Runtime} {t : EventTable} {caseId : Uuid} :
    (verifyEventChain rt t caseId).valid = true ↔
      (auditScheme rt).Linked "" (t.chain caseId) := by
  rw [← Scheme.brokenAt_eq_none (i := 0), verifyEventChain]
  cases (auditScheme rt).brokenAt "" 0 (t.chain caseId) <;> simp

/-! ### Numbered chains -/

/-- Every case has a chain, and its events are numbered in the order they were inserted. -/
structure Chained (rt : Runtime) (t : EventTable) : Prop where
  seqs : ∀ caseId, (t.ofCase caseId).map CaseEvent.seq = List.range' 1 (t.ofCase caseId).length
  linked : ∀ caseId, (auditScheme rt).Linked "" (t.ofCase caseId)

namespace EventTable

variable {t t' : EventTable} {caseId : Uuid} {e : CaseEvent}

theorem mem_ofCase : e ∈ t.ofCase caseId ↔ e ∈ t.rows ∧ e.caseId = caseId := by
  simp [ofCase]

theorem ofCase_insert {h : (e.caseId, e.seq) ∉ t.rows.map fun e => (e.caseId, e.seq)} :
    (t.insert e h).ofCase caseId =
      if e.caseId = caseId then t.ofCase caseId ++ [e] else t.ofCase caseId := by
  rw [ofCase, insert, filter_append, filter_singleton]
  split <;> simp_all [ofCase]

theorem chain_eq_of_pairwise (h : (t.ofCase caseId).Pairwise fun a b => a.seq < b.seq) :
    t.chain caseId = t.ofCase caseId :=
  List.Pairwise.insertionSort_eq (h.imp fun hlt => Nat.le_of_lt hlt)

theorem ofCase_prefix (h : t.rows <+: t'.rows) : t.ofCase caseId <+: t'.ofCase caseId :=
  h.filter _

end EventTable

namespace Chained

variable {rt : Runtime} {t t₀ : EventTable} {caseId : Uuid}

theorem empty : Chained rt .empty := ⟨fun _ => rfl, fun _ => trivial⟩

theorem pairwise (h : Chained rt t) (caseId : Uuid) :
    (t.ofCase caseId).Pairwise fun a b => a.seq < b.seq := by
  rw [← pairwise_map, h.seqs]
  exact pairwise_lt_range'

theorem chain_eq (h : Chained rt t) (caseId : Uuid) : t.chain caseId = t.ofCase caseId :=
  EventTable.chain_eq_of_pairwise (h.pairwise caseId)

private theorem foldl_last {f : Option CaseEvent → CaseEvent → Option CaseEvent}
    (hnone : ∀ a, f none a = some a) (hsome : ∀ b a, b.seq < a.seq → f (some b) a = some a)
    {l : List CaseEvent} (h : l.Pairwise fun a b => a.seq < b.seq) {best : Option CaseEvent}
    (hbest : ∀ b ∈ best, ∀ a ∈ l, b.seq < a.seq) : l.foldl f best = l.getLast?.or best := by
  induction l generalizing best with
  | nil => simp
  | cons a l ih =>
    rw [pairwise_cons] at h
    have hstep : f best a = some a := by
      cases best with
      | none => exact hnone a
      | some b => exact hsome b a (hbest b rfl a mem_cons_self)
    rw [foldl_cons, hstep, ih h.2 fun b hb a' ha' => ?_, getLast?_cons]
    · cases l.getLast? <;> rfl
    · cases hb
      exact h.1 a' ha'

theorem last_eq (h : Chained rt t) (caseId : Uuid) :
    t.last caseId = (t.ofCase caseId).getLast? := by
  rw [EventTable.last, foldl_last (fun _ => rfl) (fun _ _ hlt => if_pos hlt) (h.pairwise caseId)
    (by simp), Option.or_none]

theorem next_seq (h : Chained rt t) (caseId : Uuid) :
    ((t.last caseId).map fun p => p.seq + 1).getD 1 = (t.ofCase caseId).length + 1 := by
  rw [h.last_eq]
  have hs := h.seqs caseId
  cases hl : t.ofCase caseId using List.reverseRecOn with
  | nil => rfl
  | append_singleton l a =>
    rw [hl, map_append, length_append, length_singleton, List.range'_concat,
      map_singleton] at hs
    have ha := (append_inj' hs rfl).2
    simp only [List.cons.injEq, and_true] at ha
    simp [ha]
    omega

theorem ofCase_eq_of_free (h : Chained rt t) (hpre : t₀.rows <+: t.rows)
    (hfree : (caseId, (t₀.ofCase caseId).length + 1) ∉ t.rows.map fun e => (e.caseId, e.seq)) :
    t.ofCase caseId = t₀.ofCase caseId := by
  refine (List.IsPrefix.eq_of_length_le ( EventTable.ofCase_prefix hpre) ?_).symm
  by_contra hlt
  have hmem : (t₀.ofCase caseId).length + 1 ∈ (t.ofCase caseId).map CaseEvent.seq := by
    rw [h.seqs, mem_range']
    exact ⟨(t₀.ofCase caseId).length, by omega, by omega⟩
  obtain ⟨e, he, hseq⟩ := mem_map.mp hmem
  obtain ⟨he, hcase⟩ := EventTable.mem_ofCase.mp he
  exact hfree (mem_map.mpr ⟨e, he, by rw [hcase, hseq]⟩)

/-- **An insert that passes `UNIQUE(case_id, seq)` extends the chain.** The event read may be from
an earlier table. -/
theorem insert (h : Chained rt t) (h₀ : Chained rt t₀) (hpre : t₀.rows <+: t.rows) {row : CaseEvent}
    (hprev : row.prevHash = ((t₀.last row.caseId).map CaseEvent.eventHash).getD "")
    (hseq : row.seq = ((t₀.last row.caseId).map fun p => p.seq + 1).getD 1)
    (hhash : row.eventHash = rt.sha256 (row.hashed row.prevHash))
    (hfree : (row.caseId, row.seq) ∉ t.rows.map fun e => (e.caseId, e.seq)) :
    Chained rt (t.insert row hfree) := by
  have hfree' := hfree
  rw [hseq, h₀.next_seq] at hfree'
  have hsame := h.ofCase_eq_of_free hpre hfree'
  rw [h₀.next_seq, ← hsame] at hseq
  rw [h₀.last_eq, ← hsame] at hprev
  constructor
  · intro caseId
    rw [EventTable.ofCase_insert]
    split
    · rename_i hc
      subst hc
      rw [map_append, h.seqs, length_append, length_singleton, List.range'_concat,
        map_singleton, hseq, Nat.add_comm, Nat.one_mul]
    · exact h.seqs caseId
  · intro caseId
    rw [EventTable.ofCase_insert]
    split
    · rename_i hc
      subst hc
      refine Scheme.linked_append.mpr ⟨h.linked _, ⟨hprev, ?_⟩, trivial⟩
      exact hhash.trans (by rw [hprev]; rfl)
    · exact h.linked caseId

end Chained

/-! ### The writers -/

/-- Any number of `append_event` calls. The environment may change everything but the events. -/
def auditProgram (rt : Runtime) : Program World Op Op.Reply Exn CaseEvent NewEvent World where
  toBackend := database
  handler := appendEvent rt
  tick := fun e w => { e with db := { e.db with events := w.db.events } }

/-- The row an answered insert committed. -/
def insertedRow : Answer Op Op.Reply Exn → Option CaseEvent
  | ⟨.insertEvent row, .ok _⟩ => some row
  | _ => none

def isInsert : Answer Op Op.Reply Exn → Bool
  | ⟨.insertEvent _, _⟩ => true
  | _ => false

/-- An operation failed for another reason than a constraint. -/
def Faulted (answers : List (Answer Op Op.Reply Exn)) : Prop :=
  ∃ a ∈ answers, match a.reply with
    | .error .database => True
    | _ => False

/-- The rows a call has committed. -/
def committed (trace : List Segment) : List CaseEvent := (answersOf trace).filterMap insertedRow

/-- How often a call has tried to insert. -/
def insertAttempts (trace : List Segment) : ℕ := (answersOf trace).countP isInsert

/-- The row stores what the call was given. -/
structure CaseEvent.Represents (row : CaseEvent) (e : NewEvent) : Prop where
  caseId : row.caseId = e.caseId
  eventType : row.eventType = e.eventType
  actor : row.actor = e.actor
  runId : row.runId = e.runId
  traceId : row.traceId = e.traceId
  metadata : row.metadata = e.metadata

/-- How a call ends: it returns the one row it committed, or it raises with none, unless the
database failed it. -/
def Appended (e : NewEvent) (answers : List (Answer Op Op.Reply Exn)) :
    Except Exn CaseEvent → Prop
  | .ok row => answers.filterMap insertedRow = [row] ∧ row.Represents e
  | .error _ => answers.filterMap insertedRow = [] ∨ Faulted answers

/-- A call owns the rows it has committed. -/
def auditLogic (rt : Runtime) (start : List CaseEvent) :
    Logic World Op Op.Reply Exn CaseEvent NewEvent (Multiset CaseEvent) where
  inv w g := Chained rt w.db.events ∧ (w.db.events.rows : Multiset CaseEvent) = start + g
  rel _ w w' := w.db.events.rows <+: w'.db.events.rows
  link _ trace _ g := g = committed trace ∧ insertAttempts trace ≤ maxAppendAttempts
  allowed _ _ _ _ _ _ := True
  done e res trace := Appended e (answersOf trace) res
  rel_refl _ _ := prefix_refl _
  rel_trans := List.IsPrefix.trans
  rel_weaken := id

variable {rt : Runtime} {start : List CaseEvent} {e : NewEvent}

/-- The call has committed `rows` in at most `n` attempts. -/
structure Wrote (rt : Runtime) (start : List CaseEvent) (n : ℕ) (rows : List CaseEvent)
    (c : Context (Multiset CaseEvent)) : Prop where
  inv : (auditLogic rt start).inv c.now (↑rows + c.frame)
  rel : c.start.db.events.rows <+: c.now.db.events.rows
  committed : c.answers.filterMap insertedRow = rows
  attempts : c.answers.countP isInsert ≤ n
  bound : n ≤ maxAppendAttempts

/-- The call may raise here: it has committed nothing, or an operation of it failed. -/
def MayRaise (rt : Runtime) (start : List CaseEvent) (n : ℕ)
    (c : Context (Multiset CaseEvent)) : Prop :=
  ∃ rows, Wrote rt start n rows c ∧ (rows = [] ∨ Faulted c.answers)

/-- The row comes right after the last event of some earlier table. -/
structure Follows (rt : Runtime) (row : CaseEvent) (t : EventTable) : Prop where
  earlier : ∃ t₀ : EventTable, Chained rt t₀ ∧ t₀.rows <+: t.rows ∧
    row.prevHash = ((t₀.last row.caseId).map CaseEvent.eventHash).getD "" ∧
    row.seq = ((t₀.last row.caseId).map fun p => p.seq + 1).getD 1
  hash : row.eventHash = rt.sha256 (row.hashed row.prevHash)

theorem Follows.chained {row : CaseEvent} {t t' : EventTable} (h : Follows rt row t)
    (hpre : t.rows <+: t'.rows) (ht : Chained rt t')
    (hfree : (row.caseId, row.seq) ∉ t'.rows.map fun e => (e.caseId, e.seq)) :
    Chained rt (t'.insert row hfree) := by
  obtain ⟨t₀, h₀, hpre₀, hprev, hseq⟩ := h.earlier
  exact ht.insert h₀ (hpre₀.trans hpre) hprev hseq h.hash hfree

namespace Wrote

variable {n : ℕ} {rows : List CaseEvent} {c : Context (Multiset CaseEvent)}

theorem yield (h : Wrote rt start n rows c) (waits : Option Op) :
    (auditLogic rt start).Yield e c waits ↑rows where
  inv := h.inv
  rel := h.rel
  link := by
    constructor
    · rw [AfterFlow.committed, c.answersOf_close, h.committed]
    · rw [insertAttempts, c.answersOf_close]
      exact h.attempts.trans h.bound

theorem draw (h : Wrote rt start n rows c) :
    Wrote rt start n rows { c with now := { c.now with uuids := c.now.uuids + 1 } } :=
  ⟨h.inv, h.rel, h.committed, h.attempts, h.bound⟩

theorem final {res : Except Exn CaseEvent} (h : Wrote rt start n rows c)
    (hres : Appended e c.answers res) : (auditLogic rt start).Final e res c := by
  refine ⟨⟨rows, h.yield none⟩, ?_⟩
  show Appended e (answersOf c.close) res
  rwa [c.answersOf_close]

/-- A read, which replies or fails. -/
theorem read (op : Op) (hop : op.Reads) (htotal : ∀ s, ∃ reply, (op.perform s).1 = .ok reply)
    (h : Wrote rt start n rows c) {Q : Except Exn op.Reply → Context (Multiset CaseEvent) → Prop}
    (herr : ∀ c', Wrote rt start n rows c' → Faulted c'.answers → Q (.error .database) c')
    (hok : ∀ reply c', Wrote rt start n rows c' → (Faulted c.answers → Faulted c'.answers) →
      c.now.db.events.rows <+: c'.now.db.events.rows → (op.perform c'.now).1 = .ok reply →
      Q (.ok reply) c') :
    (auditLogic rt start).Safe database e (await op) Q c := by
  refine Safe.call ↑rows (h.yield _) fun s frame out hr hi _ => ?_
  have hanswers : ∀ reply : Except Exn op.Reply,
      (resumed c op s frame reply s).answers = c.answers ++ [⟨op, reply⟩] := fun reply => by
    rw [Ctx.answers, Ctx.answersOf_close]
    rfl
  have hquiet : ∀ reply : Except Exn op.Reply, insertedRow ⟨op, reply⟩ = none ∧
      isInsert ⟨op, reply⟩ = false := fun reply => by
    cases op <;> first | exact hop.elim | exact ⟨rfl, rfl⟩
  have hnext : ∀ reply : Except Exn op.Reply,
      Wrote rt start n rows (resumed c op s frame reply s) := fun reply => by
    refine ⟨hi, prefix_refl _, ?_, ?_, h.bound⟩
    · rw [hanswers, filterMap_append, h.committed, filterMap_cons, (hquiet reply).1]
      simp
    · rw [hanswers, countP_append, countP_cons, (hquiet reply).2]
      simpa using h.attempts
  cases out with
  | fault =>
    have hfault : Faulted (resumed c op s frame (.error .database) s).answers := by
      rw [hanswers]
      exact ⟨⟨op, .error .database⟩, mem_append_right _ (mem_singleton.mpr rfl), trivial⟩
    exact herr _ (hnext _) hfault
  | ok =>
    obtain ⟨reply, hreply⟩ := htotal s
    have hans : database.answer op .ok s = (.ok reply, s) := Prod.ext hreply (hop.perform s)
    rw [hans]
    refine hok reply _ (hnext _) (fun hf => ?_) hr hreply
    rw [hanswers]
    exact hf.imp fun a ha => ⟨mem_append_left _ ha.1, ha.2⟩

/-- The insert: the row is committed, or its number is taken, or the database fails. -/
theorem insert {row : CaseEvent} (hrow : Follows rt row c.now.db.events)
    (hn : n + 1 ≤ maxAppendAttempts) (h : Wrote rt start n [] c)
    {Q : Except Exn Unit → Context (Multiset CaseEvent) → Prop}
    (hdone : ∀ c', Wrote rt start (n + 1) [row] c' → Q (.ok ()) c')
    (htaken : ∀ c', Wrote rt start (n + 1) [] c' → Q (.error .integrityError) c')
    (hfault : ∀ c', Wrote rt start (n + 1) [] c' → Q (.error .database) c') :
    (auditLogic rt start).Safe database e (await (.insertEvent row)) Q c := by
  refine Safe.call (0 : Multiset CaseEvent) (h.yield _) fun s frame out hr hi _ => ?_
  have hi' : Chained rt s.db.events ∧
      (s.db.events.rows : Multiset CaseEvent) = start + (0 + frame) := hi
  rw [zero_add] at hi'
  have hanswers : ∀ (reply : Except Exn Unit) (w : World),
      (resumed c (.insertEvent row) s frame reply w).answers =
        c.answers ++ [⟨.insertEvent row, reply⟩] := fun reply w => by
    rw [Ctx.answers, Ctx.answersOf_close]
    rfl
  have hattempts : ∀ (reply : Except Exn Unit) (w : World),
      (resumed c (.insertEvent row) s frame reply w).answers.countP isInsert ≤ n + 1 :=
    fun reply w => by
      rw [hanswers, countP_append]
      exact Nat.add_le_add_right h.attempts 1
  have hnothing : ∀ error : Exn, Wrote rt start (n + 1) []
      (resumed c (.insertEvent row) s frame (.error error) s) := fun error => by
    refine ⟨hi, prefix_refl _, ?_, hattempts _ _, hn⟩
    rw [hanswers, filterMap_append, h.committed]
    rfl
  cases out with
  | fault => exact hfault _ (hnothing _)
  | ok =>
    by_cases hfree : (row.caseId, row.seq) ∉ s.db.events.rows.map fun e => (e.caseId, e.seq)
    · have hans : database.answer (.insertEvent row) .ok s =
          (.ok (), { s with db := { s.db with events := s.db.events.insert row hfree } }) := by
        simp only [Backend.answer, database, Op.perform, World.exec, Database.insertEvent,
          dif_pos hfree]
      rw [hans]
      refine hdone _ ⟨⟨hrow.chained hr hi'.1 hfree, ?_⟩, prefix_append _ _, ?_,
        hattempts _ _, hn⟩
      · show ((s.db.events.rows ++ [row] : List CaseEvent) : Multiset CaseEvent) =
          start + (([row] : List CaseEvent) + frame)
        rw [← Multiset.coe_add, hi'.2, add_assoc, add_comm frame]
      · rw [hanswers, filterMap_append, h.committed]
        rfl
    · have hans : database.answer (.insertEvent row) .ok s = (.error .integrityError, s) := by
        simp only [Backend.answer, database, Op.perform, World.exec, Database.insertEvent,
          dif_neg hfree]
      rw [hans]
      exact htaken _ (hnothing _)

end Wrote

/-! ### One call -/

variable {n : ℕ} {c : Context (Multiset CaseEvent)}

/-- How an attempt ends. -/
private def AfterAttempt (rt : Runtime) (start : List CaseEvent) (e : NewEvent) (n : ℕ) :
    Except Exn (Option CaseEvent) → Context (Multiset CaseEvent) → Prop
  | .ok (some row), c => Wrote rt start n [row] c ∧ row.Represents e
  | .ok none, c => Wrote rt start n [] c
  | .error _, c => MayRaise rt start n c

private theorem afterAttempt_close {res : Except Exn (Option CaseEvent)}
    (h : AfterAttempt rt start e n res c) :
    (auditLogic rt start).Safe database e (await .close) (fun closed c => match closed with
      | .ok _ => AfterAttempt rt start e n res c
      | .error error => AfterAttempt rt start e n (.error error) c) c := by
  have htotal : ∀ s, ∃ reply, (Op.perform .close s).1 = .ok reply := fun s => ⟨(), rfl⟩
  have hfail : ∀ rows c', Wrote rt start n rows c' → Faulted c'.answers →
      AfterAttempt rt start e n (.error .database) c' :=
    fun rows c' hc hf => ⟨rows, hc, .inr hf⟩
  match res, h with
  | .ok (some row), ⟨h, hrow⟩ =>
    exact h.read .close trivial htotal (hfail _) fun _ c' hc _ _ _ => ⟨hc, hrow⟩
  | .ok none, h =>
    exact Wrote.read .close trivial htotal h (hfail _) fun _ c' hc _ _ _ => hc
  | .error _, ⟨rows, h, hwhy⟩ =>
    exact h.read .close trivial htotal (hfail _)
      fun _ c' hc hf _ _ => ⟨rows, hc, hwhy.imp_right hf⟩

/-- One attempt. -/
theorem appendAttempt_safe (h : Wrote rt start n [] c) (hn : n + 1 ≤ maxAppendAttempts)
    (last : Bool) :
    (auditLogic rt start).Safe database e (appendAttempt rt e last)
      (AfterAttempt rt start e (n + 1)) c := by
  have hmore : ∀ {c' : Context (Multiset CaseEvent)}, Wrote rt start n [] c' →
      Wrote rt start (n + 1) [] c' := fun h => ⟨h.inv, h.rel, h.committed,
    h.attempts.trans (Nat.le_succ n), hn⟩
  refine safe_session (Safe.mono (fun res c' => afterAttempt_close) ?_)
  refine Safe.bind_iff.mpr (h.read (.caseExists e.caseId e.userId) trivial
    (fun s => ⟨_, rfl⟩) (fun c' hc _ => ⟨[], hmore hc, .inl rfl⟩) fun found c₁ h₁ _ _ _ => ?_)
  show (auditLogic rt start).Safe database e (if ¬ found then _ else _) _ _
  split
  · exact ⟨[], hmore h₁, .inl rfl⟩
  refine Safe.bind_iff.mpr (h₁.read (.lastEvent e.caseId) trivial
    (fun s => ⟨_, rfl⟩) (fun c' hc _ => ⟨[], hmore hc, .inl rfl⟩) fun previous c₂ h₂ _ _ hlast => ?_)
  cases hlast
  refine Safe.bind_iff.mpr (Safe.bind_iff.mpr (safe_update.mpr ?_))
  refine Safe.bind_iff.mpr (Safe.tryCatch_iff.mpr (Safe.bind_iff.mpr ?_))
  refine Wrote.insert ?follows hn h₂.draw (fun c₃ h₃ => ?done) (fun c₃ h₃ => ?taken)
    fun c₃ h₃ => ⟨[], h₃, .inl rfl⟩
  case follows =>
    exact ⟨⟨c₂.now.db.events, h₂.inv.1, prefix_refl _, rfl, rfl⟩, rfl⟩
  case done =>
    exact Safe.bind_iff.mpr (h₃.read (.refreshEvent _) trivial (fun s => ⟨_, rfl⟩)
      (fun c' hc hf => ⟨_, hc, .inr hf⟩) fun saved c₄ h₄ _ _ hsaved => by
        cases hsaved
        exact ⟨h₄, rfl, rfl, rfl, rfl, rfl, rfl⟩)
  case taken =>
    cases last with
    | true => exact ⟨[], h₃, .inl rfl⟩
    | false =>
      exact Safe.bind_iff.mpr (h₃.read .sleep trivial (fun s => ⟨_, rfl⟩)
        (fun c' hc _ => ⟨[], hc, .inl rfl⟩) fun _ c₄ h₄ _ _ _ => h₄)

theorem appendAttempts_safe {left : ℕ} (h : Wrote rt start n [] c)
    (hn : n + left ≤ maxAppendAttempts) :
    (auditLogic rt start).Safe database e (appendAttempts rt e left)
      ((auditLogic rt start).Final e) c := by
  induction left generalizing n c with
  | zero => exact h.final (.inl h.committed)
  | succ left ih =>
    refine Safe.bind_iff.mpr (Safe.mono ?_ (appendAttempt_safe h (by omega) _))
    intro res c' hc
    match res, hc with
    | .ok (some row), ⟨hc, hrow⟩ => exact hc.final ⟨hc.committed, hrow⟩
    | .ok none, hc => exact ih hc (by omega)
    | .error _, ⟨rows, hc, hwhy⟩ =>
      refine hc.final (hwhy.imp_left fun hrows => ?_)
      rw [hc.committed, hrows]

theorem appendEvent_safe : SafeHandler (auditLogic rt start) database e (appendEvent rt e) :=
  ⟨⟨rfl, Nat.zero_le _⟩, fun _ _ hinv => appendAttempts_safe
    ⟨hinv, prefix_refl _, rfl, Nat.le_refl 0, Nat.zero_le _⟩ (Nat.le_of_eq (Nat.zero_add _))⟩

/-! ### Runs -/

/-- A state of the writers. -/
abbrev AuditState := Sys World Op Op.Reply Exn CaseEvent NewEvent

theorem audit_admits : Admits (auditLogic rt start) (auditProgram rt) (fun _ _ => True) where
  spawn _ _ _ := appendEvent_safe
  env _ _ _ _ h := ⟨h, prefix_refl _⟩
  resume _ _ _ _ _ _ _ _ _ _ _ := trivial

/-- **The invariant of every run.** -/
theorem audit_good {w : World} (hw : Chained rt w.db.events) {s : AuditState}
    (hs : Steps (auditProgram rt) (fun _ _ => True) ⟨w, []⟩ s) :
    Good (auditLogic rt w.db.events.rows) database s :=
  (sound audit_admits (Good.init ⟨hw, by rw [add_zero]⟩) hs).1

theorem audit_chained {w : World} (hw : Chained rt w.db.events) {s : AuditState}
    (hs : Steps (auditProgram rt) (fun _ _ => True) ⟨w, []⟩ s) : Chained rt s.world.db.events := by
  obtain ⟨gs, -, hinv⟩ := audit_good hw hs
  exact hinv.1

/-- The rows there are, are the ones there were and those the calls have committed. -/
theorem audit_rows {w : World} (hw : Chained rt w.db.events) {s : AuditState}
    (hs : Steps (auditProgram rt) (fun _ _ => True) ⟨w, []⟩ s) :
    s.world.db.events.rows.Perm
      (w.db.events.rows ++ s.tasks.flatMap fun t => committed t.trace) := by
  obtain ⟨gs, hlive, hinv⟩ := audit_good hw hs
  have hsum : gs.sum = ((s.tasks.flatMap fun t => committed t.trace : List CaseEvent) :
      Multiset CaseEvent) := by
    clear hinv
    generalize s.tasks = tasks at hlive
    induction hlive with
    | nil => rfl
    | @cons t g tasks gs ht _ ih =>
      rw [sum_cons, ih, ht.link.1, flatMap_cons, Multiset.coe_add]
  rw [← Multiset.coe_eq_coe, ← Multiset.coe_add, ← hsum]
  exact hinv.2

theorem Chained.prevHash_getElem {t : EventTable} (h : Chained rt t) (caseId : Uuid) {i : ℕ}
    (hi : i < (t.chain caseId).length) :
    (t.chain caseId)[i].prevHash =
      if i = 0 then "" else ((t.chain caseId)[i - 1]).eventHash := by
  have hlinked : (auditScheme rt).Linked "" (t.chain caseId) := h.chain_eq caseId ▸ h.linked caseId
  exact hlinked.prev_getElem hi

/-- **Concurrent appends never fork or lose the audit chain.** Any number of calls to any cases, any
interleaving, any failing operations, anything else changing in between. The events of every case
are numbered from 1 and linked, and the verifier says so. The rows are exactly those the calls have
committed, a call that returned having committed one, the one it returned. A call that raised has
committed none, unless one of its own operations was failed: a commit that is reported as failed may
have been made. Nobody tries more than 8 times. -/
theorem audit_chain_never_forks (rt : Runtime) (w : World) (s : AuditState)
    (hs : Steps (auditProgram rt) (fun _ _ => True)
      ⟨{ w with db := { w.db with events := .empty } }, []⟩ s) :
    (∀ caseId, ((s.world.db.events.chain caseId).map CaseEvent.seq =
        List.range' 1 (s.world.db.events.chain caseId).length) ∧
      (∀ i (hi : i < (s.world.db.events.chain caseId).length),
        (s.world.db.events.chain caseId)[i].prevHash =
          if i = 0 then "" else ((s.world.db.events.chain caseId)[i - 1]).eventHash) ∧
      verifyEventChain rt s.world.db.events caseId =
        ⟨true, none, (s.world.db.events.chain caseId).length⟩) ∧
    s.world.db.events.rows.Perm (s.tasks.flatMap fun t => committed t.trace) ∧
    ∀ t ∈ s.tasks, insertAttempts t.trace ≤ 8 ∧
      (∀ row, t.result = some (.ok row) → committed t.trace = [row] ∧ row.Represents t.req) ∧
      ∀ error, t.result = some (.error error) → ¬ Faulted (answersOf t.trace) →
        committed t.trace = [] := by
  have hw : Chained rt ({ w with db := { w.db with events := .empty } } : World).db.events := .empty
  have hchain := audit_chained hw hs
  refine ⟨fun caseId => ⟨?_, fun i hi => hchain.prevHash_getElem caseId hi, ?_⟩, audit_rows hw hs,
    fun t ht => ⟨?_, fun row hres => ?_, fun error hres hf => ?_⟩⟩
  · rw [hchain.chain_eq, hchain.seqs]
  · rw [verifyEventChain_eq_iff, hchain.chain_eq]
    exact hchain.linked caseId
  · obtain ⟨g, hlink⟩ := (audit_good hw hs).link ht
    exact hlink.2
  · exact (audit_good hw hs).done ht hres
  · exact ((audit_good hw hs).done ht hres).resolve_right hf

/-- Two calls that both read an empty chain before either of them inserts. -/
def racedAppendsSchedule : List (Label NewEvent World) :=
  [.spawn { caseId := 0, userId := "alice", actor := "alice", eventType := "note" },
    .spawn { caseId := 0, userId := "alice", actor := "bob", eventType := "note" }] ++
  List.replicate 3 (.resume 0 .ok) ++ List.replicate 3 (.resume 1 .ok) ++
  List.replicate 3 (.resume 0 .ok) ++ List.replicate 8 (.resume 1 .ok)

def racedAppends : AuditState :=
  (run (auditProgram demoRuntime) ⟨{ autoDecided with db := { autoDecided.db with events := .empty } }, []⟩
    racedAppendsSchedule).get (by decide +kernel)

/-- The loser of the race tries again, and both rows are in the chain. -/
theorem audit_chain_never_forks_demo :
    verifyEventChain demoRuntime racedAppends.world.db.events 0 = ⟨true, none, 2⟩ ∧
    racedAppends.tasks.map (fun t => insertAttempts t.trace) = [1, 2] := by
  have h := (audit_chain_never_forks demoRuntime autoDecided racedAppends (Steps.of_run_get _)).1 0
  have hlen : (racedAppends.world.db.events.chain 0).length = 2 := by decide +kernel
  rw [h.2.2, hlen]
  exact ⟨rfl, by decide +kernel⟩

end AfterFlow
