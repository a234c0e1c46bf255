import AfterFlow.Coop.Logic
import AfterFlow.Gateway

/-!
# Proof rules for the repository

One rule for each repository function, for any logic on the after-sales system. Everything a call
does besides writing rows and moving money is *quiet*: reads, audit appends, the exit of a session
block. A proof chooses an invariant `K` of contexts that survives quiet steps, `Rest`, and then a
read gives back `K` together with `Obs`: an event of the trace in which the read replied that.

The rule of a write asks what the proof owns while the write is pending, and gives one context
invariant if it took effect and another if not.

## Main results

* `Rest.quiet`, `Rest.read` — quiet blocks and reads
* `Rest.saveAction`, `Rest.updateCase`, `Rest.createAction`, `Rest.createCase` — the writes
* `appendEvent_quiet` — audit appends are quiet
-/

namespace AfterFlow

open Coop Coop.Logic

/-! ### Quiet steps -/

/-- Operations that change neither cases nor actions. -/
def Op.IsQuiet : Op → Prop
  | .insertCase _ | .updateCase .. | .insertAction _ | .updateAction .. => False
  | _ => True

/-- Operations that only read. -/
def Op.Reads : Op → Prop
  | .insertCase _ | .updateCase .. | .insertAction _ | .updateAction .. | .insertEvent _ => False
  | _ => True

theorem Op.Reads.quiet {op : Op} (h : op.Reads) : op.IsQuiet := by
  cases op <;> trivial

theorem Op.Reads.perform {op : Op} (h : op.Reads) (w : World) : (op.perform w).2 = w := by
  cases op <;> first | rfl | exact h.elim

/-- A fresh uuid is drawn. -/
def DrawsUuid (w w' : World) : Prop := w' = { w with uuids := w.uuids + 1 }

/-- A coroutine of quiet steps. -/
abbrev IsQuiet {α : Type} (p : Proc α) (w : World) : Prop := p.Quiet Op.IsQuiet DrawsUuid w

theorem quiet_answer {op : Op} (h : op.IsQuiet) (out : Outcome) (w : World) :
    ∃ events, (database.answer op out w).2 = { w with db := { w.db with events } } := by
  cases out with
  | fault => exact ⟨w.db.events, rfl⟩
  | ok =>
    by_cases hr : op.Reads
    · exact ⟨w.db.events, hr.perform w⟩
    · cases op <;> first | exact absurd trivial hr | exact h.elim | skip
      rename_i row
      show ∃ events, { w with db := (w.db.insertEvent row).2 } =
        { w with db := { w.db with events } }
      rw [Database.insertEvent]
      split <;> exact ⟨_, rfl⟩

theorem session_quiet {α : Type} {body : Proc α} {w : World} (h : IsQuiet body w) :
    IsQuiet (session body) w := by
  refine (h.tryCatch fun e s => ?_).bind fun a s => ?_
  · exact (Coro.Quiet.call Op.close trivial).bind fun _ _ => trivial
  · exact (Coro.Quiet.call Op.close trivial).bind fun _ _ => trivial

private theorem appendAttempt_quiet (rt : Runtime) (e : NewEvent) (last : Bool) (w : World) :
    IsQuiet (appendAttempt rt e last) w := by
  refine session_quiet ((Coro.Quiet.call _ trivial).bind fun found s => ?_)
  split
  · trivial
  refine (Coro.Quiet.call _ trivial).bind fun previous s => ?_
  refine ⟨rfl, ((Coro.Quiet.tryCatch ?_ ?_).bind fun inserted s => ?_)⟩
  · exact (Coro.Quiet.call _ trivial).bind fun _ _ => trivial
  · intro error s
    cases error with
    | integrityError =>
      cases last
      · exact (Coro.Quiet.call Op.sleep trivial).bind fun _ _ => trivial
      · trivial
    | _ => trivial
  · split
    · exact (Coro.Quiet.call _ trivial).bind fun _ _ => trivial
    · trivial

private theorem appendAttempts_quiet (rt : Runtime) (e : NewEvent) (n : ℕ) (w : World) :
    IsQuiet (appendAttempts rt e n) w := by
  induction n generalizing w with
  | zero => trivial
  | succ n ih =>
    refine (appendAttempt_quiet rt e _ w).bind fun saved s => ?_
    cases saved with
    | some saved => trivial
    | none => exact ih s

theorem appendEvent_quiet (rt : Runtime) (e : NewEvent) (w : World) :
    IsQuiet (appendEvent rt e) w := appendAttempts_quiet rt e _ w

theorem query_quiet (op : Op) (h : op.IsQuiet) (w : World) : IsQuiet (session (await op)) w :=
  session_quiet (Coro.Quiet.call op h)

theorem aggregateCase_quiet (case : ServiceCase) (userId : String) (w : World) :
    IsQuiet (aggregateCase case userId) w :=
  (query_quiet (.listCaseActions case.id userId) trivial w).bind fun _ s =>
    (query_quiet (.listEvents case.id userId) trivial s).bind fun _ _ => trivial

/-! ### Contexts at rest -/

variable {Γ : Type} [AddCommMonoid Γ] {α : Type}

/-- Contexts of the after-sales system. -/
abbrev Context (Γ : Type) := Ctx World Op Op.Reply Exn Γ

/-- The context after an operation that ended the segment `c`. -/
abbrev resumed (c : Context Γ) (op : Op) (s : World) (frame : Γ) (reply : Except Exn op.Reply)
    (w : World) : Context Γ := ⟨c.close, some ⟨op, reply⟩, s, frame, w⟩

/-- The trace of `c` has a step, made where `K` held, in which a read replied and nothing else
happened. -/
def Obs (K : Context Γ → Prop) (op : Op) (reply : op.Reply) (c : Context Γ) : Prop :=
  ∃ c₀, K c₀ ∧ c₀.answer = some ⟨op, .ok reply⟩ ∧ c₀.now = c₀.start ∧
    (op.perform c₀.now).1 = .ok reply ∧ c₀.close <+: c.trace

variable {L : Logic World Op Op.Reply Exn Response Request Γ} {r : Request} {c : Context Γ}
  {g g₀ g₁ : Γ} {E E₀ E₁ : Op → Prop} {K K₁ : Context Γ → Prop} {N : Exn → Context Γ → Prop}

/-- An operation failed where `K` held. -/
def Failed (K : Context Γ → Prop) (e : Exn) : Prop :=
  ∃ c op, K c ∧ c.answer = some ⟨op, .error e⟩

/-- `c'` is where a read that began in `c` left its session block, having replied `reply`. -/
structure Returned (L : Logic World Op Op.Reply Exn Response Request Γ) (r : Request)
    (c : Context Γ) (op : Op) (reply : op.Reply) (c' : Context Γ) : Prop where
  trace : c.close <+: c'.trace
  answers : answersOf c'.trace = c.answers ++ [⟨op, .ok reply⟩]
  answer : c'.answer = some ⟨.close, .ok ()⟩
  allowed : L.allowed r c'.trace (some .close) .ok c'.start c'.frame
  now : c'.now = c'.start
  /-- The world in which it replied. -/
  asked : ∃ s g frame, L.inv s (g + frame) ∧ L.allowed r c.close (some op) .ok s frame ∧
    (op.perform s).1 = .ok reply

omit [AddCommMonoid Γ] in
theorem Obs.mono {op : Op} {reply : op.Reply} {c' : Context Γ} (h : Obs K op reply c)
    (hc : c.trace <+: c'.trace) : Obs K op reply c' := by
  obtain ⟨c₀, hK, ha, hn, hp, ht⟩ := h
  exact ⟨c₀, hK, ha, hn, hp, ht.trans hc⟩

/-- `K` survives the quiet operations in `E`, with `g` owned in between. -/
structure Rest (L : Logic World Op Op.Reply Exn Response Request Γ) (r : Request)
    (E : Op → Prop) (g : Γ) (K : Context Γ → Prop) : Prop where
  close_mem : E .close
  draw : ∀ c, K c → K { c with now := { c.now with uuids := c.now.uuids + 1 } }
  yield : ∀ c op, K c → E op → L.Yield r c (some op) g
  step : ∀ c op s frame out, K c → E op → L.rel g c.now s → L.inv s (g + frame) →
    L.allowed r c.close (some op) out s frame →
    K (resumed c op s frame (database.answer op out s).1 (database.answer op out s).2)

namespace Rest

variable {Q : Except Exn α → Context Γ → Prop}

theorem quiet (h : Rest L r E g K) {p : Proc α} (hp : p.Quiet E DrawsUuid c.now)
    (hQ : ∀ res c, K c → Q res c) (hK : K c) : L.Safe database r p Q c := by
  refine Safe.of_quiet g hp (fun c s hc hw => ?_) h.yield ?_ hQ hK
  · rw [hw]
    exact h.draw c hc
  · exact fun c op s frame out hc hop => h.step c op s frame out hc hop

theorem close (h : Rest L r E g K) (hK : K c) {Q : Except Exn Unit → Context Γ → Prop}
    (hok : ∀ c, K c → Q (.ok ()) c)
    (herr : ∀ c, K c → Failed K .database → Q (.error .database) c) :
    L.Safe database r (await .close) Q c := by
  refine Safe.call g (h.yield _ _ hK h.close_mem) fun s frame out hr hi ha => ?_
  have hn := h.step _ .close s frame out hK h.close_mem hr hi ha
  cases out
  · exact hok _ hn
  · exact herr _ hn ⟨_, .close, hn, rfl⟩

end Rest

theorem safe_session {β ρ : Type} {L : Logic World Op Op.Reply Exn β ρ Γ} {r : ρ} {body : Proc α}
    {Q : Except Exn α → Context Γ → Prop}
    (h : L.Safe database r body (fun res c => L.Safe database r (await .close)
      (fun closed c => match closed with
        | .ok _ => Q res c
        | .error e => Q (.error e) c) c) c) : L.Safe database r (session body) Q c := by
  refine Safe.bind_iff.mpr (Safe.tryCatch_iff.mpr (Safe.mono ?_ h))
  intro res c' hc
  cases res with
  | ok a =>
    refine Safe.bind_iff.mpr (Safe.mono ?_ hc)
    intro closed c'' hq
    cases closed <;> exact hq
  | error e =>
    refine Safe.bind_iff.mpr (Safe.mono ?_ hc)
    intro closed c'' hq
    cases closed <;> exact hq

namespace Rest

variable {Q : Except Exn α → Context Γ → Prop}

/-- A read that ends its session block: `K` again, and an observation or a failure. -/
theorem reading (h : Rest L r E g K) (op : Op) (hop : op.Reads) (hE : E op) (hK : K c)
    {Q : Except Exn op.Reply → Context Γ → Prop}
    (herr : ∀ e c, K c → Failed K e → Q (.error e) c)
    (hok : ∀ reply c', K c' → Obs K op reply c' → Returned L r c op reply c' → Q (.ok reply) c') :
    L.Safe database r (await op) (fun res c => L.Safe database r (await .close)
      (fun closed c => match closed with
        | .ok _ => Q res c
        | .error e => Q (.error e) c) c) c := by
  refine Safe.call g (h.yield c op hK hE) ?_
  intro s frame out hr hi ha
  have hnext := h.step c op s frame out hK hE hr hi ha
  refine Safe.call g (h.yield _ _ hnext h.close_mem) ?_
  intro s' frame' out' hr' hi' ha'
  have hclosed := h.step _ .close s' frame' out' hnext h.close_mem hr' hi' ha'
  cases out' with
  | fault => exact herr _ _ hclosed ⟨_, .close, hclosed, rfl⟩
  | ok =>
    cases hrep : (database.answer op out s).1 with
    | error e =>
      rw [hrep] at hclosed hnext
      exact herr _ _ hclosed ⟨_, op, hnext, rfl⟩
    | ok reply =>
      rw [hrep] at hclosed hnext
      rw [hrep] at ha'
      cases out with
      | fault => cases hrep
      | ok =>
        refine hok _ _ hclosed ⟨_, hnext, rfl, hop.perform s, ?_, List.prefix_refl _⟩
          ⟨List.prefix_append _ _, ?_, rfl, ha', rfl, s, g, frame, hi, ha, hrep⟩
        · show (op.perform (op.perform s).2).1 = _
          rw [hop.perform s]
          exact hrep
        · rw [Ctx.answersOf_close, Ctx.answers, Ctx.answersOf_close]
          rfl

theorem read (h : Rest L r E g K) (op : Op) (hop : op.Reads) (hE : E op) (hK : K c)
    {Q : Except Exn op.Reply → Context Γ → Prop}
    (herr : ∀ e c, K c → Failed K e → Q (.error e) c)
    (hok : ∀ reply c', K c' → Obs K op reply c' → Returned L r c op reply c' → Q (.ok reply) c') :
    L.Safe database r (session (await op)) Q c :=
  safe_session (h.reading op hop hE hK herr hok)

end Rest

/-! ### The reads of a supervisor -/

/-- What `_admin_action` has read when it returns in `c'`, begun in `c`. -/
structure AdminRead (L : Logic World Op Op.Reply Exn Response Request Γ) (r : Request)
    (K : Context Γ → Prop) (c : Context Γ) (actionId : Uuid) (a : ActionRequest)
    (case : ServiceCase) (c' : Context Γ) : Prop where
  trace : c.close <+: c'.trace
  answers : answersOf c'.trace = c.answers ++ [⟨.getAction actionId none, .ok (some a)⟩,
    ⟨.close, .ok ()⟩, ⟨.getCase a.caseId none, .ok (some case)⟩]
  answer : c'.answer = some ⟨.close, .ok ()⟩
  allowed : L.allowed r c'.trace (some .close) .ok c'.start c'.frame
  now : c'.now = c'.start
  actionRead : Obs K (.getAction actionId none) (some a) c'
  caseRead : Obs K (.getCase a.caseId none) (some case) c'
  /-- Between the two reads. -/
  between : ∃ c₁, K c₁ ∧ Obs K (.getAction actionId none) (some a) c₁ ∧
    Returned L r c₁ (.getCase a.caseId none) (some case) c'

/-- The rule of `_admin_action`. -/
theorem Rest.adminAction (h : Rest L r E g K) {caller : Caller} {actionId : Uuid}
    (hE : E (.getAction actionId none) ∧ ∀ id, E (.getCase id none)) (hK : K c)
    {Q : Except Exn (Actor × ActionRequest × ServiceCase) → Context Γ → Prop}
    (herr : ∀ e c, K c → Q (.error e) c)
    (hok : ∀ actor a case c', requireAdmin caller = .ok actor → K c' →
      AdminRead L r K c actionId a case c' → Q (.ok (actor, a, case)) c') :
    L.Safe database r (AfterFlow.adminAction caller actionId) Q c := by
  refine Safe.bind_iff.mpr (safe_ofExcept.mpr ?_)
  cases hadmin : requireAdmin caller with
  | error e => exact herr _ _ hK
  | ok actor =>
    rw [then_ok]
    refine Safe.bind_iff.mpr (h.read (.getAction actionId none) trivial hE.1 hK
      (fun e c hc _ => herr _ _ hc) fun found c₁ hc₁ hobs₁ hret₁ => ?_)
    refine Safe.bind_iff.mpr ?_
    cases found with
    | none => exact herr _ _ hc₁
    | some a =>
      refine Safe.bind_iff.mpr (h.read (.getCase a.caseId none) trivial (hE.2 _) hc₁
        (fun e c hc _ => herr _ _ hc) fun found c₂ hc₂ hobs₂ hret₂ => ?_)
      refine Safe.bind_iff.mpr ?_
      cases found with
      | none => exact herr _ _ hc₂
      | some case =>
        have hmid : c₁.trace <+: c₂.trace := (List.prefix_append _ _).trans hret₂.trace
        refine hok actor a case c₂ hadmin hc₂ ⟨hret₁.trace.trans hmid, ?_, hret₂.answer,
          hret₂.allowed, hret₂.now, hobs₁.mono hmid, hobs₂, c₁, hc₁, hobs₁, hret₂⟩
        rw [hret₂.answers, Ctx.answers, hret₁.answers, hret₁.answer]
        simp

/-! ### Writes -/

/-- The exception of a guarded update that did not change one row. -/
def updateError (conflict : String) : Except Exn ℕ → Exn
  | .error e => e
  | .ok _ => .concurrentAction conflict

/-- What a proof has to say about a pending write. If it takes effect, it replies `done` and `K₁`
holds. If not, nothing changed and `N` holds. -/
structure Writes (L : Logic World Op Op.Reply Exn Response Request Γ) (r : Request) (op : Op)
    (done : op.Reply) (K₁ : Context Γ → Prop) (N : Except Exn op.Reply → Context Γ → Prop)
    (c : Context Γ) (g : Γ) : Prop where
  yield : L.Yield r c (some op) g
  commit : ∀ s frame, L.rel g c.now s → L.inv s (g + frame) →
    L.allowed r c.close (some op) .ok s frame → (op.perform s).1 = .ok done →
    K₁ (resumed c op s frame (.ok done) (op.perform s).2)
  fail : ∀ s frame out reply, L.rel g c.now s → L.inv s (g + frame) →
    L.allowed r c.close (some op) out s frame → reply ≠ .ok done →
    (database.answer op out s) = (reply, s) → N reply (resumed c op s frame reply s)

theorem answer_write {op : Op} {done : op.Reply}
    (h : ∀ w, (op.perform w).1 ≠ .ok done → (op.perform w).2 = w) (out : Outcome) (s : World) :
    (out = .ok ∧ (op.perform s).1 = .ok done) ∨
      ∃ reply, reply ≠ .ok done ∧ database.answer op out s = (reply, s) := by
  cases out with
  | fault => exact .inr ⟨_, fun hc => (by cases hc), rfl⟩
  | ok =>
    by_cases hd : (op.perform s).1 = .ok done
    · exact .inl ⟨rfl, hd⟩
    · exact .inr ⟨(op.perform s).1, hd, Prod.ext rfl (h s hd)⟩

theorem Writes.call {op : Op} {done : op.Reply} {N : Except Exn op.Reply → Context Γ → Prop}
    (hw : Writes L r op done K₁ N c g)
    (h : ∀ w, (op.perform w).1 ≠ .ok done → (op.perform w).2 = w)
    {Q : Except Exn op.Reply → Context Γ → Prop} (hok : ∀ c, K₁ c → Q (.ok done) c)
    (hfail : ∀ reply c, reply ≠ .ok done → N reply c → Q reply c) :
    L.Safe database r (await op) Q c := by
  refine Safe.call g hw.yield fun s frame out hr hi ha => ?_
  rcases answer_write h out s with ⟨rfl, hd⟩ | ⟨reply, hne, hans⟩
  · have hk := hok _ (hw.commit s frame hr hi ha hd)
    show Q (op.perform s).1 ⟨_, some ⟨op, (op.perform s).1⟩, _, _, _⟩
    rw [hd]
    exact hk
  · have hk := hfail reply _ hne (hw.fail s frame out reply hr hi ha hne hans)
    rw [hans]
    exact hk

theorem updateAction_unchanged (a : ActionRequest) (u : Option String) (v : ℕ) (w : World)
    (h : ((Op.updateAction a u v).perform w).1 ≠ .ok 1) :
    ((Op.updateAction a u v).perform w).2 = w := by
  show { w with db := (w.db.updateAction a u v).2 } = w
  have h' : (w.db.updateAction a u v).1 ≠ .ok 1 := h
  revert h'
  rw [Database.updateAction]
  split
  · exact fun _ => rfl
  split
  · exact fun _ => rfl
  split
  · exact fun h' => absurd rfl h'
  · exact fun _ => rfl

theorem updateCase_unchanged (id : Uuid) (u : String) (v : ℕ) (values : CaseValues) (w : World)
    (h : ((Op.updateCase id u v values).perform w).1 ≠ .ok 1) :
    ((Op.updateCase id u v values).perform w).2 = w := by
  show { w with db := (w.db.updateCase id u v values).2 } = w
  have h' : (w.db.updateCase id u v values).1 ≠ .ok 1 := h
  revert h'
  rw [Database.updateCase]
  split
  · exact fun _ => rfl
  split
  · exact fun _ => rfl
  · exact fun h' => absurd rfl h'

theorem insertAction_unchanged (a : ActionRequest) (w : World)
    (h : ((Op.insertAction a).perform w).1 ≠ .ok ()) : ((Op.insertAction a).perform w).2 = w := by
  show { w with db := (w.db.insertAction a).2 } = w
  have h' : (w.db.insertAction a).1 ≠ .ok () := h
  revert h'
  rw [Database.insertAction]
  split
  · exact fun h' => absurd rfl h'
  · exact fun _ => rfl

theorem insertCase_unchanged (row : ServiceCase) (w : World)
    (h : ((Op.insertCase row).perform w).1 ≠ .ok ()) : ((Op.insertCase row).perform w).2 = w := by
  show { w with db := (w.db.insertCase row).2 } = w
  have h' : (w.db.insertCase row).1 ≠ .ok () := h
  revert h'
  rw [Database.insertCase]
  split
  · exact fun h' => absurd rfl h'
  · exact fun _ => rfl

namespace Rest

/-- A guarded update in its session block. -/
private theorem guarded (op : Op) (conflict : Except Exn op.Reply → Exn) {done : op.Reply}
    {N' : Except Exn op.Reply → Context Γ → Prop} {body : op.Reply → Proc Unit}
    (h₁ : Rest L r E₁ g₁ K₁) (h₀ : ∀ e, Rest L r E₀ g₀ (N e))
    (hw : Writes L r op done K₁ N' c g)
    (hunchanged : ∀ w, (op.perform w).1 ≠ .ok done → (op.perform w).2 = w)
    (hN : ∀ reply c, reply ≠ .ok done → N' reply c → N (conflict reply) c)
    (hdone : body done = .pure ()) (hbody : ∀ n, n ≠ done → body n = .raise (conflict (.ok n)))
    (herror : ∀ e, conflict (.error e) = e)
    {Q : Except Exn Unit → Context Γ → Prop} (hok : ∀ c, K₁ c → Q (.ok ()) c)
    (hlate : ∀ c, K₁ c → Failed K₁ .database → Q (.error .database) c)
    (hfail : ∀ e c, N e c → Q (.error e) c ∧ Q (.error .database) c) :
    L.Safe database r (session ((await op).bind body)) Q c := by
  refine safe_session (Safe.bind_iff.mpr (hw.call hunchanged (fun c' hc => ?_) ?_))
  · rw [then_ok, hdone, safe_pure]
    exact h₁.close hc hok hlate
  · intro reply c' hne hc
    have hclose := (h₀ _).close (hN reply c' hne hc)
      (Q := fun closed c => match closed with
        | .ok _ => Q (.error (conflict reply)) c
        | .error e => Q (.error e) c)
      (fun c h => (hfail _ c h).1) fun c h _ => (hfail _ c h).2
    cases reply with
    | error e =>
      rw [herror] at hclose
      exact hclose
    | ok n =>
      rw [then_ok, hbody n fun hn => hne (by rw [hn]), safe_raise]
      exact hclose

/-- `save_action`. After the commit it may still fail to read the row back. -/
theorem saveAction {a : ActionRequest} {u : Option String} {v : ℕ} (h₁ : Rest L r E₁ g₁ K₁)
    (hE : E₁ (.getAction a.id u)) (h₀ : ∀ e, Rest L r E₀ g₀ (N e))
    (hw : Writes L r (.updateAction a u v) 1 K₁
      (fun reply => N (updateError "action version conflict" reply)) c g)
    {Q : Except Exn ActionRequest → Context Γ → Prop}
    (hok : ∀ saved c, K₁ c → Obs K₁ (.getAction a.id u) (some saved) c → Q (.ok saved) c)
    (hlate : ∀ e c, K₁ c → Failed K₁ e ∨ Obs K₁ (.getAction a.id u) none c → Q (.error e) c)
    (hfail : ∀ e c, N e c → Q (.error e) c ∧ Q (.error .database) c) :
    L.Safe database r (AfterFlow.saveAction a u v) Q c := by
  refine Safe.bind_iff.mpr (guarded (.updateAction a u v)
    (updateError "action version conflict") h₁ h₀ hw (updateAction_unchanged a u v) (fun _ _ _ h => h)
    rfl ?_ (fun _ => rfl) (fun c' hc => ?_) (fun c' hc hf => hlate _ _ hc (.inl hf)) hfail)
  · exact fun n hn => if_pos hn
  · refine Safe.bind_iff.mpr (h₁.read (.getAction a.id u) trivial hE hc
      (fun e c h hf => hlate e c h (.inl hf)) ?_)
    intro reply c'' hc'' hobs _
    cases reply with
    | some saved => exact hok saved c'' hc'' hobs
    | none => exact hlate _ _ hc'' (.inr hobs)

theorem updateCase {id : Uuid} {u : String} {v : ℕ} {values : CaseValues}
    (h₁ : Rest L r E₁ g₁ K₁) (hE : E₁ (.getCase id (some u))) (h₀ : ∀ e, Rest L r E₀ g₀ (N e))
    (hw : Writes L r (.updateCase id u v values) 1 K₁
      (fun reply => N (updateError "case version conflict" reply)) c g)
    {Q : Except Exn ServiceCase → Context Γ → Prop}
    (hok : ∀ saved c, K₁ c → Obs K₁ (.getCase id (some u)) (some saved) c → Q (.ok saved) c)
    (hlate : ∀ e c, K₁ c → Failed K₁ e ∨ Obs K₁ (.getCase id (some u)) none c → Q (.error e) c)
    (hfail : ∀ e c, N e c → Q (.error e) c ∧ Q (.error .database) c) :
    L.Safe database r (AfterFlow.updateCase id u v values) Q c := by
  refine Safe.bind_iff.mpr (guarded (.updateCase id u v values)
    (updateError "case version conflict") h₁ h₀ hw (updateCase_unchanged id u v values)
    (fun _ _ _ h => h) rfl ?_ (fun _ => rfl) (fun c' hc => ?_)
    (fun c' hc hf => hlate _ _ hc (.inl hf)) hfail)
  · exact fun n hn => if_pos hn
  · refine Safe.bind_iff.mpr (h₁.read (.getCase id (some u)) trivial hE hc
      (fun e c h hf => hlate e c h (.inl hf)) ?_)
    intro reply c'' hc'' hobs _
    cases reply with
    | some saved => exact hok saved c'' hc'' hobs
    | none => exact hlate _ _ hc'' (.inr hobs)

/-- The exception of an insert that did not take effect. -/
def insertError : Except Exn Unit → Exn
  | .error .integrityError => .concurrentAction "case already has an active action"
  | .error e => e
  | .ok _ => .database

/-- `create_action`. Until the insert `K` holds. -/
theorem createAction {a : ActionRequest} {u : String} (h : Rest L r E g K)
    (hE : E (.caseExists a.caseId u) ∧ E (.activeAction a.caseId)) (h₁ : Rest L r E₁ g₁ K₁)
    (hE₁ : E₁ (.refreshAction a.id)) (h₀ : ∀ e, Rest L r E₀ g₀ (N e)) {g₂ : Γ} (hK : K c)
    (hw : ∀ c, K c → Writes L r (.insertAction a) () K₁ (fun reply => N (insertError reply)) c g₂)
    {Q : Except Exn ActionRequest → Context Γ → Prop} (hearly : ∀ e c, K c → Q (.error e) c)
    (hok : ∀ saved c, K₁ c → Obs K₁ (.refreshAction a.id) saved c → Q (.ok saved) c)
    (hlate : ∀ e c, K₁ c → Failed K₁ e → Q (.error e) c)
    (hfail : ∀ e c, N e c → Q (.error e) c ∧ Q (.error .database) c) :
    L.Safe database r (AfterFlow.createAction a u) Q c := by
  -- leaving the block before the insert
  have hout : ∀ e c, K c → L.Safe database r (await .close) (fun closed c => match closed with
      | .ok _ => Q (.error e) c
      | .error e => Q (.error e) c) c := fun e c hc =>
    h.close hc (fun c' hc' => hearly _ _ hc') fun c' hc' _ => hearly _ _ hc'
  refine safe_session (Safe.bind_iff.mpr (h.quiet (Coro.Quiet.call _ hE.1) ?_ hK))
  intro found c₁ hc₁
  cases found with
  | error e => exact hout e c₁ hc₁
  | ok found =>
    rw [then_ok]
    split
    · exact hout _ c₁ hc₁
    refine Safe.bind_iff.mpr (h.quiet (Coro.Quiet.call _ hE.2) ?_ hc₁)
    intro active c₂ hc₂
    cases active with
    | error e => exact hout e c₂ hc₂
    | ok active =>
      rw [then_ok]
      split
      · exact hout _ c₂ hc₂
      refine Safe.bind_iff.mpr (Safe.tryCatch_iff.mpr ((hw c₂ hc₂).call (insertAction_unchanged a)
        (fun c' hc' => ?_) ?_))
      · -- the row is there; what is left is to read it back
        exact h₁.reading (.refreshAction a.id) trivial hE₁ hc' hlate
          fun saved c'' hc'' hobs _ => hok saved c'' hc'' hobs
      · intro reply c' hne hc'
        have hclose := (h₀ _).close hc' (Q := fun closed c => match closed with
            | .ok _ => Q (.error (insertError reply)) c
            | .error e => Q (.error e) c)
          (fun c h => (hfail _ c h).1) fun c h _ => (hfail _ c h).2
        cases reply with
        | ok u => exact absurd rfl hne
        | error e => cases e <;> exact hclose

theorem createCase {row : Uuid → ServiceCase} (h₁ : Rest L r E₁ g₁ K₁)
    (hE : E₁ (.refreshCase c.now.uuids)) (h₀ : ∀ e, Rest L r E₀ g₀ (N e))
    (hw : Writes L r (.insertCase (row c.now.uuids)) () K₁
      (fun reply => N (match reply with
        | .error e => e
        | .ok _ => .database)) { c with now := { c.now with uuids := c.now.uuids + 1 } } g)
    {Q : Except Exn ServiceCase → Context Γ → Prop}
    (hok : ∀ saved c', K₁ c' → Obs K₁ (.refreshCase c.now.uuids) saved c' → Q (.ok saved) c')
    (hlate : ∀ e c, K₁ c → Failed K₁ e → Q (.error e) c)
    (hfail : ∀ e c, N e c → Q (.error e) c ∧ Q (.error .database) c) :
    L.Safe database r (AfterFlow.createCase row) Q c := by
  refine safe_session (Safe.bind_iff.mpr (hw.call (insertCase_unchanged _) (fun c' hc' => ?_) ?_))
  · exact h₁.reading (.refreshCase c.now.uuids) trivial hE hc' hlate
      fun saved c'' hc'' hobs _ => hok saved c'' hc'' hobs
  · intro reply c' hne hc'
    cases reply with
    | ok u => exact absurd rfl hne
    | error e => exact (h₀ _).close hc' (fun c h => (hfail _ c h).1) fun c h _ => (hfail _ c h).2

end Rest

end AfterFlow
