import AfterFlow.Versions

/-!
# Every handler keeps the version discipline

`Meets P p Q` is a Hoare triple for coroutines in the logic `versions`: from a world with `P`, the
code `p` moves the world only along `Becomes`, keeps `Sound`, and if it returns `a`, then `Q a`
holds. An assertion that is to survive an await has to be `Stable`: others move the world along
`Becomes` meanwhile. Nothing is claimed after an exception, so a handler of exceptions starts from
`True`.

## Main results

* `versions_handler` — every handler meets its triple
* `sound_of_steps`, `past_of_steps` — what follows for runs
-/

namespace AfterFlow

open Coop Coop.Logic List

variable {cfg : Config} {old : Uuid → Prop} {r : Request} {α β : Type}

/-- The logic of the version discipline: no resources, and no condition on runs. -/
def versions (cfg : Config) (old : Uuid → Prop) :
    Logic World Op Op.Reply Exn Response Request Unit where
  inv w _ := Sound cfg old w
  rel _ := Becomes
  link _ _ _ _ := True
  allowed _ _ _ _ _ _ := True
  done _ _ _ := True
  rel_refl _ := .refl
  rel_trans := .trans
  rel_weaken h := h

/-- Contexts that kept the discipline so far. -/
structure Core (cfg : Config) (old : Uuid → Prop) (c : Context Unit) : Prop where
  sound : Sound cfg old c.now
  step : Becomes c.start c.now
  past : ∀ e ∈ c.trace, Becomes e.after c.start

/-- Assertions that survive what others do. -/
def Stable (P : World → Prop) : Prop := ∀ w w', P w → Becomes w w' → P w'

theorem Stable.seen (a : ActionRequest) : Stable (Seen a) := fun _ _ => Seen.becomes

theorem Stable.and {P H : World → Prop} (h : Stable P) (h' : Stable H) :
    Stable fun w => P w ∧ H w := fun w w' hp hw => ⟨h w w' hp.1 hw, h' w w' hp.2 hw⟩

theorem Stable.forall_mem {ι : Type} {P : ι → World → Prop} (h : ∀ i, Stable (P i)) (l : List ι) :
    Stable fun w => ∀ i ∈ l, P i w := fun w w' hp hw i hi => h i w w' (hp i hi) hw

theorem Stable.true : Stable fun _ => True := fun _ _ _ _ => trivial

/-! ### Triples -/

/-- From `P`, the code keeps the discipline, and what it returns meets `Q`. -/
def Meets (cfg : Config) (old : Uuid → Prop) (r : Request) (P : World → Prop) (p : Proc α)
    (Q : α → World → Prop) : Prop :=
  ∀ c, Core cfg old c → P c.now → (versions cfg old).Safe database r p
    (fun res c' => Core cfg old c' ∧ ∀ a, res = .ok a → Q a c'.now) c

theorem core_rest {P : World → Prop} (hP : Stable P) :
    Rest (versions cfg old) r Op.IsQuiet () fun c => Core cfg old c ∧ P c.now where
  close_mem := trivial
  draw c h := by
    have hb : Becomes c.now { c.now with uuids := c.now.uuids + 1 } :=
      .of_eq rfl rfl (Nat.le_refl _) (Nat.le_succ _) (.refl _) fun _ _ h => h
    exact ⟨⟨h.1.sound.of_eq rfl (Nat.le_succ _) (.refl _) rfl, h.1.step.trans hb, h.1.past⟩,
      hP _ _ h.2 hb⟩
  yield c op h _ := ⟨h.1.sound, h.1.step, trivial⟩
  step c op s frame out h hop hr hi _ := by
    obtain ⟨events, hev⟩ := quiet_answer hop out s
    have hb : Becomes s (database.answer op out s).2 := by
      rw [hev]
      exact .of_eq rfl rfl (Nat.le_refl _) (Nat.le_refl _) (.refl _) fun _ _ h => h
    refine ⟨⟨?_, hb, ?_⟩, hP _ _ h.2 (hr.trans hb)⟩
    · show Sound cfg old (database.answer op out s).2
      rw [hev]
      exact hi.of_eq rfl (Nat.le_refl _) (.refl _) rfl
    · intro e he
      rcases mem_append.mp he with he | he
      · exact (h.1.past e he).trans (h.1.step.trans hr)
      · rw [mem_singleton] at he
        subst he
        exact hr

theorem Core.read_past {K : Context Unit → Prop} {op : Op} {reply : op.Reply} {c : Context Unit}
    (hc : Core cfg old c) (hobs : Obs K op reply c) :
    ∃ c₀, K c₀ ∧ (op.perform c₀.now).1 = .ok reply ∧ Becomes c₀.now c.now := by
  obtain ⟨c₀, hK, -, -, hrep, hpre⟩ := hobs
  have hmem : (⟨c₀.answer, c₀.start, c₀.now⟩ : Segment) ∈ c.trace :=
    hpre.subset (mem_append_right _ (mem_singleton_self _))
  exact ⟨c₀, hK, hrep, (hc.past _ hmem).trans hc.step⟩

namespace Meets

variable {P P' H : World → Prop} {Q : α → World → Prop} {R : β → World → Prop}

theorem pre (hp : ∀ w, P w → P' w) {p : Proc α} (h : Meets cfg old r P' p Q) :
    Meets cfg old r P p Q := fun c hc hP => h c hc (hp _ hP)

theorem post {Q' : α → World → Prop} (hq : ∀ a w, Q' a w → Q a w) {p : Proc α}
    (h : Meets cfg old r P p Q') : Meets cfg old r P p Q := fun c hc hP =>
  Safe.mono (fun _ _ hres => ⟨hres.1, fun a ha => hq a _ (hres.2 a ha)⟩) (h c hc hP)

theorem pure {a : α} (h : ∀ w, P w → Q a w) : Meets cfg old r P (.pure a) Q :=
  fun _ hc hP => ⟨hc, fun _ ha => by cases ha; exact h _ hP⟩

theorem raise {e : Exn} : Meets cfg old r P (.raise e : Proc α) Q :=
  fun _ hc _ => ⟨hc, fun _ ha => by cases ha⟩

theorem bind {p : Proc α} {f : α → Proc β} (hp : Meets cfg old r P p Q)
    (hf : ∀ a, Meets cfg old r (Q a) (f a) R) : Meets cfg old r P (p.bind f) R := by
  intro c hc hP
  refine Safe.bind_iff.mpr (Safe.mono (fun res c' h => ?_) (hp c hc hP))
  cases res with
  | ok a => exact hf a c' h.1 (h.2 a rfl)
  | error e => exact ⟨h.1, fun _ ha => by cases ha⟩

theorem tryCatch {p : Proc α} {h : Exn → Proc α} (hp : Meets cfg old r P p Q)
    (hh : ∀ e, Meets cfg old r (fun _ => True) (h e) Q) :
    Meets cfg old r P (p.tryCatch h) Q := by
  intro c hc hP
  refine Safe.tryCatch_iff.mpr (Safe.mono (fun res c' hres => ?_) (hp c hc hP))
  cases res with
  | ok a => exact hres
  | error e => exact hh e c' hres.1 trivial

theorem ofExcept {x : Except Exn α} (h : ∀ a, x = .ok a → ∀ w, P w → Q a w) :
    Meets cfg old r P (Coro.ofExcept x) Q := by
  cases x with
  | ok a => exact pure fun w => h a rfl w
  | error e => exact raise

theorem read {k : World → Proc α} (h : ∀ w, Meets cfg old r (fun w' => P w' ∧ w' = w) (k w) Q) :
    Meets cfg old r P (.read k) Q := fun c hc hP => h c.now c hc ⟨hP, rfl⟩

theorem write {f : World → World} {k : Proc α}
    (hf : ∀ w, P w → Sound cfg old w → Becomes w (f w) ∧ Sound cfg old (f w) ∧ H (f w))
    (hk : Meets cfg old r H k Q) : Meets cfg old r P (.write f k) Q := by
  intro c hc hP
  obtain ⟨hb, hs, hP'⟩ := hf c.now hP hc.sound
  exact hk _ ⟨hs, hc.step.trans hb, hc.past⟩ hP'

theorem forEach {ι : Type} {body : ι → Proc Unit} {l : List ι} {I : World → Prop}
    (hbody : ∀ i ∈ l, Meets cfg old r I (body i) fun _ => I) :
    Meets cfg old r I (Coro.forEach l body) fun _ => I := by
  induction l with
  | nil => exact pure fun _ h => h
  | cons i l ih =>
    exact bind (hbody i mem_cons_self) fun _ => ih fun j hj => hbody j (mem_cons_of_mem _ hj)

theorem quiet (hP : Stable P) {p : Proc α} (hp : ∀ w, IsQuiet p w) :
    Meets cfg old r P p fun _ => P := fun _ hc h =>
  (core_rest hP).quiet (hp _) (fun _ _ hK => ⟨hK.1, fun _ _ => hK.2⟩) ⟨hc, h⟩

theorem query (hP : Stable P) (op : Op) (hop : op.Reads) {Q : op.Reply → World → Prop}
    (h : ∀ reply w₀ w, P w₀ → (op.perform w₀).1 = .ok reply → Becomes w₀ w → P w → Q reply w) :
    Meets cfg old r P (session (await op)) Q := by
  intro c hc hPc
  refine (core_rest hP).read op hop hop.quiet ⟨hc, hPc⟩
    (fun e c' hK _ => ⟨hK.1, fun _ ha => by cases ha⟩) ?_
  intro reply c' hK hobs _
  obtain ⟨c₀, hK₀, hrep, hb⟩ := hK.1.read_past hobs
  refine ⟨hK.1, fun a ha => ?_⟩
  cases ha
  exact h reply _ _ hK₀.2 hrep hb hK.2

end Meets

theorem core_writes {P : World → Prop} (hP : Stable P) (P' : World → Prop) (op : Op)
    (done : op.Reply)
    (h : ∀ w, Sound cfg old w → P w → (op.perform w).1 = .ok done →
      Becomes w (op.perform w).2 ∧ Sound cfg old (op.perform w).2 ∧ P' (op.perform w).2)
    {c : Context Unit} (hc : Core cfg old c) (hPc : P c.now) :
    Writes (versions cfg old) r op done (fun c => Core cfg old c ∧ P' c.now)
      (fun _ c => Core cfg old c ∧ P c.now) c () := by
  have hpast : ∀ s, Becomes c.now s → ∀ e ∈ c.close, Becomes e.after s := by
    intro s hr e he
    rcases mem_append.mp he with he | he
    · exact (hc.past e he).trans (hc.step.trans hr)
    · rw [mem_singleton] at he
      subst he
      exact hr
  refine ⟨⟨hc.sound, hc.step, trivial⟩, fun s frame hr hi _ hok => ?_, ?_⟩
  · obtain ⟨hb, hs, hP'⟩ := h s hi (hP _ _ hPc hr) hok
    exact ⟨⟨hs, hb, hpast s hr⟩, hP'⟩
  · intro s frame out reply hr hi _ _ _
    exact ⟨⟨hi, .refl s, hpast s hr⟩, hP _ _ hPc hr⟩

namespace Meets

variable {P : World → Prop}

/-- `save_action` of a seen copy returns a later state of what was saved. -/
theorem saveAction (hP : Stable P) (copy : ActionRequest) {a : ActionRequest} {u : Option String}
    {v : ℕ} (hseen : ∀ w, P w → Seen copy w) (ht : ∀ w, P w → Transition w.history copy a)
    (hv : ∀ w, P w → copy.version = v) :
    Meets cfg old r P (AfterFlow.saveAction a u v) fun saved w =>
      P w ∧ Seen saved w ∧ a.Evolves saved := by
  intro c hc hPc
  obtain rfl := hv _ hPc
  have hP' : Stable fun w => P w ∧ Seen a w := hP.and (.seen a)
  refine (core_rest hP').saveAction trivial (fun _ => core_rest hP)
    (core_writes hP (fun w => P w ∧ Seen a w) _ _ ?_ hc hPc) ?_
    (fun e c' hK _ => ⟨hK.1, fun _ ha => by cases ha⟩)
    (fun e c' hK => ⟨⟨hK.1, fun _ ha => by cases ha⟩, ⟨hK.1, fun _ ha => by cases ha⟩⟩)
  · intro w hs hPw hok
    obtain ⟨hb, hs', hrow⟩ := save_step hs (hseen w hPw) (ht w hPw) hok
    exact ⟨hb, hs', hP _ _ hPw hb, a, hrow, .refl a⟩
  · intro saved c' hK hobs
    obtain ⟨c₀, hK₀, hrep, hb⟩ := hK.1.read_past hobs
    refine ⟨hK.1, fun b hb' => ?_⟩
    cases hb'
    have hget : c₀.now.db.getAction a.id u = some saved := Except.ok.inj hrep
    have hfound := (getAction_some hget).1
    obtain ⟨row, hrow, hev⟩ := hK₀.2.2
    rw [hfound, Option.some.injEq] at hrow
    subst hrow
    exact ⟨hK.2.1, (Seen.of_mem (Keyed.Table.mem_of_find? hfound)).becomes hb, hev⟩

theorem updateCase (hP : Stable P) {id : Uuid} {u : String} {v : ℕ} {values : CaseValues} :
    Meets cfg old r P (AfterFlow.updateCase id u v values) fun _ => P := by
  intro c hc hPc
  refine (core_rest hP).updateCase trivial (fun _ => core_rest hP) (core_writes hP P _ _ ?_ hc hPc)
    (fun saved c' hK _ => ⟨hK.1, fun _ _ => hK.2⟩) (fun e c' hK _ => ⟨hK.1, fun _ ha => by cases ha⟩)
    (fun e c' hK => ⟨⟨hK.1, fun _ ha => by cases ha⟩, ⟨hK.1, fun _ ha => by cases ha⟩⟩)
  intro w hs hPw hok
  obtain ⟨case, hcase, hver, hdb⟩ := updateCase_ok hok
  show Becomes w { w with db := (w.db.updateCase id u v values).2 } ∧
    Sound cfg old { w with db := (w.db.updateCase id u v values).2 } ∧
    P { w with db := (w.db.updateCase id u v values).2 }
  rw [hdb]
  have hb : Becomes w
      { w with db := { w.db with cases := w.db.cases.put (values.apply case (v + 1)) } } :=
    ⟨Nat.le_refl _, Nat.le_refl _, .refl _, ?_, .refl .refl, fun _ _ h => h⟩
  · exact ⟨hb, hs.of_eq rfl (Nat.le_refl _) (.refl _) rfl, hP _ _ hPw hb⟩
  have hfound := (getCase_some hcase).1
  refine Keyed.Table.Evolves.put .refl (x := case) ?_ (.apply values case (by omega))
  show w.db.cases.find? case.id = some case
  rw [(getCase_some hcase).2.1, hfound]

theorem createCase {row : Uuid → ServiceCase} (hP : Stable P) :
    Meets cfg old r P (AfterFlow.createCase row) fun _ => P := by
  intro c hc hPc
  have hdraw := (core_rest (r := r) hP).draw c ⟨hc, hPc⟩
  refine (core_rest hP).createCase trivial (fun _ => core_rest hP)
    (core_writes hP P (.insertCase _) () ?_ hdraw.1 hdraw.2)
    (fun saved c' hK _ => ⟨hK.1, fun _ _ => hK.2⟩) (fun e c' hK _ => ⟨hK.1, fun _ ha => by cases ha⟩)
    (fun e c' hK => ⟨⟨hK.1, fun _ ha => by cases ha⟩, ⟨hK.1, fun _ ha => by cases ha⟩⟩)
  intro w hs hPw _
  have hb : Becomes w { w with db := (w.db.insertCase (row c.now.uuids)).2 } := by
    rw [Database.insertCase]
    split
    · rename_i hid
      exact ⟨Nat.le_refl _, Nat.le_refl _, .refl _, .insert .refl hid, .refl .refl, fun _ _ h => h⟩
    · exact .refl w
  refine ⟨hb, hs.of_eq ?_ (Nat.le_refl _) (.refl _) rfl, hP _ _ hPw hb⟩
  show (w.db.insertCase (row c.now.uuids)).2.actions = w.db.actions
  rw [Database.insertCase]
  split <;> rfl

/-- `create_action` of a vouched row. -/
theorem createAction (hP : Stable P) {a : ActionRequest} {u : String}
    (hnew : ∀ w, P w → a.id < w.uuids ∧ Vouched w.history a ∧
      a.idempotencyKey = idempotencyKey cfg.rt a.caseId a.payload) :
    Meets cfg old r P (AfterFlow.createAction a u) fun _ => P := by
  intro c hc hPc
  refine (core_rest hP).createAction ⟨trivial, trivial⟩ (core_rest hP) trivial
    (fun _ => core_rest hP) ⟨hc, hPc⟩
    (fun c' hK => core_writes hP P (.insertAction a) () ?_ hK.1 hK.2)
    (fun e c' hK => ⟨hK.1, fun _ ha => by cases ha⟩)
    (fun saved c' hK _ => ⟨hK.1, fun _ _ => hK.2⟩) (fun e c' hK _ => ⟨hK.1, fun _ ha => by cases ha⟩)
    (fun e c' hK => ⟨⟨hK.1, fun _ ha => by cases ha⟩, ⟨hK.1, fun _ ha => by cases ha⟩⟩)
  intro w hs hPw hok
  obtain ⟨hid, htable, hcases⟩ := insertAction_ok hok
  obtain ⟨hlt, hvouched, hkey⟩ := hnew w hPw
  show Becomes w { w with db := (w.db.insertAction a).2 } ∧
    Sound cfg old { w with db := (w.db.insertAction a).2 } ∧
    P { w with db := (w.db.insertAction a).2 }
  generalize (w.db.insertAction a).2 = db' at htable hcases
  have hrows : ∀ b ∈ db'.actions.rows, b ∈ w.db.actions.rows ∨ b = a := by
    intro b hb
    have hb' : b ∈ db'.actions.toTable := hb
    rw [htable] at hb'
    exact Keyed.Table.mem_insert.mp hb'
  have hb : Becomes w { w with db := db' } := by
    refine ⟨Nat.le_refl _, Nat.le_refl _, .refl _, hcases ▸ .refl .refl, ?_, fun _ _ h => h⟩
    show w.db.actions.toTable.Evolves _ db'.actions.toTable
    rw [htable]
    exact Keyed.Table.Evolves.insert .refl _
  refine ⟨hb, ⟨?_, ?_, ?_, hs.originIds, hs.originsNodup⟩, hP _ _ hPw hb⟩
  · intro b hb hold
    rcases hrows b hb with hb | rfl
    · exact hs.actionIds b hb hold
    · exact hlt
  · intro b hb hold
    rcases hrows b hb with hb | rfl
    · exact hs.vouched b hb hold
    · exact hvouched
  · intro b hb hold
    rcases hrows b hb with hb | rfl
    · exact hs.keyed b hb hold
    · exact hkey

/-! ### Synchronous steps -/

theorem uuid4 (hP : Stable P) :
    Meets cfg old r P AfterFlow.uuid4 fun id w =>
      P w ∧ id < w.uuids ∧ ∀ o ∈ w.history.origins, o.action.id ≠ id := by
  intro c hc hPc
  have hdraw := (core_rest (r := r) hP).draw c ⟨hc, hPc⟩
  refine ⟨hdraw.1, fun id hid => ?_⟩
  cases hid
  exact ⟨hdraw.2, Nat.lt_succ_self _, fun o ho => (hc.sound.originIds o ho).ne⟩

theorem utcNow : Meets cfg old r P AfterFlow.utcNow fun now w => P w ∧ w.now = now :=
  fun _ hc hP => ⟨hc, fun _ ha => by cases ha; exact ⟨hP, rfl⟩⟩

private theorem ledger (hP : Stable P) {f : World → α × World} {Q : α → World → Prop}
    (hf : ∀ w, P w → (f w).2.db = w.db ∧ (f w).2.now = w.now ∧ (f w).2.uuids = w.uuids ∧
      w.history.Extends (f w).2.history ∧ (f w).2.history.origins = w.history.origins ∧
      ∀ k t, w.refunds.transactions k = some t → (f w).2.refunds.transactions k = some t)
    (hQ : ∀ w, P (f w).2 → Q (f w).1 (f w).2) :
    Meets cfg old r P (Coro.update f) Q := by
  intro c hc hPc
  obtain ⟨hdb, hnow, huuids, hh, ho, ht⟩ := hf c.now hPc
  have hb : Becomes c.now (f c.now).2 :=
    .of_eq (by rw [hdb]) (by rw [hdb]) hnow.ge huuids.ge hh ht
  have hs : Sound cfg old (f c.now).2 := hc.sound.of_eq (by rw [hdb]) huuids.ge hh ho
  refine ⟨⟨hs, hc.step.trans hb, hc.past⟩, fun a ha => ?_⟩
  cases ha
  exact hQ c.now (hP _ _ hPc hb)

theorem reserve (hP : Stable P) {a : ActionRequest} {orderId : OrderId} {amount : ℕ} :
    Meets cfg old r P (AfterFlow.reserve a orderId amount) fun _ => P := by
  refine ledger hP (fun w _ => ?_) fun _ h => h
  refine ⟨rfl, rfl, rfl, ⟨?_, prefix_refl _, prefix_refl _⟩, rfl, fun k t h => ?_⟩
  · simp only [World.reserve, RefundExecutor.reserve]
    split
    · exact prefix_refl _
    · exact prefix_append _ _
  · simp only [World.reserve, RefundExecutor.reserve]
    split <;> exact h

theorem release (hP : Stable P) {a : ActionRequest} {orderId : OrderId} {amount : ℕ} :
    Meets cfg old r P (AfterFlow.release a orderId amount) fun _ => P := by
  have hb : ∀ w : World, Becomes w (w.release a orderId amount) := fun w =>
    .of_eq rfl rfl (Nat.le_refl _) (Nat.le_refl _)
      ⟨prefix_append _ _, prefix_refl _, prefix_refl _⟩ fun _ _ h => h
  exact write (fun w hPw hs => ⟨hb w, hs.of_eq rfl (Nat.le_refl _)
    ⟨prefix_append _ _, prefix_refl _, prefix_refl _⟩ rfl, hP _ _ hPw (hb w)⟩)
    (pure fun _ h => h)

end Meets

/-! ### Operations -/

section Operations

variable {P : World → Prop}

theorem orNotFound_meets {what : String} {x : Option α} {Q : α → World → Prop}
    (h : ∀ a, x = some a → ∀ w, P w → Q a w) : Meets cfg old r P (orNotFound what x) Q := by
  cases x with
  | some a => exact .pure fun w => h a rfl w
  | none => exact .raise

theorem getAction_meets (hP : Stable P) (id : Uuid) (u : Option String) :
    Meets cfg old r P (getAction id u) fun found w =>
      P w ∧ ∀ a, found = some a → Seen a w ∧ a.id = id := by
  refine .query hP (.getAction id u) trivial fun reply w₀ w _ hrep hb hPw => ⟨hPw, fun a ha => ?_⟩
  have hget : w₀.db.getAction id u = some a := (Except.ok.inj hrep).trans ha
  refine ⟨?_, (getAction_some hget).2⟩
  exact (Seen.of_mem (Keyed.Table.mem_of_find? (getAction_some hget).1)).becomes hb

theorem appendEvent_meets (hP : Stable P) (e : NewEvent) :
    Meets cfg old r P (appendEvent cfg.rt e) fun _ => P :=
  .quiet hP (appendEvent_quiet cfg.rt e)

theorem createIntakeCase_meets (n : NewIntake) :
    Meets cfg old r (fun _ => True) (createIntakeCase cfg n) fun _ _ => True := by
  refine .bind .utcNow fun now => .bind (Q := fun _ _ => True) (.ofExcept fun _ _ _ _ => trivial) ?_
  intro evaluated
  refine .bind (.createCase .true) fun case => .bind (appendEvent_meets .true _) fun _ => ?_
  split
  · exact .bind (appendEvent_meets .true _) fun _ => .pure fun _ h => h
  · exact .pure fun _ h => h

/-- The loop of `invalidate_active_actions`: from seen copies to seen copies that are rejected. `F`
is what else is known. -/
theorem invalidateLoop_meets (userId reason : String) (actions : List ActionRequest)
    {F : World → Prop} (hF : Stable F) :
    Meets cfg old r (fun w => F w ∧ ∀ a ∈ actions, Seen a w)
      (invalidateLoop userId reason actions) fun invalidated w =>
        F w ∧ ∀ a ∈ invalidated, Seen a w ∧ a.status = .rejected := by
  induction actions generalizing F with
  | nil => exact .pure fun _ h => ⟨h.1, fun _ h => (not_mem_nil h).elim⟩
  | cons a actions ih =>
    rw [invalidateLoop]
    split
    · rename_i hact
      refine .bind (Meets.saveAction (hF.and (.forall_mem .seen _)) a
        (fun w hw => hw.2 a mem_cons_self)
        (fun w _ => .reject a.approvedBy a.approvedAt (some reason) a.reserved (.inl hact)) fun _ _ => rfl) ?_
      intro saved
      have hF' : Stable fun w => F w ∧ Seen saved w ∧ saved.status = .rejected :=
        hF.and ((Stable.seen saved).and fun _ _ h _ => h)
      refine .bind ((ih hF').pre fun w hw => ⟨⟨hw.1.1, hw.2.1, hw.2.2.final rfl⟩, fun b hb =>
        hw.1.2 b (mem_cons_of_mem _ hb)⟩) fun invalidated => .pure fun w hw => ⟨hw.1.1, ?_⟩
      intro b hb
      rcases mem_cons.mp hb with rfl | hb
      · exact hw.1.2
      · exact hw.2 b hb
    · exact (ih hF).pre fun w hw => ⟨hw.1, fun b hb => hw.2 b (mem_cons_of_mem _ hb)⟩

theorem mem_caseActions {db : Database} {caseId : Uuid} {userId : String} {a : ActionRequest}
    (h : a ∈ db.caseActions caseId userId) : a ∈ db.actions.rows ∧ a.caseId = caseId := by
  rw [Database.caseActions] at h
  split at h
  · rw [mem_insertionSort, mem_filter] at h
    exact ⟨h.1, by simpa using h.2⟩
  · cases h

theorem invalidateActiveActions_meets (caseId : Uuid) (userId reason : String) :
    Meets cfg old r (fun _ => True) (invalidateActiveActions caseId userId reason)
      fun invalidated w => ∀ a ∈ invalidated, Seen a w ∧ a.status = .rejected := by
  refine .bind (Q := fun actions w => True ∧ ∀ a ∈ actions, Seen a w) ?_ fun actions =>
    (invalidateLoop_meets userId reason actions .true).post fun _ _ h => h.2
  refine .query .true (.listCaseActions caseId userId) trivial fun reply w₀ w _ hrep hb _ =>
    ⟨trivial, fun a ha => ?_⟩
  have hlist : w₀.db.caseActions caseId userId = reply := Except.ok.inj hrep
  exact (Seen.of_mem (mem_caseActions (hlist ▸ ha)).1).becomes hb

theorem releaseInvalidated_meets (hP : Stable P) (orderId : OrderId) (actorId : String)
    (a : ActionRequest) (hseen : ∀ w, P w → Seen a w) (hrej : a.status = .rejected) :
    Meets cfg old r P (releaseInvalidated orderId actorId a) fun _ => P := by
  rw [releaseInvalidated]
  split
  · refine .bind (Q := fun _ => P) (.ofExcept fun _ _ _ h => h) fun amount => ?_
    refine .bind (.release hP) fun _ => ?_
    exact .bind (Meets.saveAction hP a hseen
      (fun w _ => by
        have ht : Transition w.history a _ :=
          .reject a.approvedBy a.approvedAt a.comment false (.inr hrej)
        rw [← hrej] at ht
        exact ht) fun _ _ => rfl) fun _ => .pure fun _ h => h.1
  · exact .pure fun _ h => h

theorem forEach_meets {ι : Type} {P : World → Prop} {body : ι → Proc Unit} {l : List ι}
    (hbody : ∀ i ∈ l, Meets cfg old r P (body i) fun _ => P) :
    Meets cfg old r P (Coro.forEach l body) fun _ _ => True :=
  (Meets.forEach hbody).post fun _ _ _ => trivial

theorem continueIntakeCase_meets (s : Supplement) (case : ServiceCase) :
    Meets cfg old r (fun _ => True) (continueIntakeCase cfg s case) fun _ _ => True := by
  refine .bind .utcNow fun now => .bind (Q := fun _ _ => True) (.ofExcept fun _ _ _ _ => trivial) ?_
  intro evaluated
  refine .bind (invalidateActiveActions_meets _ _ _) fun invalidated => ?_
  refine .bind (Q := fun _ _ => True) ?_ fun _ => .bind (.updateCase .true) fun case' =>
    .bind (appendEvent_meets .true _) fun _ => .bind (appendEvent_meets .true _) fun _ =>
      .pure fun _ h => h
  have hstable : Stable fun w => ∀ a ∈ invalidated, Seen a w ∧ a.status = .rejected :=
    .forall_mem (fun a => (Stable.seen a).and fun _ _ h _ => h) _
  intro c hc hP
  -- the statuses are facts about the copies, not about the world
  refine forEach_meets (fun a ha => releaseInvalidated_meets hstable _ _ a (fun w hw => (hw a ha).1)
    (hP a ha).2) c hc hP

theorem fundAction_meets (hP : Stable P) (a : ActionRequest) (orderId : OrderId) :
    Meets cfg old r P (fundAction a orderId) fun a' w =>
      P w ∧ ∃ flag, a' = { a with reserved := flag } := by
  rw [fundAction]
  split
  · refine .bind (Q := fun _ => P) (.ofExcept fun _ _ _ h => h) fun amount => ?_
    refine .bind (.reserve hP) fun reserved => ?_
    split
    · exact .pure fun w h => ⟨h, true, rfl⟩
    · exact .raise
  · exact .pure fun w h => ⟨h, a.reserved, rfl⟩

theorem storeAction_meets (hP : Stable P) (a : ActionRequest) (orderId : OrderId) (actorId : String)
    (hnew : ∀ w, P w → a.id < w.uuids ∧ Vouched w.history a ∧
      a.idempotencyKey = idempotencyKey cfg.rt a.caseId a.payload) :
    Meets cfg old r P (storeAction a orderId actorId) fun _ _ => True := by
  refine .tryCatch ((Meets.createAction hP hnew).post fun _ _ _ => trivial) fun e => ?_
  dsimp only
  split
  · exact .bind (Q := fun _ _ => True) (.ofExcept fun _ _ _ h => h) fun _ =>
      .bind (.release .true) fun _ => .raise
  · exact .raise

theorem createCaseAction_meets (case : ServiceCase) (actorId : String) :
    Meets cfg old r (fun _ => True) (createCaseAction cfg case actorId) fun _ _ => True := by
  refine .bind (.uuid4 .true) fun id => .bind .utcNow fun now => ?_
  refine .bind (Q := fun a w => BuiltFrom cfg case actorId id a ∧ id < w.uuids ∧
    ∀ o ∈ w.history.origins, o.action.id ≠ id) (.ofExcept fun a ha w hw =>
      ⟨buildCaseAction_ok ha, hw.1.2⟩) fun a => ?_
  -- from here on the origin of the action is on record
  let o : Origin := ⟨a, case.version, case.decisionJson⟩
  let P : World → Prop := fun w => BuiltFrom cfg case actorId id a ∧ id < w.uuids ∧
    o ∈ w.history.origins
  have hP : Stable P := fun w w' h hw =>
    ⟨h.1, h.2.1.trans_le hw.uuids, hw.history.origins.subset h.2.2⟩
  refine .bind (Q := fun _ => P) (.write (fun w hw hs => ?_) (.pure fun _ h => h)) fun _ => ?_
  · have hh : w.history.Extends { w.history with origins := w.history.origins ++ [o] } :=
      ⟨prefix_refl _, prefix_refl _, prefix_append _ _⟩
    refine ⟨.of_eq rfl rfl (Nat.le_refl _) (Nat.le_refl _) hh fun _ _ h => h, ⟨hs.actionIds,
      fun b hb hold => (hs.vouched b hb hold).mono hh, hs.keyed, ?_, ?_⟩, hw.1, hw.2.1,
      mem_append_right _ (mem_singleton_self _)⟩
    · intro o' ho'
      rcases mem_append.mp ho' with ho' | ho'
      · exact hs.originIds o' ho'
      · rw [mem_singleton.mp ho']
        exact (hw.1.id ▸ hw.2.1 : a.id < w.uuids)
    · rw [map_append, map_singleton, nodup_append]
      refine ⟨hs.originsNodup, nodup_singleton _, fun i hi j hj => ?_⟩
      obtain ⟨o', ho', rfl⟩ := mem_map.mp hi
      rw [mem_singleton.mp hj]
      exact hw.1.id ▸ hw.2.2 o' ho'
  refine .bind (fundAction_meets hP a case.orderId) fun a' => ?_
  refine .bind (storeAction_meets (hP.and fun _ _ h _ => h) a' _ actorId ?_) fun saved =>
    .bind (.updateCase .true) fun _ => .pure fun _ h => h
  rintro w ⟨⟨hb, hlt, ho⟩, flag, rfl⟩
  exact ⟨hb.id.symm ▸ hlt, (hb.vouched ho).flag flag, hb.key⟩

theorem executed_transition {a : ActionRequest} {h : History} {transactionId : String}
    (hs : a.status = .approved) (reserved : Bool) :
    Transition h a { a with status := .completed, externalTransactionId := some transactionId,
                            version := a.version + 1, reserved } :=
  .complete transactionId reserved hs

theorem refund_transactions {rt : Runtime} {e : RefundExecutor} {orderId : OrderId} {amount : ℕ}
    {key k t : String} (h : e.transactions k = some t) :
    (e.refund rt orderId amount key).2.transactions k = some t := by
  rw [RefundExecutor.refund]
  split
  · exact h
  · rename_i hnone
    split
    · exact h
    · have hne : k ≠ key := fun hk => by rw [hk, hnone] at h; cases h
      simpa [Function.update_of_ne hne] using h

theorem execute_transactions {rt : Runtime} {a : ActionRequest} {payload : Json}
    {expectedVersion balance : ℕ} {e : RefundExecutor} {now : Instant} {k t : String}
    (h : e.transactions k = some t) :
    (executeApprovedAction rt a payload expectedVersion balance e now).2.transactions k
      = some t := by
  rw [executeApprovedAction]
  split
  · exact h
  · exact refund_transactions h

theorem performAction_meets {P : World → Prop} (hP : Stable P) (a : ActionRequest)
    (orderId : OrderId) (payload : Json) (expectedVersion : ℕ) :
    Meets cfg old r P (performAction cfg a orderId payload expectedVersion) fun updated w =>
      P w ∧ a.version = expectedVersion ∧ ∀ h, Transition h a updated := by
  rw [performAction]
  split
  · refine .bind (Meets.ledger (Q := fun result w => P w ∧ ∃ e e' now,
        (result, e') = executeApprovedResend cfg.rt a payload expectedVersion e now) hP
      (fun w _ => ⟨rfl, rfl, rfl, .refl _, rfl, fun _ _ h => h⟩)
      fun w hw => ⟨hw, w.reverse, _, w.now, rfl⟩) fun result => ?_
    refine .ofExcept fun updated hok w hw => ⟨hw.1, ?_⟩
    obtain ⟨-, e, e', now, heq⟩ := hw
    rw [hok] at heq
    obtain ⟨hs, hv, -, reference, rfl⟩ := executeApprovedResend_ok heq.symm
    exact ⟨hv, fun h => executed_transition hs a.reserved⟩
  · refine .bind (Meets.ledger (Q := fun result w => P w ∧ ∃ balance e e' now,
        (result, e') = executeApprovedAction cfg.rt a payload expectedVersion balance e now) hP
      (fun w _ => ⟨rfl, rfl, rfl, .refl _, rfl, fun _ _ h => execute_transactions h⟩)
      fun w hw => ⟨hw, _, w.refunds, _, w.now, rfl⟩) fun result => ?_
    refine .bind (Q := fun updated w => P w ∧ a.version = expectedVersion ∧
      ∀ h, Transition h a { updated with reserved := false }) (.ofExcept fun updated hok w hw =>
        ⟨hw.1, ?_⟩) fun updated => .pure fun _ h => h
    obtain ⟨-, balance, e, e', now, heq⟩ := hw
    rw [hok] at heq
    obtain ⟨_, _, reference, hcheck, -, rfl⟩ := executeApprovedAction_ok heq.symm
    obtain ⟨hs, hv, -⟩ := checkExecution_ok hcheck
    exact ⟨hv, fun h => executed_transition hs false⟩

theorem executeCaseAction_meets (a : ActionRequest) (case : ServiceCase) (payload : Json)
    (expectedVersion : ℕ) :
    Meets cfg old r (Seen a) (executeCaseAction cfg a case payload expectedVersion)
      fun _ _ => True := by
  refine .bind (performAction_meets (.seen a) a _ _ _) fun updated => ?_
  have hP : Stable fun w => Seen a w ∧ a.version = expectedVersion ∧ ∀ h, Transition h a updated :=
    (Stable.seen a).and fun _ _ h _ => h
  refine .bind (Meets.saveAction hP a (fun w hw => hw.1) (fun w hw => hw.2.2 _) fun w hw => hw.2.1)
    fun saved => .bind (Meets.pre (fun _ _ => trivial) (.updateCase .true)) fun _ =>
      .pure fun _ h => h

theorem releaseExpiredReservations_meets :
    Meets cfg old r (fun _ => True) releaseExpiredReservations fun _ _ => True := by
  refine .bind .utcNow fun now => ?_
  refine .bind (Q := fun expired w => ∀ p ∈ expired, Seen p.1 w) ((Meets.query .true
    (.listExpiredReservedActions now) trivial fun reply w₀ w _ hrep hb _ p hp => ?_).pre
      fun _ _ => trivial) fun expired => ?_
  · have hlist : w₀.db.expiredReserved now = reply := Except.ok.inj hrep
    rw [← hlist, Database.expiredReserved, mem_filterMap] at hp
    obtain ⟨a, ha, hp⟩ := hp
    split at hp
    · obtain ⟨case, -, rfl⟩ := Option.map_eq_some_iff.mp hp
      exact (Seen.of_mem ha).becomes hb
    · cases hp
  · have hP : Stable fun w => ∀ p ∈ expired, Seen p.1 w := .forall_mem (fun p : ActionRequest × OrderId => .seen p.1) _
    refine .bind (forEach_meets fun p hp => ?_) fun _ => .pure fun _ h => h
    refine .bind (Q := fun _ w => ∀ p ∈ expired, Seen p.1 w) (.ofExcept fun _ _ _ h => h)
      fun amount => .bind (.release hP) fun _ => ?_
    exact .bind (.saveAction hP p.1 (fun w hw => hw p hp) (fun _ _ => .reap) fun _ _ => rfl) fun _ =>
      .pure fun _ h => h.1

end Operations

/-! ### Handlers -/

section Handlers

variable {P : World → Prop}

theorem adminAction_meets (caller : Caller) (actionId : Uuid) :
    Meets cfg old r (fun _ => True) (adminAction caller actionId) fun x w =>
      Seen x.2.1 w ∧ x.2.1.id = actionId := by
  refine .bind (Q := fun _ _ => True) (.ofExcept fun _ _ _ h => h) fun actor => ?_
  refine .bind (getAction_meets .true actionId none) fun found => ?_
  refine .bind (Q := fun a w => Seen a w ∧ a.id = actionId)
    (orNotFound_meets fun a ha w hw => hw.2 a ha) fun a => ?_
  have hP : Stable fun w => Seen a w ∧ a.id = actionId := (Stable.seen a).and fun _ _ h _ => h
  refine .bind (.quiet hP (query_quiet (.getCase a.caseId none) trivial)) fun found => ?_
  exact .bind (Q := fun _ w => Seen a w ∧ a.id = actionId) (orNotFound_meets fun _ _ _ h => h)
    fun _ => .pure fun _ h => h

theorem raiseActionError_meets {Q : α → World → Prop} (e : Exn) :
    Meets cfg old r P (raiseActionError e) Q := by
  cases e <;> exact .raise

theorem checkFunds_meets (a : ActionRequest) :
    Meets cfg old r P (checkFunds a) fun _ => P := by
  rw [checkFunds]
  split
  · refine .bind (Q := fun _ => P) (.ofExcept fun _ _ _ h => h) fun amount => ?_
    exact .read fun w => .bind (Q := fun _ w' => P w' ∧ w' = w) (.pure fun _ h => h) fun _ =>
      .ofExcept fun _ _ _ h => h.1
  · exact .pure fun _ h => h

theorem recordSignature_meets (hP : Stable P) (actionId : Uuid) (actor : Actor) (now : Instant) :
    Meets cfg old r P (recordSignature actionId actor now) fun _ w =>
      P w ∧ (⟨actionId, actor.id, actor.role, now⟩ : Signature) ∈ w.history.signatures := by
  refine .write (H := fun w => P w ∧ (⟨actionId, actor.id, actor.role, now⟩ : Signature) ∈
    w.history.signatures) (fun w hw hs => ?_) (.pure fun _ h => h)
  have hh : w.history.Extends { w.history with
      signatures := w.history.signatures ++ [⟨actionId, actor.id, actor.role, now⟩] } :=
    ⟨prefix_refl _, prefix_append _ _, prefix_refl _⟩
  have hb : Becomes w { w with history := { w.history with
      signatures := w.history.signatures ++ [⟨actionId, actor.id, actor.role, now⟩] } } :=
    .of_eq rfl rfl (Nat.le_refl _) (Nat.le_refl _) hh fun _ _ h => h
  exact ⟨hb, hs.of_eq rfl (Nat.le_refl _) hh rfl, hP _ _ hw hb,
    mem_append_right _ (mem_singleton_self _)⟩

theorem authorize_meets (hP : Stable P) (a updated : ActionRequest) (orderId : OrderId) :
    Meets cfg old r P (authorize a updated orderId) fun updated' w =>
      P w ∧ ∃ flag, updated' = { updated with reserved := flag } := by
  rw [authorize]
  split
  · refine .bind (Q := fun _ => P) (.ofExcept fun _ _ _ h => h) fun amount => ?_
    refine .bind (.reserve hP) fun reserved => ?_
    split
    · exact .pure fun w h => ⟨h, true, rfl⟩
    · exact .raise
  · exact .pure fun w h => ⟨h, updated.reserved, rfl⟩

theorem saveApproval_meets (hP : Stable P) (a updated : ActionRequest) (orderId : OrderId)
    (expectedVersion : ℕ) (hseen : ∀ w, P w → Seen a w)
    (ht : ∀ w, P w → Transition w.history a updated)
    (hv : ∀ w, P w → a.version = expectedVersion) :
    Meets cfg old r P (saveApproval a updated orderId expectedVersion) fun _ _ => True := by
  refine .tryCatch ((Meets.saveAction hP a hseen ht hv).post fun _ _ _ => trivial) fun e => ?_
  dsimp only
  split
  · exact .bind (Q := fun _ _ => True) (.ofExcept fun _ _ _ h => h) fun _ =>
      .bind (.release .true) fun _ => .raise
  · exact .raise

theorem report_meets (hP : Stable P) (e : NewEvent) {id : Uuid} {u : String} {v : ℕ}
    {values : CaseValues} {response : Response} :
    Meets cfg old r P (do
      let _ ← appendEvent cfg.rt e
      let _ ← updateCase id u v values
      return response) fun _ _ => True :=
  .bind (appendEvent_meets hP e) fun _ => .bind (.updateCase hP) fun _ => .pure fun _ _ => trivial

theorem approve_meets (caller : Caller) (actionId : Uuid) (body : ApprovalRequest) :
    Meets cfg old r (fun _ => True) (approve cfg caller actionId body) fun _ _ => True := by
  refine .bind (adminAction_meets caller actionId) fun ⟨actor, a, case⟩ => ?_
  refine .bind (Q := fun _ _ => True) (.tryCatch ?_ fun e => raiseActionError_meets e) fun updated =>
    report_meets .true _
  refine .bind (checkFunds_meets a) fun _ => .bind .utcNow fun now => ?_
  let P : ActionRequest → World → Prop := fun updated w => (Seen a w ∧ a.id = actionId) ∧
    approveAction a actor.id [actor.role] body.expectedVersion now body.comment = .ok updated
  have hP : ∀ updated, Stable (P updated) := fun updated =>
    ((Stable.seen a).and fun _ _ h _ => h).and fun _ _ h _ => h
  refine .bind (Q := P) (.ofExcept fun updated hok w hw => ⟨hw.1, hok⟩) fun updated => ?_
  refine .bind (recordSignature_meets (hP updated) actionId actor now) fun _ => ?_
  have hP' := (hP updated).and (H := fun w => (⟨actionId, actor.id, actor.role, now⟩ : Signature) ∈
    w.history.signatures) fun w w' h hw => hw.history.signatures.subset h
  refine .bind (authorize_meets hP' a updated case.orderId) fun updated' => ?_
  refine saveApproval_meets (hP'.and fun _ _ h _ => h) a updated' _ _ (fun w hw => hw.1.1.1.1) ?_ ?_
  · rintro w ⟨⟨⟨⟨-, hid⟩, hok⟩, hsigned⟩, flag, rfl⟩
    obtain ⟨hpending, -, htime, hrole, hmaker, hnew, rfl⟩ := approveAction_ok hok
    rw [← hid, ← mem_singleton.mp hrole] at hsigned
    exact .sign actor.id now body.comment flag hpending hnew hmaker htime hsigned
  · rintro w ⟨⟨⟨-, hok⟩, -⟩, -⟩
    exact (approveAction_ok hok).2.1

theorem unauthorize_meets (hP : Stable P) (a updated : ActionRequest) (orderId : OrderId) :
    Meets cfg old r P (unauthorize a updated orderId) fun updated' w =>
      P w ∧ ∃ flag, updated' = { updated with reserved := flag } := by
  rw [unauthorize]
  split
  · exact .bind (Q := fun _ => P) (.ofExcept fun _ _ _ h => h) fun _ => .bind (.release hP) fun _ =>
      .pure fun w h => ⟨h, false, rfl⟩
  · exact .pure fun w h => ⟨h, updated.reserved, rfl⟩

theorem reject_meets (caller : Caller) (actionId : Uuid) (body : RejectionRequest) :
    Meets cfg old r (fun _ => True) (reject cfg caller actionId body) fun _ _ => True := by
  refine .bind (adminAction_meets caller actionId) fun ⟨actor, a, case⟩ => ?_
  refine .bind (Q := fun _ _ => True) (.tryCatch ?_ fun e => raiseActionError_meets e) fun updated =>
    report_meets .true _
  refine .bind .utcNow fun now => ?_
  let P : ActionRequest → World → Prop := fun updated w => Seen a w ∧
    rejectAction cfg.rt a actor.id [actor.role] body.expectedVersion body.comment now = .ok updated
  have hP : ∀ updated, Stable (P updated) := fun updated => (Stable.seen a).and fun _ _ h _ => h
  refine .bind (Q := P) (.ofExcept fun updated hok w hw => ⟨hw.1.1, hok⟩) fun updated => ?_
  refine .bind (unauthorize_meets (hP updated) a updated case.orderId) fun updated' => ?_
  refine (Meets.saveAction ((hP updated).and fun _ _ h _ => h) a (fun w hw => hw.1.1) ?_ ?_).post
    fun _ _ _ => trivial
  · rintro w ⟨⟨-, hok⟩, flag, rfl⟩
    obtain ⟨hpending, -, -, rfl⟩ := rejectAction_ok hok
    refine .reject _ _ _ _ (.inl ?_)
    simp [ActionRequest.isActive, hpending, ActionStatus.isActive]
  · rintro w ⟨⟨-, hok⟩, -⟩
    exact (rejectAction_ok hok).2.1

theorem execute_meets (caller : Caller) (actionId : Uuid) (body : ExecutionRequest) :
    Meets cfg old r (fun _ => True) (execute cfg caller actionId body) fun _ _ => True := by
  refine .bind (adminAction_meets caller actionId) fun ⟨actor, a, case⟩ => ?_
  refine .bind (.tryCatch ((executeCaseAction_meets a case _ _).pre fun _ h => h.1) fun e =>
    raiseActionError_meets e) fun updated => ?_
  exact .bind (appendEvent_meets .true _) fun _ => .pure fun _ h => h

theorem readCase_meets {caseId : Uuid} {u : Option String} {f : ServiceCase → Proc β}
    {Q : β → World → Prop} (hf : ∀ case, Meets cfg old r (fun _ => True) (f case) Q) :
    Meets cfg old r (fun _ => True)
      ((getCase caseId u).bind fun found => (orNotFound "Case" found).bind f) Q :=
  .bind (.quiet .true (query_quiet (.getCase caseId u) trivial)) fun _ =>
    .bind (Q := fun _ _ => True) (orNotFound_meets fun _ _ _ h => h) hf

theorem createCaseHandler_meets (caller : Caller) (body : CaseCreateRequest) :
    Meets cfg old r (fun _ => True) (createCaseHandler cfg caller body) fun _ _ => True := by
  refine .bind (Q := fun _ _ => True) (.ofExcept fun _ _ _ h => h) fun actor => ?_
  refine .bind (Q := fun _ _ => True) (.ofExcept fun _ _ _ h => h) fun evaluated => ?_
  split
  · exact .raise
  · exact .raise
  · exact .bind (.createCase .true) fun _ => .bind (appendEvent_meets .true _) fun _ =>
      .pure fun _ h => h

/-- **Every handler keeps the discipline.** -/
theorem handler_meets : Meets cfg old r (fun _ => True) (handler cfg r) fun _ _ => True := by
  have hactor : ∀ caller, Meets cfg old r (fun _ => True) (Coro.ofExcept (actorOf caller))
      fun _ _ => True := fun caller => .ofExcept fun _ _ _ h => h
  cases hr : r with
  | intakeCase caller body =>
    exact .bind (hr ▸ hactor caller) fun _ => .bind (createIntakeCase_meets _) fun _ =>
      .pure fun _ h => h
  | createCase caller body => exact createCaseHandler_meets caller body
  | supplementCase caller caseId body =>
    exact .bind (hr ▸ hactor caller) fun actor => readCase_meets fun case =>
      .bind (continueIntakeCase_meets _ case) fun case' =>
        .quiet .true (aggregateCase_quiet case' actor.id)
  | createAction caller caseId =>
    refine .bind (hr ▸ hactor caller) fun actor => readCase_meets fun case => ?_
    refine .bind (.tryCatch (createCaseAction_meets case actor.id) fun e => ?_) fun _ =>
      .bind (appendEvent_meets .true _) fun _ => .pure fun _ h => h
    cases e <;> exact .raise
  | approve caller actionId body => exact approve_meets caller actionId body
  | reject caller actionId body => exact reject_meets caller actionId body
  | execute caller actionId body => exact execute_meets caller actionId body
  | listActions caller actionStatus =>
    exact .bind (Q := fun _ _ => True) (.ofExcept fun _ _ _ h => h) fun _ =>
      .bind releaseExpiredReservations_meets fun _ =>
        .bind (.quiet .true (query_quiet (.listActionsWithCases actionStatus) trivial)) fun _ =>
          .pure fun _ h => h
  | createIntakeCase intake =>
    exact .bind (createIntakeCase_meets _) fun _ => .pure fun _ h => h
  | continueIntakeCase caseId s =>
    exact readCase_meets fun case => .bind (continueIntakeCase_meets s case) fun _ =>
      .pure fun _ h => h
  | createCaseAction caseId actorId =>
    exact readCase_meets fun case => .bind (createCaseAction_meets case actorId) fun _ =>
      .pure fun _ h => h
  | releaseExpiredReservations =>
    exact .bind releaseExpiredReservations_meets fun _ => .pure fun _ h => h

theorem versions_handler :
    SafeHandler (versions cfg old) database r (handler cfg r) := by
  refine ⟨trivial, fun s frame hs => ?_⟩
  refine Safe.mono (fun res c h => ?_) (handler_meets ⟨[], none, s, frame, s⟩
    ⟨hs, .refl s, fun e he => (not_mem_nil he).elim⟩ trivial)
  exact ⟨⟨(), h.1.sound, h.1.step, trivial⟩, trivial⟩

end Handlers

/-! ### Runs -/

theorem tick_becomes (cfg : Config) (d : Tick) (w : World) : Becomes w ((program cfg).tick d w) :=
  .of_eq rfl rfl (Nat.le_add_right _ _) (Nat.le_refl _) (.refl _) fun _ _ h => h

theorem versions_admits (C : State → Label Request Tick → Prop) :
    Admits (versions cfg old) (program cfg) C where
  spawn _ _ _ := versions_handler
  env _ d _ _ hs := ⟨hs.of_eq rfl (Nat.le_refl _) (.refl _) rfl, tick_becomes cfg d _⟩
  resume _ _ _ _ _ _ _ _ _ _ _ := trivial

theorem sound_start (cfg : Config) (db : Database) (refunds : RefundExecutor)
    (reverse : ReverseExecutor) (now : Instant) (uuids : Uuid) :
    Sound cfg (fun _ => True) (World.start db refunds reverse now uuids) where
  actionIds _ _ h := (h trivial).elim
  vouched _ _ h := (h trivial).elim
  keyed _ _ h := (h trivial).elim
  originIds _ h := (not_mem_nil h).elim
  originsNodup := nodup_nil

section Runs

variable {C : State → Label Request Tick → Prop} {w : World} {s : State}

/-- **Runs keep the invariant.** -/
theorem sound_of_steps (hw : Sound cfg old w) (hs : Steps (program cfg) C ⟨w, []⟩ s) :
    Sound cfg old s.world := by
  obtain ⟨gs, -, hi⟩ := (sound (versions_admits C) (Good.init (L := versions cfg old) hw) hs).1
  exact hi

/-- **Every finished step of a call lies in the past of the world.** -/
theorem past_of_steps (hw : Sound cfg old w) (hs : Steps (program cfg) C ⟨w, []⟩ s) :
    ∀ t ∈ s.tasks, ∀ e ∈ t.trace, Becomes e.before e.after ∧ Becomes e.after s.world :=
  sound_past (versions_admits C) (Good.init (L := versions cfg old) hw)
    (fun _ ht => (not_mem_nil ht).elim) hs

end Runs

end AfterFlow
