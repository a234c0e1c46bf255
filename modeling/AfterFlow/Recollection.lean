import AfterFlow.Discipline

/-!
# What a call remembers

A call acts on copies that it read some steps ago. `past_of_steps` says how the world can have moved
since: along `Becomes`. `keeping` is the logic in which every resumed step may use that. It has no
resources: an invariant of the world, a condition on the steps of a run, and what is to hold when a
call ends.

What a call knows is a property of its context, `G` in the rules. Most of it is about some earlier
step, and then it lasts.
-/

namespace AfterFlow

open Coop Coop.Logic List

/-- What a condition on runs says about the next step of a call. -/
abbrev Guard := Request → List Segment → Option Op → Outcome → World → Prop

/-- What is to hold when a call ends. -/
abbrev Goal := Request → Except Exn Response → List Segment → Prop

/-- The logic of the invariant `I` under the condition `A`. -/
def keeping (I : World → Prop) (A : Guard) (D : Goal) :
    Logic World Op Op.Reply Exn Response Request Unit where
  inv w _ := I w
  rel _ _ _ := True
  link _ _ _ _ := True
  allowed r trace waits out w _ := (∀ e ∈ trace, Becomes e.after w) ∧ A r trace waits out w
  done := D
  rel_refl _ _ := trivial
  rel_trans _ _ := trivial
  rel_weaken _ := trivial

/-- An invariant that looks neither at audit events nor at the uuid counter. -/
structure Unnoticed (I : World → Prop) : Prop where
  events : ∀ w events, I w → I { w with db := { w.db with events } }
  uuids : ∀ w uuids, I w → I { w with uuids }

/-- The invariant holds, the past led here, and `G` is known. -/
structure Kept (I : World → Prop) (G : Context Unit → Prop) (c : Context Unit) : Prop where
  inv : I c.now
  recalled : ∀ e ∈ c.trace, Becomes e.after c.start
  facts : G c

variable {I : World → Prop} {A : Guard} {D : Goal} {r : Request} {E E₀ E₁ : Op → Prop}
  {G G₁ : Context Unit → Prop} {c c' : Context Unit} {P : World → Prop}

theorem Kept.imp (h : Kept I G c) (hG : G c → G₁ c) : Kept I G₁ c :=
  ⟨h.inv, h.recalled, hG h.facts⟩

/-- `G` survives the quiet operations in `E`. -/
structure Survives (I : World → Prop) (A : Guard) (r : Request) (E : Op → Prop)
    (G : Context Unit → Prop) : Prop where
  close_mem : E .close
  quiet : ∀ op, E op → op.IsQuiet
  draw : ∀ c, G c → G { c with now := { c.now with uuids := c.now.uuids + 1 } }
  step : ∀ c op s frame out, Kept I G c → E op → (∀ e ∈ c.close, Becomes e.after s) → I s →
    A r c.close (some op) out s →
    G (resumed c op s frame (database.answer op out s).1 (database.answer op out s).2)

theorem Kept.rest (hI : Unnoticed I) (hG : Survives I A r E G) :
    Rest (keeping I A D) r E () (Kept I G) where
  close_mem := hG.close_mem
  draw c h := ⟨hI.uuids _ _ h.inv, h.recalled, hG.draw c h.facts⟩
  yield c op h _ := ⟨h.inv, trivial, trivial⟩
  step c op s frame out h hE _ hi ha := by
    have hfacts := hG.step c op s frame out h hE ha.1 hi ha.2
    obtain ⟨events, hev⟩ := quiet_answer (hG.quiet op hE) out s
    refine ⟨?_, ha.1, hfacts⟩
    show I (database.answer op out s).2
    rw [hev]
    exact hI.events _ _ hi

/-! ### Lasting knowledge -/

/-- Knowledge about finished steps. -/
def Lasting (G : Context Unit → Prop) : Prop := ∀ c c', c.trace <+: c'.trace → G c → G c'

theorem Lasting.true : Lasting fun _ => True := fun _ _ _ _ => trivial

theorem Lasting.and (h : Lasting G) (h₁ : Lasting G₁) : Lasting fun c => G c ∧ G₁ c :=
  fun c c' hc hG => ⟨h c c' hc hG.1, h₁ c c' hc hG.2⟩

theorem Lasting.survives (hG : Lasting G) : Survives I A r Op.IsQuiet G where
  close_mem := trivial
  quiet _ h := h
  draw c h := hG c _ (prefix_refl _) h
  step c _ _ _ _ h _ _ _ _ := hG c _ (prefix_append _ _) h.facts

/-- Some finished step left a world with `P`. -/
def Known (P : World → Prop) (c : Context Unit) : Prop := ∃ e ∈ c.trace, P e.after

theorem Known.lasting : Lasting (Known P) := by
  rintro c c' hc ⟨e, he, hP⟩
  exact ⟨e, hc.subset he, hP⟩

theorem Known.imp {P' : World → Prop} (h : Known P c) (hP : ∀ w, P w → P' w) : Known P' c := by
  obtain ⟨e, he, hw⟩ := h
  exact ⟨e, he, hP _ hw⟩

theorem Ctx.mem_close {e : Segment} (h : e ∈ c.trace) : e ∈ c.close := mem_append_left _ h

theorem Known.at (h : Known P c) (hP : Stable P) {s : World}
    (hs : ∀ e ∈ c.close, Becomes e.after s) : P s := by
  obtain ⟨e, he, hw⟩ := h
  exact hP _ _ hw (hs e (Ctx.mem_close he))

/-! ### Rules -/

namespace Kept

variable {α : Type}

theorem quietly (hI : Unnoticed I) (hG : Lasting G) {p : Proc α} (hp : ∀ w, IsQuiet p w)
    {Q : Except Exn α → Context Unit → Prop} (hc : Kept I G c) (hQ : ∀ res c', Kept I G c' → Q res c') :
    (keeping I A D).Safe database r p Q c :=
  (Kept.rest hI hG.survives).quiet (hp _) hQ hc

theorem read (hI : Unnoticed I) (hG : Survives I A r E G) (op : Op) (hop : op.Reads) (hE : E op)
    (hc : Kept I G c) {Q : Except Exn op.Reply → Context Unit → Prop}
    (hok : ∀ reply c', Kept I G c' → Known (fun w => I w ∧ (op.perform w).1 = .ok reply) c' →
      Returned (keeping I A D) r c op reply c' → Q (.ok reply) c')
    (herr : ∀ e c', Kept I G c' → Q (.error e) c') :
    (keeping I A D).Safe database r (session (await op)) Q c := by
  refine (Kept.rest hI hG).read op hop hE hc (fun e c' hc' _ => herr e c' hc') ?_
  intro reply c' hc' hobs hret
  obtain ⟨c₀, hK₀, -, -, hrep, hpre⟩ := hobs
  refine hok reply c' hc' ⟨⟨c₀.answer, c₀.start, c₀.now⟩, hpre.subset ?_, hK₀.inv, hrep⟩ hret
  exact mem_append_right _ (mem_singleton_self _)

theorem writes {op : Op} {done : op.Reply} {G₀ : Except Exn op.Reply → Context Unit → Prop}
    (hc : Kept I G c)
    (hcommit : ∀ s, I s → (∀ e ∈ c.close, Becomes e.after s) → A r c.close (some op) .ok s →
      (op.perform s).1 = .ok done →
      I (op.perform s).2 ∧ ∀ frame, G₁ (resumed c op s frame (.ok done) (op.perform s).2))
    (hfail : ∀ s out reply, I s → (∀ e ∈ c.close, Becomes e.after s) →
      A r c.close (some op) out s → reply ≠ .ok done → database.answer op out s = (reply, s) →
      ∀ frame, G₀ reply (resumed c op s frame reply s)) :
    Writes (keeping I A D) r op done (Kept I G₁) (fun reply => Kept I (G₀ reply)) c () where
  yield := ⟨hc.inv, trivial, trivial⟩
  commit s frame _ hi ha hok :=
    ⟨(hcommit s hi ha.1 ha.2 hok).1, ha.1, (hcommit s hi ha.1 ha.2 hok).2 frame⟩
  fail s frame out reply _ hi ha hne hans :=
    ⟨hi, ha.1, hfail s out reply hi ha.1 ha.2 hne hans frame⟩

theorem writes_lasting (hG : Lasting G) {op : Op} {done : op.Reply} (hc : Kept I G c)
    (hcommit : ∀ s, I s → (∀ e ∈ c.close, Becomes e.after s) → A r c.close (some op) .ok s →
      (op.perform s).1 = .ok done → I (op.perform s).2) :
    Writes (keeping I A D) r op done (Kept I G) (fun _ => Kept I G) c () :=
  Kept.writes hc
    (fun s hi hs ha hok => ⟨hcommit s hi hs ha hok, fun _ => hG c _ (prefix_append _ _) hc.facts⟩)
    fun _ _ _ _ _ _ _ _ _ => hG c _ (prefix_append _ _) hc.facts

/-- A save of a known copy: what is read back is a later state of what was saved. -/
theorem saveAction (hI : Unnoticed I) (hG : Lasting G) {copy a : ActionRequest}
    {u : Option String} {h : History} (hc : Kept I G c) (hseen : Known (Seen copy) c)
    (ht : Transition h copy a)
    (hcommit : ∀ s, I s → Seen copy s → A r c.close (some (.updateAction a u copy.version)) .ok s →
      (s.db.updateAction a u copy.version).1 = .ok 1 →
      I { s with db := (s.db.updateAction a u copy.version).2 })
    {Q : Except Exn ActionRequest → Context Unit → Prop}
    (hok : ∀ saved c', Kept I G c' → Known (Seen saved) c' → a.Evolves saved → Q (.ok saved) c')
    (herr : ∀ e c', Kept I G c' → Q (.error e) c') :
    (keeping I A D).Safe database r (AfterFlow.saveAction a u copy.version) Q c := by
  -- once it is saved, a later state of `a` is there in every step
  let G₁ : Context Unit → Prop := fun c => G c ∧ (Known (Seen a) c ∨ Seen a c.now)
  have hG₁ : Survives I A r Op.IsQuiet G₁ := by
    refine ⟨trivial, fun _ h => h, fun c hc => ⟨hG c _ (prefix_refl _) hc.1, hc.2.imp id ?_⟩, ?_⟩
    · exact fun h => h
    · intro c op s frame out hc _ _ _ _
      refine ⟨hG c _ (prefix_append _ _) hc.facts.1, .inl ?_⟩
      rcases hc.facts.2 with hk | hnow
      · exact Known.lasting c _ (prefix_append _ _) hk
      · exact ⟨⟨c.answer, c.start, c.now⟩, mem_append_right _ (mem_singleton_self _), hnow⟩
  refine (Kept.rest hI hG₁).saveAction (N := fun _ => Kept I G) trivial
    (fun _ => Kept.rest hI hG.survives) (Kept.writes hc (fun s hi hs ha hdone => ?_) ?_) ?_
    (fun e c' hc' _ => herr e c' (hc'.imp And.left))
    (fun e c' hc' => ⟨herr _ c' hc', herr _ c' hc'⟩)
  · have hseen' : Seen copy s := hseen.at (.seen copy) hs
    refine ⟨hcommit s hi hseen' ha hdone, fun frame =>
      ⟨hG c _ (prefix_append _ _) hc.facts, .inr ?_⟩⟩
    obtain ⟨row, -, -, hsaved⟩ := saved_of_seen hseen' ht hdone
    exact ⟨a, hsaved.find?_self, .refl a⟩
  · exact fun _ _ _ _ _ _ _ _ _ => hG c _ (prefix_append _ _) hc.facts
  · intro saved c' hc' hobs
    obtain ⟨c₀, hK₀, -, hnow, hrep, hpre⟩ := hobs
    have hmem : (⟨c₀.answer, c₀.start, c₀.now⟩ : Segment) ∈ c'.trace :=
      hpre.subset (mem_append_right _ (mem_singleton_self _))
    have hseen₀ : Seen a c₀.now := by
      rcases hK₀.facts.2 with ⟨e, he, hw⟩ | hw
      · exact hw.becomes (hnow ▸ hK₀.recalled e he)
      · exact hw
    have hget : c₀.now.db.getAction a.id u = some saved := Except.ok.inj hrep
    have hfound := (getAction_some hget).1
    obtain ⟨row, hrow, hev⟩ := hseen₀
    rw [hfound, Option.some.injEq] at hrow
    subst hrow
    exact hok saved c' (hc'.imp And.left)
      ⟨_, hmem, Seen.of_mem (Keyed.Table.mem_of_find? hfound)⟩ hev

theorem updateCase (hI : Unnoticed I) (hG : Lasting G) {id : Uuid} {u : String} {v : ℕ}
    {values : CaseValues} (hc : Kept I G c)
    (hcommit : ∀ s case, I s → A r c.close (some (.updateCase id u v values)) .ok s →
      s.db.getCase id (some u) = some case → case.version = v →
      I { s with db := { s.db with cases := s.db.cases.put (values.apply case (v + 1)) } })
    {Q : Except Exn ServiceCase → Context Unit → Prop}
    (hok : ∀ saved c', Kept I G c' → Q (.ok saved) c')
    (herr : ∀ e c', Kept I G c' → Q (.error e) c') :
    (keeping I A D).Safe database r (AfterFlow.updateCase id u v values) Q c := by
  refine (Kept.rest hI hG.survives).updateCase (N := fun _ => Kept I G) trivial
    (fun _ => Kept.rest hI hG.survives) (Kept.writes_lasting hG hc fun s hi _ ha hdone => ?_)
    (fun saved c' hc' _ => hok saved c' hc') (fun e c' hc' _ => herr e c' hc')
    (fun e c' hc' => ⟨herr _ c' hc', herr _ c' hc'⟩)
  obtain ⟨case, hcase, hver, hdb⟩ := updateCase_ok hdone
  show I { s with db := (s.db.updateCase id u v values).2 }
  rw [hdb]
  exact hcommit s case hi ha hcase hver

end Kept

/-! ### Triples -/

/-- From a context with `G` the code keeps the invariant, and what it returns meets `Q`. -/
def Triple {α : Type} (I : World → Prop) (A : Guard) (D : Goal) (r : Request)
    (G : Context Unit → Prop) (p : Proc α) (Q : α → Context Unit → Prop) : Prop :=
  ∀ c, Kept I G c → (keeping I A D).Safe database r p
    (fun res c' => Kept I (fun _ => True) c' ∧ ∀ a, res = .ok a → Q a c') c

namespace Triple

variable {α β : Type} {F : Context Unit → Prop} {Q Q' : α → Context Unit → Prop}
  {R : β → Context Unit → Prop} {p : Proc α}

theorem pre (hG : ∀ c, G₁ c → G c) (h : Triple I A D r G p Q) : Triple I A D r G₁ p Q :=
  fun c hc => h c (hc.imp (hG c))

theorem post (hQ : ∀ a c, Q a c → Q' a c) (h : Triple I A D r G p Q) : Triple I A D r G p Q' :=
  fun c hc => Safe.mono (fun _ c' hres => ⟨hres.1, fun a ha => hQ a c' (hres.2 a ha)⟩) (h c hc)

theorem pure {a : α} (h : ∀ c, G c → Q a c) : Triple I A D r G (.pure a) Q :=
  fun c hc => ⟨hc.imp fun _ => trivial, fun _ ha => by cases ha; exact h c hc.facts⟩

theorem raise {e : Exn} : Triple I A D r G (.raise e : Proc α) Q :=
  fun _ hc => ⟨hc.imp fun _ => trivial, fun _ ha => by cases ha⟩

theorem ofExcept {x : Except Exn α} (h : ∀ a, x = .ok a → ∀ c, G c → Q a c) :
    Triple I A D r G (Coro.ofExcept x) Q := by
  cases x with
  | ok a => exact pure (h a rfl)
  | error e => exact raise

theorem bind {f : α → Proc β} (hp : Triple I A D r G p Q)
    (hf : ∀ a, Triple I A D r (Q a) (f a) R) : Triple I A D r G (p.bind f) R := by
  intro c hc
  refine Safe.bind_iff.mpr (Safe.mono (fun res c' h => ?_) (hp c hc))
  cases res with
  | ok a => exact hf a c' (h.1.imp fun _ => h.2 a rfl)
  | error e => exact ⟨h.1, fun _ ha => by cases ha⟩

theorem tryCatch {h : Exn → Proc α} (hp : Triple I A D r G p Q)
    (hh : ∀ e, Triple I A D r (fun _ => True) (h e) Q) : Triple I A D r G (p.tryCatch h) Q := by
  intro c hc
  refine Safe.tryCatch_iff.mpr (Safe.mono (fun res c' hres => ?_) (hp c hc))
  cases res with
  | ok a => exact hres
  | error e => exact hh e c' hres.1

/-- **Framing.** What lasts is still known at the end, however that end looks. -/
theorem frame (hF : Lasting F) (h : Triple I A D r G p Q) :
    Triple I A D r (fun c => G c ∧ F c) p fun a c => Q a c ∧ F c := by
  intro c hc
  refine Safe.mono (fun res c' hres => ⟨hres.1.1, fun a ha => ⟨hres.1.2 a ha, ?_⟩⟩)
    (h c (hc.imp And.left)).extends
  exact hF c c' hres.2 hc.facts.2

theorem read {k : World → Proc α} (h : ∀ w, Triple I A D r (fun c => G c ∧ c.now = w) (k w) Q) :
    Triple I A D r G (.read k) Q :=
  fun c hc => h c.now c (hc.imp fun hG => ⟨hG, rfl⟩)

theorem write {f : World → World} {k : Proc α}
    {H : Context Unit → Prop} (hf : ∀ c, Kept I G c → I (f c.now) ∧ H { c with now := f c.now })
    (hk : Triple I A D r H k Q) : Triple I A D r G (.write f k) Q :=
  fun c hc => hk _ ⟨(hf c hc).1, hc.recalled, (hf c hc).2⟩

theorem update {f : World → α × World}
    (hf : ∀ c, Kept I G c → I (f c.now).2 ∧ Q (f c.now).1 { c with now := (f c.now).2 }) :
    Triple I A D r G (Coro.update f) Q :=
  fun c hc => ⟨⟨(hf c hc).1, hc.recalled, trivial⟩, fun _ ha => by cases ha; exact (hf c hc).2⟩

theorem forEach {ι : Type} {body : ι → Proc Unit} {l : List ι}
    (hbody : ∀ i ∈ l, Triple I A D r G (body i) fun _ => G) :
    Triple I A D r G (Coro.forEach l body) fun _ => G := by
  induction l with
  | nil => exact pure fun _ h => h
  | cons i l ih =>
    exact bind (hbody i mem_cons_self) fun _ => ih fun j hj => hbody j (mem_cons_of_mem _ hj)

theorem quiet (hI : Unnoticed I) (hG : Lasting G) (hp : ∀ w, IsQuiet p w) :
    Triple I A D r G p fun _ => G :=
  fun _ hc => Kept.quietly hI hG hp hc fun _ _ hc' => ⟨hc'.imp fun _ => trivial, fun _ _ => hc'.facts⟩

theorem query (hI : Unnoticed I) (op : Op) (hop : op.Reads) :
    Triple I A D r (fun _ => True) (session (await op)) fun reply =>
      Known fun w => I w ∧ (op.perform w).1 = .ok reply :=
  fun _ hc => Kept.read hI Lasting.true.survives op hop hop.quiet hc
    (fun _ _ hc' hk _ => ⟨hc', fun _ ha => by cases ha; exact hk⟩)
    fun _ _ hc' => ⟨hc', fun _ ha => by cases ha⟩

/-- The world in which a read replied. -/
structure Asked (I : World → Prop) (A : Guard) (r : Request) (G : Context Unit → Prop) (op : Op)
    (reply : op.Reply) (s : World) : Prop where
  inv : I s
  reply : (op.perform s).1 = .ok reply
  from_ : ∃ c, Kept I G c ∧ (∀ e ∈ c.close, Becomes e.after s) ∧ A r c.close (some op) .ok s

theorem queryAt (hI : Unnoticed I) (op : Op) (hop : op.Reads) :
    Triple I A D r G (session (await op)) fun reply c =>
      (∃ s, Asked I A r G op reply s) ∧ Known (fun w => I w ∧ (op.perform w).1 = .ok reply) c := by
  intro c hc
  refine Kept.read hI Lasting.true.survives op hop hop.quiet (hc.imp fun _ => trivial)
    (fun reply c' hc' hk hret => ⟨hc', fun _ ha => ?_⟩) fun _ _ hc' => ⟨hc', fun _ ha => by cases ha⟩
  cases ha
  obtain ⟨s, _, _, hi, ⟨hs, ha⟩, hrep⟩ := hret.asked
  exact ⟨⟨s, hi, hrep, c, hc, hs, ha⟩, hk⟩

theorem saveAction (hI : Unnoticed I) (copy : ActionRequest) {a : ActionRequest}
    {u : Option String} {v : ℕ} {h : History} (hv : copy.version = v) (ht : Transition h copy a)
    (hcommit : ∀ c s, Kept I G c → I s → Seen copy s →
      A r c.close (some (.updateAction a u v)) .ok s → (s.db.updateAction a u v).1 = .ok 1 →
      I { s with db := (s.db.updateAction a u v).2 }) :
    Triple I A D r (fun c => G c ∧ Known (Seen copy) c) (AfterFlow.saveAction a u v)
      fun saved c => Known (Seen saved) c ∧ a.Evolves saved := by
  subst hv
  intro c hc
  exact Kept.saveAction hI .true (hc.imp fun _ => trivial) hc.facts.2 ht
    (fun s hi hs ha hok => hcommit c s (hc.imp And.left) hi hs ha hok)
    (fun _ _ hc' hk hev => ⟨hc', fun _ ha => by cases ha; exact ⟨hk, hev⟩⟩)
    fun _ _ hc' => ⟨hc', fun _ ha => by cases ha⟩

theorem updateCase (hI : Unnoticed I) {id : Uuid} {u : String} {v : ℕ} {values : CaseValues}
    (hcommit : ∀ c s case, Kept I G c → I s → A r c.close (some (.updateCase id u v values)) .ok s →
      s.db.getCase id (some u) = some case → case.version = v →
      I { s with db := { s.db with cases := s.db.cases.put (values.apply case (v + 1)) } }) :
    Triple I A D r G (AfterFlow.updateCase id u v values) fun _ _ => True :=
  fun c hc => Kept.updateCase hI .true (hc.imp fun _ => trivial)
    (fun s case hi ha hget hver => hcommit c s case hc hi ha hget hver)
    (fun _ _ hc' => ⟨hc', fun _ _ => trivial⟩) fun _ _ hc' => ⟨hc', fun _ _ => trivial⟩

theorem createAction (hI : Unnoticed I) (hG : Lasting G) {a : ActionRequest} {u : String}
    (hcommit : ∀ c s, Kept I G c → I s → (∀ e ∈ c.close, Becomes e.after s) →
      A r c.close (some (.insertAction a)) .ok s → (s.db.insertAction a).1 = .ok () →
      I { s with db := (s.db.insertAction a).2 }) :
    Triple I A D r G (AfterFlow.createAction a u) fun _ _ => True := by
  intro c hc
  have hrest : Rest (keeping I A D) r Op.IsQuiet () (Kept I G) := Kept.rest hI hG.survives
  have hpost : ∀ (res : Except Exn ActionRequest) c', Kept I G c' → Kept I (fun _ => True) c' ∧
      ∀ a, res = .ok a → True := fun _ _ hc' => ⟨hc'.imp fun _ => trivial, fun _ _ => trivial⟩
  exact hrest.createAction ⟨trivial, trivial⟩ hrest trivial (N := fun _ => Kept I G)
    (fun _ => hrest) hc
    (fun c' hc' => Kept.writes_lasting hG hc' fun s hi hs ha hok => hcommit c' s hc' hi hs ha hok)
    (fun e c' hc' => hpost _ c' hc') (fun _ c' hc' _ => hpost _ c' hc')
    (fun e c' hc' _ => hpost _ c' hc') fun e c' hc' => ⟨hpost _ c' hc', hpost _ c' hc'⟩

end Triple

/-- A handler with a triple for every request of a run is safe, when nothing is to hold at the end
but the invariant. -/
theorem Triple.handler {p : Proc Response} {Q : Response → Context Unit → Prop}
    (hD : ∀ res trace, D r res trace)
    (h : Triple I A D r (fun c => c.answers = []) p Q) :
    SafeHandler (keeping I A D) database r p := by
  refine ⟨trivial, fun s frame hs => ?_⟩
  refine Safe.mono (fun res c hres => ?_) (h ⟨[], none, s, frame, s⟩
    ⟨hs, fun e he => (not_mem_nil he).elim, rfl⟩)
  exact ⟨⟨(), hres.1.inv, trivial, trivial⟩, hD _ _⟩

/-! ### Runs -/

section Runs

variable {cfg : Config} {old : Uuid → Prop} {C : State → Label Request Tick → Prop}

/-- The condition of a run, and the past of its calls. -/
def Remembers (C : State → Label Request Tick → Prop) (s : State) (l : Label Request Tick) : Prop :=
  C s l ∧ ∀ t ∈ s.tasks, ∀ e ∈ t.trace, Becomes e.after s.world

theorem Remembers.of_steps {w : World} {s : State} (hw : Sound cfg old w)
    (hs : Steps (program cfg) C ⟨w, []⟩ s) : Steps (program cfg) (Remembers C) ⟨w, []⟩ s :=
  Steps.with_fact (fun _ hs' t ht e he => (past_of_steps hw hs' t ht e he).2) hs

/-- What a condition on runs has to give. -/
structure Upholds (cfg : Config) (I : World → Prop) (A : Guard) (D : Goal)
    (C : State → Label Request Tick → Prop) : Prop where
  spawn : ∀ s req, C s (.spawn req) → SafeHandler (keeping I A D) database req (handler cfg req)
  tick : ∀ w d, I w → I ((program cfg).tick d w)
  resume : ∀ s i out t, C s (.resume i out) → s.tasks[i]? = some t →
    A t.req t.trace t.pending out s.world

theorem Upholds.admits (h : Upholds cfg I A D C) :
    Admits (keeping I A D) (program cfg) (Remembers C) where
  spawn s req hC := h.spawn s req hC.1
  env s d _ _ hi := ⟨h.tick s.world d hi, trivial⟩
  resume s out l₁ t l₂ _ _ hC htasks _ _ := by
    have hget : s.tasks[l₁.length]? = some t := by rw [htasks]; simp
    exact ⟨hC.2 t (mem_of_getElem? hget), h.resume s _ out t hC.1 hget⟩

/-- The runs of some calls. -/
def Calls (R : Request → Bool) (_ : State) : Label Request Tick → Prop
  | .spawn req => R req
  | .resume .. => True
  | .env _ => True

/-- The runs of some calls all of whose steps meet a condition. -/
def CallsWith (R : Request → Bool) (A : Guard) (s : State) : Label Request Tick → Prop
  | .spawn req => R req
  | .resume i out => ∀ t ∈ s.tasks[i]?, A t.req t.trace t.pending out s.world
  | .env _ => True

instance (R : Request → Bool) (s : State) (l : Label Request Tick) : Decidable (Calls R s l) :=
  match l with
  | .spawn req => inferInstanceAs (Decidable (R req = true))
  | .resume .. => inferInstanceAs (Decidable True)
  | .env _ => inferInstanceAs (Decidable True)

instance (R : Request → Bool) (A : Guard) [∀ r trace waits out w, Decidable (A r trace waits out w)]
    (s : State) (l : Label Request Tick) : Decidable (CallsWith R A s l) :=
  match l with
  | .spawn req => inferInstanceAs (Decidable (R req = true))
  | .resume i out => inferInstanceAs (Decidable (∀ t ∈ s.tasks[i]?,
      A t.req t.trace t.pending out s.world))
  | .env _ => inferInstanceAs (Decidable True)

theorem Upholds.of_calls {R : Request → Bool}
    (hspawn : ∀ req, R req → SafeHandler (keeping I A D) database req (handler cfg req))
    (htick : ∀ w d, I w → I ((program cfg).tick d w)) : Upholds cfg I A D (CallsWith R A) where
  spawn _ req hr := hspawn req hr
  tick := htick
  resume _ _ _ t hC ht := hC t ht

/-- **The invariant holds in every state of a run.** -/
theorem Upholds.inv (h : Upholds cfg I A D C) {w : World} {s : State} (hw : Sound cfg old w)
    (hi : I w) (hs : Steps (program cfg) C ⟨w, []⟩ s) : I s.world := by
  obtain ⟨gs, -, hinv⟩ := (sound h.admits (Good.init hi) (Remembers.of_steps hw hs)).1
  exact hinv

end Runs

end AfterFlow
