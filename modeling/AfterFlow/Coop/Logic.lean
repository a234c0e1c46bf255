import AfterFlow.Coop.System
import Mathlib.Algebra.BigOperators.Group.List.Basic

/-!
# Rely and guarantee with ghost resources

A proof about any number of tasks should look at one task at a time. Each task owns a *resource*
`g : Γ` while it is suspended: money it has set aside, a row it is about to write. `Γ` is a
commutative monoid, so the resources of all tasks add up, and the invariant relates the shared
state to that sum.

* `inv s g` — the state `s` is consistent with `g` in total.
* `rel g s s'` — a change of the state that respects the resource `g`. A task promises `rel` for
  what the *others* own, and may rely on `rel` for what it owns itself.
* `allowed` — what a condition on runs says about the next step of one task.
* `link` — what a resource says about the observable side of the task: its steps so far and the
  operation it waits for. Conditions on runs speak about that side.

`Safe` is the obligation of one coroutine, by recursion on its text. At every await it gives up a
resource, shows the invariant for it together with the frame, and goes on from any state its rely
allows. `Logic.sound` turns it into statements about runs.

## Main results

* `Safe.bind_iff`, `Safe.tryCatch_iff` — the composition rules
* `Safe.of_quiet` — a quiet block needs one invariant of contexts
* `Logic.sound`, `Logic.sound_past` — safe handlers keep the invariant on every run
-/

namespace Coop

open List

variable {σ Op : Type} {Reply : Op → Type} {ε α β Req Env Γ : Type}

/-- The assertions of a proof about tasks that share a state. -/
structure Logic (σ Op : Type) (Reply : Op → Type) (ε α Req Γ : Type) [AddCommMonoid Γ] where
  inv : σ → Γ → Prop
  rel : Γ → σ → σ → Prop
  link : Req → List (Event σ Op Reply ε) → Option Op → Γ → Prop
  allowed : Req → List (Event σ Op Reply ε) → Option Op → Outcome → σ → Γ → Prop
  done : Req → Except ε α → List (Event σ Op Reply ε) → Prop
  rel_refl : ∀ g s, rel g s s
  rel_trans : ∀ {g s₁ s₂ s₃}, rel g s₁ s₂ → rel g s₂ s₃ → rel g s₁ s₃
  rel_weaken : ∀ {g h s₁ s₂}, rel (g + h) s₁ s₂ → rel g s₁ s₂

/-- Where a task is inside a step: its finished steps, the answer this step resumed with, the
state the step began in, what the other tasks own, and the state now. -/
structure Ctx (σ Op : Type) (Reply : Op → Type) (ε Γ : Type) where
  trace : List (Event σ Op Reply ε)
  answer : Option (Answer Op Reply ε)
  start : σ
  frame : Γ
  now : σ

/-- The trace with the current step ended here. -/
def Ctx.close (c : Ctx σ Op Reply ε Γ) : List (Event σ Op Reply ε) :=
  c.trace ++ [⟨c.answer, c.start, c.now⟩]

/-- The answers of some finished steps. -/
def answersOf (trace : List (Event σ Op Reply ε)) : List (Answer Op Reply ε) :=
  trace.filterMap Event.answer

/-- The answers so far, the current one included. -/
def Ctx.answers (c : Ctx σ Op Reply ε Γ) : List (Answer Op Reply ε) :=
  answersOf c.trace ++ c.answer.toList

theorem Ctx.answersOf_close (c : Ctx σ Op Reply ε Γ) : answersOf c.close = c.answers := by
  rw [Ctx.answers, Ctx.close, answersOf, answersOf, filterMap_append]
  cases c.answer <;> rfl

namespace Logic

variable [AddCommMonoid Γ] (L : Logic σ Op Reply ε α Req Γ)

/-- A step may end here, owning `g` from now on. -/
structure Yield (r : Req) (c : Ctx σ Op Reply ε Γ) (waits : Option Op) (g : Γ) : Prop where
  inv : L.inv c.now (g + c.frame)
  rel : L.rel c.frame c.start c.now
  link : L.link r c.close waits g

/-- From context `c` the coroutine `p` keeps the logic, and if it ends, it ends in `Q`. -/
def Safe (b : Backend σ Op Reply ε) (r : Req) {β : Type} (p : Coro σ Op Reply ε β)
    (Q : Except ε β → Ctx σ Op Reply ε Γ → Prop) (c : Ctx σ Op Reply ε Γ) : Prop :=
  match p with
  | .pure a => Q (.ok a) c
  | .raise e => Q (.error e) c
  | .read k => Safe b r (k c.now) Q c
  | .write f k => Safe b r k Q { c with now := f c.now }
  | .await op k => ∃ g, L.Yield r c (some op) g ∧ ∀ s frame out, L.rel g c.now s →
      L.inv s (g + frame) → L.allowed r c.close (some op) out s frame →
      Safe b r (k (b.answer op out s).1) Q
        ⟨c.close, some ⟨op, (b.answer op out s).1⟩, s, frame, (b.answer op out s).2⟩

/-- The end of a task. -/
def Final (r : Req) (res : Except ε α) (c : Ctx σ Op Reply ε Γ) : Prop :=
  (∃ g, L.Yield r c none g) ∧ L.done r res c.close

variable {L} {b : Backend σ Op Reply ε} {r : Req}

section Rules

variable {Q : Except ε β → Ctx σ Op Reply ε Γ → Prop} {c : Ctx σ Op Reply ε Γ}

@[simp] theorem safe_pure (a : β) : L.Safe b r (.pure a : Coro σ Op Reply ε β) Q c ↔ Q (.ok a) c :=
  Iff.rfl

@[simp] theorem safe_raise (e : ε) :
    L.Safe b r (.raise e : Coro σ Op Reply ε β) Q c ↔ Q (.error e) c :=
  Iff.rfl

theorem Safe.mono {Q' : Except ε β → Ctx σ Op Reply ε Γ → Prop} (h : ∀ res c, Q res c → Q' res c)
    {p : Coro σ Op Reply ε β} (hp : L.Safe b r p Q c) : L.Safe b r p Q' c := by
  induction p generalizing c with
  | pure | raise => exact h _ _ hp
  | read k ih => exact ih c.now hp
  | write f k ih => exact ih hp
  | await op k ih =>
    obtain ⟨g, hy, hk⟩ := hp
    exact ⟨g, hy, fun s frame out hr hi ha => ih _ (hk s frame out hr hi ha)⟩

/-- The postcondition that goes on with `f`. -/
def Then (L : Logic σ Op Reply ε α Req Γ) (b : Backend σ Op Reply ε) (r : Req) {γ : Type}
    (f : β → Coro σ Op Reply ε γ) (Q : Except ε γ → Ctx σ Op Reply ε Γ → Prop) :
    Except ε β → Ctx σ Op Reply ε Γ → Prop
  | .ok a, c => L.Safe b r (f a) Q c
  | .error e, c => Q (.error e) c

/-- The postcondition that handles an exception with `h`. -/
def Catch (L : Logic σ Op Reply ε α Req Γ) (b : Backend σ Op Reply ε) (r : Req)
    (h : ε → Coro σ Op Reply ε β) (Q : Except ε β → Ctx σ Op Reply ε Γ → Prop) :
    Except ε β → Ctx σ Op Reply ε Γ → Prop
  | .ok a, c => Q (.ok a) c
  | .error e, c => L.Safe b r (h e) Q c

@[simp] theorem then_ok {γ : Type} (f : β → Coro σ Op Reply ε γ)
    (Q : Except ε γ → Ctx σ Op Reply ε Γ → Prop) (a : β) (c : Ctx σ Op Reply ε Γ) :
    Then L b r f Q (.ok a) c ↔ L.Safe b r (f a) Q c :=
  Iff.rfl

@[simp] theorem catch_ok (h : ε → Coro σ Op Reply ε β) (a : β) :
    Catch L b r h Q (.ok a) c ↔ Q (.ok a) c :=
  Iff.rfl

@[simp] theorem catch_error (h : ε → Coro σ Op Reply ε β) (e : ε) :
    Catch L b r h Q (.error e) c ↔ L.Safe b r (h e) Q c :=
  Iff.rfl

/-- **Sequencing.** -/
theorem Safe.bind_iff {γ : Type} {p : Coro σ Op Reply ε β} {f : β → Coro σ Op Reply ε γ}
    {Q : Except ε γ → Ctx σ Op Reply ε Γ → Prop} :
    L.Safe b r (p.bind f) Q c ↔ L.Safe b r p (Then L b r f Q) c := by
  induction p generalizing c with
  | pure | raise => exact Iff.rfl
  | read k ih => exact ih c.now
  | write g k ih => exact ih
  | await op k ih =>
    refine exists_congr fun g => and_congr_right fun _ => ?_
    exact forall_congr' fun s => forall_congr' fun frame => forall_congr' fun out =>
      imp_congr_right fun _ => imp_congr_right fun _ => imp_congr_right fun _ => ih _

/-- **Exceptions.** -/
theorem Safe.tryCatch_iff {p : Coro σ Op Reply ε β} {h : ε → Coro σ Op Reply ε β} :
    L.Safe b r (p.tryCatch h) Q c ↔ L.Safe b r p (Catch L b r h Q) c := by
  induction p generalizing c with
  | pure | raise => exact Iff.rfl
  | read k ih => exact ih c.now
  | write g k ih => exact ih
  | await op k ih =>
    refine exists_congr fun g => and_congr_right fun _ => ?_
    exact forall_congr' fun s => forall_congr' fun frame => forall_congr' fun out =>
      imp_congr_right fun _ => imp_congr_right fun _ => imp_congr_right fun _ => ih _

theorem Safe.call {op : Op} {Q : Except ε (Reply op) → Ctx σ Op Reply ε Γ → Prop} (g : Γ)
    (hy : L.Yield r c (some op) g)
    (h : ∀ s frame out, L.rel g c.now s → L.inv s (g + frame) →
      L.allowed r c.close (some op) out s frame →
      Q (b.answer op out s).1
        ⟨c.close, some ⟨op, (b.answer op out s).1⟩, s, frame, (b.answer op out s).2⟩) :
    L.Safe b r (Coro.call op) Q c := by
  refine ⟨g, hy, fun s frame out hr hi ha => ?_⟩
  have hq := h s frame out hr hi ha
  revert hq
  generalize b.answer op out s = ans
  obtain ⟨reply, s'⟩ := ans
  cases reply <;> exact id

@[simp] theorem safe_update {f : σ → β × σ} :
    L.Safe b r (Coro.update f) Q c ↔ Q (.ok (f c.now).1) { c with now := (f c.now).2 } :=
  Iff.rfl

@[simp] theorem safe_get {Q : Except ε σ → Ctx σ Op Reply ε Γ → Prop} :
    L.Safe b r Coro.get Q c ↔ Q (.ok c.now) c :=
  Iff.rfl

@[simp] theorem safe_modify {f : σ → σ} {Q : Except ε Unit → Ctx σ Op Reply ε Γ → Prop} :
    L.Safe b r (Coro.modify f) Q c ↔ Q (.ok ()) { c with now := f c.now } :=
  Iff.rfl

@[simp] theorem safe_ofExcept {x : Except ε β} :
    L.Safe b r (Coro.ofExcept x) Q c ↔ Q x c := by
  cases x <;> exact Iff.rfl

/-- **A quiet block.** If `K` holds of the context, lets every segment of the block end owning
`g`, and survives every write and every awaited operation of the block, then it holds at the
block's end. -/
theorem Safe.of_quiet {E : Op → Prop} {W : σ → σ → Prop} {K : Ctx σ Op Reply ε Γ → Prop} (g : Γ)
    {p : Coro σ Op Reply ε β} (hp : p.Quiet E W c.now)
    (hwrite : ∀ c s, K c → W c.now s → K { c with now := s })
    (hyield : ∀ c op, K c → E op → L.Yield r c (some op) g)
    (hstep : ∀ c op s frame out, K c → E op → L.rel g c.now s → L.inv s (g + frame) →
      L.allowed r c.close (some op) out s frame →
      K ⟨c.close, some ⟨op, (b.answer op out s).1⟩, s, frame, (b.answer op out s).2⟩)
    (hpost : ∀ res c, K c → Q res c) (hK : K c) : L.Safe b r p Q c := by
  induction p generalizing c with
  | pure | raise => exact hpost _ _ hK
  | read k ih => exact ih c.now hp hK
  | write f k ih => exact ih hp.2 (hwrite c _ hK hp.1)
  | await op k ih =>
    refine ⟨g, hyield c op hK hp.1, fun s frame out hr hi ha => ?_⟩
    exact ih _ (hp.2 _ _) (hstep c op s frame out hK hp.1 hr hi ha)

theorem Safe.forEach {ι : Type} {Q : Except ε Unit → Ctx σ Op Reply ε Γ → Prop}
    (K : List ι → Ctx σ Op Reply ε Γ → Prop) {body : ι → Coro σ Op Reply ε Unit}
    (hbody : ∀ a l c, K (a :: l) c →
      L.Safe b r (body a) (fun res c => match res with
        | .ok _ => K l c
        | .error e => Q (.error e) c) c)
    (hpost : ∀ c, K [] c → Q (.ok ()) c) {l : List ι} (hK : K l c) :
    L.Safe b r (Coro.forEach l body) Q c := by
  induction l generalizing c with
  | nil => exact hpost c hK
  | cons a l ih =>
    refine Safe.bind_iff.mpr (Safe.mono ?_ (hbody a l c hK))
    intro res c' h
    cases res with
    | ok u => exact ih h
    | error e => exact h

end Rules

/-- **The trace only grows.** -/
theorem Safe.extends {p : Coro σ Op Reply ε β} {Q : Except ε β → Ctx σ Op Reply ε Γ → Prop}
    {c : Ctx σ Op Reply ε Γ} (h : L.Safe b r p Q c) :
    L.Safe b r p (fun res c' => Q res c' ∧ c.trace <+: c'.trace) c := by
  induction p generalizing c with
  | pure | raise => exact ⟨h, prefix_refl _⟩
  | read k ih => exact ih c.now h
  | write f k ih => exact ih h
  | await op k ih =>
    obtain ⟨g, hy, hk⟩ := h
    refine ⟨g, hy, fun s frame out hr hi ha => ?_⟩
    exact Safe.mono (fun _ _ hQ => ⟨hQ.1, (prefix_append _ _).trans hQ.2⟩)
      (ih _ (hk s frame out hr hi ha))

/-! ### From one coroutine to all of them -/

/-- What a task owes while it is not running: suspended it goes on safely from any state its rely
allows, and finished it has met its postcondition. -/
structure Live (L : Logic σ Op Reply ε α Req Γ) (b : Backend σ Op Reply ε)
    (t : Task σ Op Reply ε α Req) (g : Γ) (s : σ) : Prop where
  link : L.link t.req t.trace t.pending g
  resume : ∀ s₁ frame out answer s₂ p, L.rel g s s₁ → L.inv s₁ (g + frame) →
    t.proc.begin b out s₁ = some (answer, s₂, p) → L.allowed t.req t.trace t.pending out s₁ frame →
    L.Safe b t.req p (L.Final t.req) ⟨t.trace, answer, s₁, frame, s₂⟩
  done : ∀ res, t.result = some res → L.done t.req res t.trace

theorem Live.rely {t : Task σ Op Reply ε α Req} {g : Γ} {s s' : σ} (h : Live L b t g s)
    (hr : L.rel g s s') : Live L b t g s' where
  link := h.link
  resume s₁ frame out answer s₂ p hr' := h.resume s₁ frame out answer s₂ p (L.rel_trans hr hr')
  done := h.done

/-- The step lemma: a safe segment settles into a live task. -/
theorem Safe.settle {p : Coro σ Op Reply ε α} {c : Ctx σ Op Reply ε Γ}
    (h : L.Safe b r p (L.Final r) c) :
    ∃ g, L.inv (p.settle c.now).1 (g + c.frame) ∧ L.rel c.frame c.start (p.settle c.now).1 ∧
      Live L b ⟨r, c.trace ++ [⟨c.answer, c.start, (p.settle c.now).1⟩], (p.settle c.now).2⟩ g
        (p.settle c.now).1 := by
  induction p generalizing c with
  | pure a =>
    obtain ⟨⟨g, hy⟩, hd⟩ := h
    refine ⟨g, hy.inv, hy.rel, hy.link, fun _ _ _ _ _ _ _ _ hb => (by cases hb), ?_⟩
    intro res hres
    cases hres
    exact hd
  | raise e =>
    obtain ⟨⟨g, hy⟩, hd⟩ := h
    refine ⟨g, hy.inv, hy.rel, hy.link, fun _ _ _ _ _ _ _ _ hb => (by cases hb), ?_⟩
    intro res hres
    cases hres
    exact hd
  | read k ih => exact ih c.now h
  | write f k ih => exact ih h
  | await op k ih =>
    obtain ⟨g, hy, hk⟩ := h
    refine ⟨g, hy.inv, hy.rel, hy.link, ?_, fun res hres => (by cases hres)⟩
    intro s₁ frame out answer s₂ p hr hi hb ha
    cases hb
    exact hk s₁ frame out hr hi ha

/-- A handler is safe if it is safe from every state with the invariant. -/
def SafeHandler (L : Logic σ Op Reply ε α Req Γ) (b : Backend σ Op Reply ε) (r : Req)
    (p : Coro σ Op Reply ε α) : Prop :=
  L.link r [] none 0 ∧
    ∀ s frame, L.inv s (0 + frame) → L.Safe b r p (L.Final r) ⟨[], none, s, frame, s⟩

theorem SafeHandler.live {P : Program σ Op Reply ε α Req Env}
    (h : SafeHandler L P.toBackend r (P.handler r)) (s : σ) :
    Live L P.toBackend (Task.spawn P r) 0 s := by
  refine ⟨h.1, ?_, fun res hr => (by cases hr)⟩
  intro s₁ frame out answer s₂ q _ hi hb _
  cases hb
  exact h.2 s₁ frame hi

/-- Every task is live with a resource of its own, and the resources fit the state. -/
def Good (L : Logic σ Op Reply ε α Req Γ) (b : Backend σ Op Reply ε)
    (s : Sys σ Op Reply ε α Req) : Prop :=
  ∃ gs, List.Forall₂ (fun t g => Live L b t g s.world) s.tasks gs ∧ L.inv s.world gs.sum

/-- What a condition on runs has to give for the logic to apply. -/
structure Admits (L : Logic σ Op Reply ε α Req Γ) (P : Program σ Op Reply ε α Req Env)
    (C : Sys σ Op Reply ε α Req → Label Req Env → Prop) : Prop where
  spawn : ∀ s req, C s (.spawn req) → SafeHandler L P.toBackend req (P.handler req)
  env : ∀ s e g, C s (.env e) → L.inv s.world g →
    L.inv (P.tick e s.world) g ∧ L.rel g s.world (P.tick e s.world)
  /-- A resumed task takes an allowed step, whatever linked resources the others own. -/
  resume : ∀ s out l₁ t l₂ gs₁ gs₂, C s (.resume l₁.length out) → s.tasks = l₁ ++ t :: l₂ →
    List.Forall₂ (fun t g => L.link t.req t.trace t.pending g) l₁ gs₁ →
    List.Forall₂ (fun t g => L.link t.req t.trace t.pending g) l₂ gs₂ →
    L.allowed t.req t.trace t.pending out s.world (gs₁.sum + gs₂.sum)

private theorem exists_split {ι : Type} {l : List ι} {i : ℕ} {a : ι} (h : l[i]? = some a) :
    ∃ l₁ l₂, l = l₁ ++ a :: l₂ ∧ l₁.length = i := by
  obtain ⟨hi, rfl⟩ := List.getElem?_eq_some_iff.mp h
  refine ⟨l.take i, l.drop (i + 1), ?_, by simp; omega⟩
  rw [List.cons_getElem_drop_succ, List.take_append_drop]

private theorem forall₂_split {ι κ : Type} {R : ι → κ → Prop} {l₁ l₂ : List ι} {a : ι}
    {gs : List κ} (h : List.Forall₂ R (l₁ ++ a :: l₂) gs) :
    ∃ gs₁ g gs₂, gs = gs₁ ++ g :: gs₂ ∧ List.Forall₂ R l₁ gs₁ ∧ R a g ∧ List.Forall₂ R l₂ gs₂ := by
  induction l₁ generalizing gs with
  | nil =>
    cases h with
    | cons hag htl => exact ⟨[], _, _, rfl, .nil, hag, htl⟩
  | cons x l₁ ih =>
    cases h with
    | cons hxg htl =>
      obtain ⟨gs₁, g, gs₂, rfl, h₁, hg, h₂⟩ := ih htl
      exact ⟨_ :: gs₁, g, gs₂, rfl, .cons hxg h₁, hg, h₂⟩

private theorem Live.rely_all {l : List (Task σ Op Reply ε α Req)} {gs : List Γ} {s s' : σ} {h : Γ}
    (hl : List.Forall₂ (fun t g => Live L b t g s) l gs) (hr : L.rel (gs.sum + h) s s') :
    List.Forall₂ (fun t g => Live L b t g s') l gs := by
  induction hl generalizing h with
  | nil => exact .nil
  | @cons t g l gs ht hl ih =>
    rw [sum_cons] at hr
    refine .cons (ht.rely (L.rel_weaken (h := gs.sum + h) ?_)) (ih (h := g + h) ?_)
    · rwa [← add_assoc]
    · rwa [← add_assoc, add_comm gs.sum]

variable {P : Program σ Op Reply ε α Req Env} {C : Sys σ Op Reply ε α Req → Label Req Env → Prop}
  {s s' : Sys σ Op Reply ε α Req}

/-- **The step lemma for systems.** -/
theorem Good.step {l : Label Req Env} (hA : Admits L P C) (h : Good L P.toBackend s) (hC : C s l)
    (hs : Coop.step P s l = some s') : Good L P.toBackend s' ∧ L.rel 0 s.world s'.world := by
  obtain ⟨gs, hlive, hinv⟩ := h
  cases l with
  | spawn req =>
    obtain ⟨hw, ht⟩ := step_spawn hs
    refine ⟨⟨gs ++ [0], ?_, by simpa [hw] using hinv⟩, hw ▸ L.rel_refl _ _⟩
    rw [ht, hw]
    exact rel_append hlive (.cons ((hA.spawn s req hC).live s.world) .nil)
  | env e =>
    obtain ⟨hw, ht⟩ := step_env hs
    obtain ⟨hi, hr⟩ := hA.env s e gs.sum hC hinv
    refine ⟨⟨gs, ?_, hw ▸ hi⟩, hw ▸ L.rel_weaken (h := gs.sum) (by rwa [zero_add])⟩
    rw [ht, hw]
    exact Live.rely_all (h := 0) hlive (by rwa [add_zero])
  | resume i out =>
    obtain ⟨t, answer, w, p, hti, hb, hw, ht⟩ := step_resume hs
    obtain ⟨l₁, l₂, htasks, rfl⟩ := exists_split hti
    rw [htasks] at hlive
    obtain ⟨gs₁, g, gs₂, rfl, hl₁, hg, hl₂⟩ := forall₂_split hlive
    have hsum : (gs₁ ++ g :: gs₂).sum = g + (gs₁.sum + gs₂.sum) := by
      rw [sum_append, sum_cons, add_left_comm]
    have hallowed := hA.resume s out l₁ t l₂ gs₁ gs₂ hC htasks (hl₁.imp fun _ _ h => h.link)
      (hl₂.imp fun _ _ h => h.link)
    obtain ⟨g', hi', hr', hlive'⟩ := (hg.resume s.world _ out answer w p (L.rel_refl _ _)
      (hsum ▸ hinv) hb hallowed).settle
    have hsum' : (gs₁ ++ g' :: gs₂).sum = g' + (gs₁.sum + gs₂.sum) := by
      rw [sum_append, sum_cons, add_left_comm]
    rw [← hw] at hi' hr' hlive'
    refine ⟨⟨gs₁ ++ g' :: gs₂, ?_, hsum' ▸ hi'⟩, L.rel_weaken (h := gs₁.sum + gs₂.sum) ?_⟩
    · rw [ht, htasks, set_append_right _ _ (Nat.le_refl _), Nat.sub_self, set_cons_zero]
      refine rel_append (Live.rely_all (h := gs₂.sum) hl₁ hr') (.cons ?_ ?_)
      · rw [← hw]
        exact hlive'
      · exact Live.rely_all (h := gs₁.sum) hl₂ (by rwa [add_comm])
    · rwa [zero_add]

/-- **Safe handlers keep the invariant on every run.** -/
theorem sound (hA : Admits L P C) (h : Good L P.toBackend s) (hs : Steps P C s s') :
    Good L P.toBackend s' ∧ L.rel 0 s.world s'.world := by
  induction hs with
  | refl => exact ⟨h, L.rel_refl _ _⟩
  | tail _ hC hst ih =>
    obtain ⟨hg, hr⟩ := ih.1.step hA hC hst
    exact ⟨hg, L.rel_trans ih.2 hr⟩

/-- Every finished step respected no resource at all, and so did everything since. -/
def Past (L : Logic σ Op Reply ε α Req Γ) (s : Sys σ Op Reply ε α Req) : Prop :=
  ∀ t ∈ s.tasks, ∀ e ∈ t.trace, L.rel 0 e.before e.after ∧ L.rel 0 e.after s.world

/-- **The finished steps of a run lie in its past.** -/
theorem sound_past (hA : Admits L P C) (h : Good L P.toBackend s) (hp : Past L s)
    (hs : Steps P C s s') : Past L s' := by
  induction hs with
  | refl => exact hp
  | @tail s₁ s₂ l hrun hC hst ih =>
    have hr : L.rel 0 s₁.world s₂.world := ((sound hA h hrun).1.step hA hC hst).2
    have hold : ∀ t ∈ s₁.tasks, ∀ e ∈ t.trace, L.rel 0 e.before e.after ∧ L.rel 0 e.after s₂.world :=
      fun t ht e he => ⟨(ih t ht e he).1, L.rel_trans (ih t ht e he).2 hr⟩
    cases l with
    | spawn req =>
      intro t ht
      rw [(step_spawn hst).2, mem_append, mem_singleton] at ht
      rcases ht with ht | rfl
      · exact hold t ht
      · exact fun e he => (not_mem_nil he).elim
    | env e =>
      rw [Past, (step_env hst).2]
      exact hold
    | resume i out =>
      obtain ⟨t, answer, w, p, hti, -, hw, htasks⟩ := step_resume hst
      intro t' ht'
      rw [htasks] at ht'
      rcases mem_or_eq_of_mem_set ht' with hmem | rfl
      · exact hold t' hmem
      · intro e he
        rcases mem_append.mp he with he | he
        · exact hold t (mem_of_getElem? hti) e he
        · rw [mem_singleton] at he
          subst he
          rw [hw] at hr ⊢
          exact ⟨hr, L.rel_refl _ _⟩

theorem Good.init {w : σ} (h : L.inv w 0) : Good L b ⟨w, []⟩ :=
  ⟨[], .nil, h⟩

/-- A good system in which every finished task owns nothing meets the invariant for the resources
of the tasks in progress; with none in progress, for no resource at all. -/
theorem Good.quiescent (h : Good L b s) (hfin : ∀ t ∈ s.tasks, t.result.isSome)
    (hzero : ∀ t ∈ s.tasks, ∀ g, t.result.isSome → L.link t.req t.trace t.pending g → g = 0) :
    L.inv s.world 0 := by
  obtain ⟨gs, hlive, hinv⟩ := h
  have hsum : gs.sum = 0 := by
    clear hinv
    generalize s.tasks = ts at hlive hfin hzero
    induction hlive with
    | nil => rfl
    | @cons t g ts gs ht _ ih =>
      have hg : g = 0 := hzero t mem_cons_self g (hfin t mem_cons_self) ht.link
      rw [sum_cons, hg, zero_add]
      exact ih (fun t' h' => hfin t' (mem_cons_of_mem _ h'))
        fun t' h' => hzero t' (mem_cons_of_mem _ h')
  rwa [hsum] at hinv

theorem Good.done (h : Good L b s) {t : Task σ Op Reply ε α Req} (ht : t ∈ s.tasks)
    {res : Except ε α} (hres : t.result = some res) : L.done t.req res t.trace := by
  obtain ⟨gs, hlive, -⟩ := h
  generalize s.tasks = ts at hlive ht
  induction hlive with
  | nil => cases ht
  | @cons t' g ts gs ht' _ ih =>
    rcases mem_cons.mp ht with rfl | hmem
    · exact ht'.done res hres
    · exact ih hmem

theorem Good.link (h : Good L b s) {t : Task σ Op Reply ε α Req} (ht : t ∈ s.tasks) :
    ∃ g, L.link t.req t.trace t.pending g := by
  obtain ⟨gs, hlive, -⟩ := h
  generalize s.tasks = ts at hlive ht
  induction hlive with
  | nil => cases ht
  | @cons t' g ts gs ht' _ ih =>
    rcases mem_cons.mp ht with rfl | hmem
    · exact ⟨g, ht'.link⟩
    · exact ih hmem

end Logic

end Coop
