import AfterFlow.Coop.Logic

/-!
# What every operation keeps

An invariant of the shared state needs no proof about single tasks if every operation that any
coroutine can ever await keeps it. `Coro.Awaits` collects what is known of these operations from the
text of the coroutine and from the replies it may get.

## Main results

* `Steps.keeps` — what all operations and writes keep holds in every state of a run
* `Steps.holds_on_return` — what holds when a call returns
* `Logic.Safe.of_awaits` — a block of operations inside a proof about one task
-/

namespace Coop

open List

variable {σ Op : Type} {Reply : Op → Type} {ε α β Req Env : Type}

namespace Coro

/-- From state `s`, as long as the replies are as `A` says, the coroutine awaits only operations in
`E` and writes only in the ways of `W`. -/
def Awaits (E : Op → Prop) (A : (op : Op) → Except ε (Reply op) → Prop) (W : σ → σ → Prop) :
    Coro σ Op Reply ε α → σ → Prop
  | .pure _, _ => True
  | .raise _, _ => True
  | .read k, s => (k s).Awaits E A W s
  | .write f k, s => W s (f s) ∧ k.Awaits E A W (f s)
  | .await op k, _ => E op ∧ ∀ r s, A op r → (k r).Awaits E A W s

variable {E : Op → Prop} {A : (op : Op) → Except ε (Reply op) → Prop} {W : σ → σ → Prop} {s : σ}

theorem Awaits.mono {E' : Op → Prop} {p : Coro σ Op Reply ε α} (hp : p.Awaits E A W s)
    (h : ∀ op, E op → E' op) : p.Awaits E' A W s := by
  induction p generalizing s with
  | pure | raise => trivial
  | read k ih => exact ih s hp
  | write g k ih => exact ⟨hp.1, ih hp.2⟩
  | await op k ih => exact ⟨h op hp.1, fun r s hr => ih r (hp.2 r s hr)⟩

theorem Awaits.bind {p : Coro σ Op Reply ε α} {f : α → Coro σ Op Reply ε β}
    (hp : p.Awaits E A W s) (hf : ∀ a s, (f a).Awaits E A W s) : (p.bind f).Awaits E A W s := by
  induction p generalizing s with
  | pure a => exact hf a s
  | raise e => trivial
  | read k ih => exact ih s hp
  | write g k ih => exact ⟨hp.1, ih hp.2⟩
  | await op k ih => exact ⟨hp.1, fun r s hr => ih r (hp.2 r s hr)⟩

theorem Awaits.tryCatch {p : Coro σ Op Reply ε α} {h : ε → Coro σ Op Reply ε α}
    (hp : p.Awaits E A W s) (hh : ∀ e s, (h e).Awaits E A W s) :
    (p.tryCatch h).Awaits E A W s := by
  induction p generalizing s with
  | pure a => trivial
  | raise e => exact hh e s
  | read k ih => exact ih s hp
  | write g k ih => exact ⟨hp.1, ih hp.2⟩
  | await op k ih => exact ⟨hp.1, fun r s hr => ih r (hp.2 r s hr)⟩

theorem Awaits.call_bind {op : Op} {f : Reply op → Coro σ Op Reply ε β} (h : E op)
    (hf : ∀ a s, A op (.ok a) → (f a).Awaits E A W s) :
    ((call op : Coro σ Op Reply ε (Reply op)).bind f).Awaits E A W s := by
  refine ⟨h, fun r s hr => ?_⟩
  cases r with
  | ok a => exact hf a s hr
  | error e => trivial

theorem Awaits.call {op : Op} (h : E op) :
    (call op : Coro σ Op Reply ε (Reply op)).Awaits E A W s := by
  refine ⟨h, fun r s _ => ?_⟩
  cases r <;> trivial

theorem Awaits.ofExcept_bind {x : Except ε α} {f : α → Coro σ Op Reply ε β}
    (hf : ∀ a, x = .ok a → (f a).Awaits E A W s) : ((ofExcept x).bind f).Awaits E A W s := by
  cases x with
  | ok a => exact hf a rfl
  | error e => trivial

theorem Awaits.forEach {ι : Type} {l : List ι} {body : ι → Coro σ Op Reply ε Unit}
    (h : ∀ a ∈ l, ∀ s, (body a).Awaits E A W s) : (forEach l body).Awaits E A W s := by
  induction l generalizing s with
  | nil => trivial
  | cons a l ih =>
    exact (h a mem_cons_self s).bind fun _ _ => ih fun b hb => h b (mem_cons_of_mem _ hb)

theorem Awaits.settle {p : Coro σ Op Reply ε α} {I : σ → Prop} (hp : p.Awaits E A W s)
    (hW : ∀ s s', W s s' → I s → I s') (hs : I s) :
    I (p.settle s).1 ∧ ∀ s', (p.settle s).2.Awaits E A W s' := by
  induction p generalizing s with
  | pure | raise => exact ⟨hs, fun _ => trivial⟩
  | read k ih => exact ih s hp hs
  | write f k ih => exact ih hp.2 (hW _ _ hp.1 hs)
  | await op k ih => exact ⟨hs, fun _ => hp⟩

/-! ### How a coroutine returns -/

/-- From state `s`, the coroutine returns only where `last` holds, or right after an operation whose
reply is as `R` says. -/
def EndsAfter (R : (op : Op) → Except ε (Reply op) → Prop) :
    Prop → Coro σ Op Reply ε α → σ → Prop
  | last, .pure _, _ => last
  | _, .raise _, _ => True
  | last, .read k, s => (k s).EndsAfter R last s
  | last, .write f k, s => k.EndsAfter R last (f s)
  | _, .await op k, _ => ∀ r s, (k r).EndsAfter R (R op r) s

variable {R : (op : Op) → Except ε (Reply op) → Prop} {last : Prop}

theorem EndsAfter.settle {p : Coro σ Op Reply ε α} (h : EndsAfter R last p s) :
    (∀ a, (p.settle s).2 = .pure a → last) ∧
      ((p.settle s).2.result = none → ∀ last' s', EndsAfter R last' (p.settle s).2 s') := by
  induction p generalizing s with
  | pure a => exact ⟨fun _ _ => h, fun hnone => (by cases hnone)⟩
  | raise e => exact ⟨fun _ hpure => (by cases hpure), fun hnone => (by cases hnone)⟩
  | read k ih => exact ih s h
  | write f k ih => exact ih h
  | await op k ih => exact ⟨fun _ hpure => (by cases hpure), fun _ _ _ => h⟩

end Coro

namespace Steps

variable {E : Op → Prop} {A : (op : Op) → Except ε (Reply op) → Prop} {W : σ → σ → Prop}
  {I : σ → Prop} {P : Program σ Op Reply ε α Req Env}
  {C : Sys σ Op Reply ε α Req → Label Req Env → Prop} {s s' : Sys σ Op Reply ε α Req}

/-- Every task awaits what the handlers await. -/
def AllAwait (E : Op → Prop) (A : (op : Op) → Except ε (Reply op) → Prop) (W : σ → σ → Prop)
    (s : Sys σ Op Reply ε α Req) : Prop :=
  ∀ t ∈ s.tasks, ∀ w, t.proc.Awaits E A W w

/-- **One step.** -/
theorem keeps_step (hanswers : ∀ op out s, I s → A op (P.toBackend.answer op out s).1)
    (hspawn : ∀ s req, C s (.spawn req) → ∀ w, (P.handler req).Awaits E A W w)
    (henv : ∀ s e, C s (.env e) → I s.world → I (P.tick e s.world))
    (hop : ∀ s i out t op, C s (.resume i out) → s.tasks[i]? = some t → t.pending = some op →
      E op → I s.world → I (P.toBackend.answer op out s.world).2)
    (hW : ∀ s s', W s s' → I s → I s') {l : Label Req Env} (hC : C s l)
    (hstep : Coop.step P s l = some s') (h : I s.world ∧ AllAwait E A W s) :
    I s'.world ∧ AllAwait E A W s' := by
  obtain ⟨hs, hall⟩ := h
  cases l with
  | spawn req =>
    obtain ⟨hw, htasks⟩ := step_spawn hstep
    refine ⟨hw ▸ hs, fun t ht => ?_⟩
    rw [htasks, mem_append, mem_singleton] at ht
    rcases ht with ht | rfl
    · exact hall t ht
    · exact fun w => hspawn s req hC w
  | env e =>
    obtain ⟨hw, htasks⟩ := step_env hstep
    exact ⟨hw ▸ henv s e hC hs, fun t ht => hall t (htasks ▸ ht)⟩
  | resume i out =>
    obtain ⟨t, answer, w, p, ht, hbegin, hw, htasks⟩ := step_resume hstep
    have hproc := hall t (mem_of_getElem? ht)
    have hp : I w ∧ p.Awaits E A W w := by
      cases hcase : t.proc with
      | pure a =>
        rw [hcase] at hbegin
        cases hbegin
      | raise e =>
        rw [hcase] at hbegin
        cases hbegin
      | read k =>
        rw [hcase] at hbegin hproc
        cases hbegin
        exact ⟨hs, hproc _⟩
      | write f k =>
        rw [hcase] at hbegin hproc
        cases hbegin
        exact ⟨hs, hproc _⟩
      | await op k =>
        have hpending : t.pending = some op := by rw [Task.pending, hcase]; rfl
        rw [hcase] at hbegin hproc
        cases hbegin
        exact ⟨hop s i out t op hC ht hpending (hproc s.world).1 hs,
          (hproc s.world).2 _ _ (hanswers op out s.world hs)⟩
    obtain ⟨hI, hsettled⟩ := hp.2.settle hW hp.1
    refine ⟨hw ▸ hI, fun t' ht' => ?_⟩
    rw [htasks] at ht'
    rcases mem_or_eq_of_mem_set ht' with hmem | rfl
    · exact hall t' hmem
    · exact hsettled

/-- **What all operations and writes keep holds in every state of a run.** -/
theorem keeps (hanswers : ∀ op out s, I s → A op (P.toBackend.answer op out s).1)
    (hspawn : ∀ s req, C s (.spawn req) → ∀ w, (P.handler req).Awaits E A W w)
    (henv : ∀ s e, C s (.env e) → I s.world → I (P.tick e s.world))
    (hop : ∀ s i out t op, C s (.resume i out) → s.tasks[i]? = some t → t.pending = some op →
      E op → I s.world → I (P.toBackend.answer op out s.world).2)
    (hW : ∀ s s', W s s' → I s → I s') (hs : I s.world ∧ AllAwait E A W s) (h : Steps P C s s') :
    I s'.world ∧ AllAwait E A W s' := by
  induction h with
  | refl => exact hs
  | tail _ hC hstep ih => exact keeps_step hanswers hspawn henv hop hW hC hstep ih

/-! ### What holds when a call returns -/

variable {R : (op : Op) → Except ε (Reply op) → Prop} {subject : Req → Prop}

/-- The unfinished calls of a kind return as their handlers do. -/
def AllEnd (R : (op : Op) → Except ε (Reply op) → Prop) (subject : Req → Prop)
    (s : Sys σ Op Reply ε α Req) : Prop :=
  ∀ t ∈ s.tasks, subject t.req → t.result = none → ∀ w, t.proc.EndsAfter R False w

/-- A step of an unfinished call: the segment that it runs returns after what was awaited. -/
theorem AllEnd.begin (h : AllEnd R subject s) {i : ℕ} {out : Outcome}
    {t : Task σ Op Reply ε α Req} (ht : s.tasks[i]? = some t) (hsub : subject t.req)
    {answer : Option (Answer Op Reply ε)} {w : σ} {p : Coro σ Op Reply ε α}
    (hbegin : t.proc.begin P.toBackend out s.world = some (answer, w, p)) :
    (p.EndsAfter R False w) ∨
      ∃ op, t.pending = some op ∧ w = (P.toBackend.answer op out s.world).2 ∧
        p.EndsAfter R (R op (P.toBackend.answer op out s.world).1) w := by
  have hproc := h t (mem_of_getElem? ht) hsub
  rw [Task.result] at hproc
  rw [Task.pending]
  cases hcase : t.proc with
  | pure a =>
    rw [hcase] at hbegin
    cases hbegin
  | raise e =>
    rw [hcase] at hbegin
    cases hbegin
  | read k =>
    rw [hcase] at hbegin hproc
    cases hbegin
    exact .inl (hproc rfl _)
  | write f k =>
    rw [hcase] at hbegin hproc
    cases hbegin
    exact .inl (hproc rfl _)
  | await op k =>
    rw [hcase] at hbegin hproc
    cases hbegin
    exact .inr ⟨op, rfl, rfl, hproc rfl s.world _ _⟩

theorem allEnd (hends : ∀ req, subject req → ∀ w, (P.handler req).EndsAfter R False w)
    (h : Steps P C s s') (hs : AllEnd R subject s) : AllEnd R subject s' := by
  induction h with
  | refl => exact hs
  | @tail s₁ s₂ l _ _ hstep ih =>
    cases l with
    | spawn req =>
      intro t ht
      rw [(step_spawn hstep).2, mem_append, mem_singleton] at ht
      rcases ht with ht | rfl
      · exact ih t ht
      · exact fun hsub _ w => hends req hsub w
    | env e =>
      rw [AllEnd, (step_env hstep).2]
      exact ih
    | resume i out =>
      obtain ⟨t, answer, w, p, ht, hbegin, -, htasks⟩ := step_resume hstep
      intro t' ht' hsub hnone
      rw [htasks] at ht'
      rcases mem_or_eq_of_mem_set ht' with hmem | rfl
      · exact ih t' hmem hsub hnone
      · obtain hp | ⟨op, -, -, hp⟩ := ih.begin ht hsub hbegin
        · exact fun w' => hp.settle.2 hnone False w'
        · exact fun w' => hp.settle.2 hnone False w'

/-- **What holds when a call returns.** If a call returns only after an operation that makes `I`
hold, then `I` holds after the step in which it returns. -/
theorem holds_on_return (hs : AllEnd R subject s) (hall : AllAwait E A W s)
    (hanswers : ∀ op out, A op (P.toBackend.answer op out s.world).1)
    (hW : ∀ s s', W s s' → I s → I s') {i : ℕ} {out : Outcome}
    (hR : ∀ op, s.tasks[i]?.bind Task.pending = some op →
      R op (P.toBackend.answer op out s.world).1 → I (P.toBackend.answer op out s.world).2)
    (hstep : Coop.step P s (.resume i out) = some s')
    {t : Task σ Op Reply ε α Req} (ht : s'.tasks[i]? = some t) (hsub : subject t.req) {a : α}
    (hresult : t.result = some (.ok a)) : I s'.world := by
  obtain ⟨t₀, answer, w, p, ht₀, hbegin, hw, htasks⟩ := step_resume hstep
  have hlt : i < s.tasks.length := (List.getElem?_eq_some_iff.mp ht₀).1
  rw [htasks, List.getElem?_set_self hlt, Option.some.injEq] at ht
  subst ht
  have hpure : (p.settle w).2 = .pure a := by
    have hres : (p.settle w).2.result = some (.ok a) := hresult
    cases hq : (p.settle w).2 with
    | pure b =>
      rw [hq] at hres
      cases hres
      rfl
    | _ =>
      rw [hq] at hres
      cases hres
  obtain hp | ⟨op, hop, rfl, hp⟩ := hs.begin ht₀ hsub hbegin
  · exact (hp.settle.1 a hpure).elim
  · have hI := hR op (by rw [ht₀]; exact hop) (hp.settle.1 a hpure)
    have hawaits : p.Awaits E A W (P.toBackend.answer op out s.world).2 := by
      have hproc := hall t₀ (mem_of_getElem? ht₀) s.world
      rw [Task.pending] at hop
      cases hcase : t₀.proc with
      | await op' k =>
        rw [hcase] at hop hbegin hproc
        cases hop
        cases hbegin
        exact hproc.2 _ _ (hanswers op out)
      | _ =>
        rw [hcase] at hop
        cases hop
    rw [hw]
    exact (hawaits.settle hW hI).1

end Steps

/-! ### Inside a proof about one task -/

namespace Logic

variable {Γ : Type} [AddCommMonoid Γ] {L : Logic σ Op Reply ε α Req Γ} {b : Backend σ Op Reply ε} {r : Req}

/-- **A block, by what it awaits.** Like `Safe.of_quiet`, with what is known of the replies. -/
theorem Safe.of_awaits {E : Op → Prop} {A : (op : Op) → Except ε (Reply op) → Prop}
    {W : σ → σ → Prop} {K : Ctx σ Op Reply ε Γ → Prop} (g : Γ) {p : Coro σ Op Reply ε β}
    {Q : Except ε β → Ctx σ Op Reply ε Γ → Prop} {c : Ctx σ Op Reply ε Γ}
    (hp : p.Awaits E A W c.now) (hwrite : ∀ c s, K c → W c.now s → K { c with now := s })
    (hyield : ∀ c op, K c → E op → L.Yield r c (some op) g)
    (hstep : ∀ c op s frame out, K c → E op → L.rel g c.now s → L.inv s (g + frame) →
      L.allowed r c.close (some op) out s frame → A op (b.answer op out s).1 ∧
        K ⟨c.close, some ⟨op, (b.answer op out s).1⟩, s, frame, (b.answer op out s).2⟩)
    (hpost : ∀ res c, K c → Q res c) (hK : K c) : L.Safe b r p Q c := by
  induction p generalizing c with
  | pure | raise => exact hpost _ _ hK
  | read k ih => exact ih c.now hp hK
  | write f k ih => exact ih hp.2 (hwrite c _ hK hp.1)
  | await op k ih =>
    refine ⟨g, hyield c op hK hp.1, fun s frame out hr hi ha => ?_⟩
    obtain ⟨hA, hK'⟩ := hstep c op s frame out hK hp.1 hr hi ha
    exact ih _ (hp.2 _ _ hA) hK'

end Logic

end Coop
