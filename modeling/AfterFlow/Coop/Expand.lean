import AfterFlow.Coop.Keeps

/-!
# Calls that are coroutines themselves

What a coroutine awaits may be a method that awaits in turn. `Coro.expand` puts the text of the
method in the place of each call, so that anything may happen between two awaits of the method too.
What is known of a coroutine by its calls carries over, if every method returns what is known of the
reply.

## Main results

* `Coro.expand_bind`, `Coro.expand_tryCatch` — expansion commutes with composition
* `Coro.Awaits.expand` — what the expanded coroutine awaits
-/

namespace Coop

variable {σ Op Op' : Type} {Reply : Op → Type} {Reply' : Op' → Type} {ε α β γ : Type}

namespace Coro

/-- Run a coroutine and go on from what came out, a value or an exception. -/
def andThen (p : Coro σ Op Reply ε α) (k : Except ε α → Coro σ Op Reply ε β) :
    Coro σ Op Reply ε β :=
  match p with
  | .pure a => k (.ok a)
  | .raise e => k (.error e)
  | .read f => .read fun s => (f s).andThen k
  | .write g p => .write g (p.andThen k)
  | .await op f => .await op fun r => (f r).andThen k

/-- The coroutine with the text of `method op` in the place of each call of `op`. -/
def expand (method : (op : Op) → Coro σ Op' Reply' ε (Reply op)) :
    Coro σ Op Reply ε α → Coro σ Op' Reply' ε α
  | .pure a => .pure a
  | .raise e => .raise e
  | .read k => .read fun s => (k s).expand method
  | .write f k => .write f (k.expand method)
  | .await op k => (method op).andThen fun r => (k r).expand method

theorem andThen_bind (p : Coro σ Op Reply ε α) (k : Except ε α → Coro σ Op Reply ε β)
    (f : β → Coro σ Op Reply ε γ) : (p.andThen k).bind f = p.andThen fun r => (k r).bind f := by
  induction p with
  | pure | raise => rfl
  | read g ih => exact congrArg Coro.read (funext ih)
  | write g p ih => exact congrArg (Coro.write g) ih
  | await op g ih => exact congrArg (Coro.await op) (funext ih)

theorem andThen_tryCatch (p : Coro σ Op Reply ε α) (k : Except ε α → Coro σ Op Reply ε β)
    (h : ε → Coro σ Op Reply ε β) :
    (p.andThen k).tryCatch h = p.andThen fun r => (k r).tryCatch h := by
  induction p with
  | pure | raise => rfl
  | read g ih => exact congrArg Coro.read (funext ih)
  | write g p ih => exact congrArg (Coro.write g) ih
  | await op g ih => exact congrArg (Coro.await op) (funext ih)

/-- Going on with a value or raising again changes nothing. -/
theorem andThen_return (p : Coro σ Op Reply ε α) :
    (p.andThen fun
      | .ok a => .pure a
      | .error e => .raise e) = p := by
  induction p with
  | pure | raise => rfl
  | read g ih => exact congrArg Coro.read (funext ih)
  | write g p ih => exact congrArg (Coro.write g) ih
  | await op g ih => exact congrArg (Coro.await op) (funext ih)

variable (method : (op : Op) → Coro σ Op' Reply' ε (Reply op))

@[simp] theorem expand_bind (p : Coro σ Op Reply ε α) (f : α → Coro σ Op Reply ε β) :
    (p.bind f).expand method = (p.expand method).bind fun a => (f a).expand method := by
  induction p with
  | pure | raise => rfl
  | read k ih => exact congrArg Coro.read (funext ih)
  | write g k ih => exact congrArg (Coro.write g) ih
  | await op k ih =>
    rw [expand, andThen_bind]
    exact congrArg (andThen (method op)) (funext ih)

@[simp] theorem expand_tryCatch (p : Coro σ Op Reply ε α) (h : ε → Coro σ Op Reply ε α) :
    (p.tryCatch h).expand method = (p.expand method).tryCatch fun e => (h e).expand method := by
  induction p with
  | pure | raise => rfl
  | read k ih => exact congrArg Coro.read (funext ih)
  | write g k ih => exact congrArg (Coro.write g) ih
  | await op k ih =>
    rw [expand, andThen_tryCatch]
    exact congrArg (andThen (method op)) (funext ih)

@[simp] theorem expand_call (op : Op) :
    (call op : Coro σ Op Reply ε (Reply op)).expand method = method op := by
  rw [call, expand]
  refine Eq.trans (congrArg (andThen (method op)) (funext fun r => ?_)) (andThen_return (method op))
  cases r <;> rfl

@[simp] theorem expand_forEach {ι : Type} (l : List ι) (body : ι → Coro σ Op Reply ε Unit) :
    (forEach l body).expand method = forEach l fun a => (body a).expand method := by
  induction l with
  | nil => rfl
  | cons a l ih =>
    rw [forEach, expand_bind, forEach]
    exact congrArg (Coro.bind _) (funext fun _ => ih)

@[simp] theorem expand_ite (c : Prop) [Decidable c] (p q : Coro σ Op Reply ε α) :
    (if c then p else q).expand method = if c then p.expand method else q.expand method := by
  split <;> rfl

/-! ### What is awaited -/

variable {method} {E : Op → Prop} {A : (op : Op) → Except ε (Reply op) → Prop}
  {E' : Op' → Prop} {A' : (op : Op') → Except ε (Reply' op) → Prop} {W : σ → σ → Prop} {s : σ}

/-- Like `Awaits`, and the coroutine ends as `Q` says. -/
def Returns (E : Op → Prop) (A : (op : Op) → Except ε (Reply op) → Prop) (W : σ → σ → Prop)
    (Q : Except ε α → Prop) : Coro σ Op Reply ε α → σ → Prop
  | .pure a, _ => Q (.ok a)
  | .raise e, _ => Q (.error e)
  | .read k, s => (k s).Returns E A W Q s
  | .write f k, s => W s (f s) ∧ k.Returns E A W Q (f s)
  | .await op k, _ => E op ∧ ∀ r s, A op r → (k r).Returns E A W Q s

theorem Returns.andThen {Q : Except ε α → Prop} {p : Coro σ Op Reply ε α}
    {k : Except ε α → Coro σ Op Reply ε β} (hp : p.Returns E A W Q s)
    (hk : ∀ r s, Q r → (k r).Awaits E A W s) : (p.andThen k).Awaits E A W s := by
  induction p generalizing s with
  | pure | raise => exact hk _ _ hp
  | read g ih => exact ih s hp
  | write g p ih => exact ⟨hp.1, ih hp.2⟩
  | await op g ih => exact ⟨hp.1, fun r s hr => ih r (hp.2 r s hr)⟩

/-- A call that is given on. -/
theorem Returns.call {op : Op} {Q : Except ε (Reply op) → Prop} (h : E op)
    (hQ : ∀ r, A op r → Q r) : (call op : Coro σ Op Reply ε (Reply op)).Returns E A W Q s := by
  refine ⟨h, fun r s hr => ?_⟩
  cases r <;> exact hQ _ hr

theorem Returns.call_bind {Q : Except ε β → Prop} {op : Op} {f : Reply op → Coro σ Op Reply ε β}
    (h : E op) (herror : ∀ e, Q (.error e)) (hf : ∀ a s, A op (.ok a) → (f a).Returns E A W Q s) :
    ((Coro.call op : Coro σ Op Reply ε (Reply op)).bind f).Returns E A W Q s := by
  refine ⟨h, fun r s hr => ?_⟩
  cases r with
  | ok a => exact hf a s hr
  | error e => exact herror e

/-- **What an expanded coroutine awaits.** -/
theorem Awaits.expand
    (hmethod : ∀ op s, E op → (method op).Returns E' A' W (A op) s)
    {p : Coro σ Op Reply ε α} (hp : p.Awaits E A W s) : (p.expand method).Awaits E' A' W s := by
  induction p generalizing s with
  | pure | raise => trivial
  | read k ih => exact ih s hp
  | write g k ih => exact ⟨hp.1, ih hp.2⟩
  | await op k ih => exact (hmethod op s hp.1).andThen fun r s hr => ih r (hp.2 r s hr)

end Coro

end Coop
