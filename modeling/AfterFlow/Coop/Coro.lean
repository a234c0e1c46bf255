import Mathlib.Data.List.Basic

/-!
# Coroutines over a shared state

A cooperative scheduler runs one coroutine at a time and switches only where a coroutine awaits.
Between two awaits a coroutine reads and writes the shared state freely and nobody can look in
between, so the unit of interleaving is the *segment*: everything from one await to the next.

`Coro` is that program text as a tree. `read` and `write` are the synchronous accesses of a
segment, `await` ends the segment with an operation of the outside world, and `raise` is an
exception, which a surrounding `tryCatch` may handle. The reply to an operation is an `Except`,
because an awaited operation may itself raise at the point where it was awaited.

## Main definitions

* `Coro` — a coroutine, with its monad structure and `tryCatch`
* `Coro.settle` — the synchronous rest of the current segment
* `Coro.Quiet` — a coroutine with harmless writes and operations only
* `Coro.zoom` — a coroutine over a part of the state, on the whole
-/

namespace Coop

/-- A coroutine over the shared state `σ` that awaits operations `op : Op` for a `Reply op`,
raises exceptions in `ε` and returns an `α`. -/
inductive Coro (σ Op : Type) (Reply : Op → Type) (ε α : Type) : Type where
  | pure (a : α)
  | raise (e : ε)
  | read (k : σ → Coro σ Op Reply ε α)
  | write (f : σ → σ) (k : Coro σ Op Reply ε α)
  | await (op : Op) (k : Except ε (Reply op) → Coro σ Op Reply ε α)

namespace Coro

variable {σ Op : Type} {Reply : Op → Type} {ε α β : Type}

/-- Sequencing: an exception skips the continuation. -/
def bind (p : Coro σ Op Reply ε α) (f : α → Coro σ Op Reply ε β) : Coro σ Op Reply ε β :=
  match p with
  | .pure a => f a
  | .raise e => .raise e
  | .read k => .read fun s => (k s).bind f
  | .write g k => .write g (k.bind f)
  | .await op k => .await op fun r => (k r).bind f

instance : Monad (Coro σ Op Reply ε) where
  pure := .pure
  bind := bind

@[simp] theorem pure_def (a : α) : (Pure.pure a : Coro σ Op Reply ε α) = .pure a := rfl

@[simp] theorem bind_def (p : Coro σ Op Reply ε α) (f : α → Coro σ Op Reply ε β) :
    p >>= f = p.bind f := rfl

/-- `try p except e: h e`. The handler covers `p` only, not what follows. -/
def tryCatch (p : Coro σ Op Reply ε α) (h : ε → Coro σ Op Reply ε α) : Coro σ Op Reply ε α :=
  match p with
  | .pure a => .pure a
  | .raise e => h e
  | .read k => .read fun s => (k s).tryCatch h
  | .write g k => .write g (k.tryCatch h)
  | .await op k => .await op fun r => (k r).tryCatch h

/-- Await one operation; its exception is raised here. -/
def call (op : Op) : Coro σ Op Reply ε (Reply op) :=
  .await op fun
    | .ok a => .pure a
    | .error e => .raise e

/-- The shared state as it is now. -/
def get : Coro σ Op Reply ε σ := .read .pure

/-- Write the shared state. -/
def modify (f : σ → σ) : Coro σ Op Reply ε Unit := .write f (.pure ())

/-- A synchronous call that returns a value and a new state. -/
def update (f : σ → α × σ) : Coro σ Op Reply ε α :=
  .read fun s => .write (fun _ => (f s).2) (.pure (f s).1)

/-- A value, or the exception in its place. -/
def ofExcept : Except ε α → Coro σ Op Reply ε α
  | .ok a => .pure a
  | .error e => .raise e

/-- `for a in l: body a`. -/
def forEach (l : List α) (body : α → Coro σ Op Reply ε Unit) : Coro σ Op Reply ε Unit :=
  match l with
  | [] => .pure ()
  | a :: l => (body a).bind fun _ => forEach l body

/-! ### Segments -/

/-- Run the synchronous rest of the current segment, up to the next await or the end. -/
def settle : Coro σ Op Reply ε α → σ → σ × Coro σ Op Reply ε α
  | .pure a, s => (s, .pure a)
  | .raise e, s => (s, .raise e)
  | .read k, s => (k s).settle s
  | .write f k, s => k.settle (f s)
  | .await op k, s => (s, .await op k)

/-- The operation a suspended coroutine waits for. -/
def pending : Coro σ Op Reply ε α → Option Op
  | .await op _ => some op
  | _ => none

/-- How a coroutine ended, once it has. -/
def result : Coro σ Op Reply ε α → Option (Except ε α)
  | .pure a => some (.ok a)
  | .raise e => some (.error e)
  | _ => none

/-! ### Quiet coroutines -/

/-- From state `s`, `p` writes only in the ways of `W` and awaits only operations in `E`. Reads of
a database and audit appends are of this kind, and `Safe.of_quiet` treats them as one block. -/
def Quiet (E : Op → Prop) (W : σ → σ → Prop) : Coro σ Op Reply ε α → σ → Prop
  | .pure _, _ => True
  | .raise _, _ => True
  | .read k, s => (k s).Quiet E W s
  | .write f k, s => W s (f s) ∧ k.Quiet E W (f s)
  | .await op k, _ => E op ∧ ∀ r s, (k r).Quiet E W s

section Quiet

variable {E F : Op → Prop} {W : σ → σ → Prop} {s : σ}

theorem Quiet.bind {p : Coro σ Op Reply ε α} {f : α → Coro σ Op Reply ε β}
    (hp : p.Quiet E W s) (hf : ∀ a s, (f a).Quiet E W s) : (p.bind f).Quiet E W s := by
  induction p generalizing s with
  | pure a => exact hf a s
  | raise e => trivial
  | read k ih => exact ih s hp
  | write g k ih => exact ⟨hp.1, ih hp.2⟩
  | await op k ih => exact ⟨hp.1, fun r s => ih r (hp.2 r s)⟩

theorem Quiet.tryCatch {p : Coro σ Op Reply ε α} {h : ε → Coro σ Op Reply ε α}
    (hp : p.Quiet E W s) (hh : ∀ e s, (h e).Quiet E W s) : (p.tryCatch h).Quiet E W s := by
  induction p generalizing s with
  | pure a => trivial
  | raise e => exact hh e s
  | read k ih => exact ih s hp
  | write g k ih => exact ⟨hp.1, ih hp.2⟩
  | await op k ih => exact ⟨hp.1, fun r s => ih r (hp.2 r s)⟩

theorem Quiet.call (op : Op) (h : E op) :
    (call op : Coro σ Op Reply ε (Reply op)).Quiet E W s := by
  refine ⟨h, fun r s => ?_⟩
  cases r <;> trivial

end Quiet

end Coro

end Coop

/-! ### Over a part of the state

What a coroutine does to a state it can also do to a part of a larger one. -/

namespace Coop.Coro

variable {σ τ Op : Type} {Reply : Op → Type} {ε α β : Type} (get : τ → σ) (set : σ → τ → τ)

/-- Run a coroutine on the part that `get` reads and `set` writes. -/
def zoom (p : Coro σ Op Reply ε α) : Coro τ Op Reply ε α :=
  match p with
  | .pure a => .pure a
  | .raise e => .raise e
  | .read k => .read fun t => (k (get t)).zoom
  | .write f k => .write (fun t => set (f (get t)) t) k.zoom
  | .await op k => .await op fun r => (k r).zoom

@[simp] theorem zoom_bind (p : Coro σ Op Reply ε α) (f : α → Coro σ Op Reply ε β) :
    (p.bind f).zoom get set = (p.zoom get set).bind fun a => (f a).zoom get set := by
  induction p with
  | pure | raise => rfl
  | read k ih => exact congrArg Coro.read (funext fun t => ih (get t))
  | write g k ih => exact congrArg (Coro.write _) ih
  | await op k ih => exact congrArg (Coro.await op) (funext fun r => ih r)

@[simp] theorem zoom_tryCatch (p : Coro σ Op Reply ε α) (h : ε → Coro σ Op Reply ε α) :
    (p.tryCatch h).zoom get set = (p.zoom get set).tryCatch fun e => (h e).zoom get set := by
  induction p with
  | pure | raise => rfl
  | read k ih => exact congrArg Coro.read (funext fun t => ih (get t))
  | write g k ih => exact congrArg (Coro.write _) ih
  | await op k ih => exact congrArg (Coro.await op) (funext fun r => ih r)

@[simp] theorem zoom_call (op : Op) :
    (call op : Coro σ Op Reply ε (Reply op)).zoom get set = call op := by
  refine congrArg (Coro.await op) (funext fun r => ?_)
  cases r <;> rfl

@[simp] theorem zoom_ite (c : Prop) [Decidable c] (p q : Coro σ Op Reply ε α) :
    (if c then p else q).zoom get set = if c then p.zoom get set else q.zoom get set := by
  split <;> rfl

end Coop.Coro
