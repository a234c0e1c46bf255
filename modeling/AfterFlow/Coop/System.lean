import AfterFlow.Coop.Coro

/-!
# Cooperative systems

A system is a shared state and a list of tasks. One step spawns a task, lets the environment act
(a clock, say), or resumes one task: the operation it awaits is performed, and the task runs on to
its next await or to its end. A resumed operation may also *fault*: it raises the backend's fault
exception and has no effect.

## History

Every task keeps the list of its own steps with the reply it got and the shared state before and
after the step. No coroutine can read it. It is what statements about a single call are about:
which state it found, which writes were its own, which state it left.

## Main definitions

* `Backend` — what an awaited operation does to the shared state
* `Task`, `Sys`, `step`, `run`, `runWith` — tasks, systems, one step, a schedule
* `Steps` — the runs all of whose steps meet a condition
* `runAlone` — one coroutine with nobody else and no fault
-/

namespace Coop

open Option

/-- The world outside the coroutines: each operation atomically replies and changes the state. -/
structure Backend (σ Op : Type) (Reply : Op → Type) (ε : Type) where
  /-- What an operation replies, and the state after it. -/
  perform : (op : Op) → σ → Except ε (Reply op) × σ
  /-- The exception of an operation that fails without effect. -/
  fault : ε

/-- Whether the awaited operation works or faults. -/
inductive Outcome where
  | ok
  | fault
  deriving DecidableEq

/-- The reply a task got to the operation it awaited. -/
structure Answer (Op : Type) (Reply : Op → Type) (ε : Type) where
  op : Op
  reply : Except ε (Reply op)

/-- One step of one task: the answer it resumed with (none on its first step) and the shared state
around the step. -/
structure Event (σ Op : Type) (Reply : Op → Type) (ε : Type) where
  answer : Option (Answer Op Reply ε)
  before : σ
  after : σ

/-- A call in progress, or a finished one. -/
structure Task (σ Op : Type) (Reply : Op → Type) (ε α Req : Type) where
  req : Req
  trace : List (Event σ Op Reply ε)
  proc : Coro σ Op Reply ε α

structure Sys (σ Op : Type) (Reply : Op → Type) (ε α Req : Type) where
  world : σ
  tasks : List (Task σ Op Reply ε α Req)

/-- A step of the scheduler. -/
inductive Label (Req Env : Type) where
  | spawn (req : Req)
  | resume (i : ℕ) (out : Outcome)
  | env (e : Env)
  deriving DecidableEq

/-- The program of a system: its backend, the coroutine of every request and what the environment
can do on its own. -/
structure Program (σ Op : Type) (Reply : Op → Type) (ε α Req Env : Type) extends
    Backend σ Op Reply ε where
  handler : Req → Coro σ Op Reply ε α
  tick : Env → σ → σ

variable {σ Op : Type} {Reply : Op → Type} {ε α Req Env : Type}

/-- Perform an operation under an outcome. -/
def Backend.answer (b : Backend σ Op Reply ε) (op : Op) (out : Outcome) (s : σ) :
    Except ε (Reply op) × σ :=
  match out with
  | .ok => b.perform op s
  | .fault => (.error b.fault, s)

/-- Begin a step of a coroutine: perform what it awaits, or just start it. A finished coroutine
has no step. -/
def Coro.begin (b : Backend σ Op Reply ε) (out : Outcome) :
    Coro σ Op Reply ε α → σ → Option (Option (Answer Op Reply ε) × σ × Coro σ Op Reply ε α)
  | .pure _, _ => none
  | .raise _, _ => none
  | .read k, s => some (none, s, .read k)
  | .write f k, s => some (none, s, .write f k)
  | .await op k, s => some (some ⟨op, (b.answer op out s).1⟩, (b.answer op out s).2,
      k (b.answer op out s).1)

/-- One step of one task. -/
def Task.resume (b : Backend σ Op Reply ε) (t : Task σ Op Reply ε α Req) (out : Outcome) (s : σ) :
    Option (Task σ Op Reply ε α Req × σ) :=
  (t.proc.begin b out s).map fun (answer, s', p) =>
    ({ t with trace := t.trace ++ [⟨answer, s, (p.settle s').1⟩], proc := (p.settle s').2 },
      (p.settle s').1)

/-- A new task. Nothing of it runs before its first step. -/
def Task.spawn (P : Program σ Op Reply ε α Req Env) (req : Req) : Task σ Op Reply ε α Req :=
  ⟨req, [], .read fun _ => P.handler req⟩

/-- One step of the system; `none` if the step is not possible. -/
@[grind =] def step (P : Program σ Op Reply ε α Req Env) (s : Sys σ Op Reply ε α Req) :
    Label Req Env → Option (Sys σ Op Reply ε α Req)
  | .spawn req => some { s with tasks := s.tasks ++ [Task.spawn P req] }
  | .resume i out => do
      let t ← s.tasks[i]?
      let (t', w) ← t.resume P.toBackend out s.world
      some ⟨w, s.tasks.set i t'⟩
  | .env e => some { s with world := P.tick e s.world }

/-- Run a schedule. -/
def run (P : Program σ Op Reply ε α Req Env) (s : Sys σ Op Reply ε α Req) :
    List (Label Req Env) → Option (Sys σ Op Reply ε α Req)
  | [] => some s
  | l :: ls => (step P s l).bind fun s' => run P s' ls

/-- Run a schedule as long as its steps meet `C`. -/
def runWith (P : Program σ Op Reply ε α Req Env)
    (C : Sys σ Op Reply ε α Req → Label Req Env → Prop) [∀ s l, Decidable (C s l)]
    (s : Sys σ Op Reply ε α Req) : List (Label Req Env) → Option (Sys σ Op Reply ε α Req)
  | [] => some s
  | l :: ls => if C s l then (step P s l).bind fun s' => runWith P C s' ls else none

/-- The runs from `s` all of whose steps meet `C`, a condition on the state before the step and on
the step. -/
inductive Steps (P : Program σ Op Reply ε α Req Env)
    (C : Sys σ Op Reply ε α Req → Label Req Env → Prop) (s : Sys σ Op Reply ε α Req) :
    Sys σ Op Reply ε α Req → Prop
  | refl : Steps P C s s
  | tail {s₁ s₂ : Sys σ Op Reply ε α Req} {l : Label Req Env} :
      Steps P C s s₁ → C s₁ l → step P s₁ l = some s₂ → Steps P C s s₂

/-- The operation the task waits for. -/
def Task.pending (t : Task σ Op Reply ε α Req) : Option Op := t.proc.pending

/-- How the task ended, once it has. -/
def Task.result (t : Task σ Op Reply ε α Req) : Option (Except ε α) := t.proc.result

/-- Run one coroutine alone, every operation working. -/
def runAlone (b : Backend σ Op Reply ε) : Coro σ Op Reply ε α → σ → Except ε α × σ
  | .pure a, s => (.ok a, s)
  | .raise e, s => (.error e, s)
  | .read k, s => runAlone b (k s) s
  | .write f k, s => runAlone b k (f s)
  | .await op k, s => runAlone b (k (b.perform op s).1) (b.perform op s).2

section RunAlone

@[simp] theorem runAlone_pure (b : Backend σ Op Reply ε) (a : α) (s : σ) :
    runAlone b (.pure a) s = (.ok a, s) := rfl

@[simp] theorem runAlone_raise (b : Backend σ Op Reply ε) (e : ε) (s : σ) :
    runAlone b (.raise e : Coro σ Op Reply ε α) s = (.error e, s) := rfl

@[simp] theorem runAlone_read (b : Backend σ Op Reply ε) (k : σ → Coro σ Op Reply ε α) (s : σ) :
    runAlone b (.read k) s = runAlone b (k s) s := rfl

variable {β : Type} (b : Backend σ Op Reply ε)

/-- Go on alone from what came out so far. -/
def thenAlone (f : α → Coro σ Op Reply ε β) : Except ε α × σ → Except ε β × σ
  | (.ok a, s) => runAlone b (f a) s
  | (.error e, s) => (.error e, s)

/-- Handle alone what came out so far. -/
def catchAlone (h : ε → Coro σ Op Reply ε α) : Except ε α × σ → Except ε α × σ
  | (.ok a, s) => (.ok a, s)
  | (.error e, s) => runAlone b (h e) s

@[simp] theorem thenAlone_ok (f : α → Coro σ Op Reply ε β) (a : α) (s : σ) :
    thenAlone b f (.ok a, s) = runAlone b (f a) s := rfl

@[simp] theorem thenAlone_error (f : α → Coro σ Op Reply ε β) (e : ε) (s : σ) :
    thenAlone b f (.error e, s) = (.error e, s) := rfl

@[simp] theorem catchAlone_ok (h : ε → Coro σ Op Reply ε α) (a : α) (s : σ) :
    catchAlone b h (.ok a, s) = (.ok a, s) := rfl

@[simp] theorem catchAlone_error (h : ε → Coro σ Op Reply ε α) (e : ε) (s : σ) :
    catchAlone b h (.error e, s) = runAlone b (h e) s := rfl

@[simp] theorem runAlone_bind (p : Coro σ Op Reply ε α) (f : α → Coro σ Op Reply ε β) (s : σ) :
    runAlone b (p.bind f) s = thenAlone b f (runAlone b p s) := by
  induction p generalizing s with
  | pure | raise => rfl
  | read k ih => exact ih s s
  | write g k ih => exact ih (g s)
  | await op k ih => exact ih _ _

theorem runAlone_bind_after {p : Coro σ Op Reply ε α} {f : α → Coro σ Op Reply ε β} {s : σ}
    {Q : σ → Prop} (herror : ∀ e s', runAlone b p s = (.error e, s') → Q s')
    (hok : ∀ a s', runAlone b p s = (.ok a, s') → Q (runAlone b (f a) s').2) :
    Q (runAlone b (p.bind f) s).2 := by
  rw [runAlone_bind]
  rcases hp : runAlone b p s with ⟨e | a, s'⟩
  · exact herror e s' hp
  · exact hok a s' hp

theorem runAlone_quiet {E : Op → Prop} {W : σ → σ → Prop} {Q : σ → Prop}
    (hE : ∀ op s, E op → Q s → Q (b.perform op s).2) (hW : ∀ s s', W s s' → Q s → Q s')
    {p : Coro σ Op Reply ε α} {s : σ} (hp : p.Quiet E W s) (hs : Q s) : Q (runAlone b p s).2 := by
  induction p generalizing s with
  | pure | raise => exact hs
  | read k ih => exact ih s hp hs
  | write f k ih => exact ih hp.2 (hW _ _ hp.1 hs)
  | await op k ih => exact ih _ (hp.2 _ _) (hE op s hp.1 hs)

theorem runAlone_bind_ok {p : Coro σ Op Reply ε α} {f : α → Coro σ Op Reply ε β} {s s' : σ} {c : β}
    (h : runAlone b (p.bind f) s = (.ok c, s')) :
    ∃ a s₁, runAlone b p s = (.ok a, s₁) ∧ runAlone b (f a) s₁ = (.ok c, s') := by
  rw [runAlone_bind] at h
  rcases hp : runAlone b p s with ⟨_ | a, s₁⟩
  · rw [hp] at h
    cases h
  · rw [hp] at h
    exact ⟨a, s₁, rfl, h⟩

@[simp] theorem runAlone_tryCatch (p : Coro σ Op Reply ε α) (h : ε → Coro σ Op Reply ε α) (s : σ) :
    runAlone b (p.tryCatch h) s = catchAlone b h (runAlone b p s) := by
  induction p generalizing s with
  | pure | raise => rfl
  | read k ih => exact ih s s
  | write g k ih => exact ih (g s)
  | await op k ih => exact ih _ _

@[simp] theorem runAlone_call (op : Op) (s : σ) :
    runAlone b (Coro.call op : Coro σ Op Reply ε (Reply op)) s = b.perform op s := by
  rw [Coro.call, runAlone]
  obtain ⟨reply, s'⟩ := b.perform op s
  cases reply <;> rfl

@[simp] theorem runAlone_ofExcept (x : Except ε α) (s : σ) :
    runAlone b (Coro.ofExcept x : Coro σ Op Reply ε α) s = (x, s) := by
  cases x <;> rfl

@[simp] theorem runAlone_update (f : σ → α × σ) (s : σ) :
    runAlone b (Coro.update f : Coro σ Op Reply ε α) s = (.ok (f s).1, (f s).2) := rfl

@[simp] theorem runAlone_modify (f : σ → σ) (s : σ) :
    runAlone b (Coro.modify f : Coro σ Op Reply ε Unit) s = (.ok (), f s) := rfl

end RunAlone

namespace Steps

variable {P : Program σ Op Reply ε α Req Env}
  {C D : Sys σ Op Reply ε α Req → Label Req Env → Prop}
  {s s₁ s₂ : Sys σ Op Reply ε α Req}

theorem mono (h : ∀ s l, C s l → D s l) (hs : Steps P C s s₁) : Steps P D s s₁ := by
  induction hs with
  | refl => exact .refl
  | tail _ hc hst ih => exact ih.tail (h _ _ hc) hst

theorem trans (h₁ : Steps P C s s₁) (h₂ : Steps P C s₁ s₂) : Steps P C s s₂ := by
  induction h₂ with
  | refl => exact h₁
  | tail _ hc hst ih => exact ih.tail hc hst

theorem of_run {ls : List (Label Req Env)} (h : run P s ls = some s₁) :
    Steps P (fun _ _ => True) s s₁ := by
  induction ls generalizing s with
  | nil =>
    cases h
    exact .refl
  | cons l ls ih =>
    obtain ⟨s', hst, hrun⟩ := bind_eq_some_iff.mp h
    have hhead : Steps P (fun _ _ => True) s s' := Steps.refl.tail trivial hst
    exact hhead.trans (ih hrun)

theorem of_run_get {ls : List (Label Req Env)} (h : (run P s ls).isSome) :
    Steps P (fun _ _ => True) s ((run P s ls).get h) := of_run (some_get h).symm

theorem of_runWith [∀ s l, Decidable (C s l)] {ls : List (Label Req Env)}
    (h : runWith P C s ls = some s₁) : Steps P C s s₁ := by
  induction ls generalizing s with
  | nil =>
    cases h
    exact .refl
  | cons l ls ih =>
    rw [runWith] at h
    split at h
    · rename_i hc
      obtain ⟨s', hst, hrun⟩ := bind_eq_some_iff.mp h
      have hhead : Steps P C s s' := Steps.refl.tail hc hst
      exact hhead.trans (ih hrun)
    · cases h

theorem of_runWith_get [∀ s l, Decidable (C s l)] {ls : List (Label Req Env)}
    (h : (runWith P C s ls).isSome) : Steps P C s ((runWith P C s ls).get h) :=
  of_runWith (some_get h).symm

theorem with_fact {F : Sys σ Op Reply ε α Req → Prop} (h : ∀ s', Steps P C s s' → F s')
    (hs : Steps P C s s₁) : Steps P (fun s' l => C s' l ∧ F s') s s₁ := by
  induction hs with
  | refl => exact .refl
  | tail hrun hc hst ih => exact ih.tail ⟨hc, h _ hrun⟩ hst

end Steps

/-! ### What a step of a run does to the tasks -/

section Inversion

variable {P : Program σ Op Reply ε α Req Env} {s s' : Sys σ Op Reply ε α Req}

theorem step_spawn {req : Req} (h : step P s (.spawn req) = some s') :
    s'.world = s.world ∧ s'.tasks = s.tasks ++ [Task.spawn P req] := by
  simp only [step, some.injEq] at h
  subst h
  exact ⟨rfl, rfl⟩

theorem step_env {e : Env} (h : step P s (.env e) = some s') :
    s'.world = P.tick e s.world ∧ s'.tasks = s.tasks := by
  simp only [step, some.injEq] at h
  subst h
  exact ⟨rfl, rfl⟩

theorem step_resume {i : ℕ} {out : Outcome} (h : step P s (.resume i out) = some s') :
    ∃ t answer w p, s.tasks[i]? = some t ∧ t.proc.begin P.toBackend out s.world = some (answer, w, p) ∧
      s'.world = (p.settle w).1 ∧
      s'.tasks = s.tasks.set i { t with
        trace := t.trace ++ [⟨answer, s.world, (p.settle w).1⟩], proc := (p.settle w).2 } := by
  simp only [step, Task.resume, bind_eq_bind, bind_eq_some_iff,
    map_eq_some_iff] at h
  obtain ⟨t, ht, ⟨t', w'⟩, ⟨⟨answer, w, p⟩, hb, heq⟩, hs⟩ := h
  cases heq
  cases hs
  exact ⟨t, answer, w, p, ht, hb, rfl, rfl⟩

end Inversion

end Coop
