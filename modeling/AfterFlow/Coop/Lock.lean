import AfterFlow.Coop.Logic
import Mathlib.Algebra.BigOperators.Group.Multiset.Basic

/-!
# Locks of coroutines

`async with lock: body` awaits the lock, runs the body and releases the lock whether or not the body
raises. A coroutine may be suspended inside the body, and then the lock is what keeps the others
out. The scheduler resumes a waiter only while the lock is free; that is a condition on runs, not
part of the operation.

The locks a task holds are its resource: a multiset, so that the resources of all tasks add up to
the set of the locks that are held.

## Main results

* `safe_withLock` — the proof rule
* `Owns.acquire`, `Owns.release` — taking and returning a lock
-/

namespace Coop

open Function

variable {σ Op : Type} {Reply : Op → Type} {ε α β Req Γ : Type}

/-- `async with lock: body`, where `acquire` awaits the lock and `release` is synchronous. -/
def Coro.withLock (acquire : Op) (release : σ → σ) (body : Coro σ Op Reply ε α) :
    Coro σ Op Reply ε α := do
  let _ ← Coro.call acquire
  let a ← body.tryCatch fun e => do
    Coro.modify release
    .raise e
  Coro.modify release
  return a

namespace Logic

variable [AddCommMonoid Γ] {L : Logic σ Op Reply ε α Req Γ} {b : Backend σ Op Reply ε} {r : Req}
  {c : Ctx σ Op Reply ε Γ}

/-- After the lock is taken: the body runs, and however it ends the lock is released. -/
def Locked (L : Logic σ Op Reply ε α Req Γ) (b : Backend σ Op Reply ε) (r : Req) (release : σ → σ)
    (body : Coro σ Op Reply ε β) (Q : Except ε β → Ctx σ Op Reply ε Γ → Prop) {γ : Type} :
    Except ε γ → Ctx σ Op Reply ε Γ → Prop
  | .ok _, c => L.Safe b r body (fun res c => Q res { c with now := release c.now }) c
  | .error e, c => Q (.error e) c

/-- **Locks.** -/
theorem safe_withLock {acquire : Op} {release : σ → σ} {body : Coro σ Op Reply ε β}
    {Q : Except ε β → Ctx σ Op Reply ε Γ → Prop} :
    L.Safe b r (Coro.withLock acquire release body) Q c ↔
      L.Safe b r (Coro.call acquire) (Locked L b r release body Q) c := by
  rw [Coro.withLock, Coro.bind_def, Safe.bind_iff]
  refine ⟨Safe.mono fun res c h => ?_, Safe.mono fun res c h => ?_⟩ <;> cases res with
  | error e => exact h
  | ok _ =>
    simp only [then_ok, Coro.bind_def, Safe.bind_iff, Safe.tryCatch_iff, Locked] at h ⊢
    refine Safe.mono (fun res c h => ?_) h
    cases res <;> exact h

end Logic

/-! ### Held locks -/

variable {κ : Type} [DecidableEq κ]

/-- The locks in `g` are exactly the held ones, each held once. -/
def Owns (g : Multiset κ) (held : κ → Bool) : Prop := ∀ k, g.count k = if held k then 1 else 0

namespace Owns

variable {g h : Multiset κ} {held : κ → Bool} {k : κ}

theorem zero (hk : ∀ k, held k = false) : Owns 0 held := by
  intro k
  rw [hk k, Multiset.count_zero, if_neg Bool.false_ne_true]

theorem not_mem (hg : Owns g held) (hk : held k = false) : k ∉ g := by
  rw [← Multiset.count_eq_zero, hg k, hk, if_neg Bool.false_ne_true]

theorem disjoint (hg : Owns ({k} + g) held) : k ∉ g := by
  have hcount := hg k
  rw [Multiset.count_add, Multiset.count_singleton_self] at hcount
  rw [← Multiset.count_eq_zero]
  split at hcount <;> omega

theorem acquire (hg : Owns g held) (hk : held k = false) :
    Owns ({k} + g) (update held k true) := by
  intro k'
  rw [Multiset.count_add, Multiset.count_singleton, hg k']
  by_cases hkk : k' = k
  · subst hkk
    simp [hk]
  · simp [hkk]

theorem release (hg : Owns ({k} + g) held) : Owns g (update held k false) := by
  intro k'
  have hcount := hg k'
  rw [Multiset.count_add, Multiset.count_singleton] at hcount
  by_cases hkk : k' = k
  · subst hkk
    rw [update_self, if_neg Bool.false_ne_true, Multiset.count_eq_zero]
    exact hg.disjoint
  · rw [update_of_ne hkk, ← hcount, if_neg hkk, Nat.zero_add]

end Owns

end Coop
