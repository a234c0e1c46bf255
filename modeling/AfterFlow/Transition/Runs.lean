import Mathlib.Data.List.Basic

/-!
# Runs of a step function

A system that takes one labelled step after another, where a step may be impossible. What holds at
the start and is kept by every step that meets a condition holds in every state that such steps
reach.

## Main results

* `Runs.invariant` — the induction rule
* `runs_of_runWith` — schedules reach
-/

namespace Transition

variable {σ ℓ : Type} {step : σ → ℓ → Option σ} {C D : σ → ℓ → Prop} {s s' : σ}

/-- The states reached from `s` by steps that meet `C`, a condition on the state before the step and
on the step. -/
inductive Runs (step : σ → ℓ → Option σ) (C : σ → ℓ → Prop) (s : σ) : σ → Prop
  | refl : Runs step C s s
  | tail {s₁ s₂ : σ} {l : ℓ} : Runs step C s s₁ → C s₁ l → step s₁ l = some s₂ → Runs step C s s₂

/-- Run a schedule as long as its steps meet `C`. -/
def runWith (step : σ → ℓ → Option σ) (C : σ → ℓ → Prop) [∀ s l, Decidable (C s l)] (s : σ) :
    List ℓ → Option σ
  | [] => some s
  | l :: ls => if C s l then (step s l).bind fun s' => runWith step C s' ls else none

/-- **What every step keeps holds in every state reached.** -/
theorem Runs.invariant {I : σ → Prop} (h : Runs step C s s') (hinit : I s)
    (hstep : ∀ s₁ l s₂, I s₁ → C s₁ l → step s₁ l = some s₂ → I s₂) : I s' := by
  induction h with
  | refl => exact hinit
  | tail _ hC hs ih => exact hstep _ _ _ ih hC hs

theorem Runs.mono (h : Runs step C s s') (hCD : ∀ s l, C s l → D s l) : Runs step D s s' := by
  induction h with
  | refl => exact .refl
  | tail _ hC hs ih => exact ih.tail (hCD _ _ hC) hs

theorem Runs.head {s₁ : σ} {l : ℓ} (hC : C s l) (hs : step s l = some s₁)
    (h : Runs step C s₁ s') : Runs step C s s' := by
  induction h with
  | refl => exact Runs.refl.tail hC hs
  | tail _ hC' hs' ih => exact ih.tail hC' hs'

theorem runs_of_runWith [∀ s l, Decidable (C s l)] {ls : List ℓ}
    (h : runWith step C s ls = some s') : Runs step C s s' := by
  induction ls generalizing s with
  | nil =>
    cases h
    exact .refl
  | cons l ls ih =>
    rw [runWith] at h
    split at h
    · obtain ⟨s₁, hs, hrest⟩ := Option.bind_eq_some_iff.1 h
      exact .head ‹_› hs (ih hrest)
    · cases h

end Transition
