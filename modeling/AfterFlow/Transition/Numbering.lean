import Mathlib.Data.List.Pairwise

/-!
# Numbers that are given out

Numbers given out one after the other, each under a key. Under one key every number is to be greater
than those before it. So it is if each new number is greater than all that were given under its key;
a record of a number that is as great as any is enough to know that.

## Main results

* `Increasing.give` — one more number
-/

namespace Transition

open List

variable {κ : Type}

/-- Under each key the numbers increase. -/
def Increasing (given : List (κ × ℕ)) : Prop := given.Pairwise fun a b => a.1 = b.1 → a.2 < b.2

/-- Every number given under the key is at most `n`. -/
def Below (given : List (κ × ℕ)) (k : κ) (n : ℕ) : Prop := ∀ p ∈ given, p.1 = k → p.2 ≤ n

/-- Among the numbers `kept` under the key is one as great as any given under it. -/
def Reaches (kept given : List (κ × ℕ)) (k : κ) : Prop :=
  ∀ p ∈ given, p.1 = k → ∃ q ∈ kept, q.1 = k ∧ p.2 ≤ q.2

variable {given kept kept' : List (κ × ℕ)} {k k' : κ} {m n : ℕ}

theorem Increasing.nil : Increasing ([] : List (κ × ℕ)) := List.Pairwise.nil

theorem Increasing.give (h : Increasing given) (hbelow : Below given k n) (hn : n < m) :
    Increasing (given ++ [(k, m)]) := by
  refine pairwise_append.2 ⟨h, pairwise_singleton _ _, ?_⟩
  intro p hp q hq hkey
  rw [mem_singleton.1 hq] at hkey ⊢
  exact Nat.lt_of_le_of_lt (hbelow p hp hkey) hn

theorem Below.mono (h : Below given k n) (hn : n ≤ m) : Below given k m :=
  fun p hp hkey => Nat.le_trans (h p hp hkey) hn

theorem Below.give (h : Below given k n) (hn : n ≤ m) : Below (given ++ [(k, m)]) k m := by
  intro p hp hkey
  rcases mem_append.1 hp with hp | hp
  · exact h.mono hn p hp hkey
  · exact Nat.le_of_eq (congrArg Prod.snd (mem_singleton.1 hp))

theorem Below.give_of_ne (h : Below given k n) (hk : k' ≠ k) :
    Below (given ++ [(k', m)]) k n := by
  intro p hp hkey
  rcases mem_append.1 hp with hp | hp
  · exact h p hp hkey
  · rw [mem_singleton.1 hp] at hkey
    exact absurd hkey hk

theorem Reaches.below (h : Reaches kept given k) (hkept : Below kept k n) : Below given k n := by
  intro p hp hkey
  obtain ⟨q, hq, hqk, hle⟩ := h p hp hkey
  exact Nat.le_trans hle (hkept q hq hqk)

theorem Reaches.give (h : Reaches kept given k) :
    Reaches (kept ++ [(k', m)]) (given ++ [(k', m)]) k := by
  intro p hp hkey
  rcases mem_append.1 hp with hp | hp
  · obtain ⟨q, hq, hle⟩ := h p hp hkey
    exact ⟨q, mem_append_left _ hq, hle⟩
  · exact ⟨p, mem_append_right _ hp, hkey, Nat.le_refl _⟩

theorem Reaches.drop (h : Reaches kept given k)
    (hkept : ∀ p ∈ kept, p.1 = k → ∃ q ∈ kept', q.1 = k ∧ p.2 ≤ q.2) : Reaches kept' given k := by
  intro p hp hkey
  obtain ⟨q, hq, hqk, hle⟩ := h p hp hkey
  obtain ⟨q', hq', hqk', hle'⟩ := hkept q hq hqk
  exact ⟨q', hq', hqk', Nat.le_trans hle hle'⟩

end Transition
