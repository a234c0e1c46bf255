import Mathlib.Data.List.Infix
import Mathlib.Data.List.Nodup

/-!
# Hash chains

A hash chain is a list of rows each of which stores the hash of its predecessor and a hash of its
own, a digest of its content together with the stored predecessor. A verifier walks the list with
the hash it expects next, and reports the first row that does not match.

Nothing here depends on what a row or a digest is. What a chain is evidence of follows from two
facts about the digest: it determines the predecessor, and it is never the root.

## Main results

* `Scheme.brokenAt_eq_none` — the verifier accepts exactly the chains
* `Scheme.linked_append` — a chain grows at its tip
* `Scheme.linked_replace` — a rewritten row goes unnoticed exactly if its digest stays
* `Scheme.Linked.prefix_of_sublist` — rows can be lost without notice at the end only
-/

namespace Chain

open List

/-- How rows `ρ` are chained by hashes `H`. -/
structure Scheme (ρ H : Type) where
  /-- The stored hash of the row before. -/
  prev : ρ → H
  /-- The stored hash of the row. -/
  hash : ρ → H
  /-- The hash the row should have after a given one. -/
  digest : H → ρ → H

namespace Scheme

variable {ρ H : Type} (S : Scheme ρ H)

/-- The row is right after a row of hash `p`. -/
def Fits (p : H) (a : ρ) : Prop := S.prev a = p ∧ S.hash a = S.digest p a

instance [DecidableEq H] (p : H) (a : ρ) : Decidable (S.Fits p a) :=
  inferInstanceAs (Decidable (_ ∧ _))

/-- The rows form a chain that continues from `p`. -/
def Linked (p : H) : List ρ → Prop
  | [] => True
  | a :: l => S.Fits p a ∧ Linked (S.hash a) l

/-- The index, counted from `i`, of the first row that does not fit. -/
def brokenAt [DecidableEq H] (p : H) (i : ℕ) : List ρ → Option ℕ
  | [] => none
  | a :: l => if S.Fits p a then brokenAt (S.hash a) (i + 1) l else some i

/-- The hash the next row has to store. -/
def tip (p : H) (l : List ρ) : H := (l.getLast?.map S.hash).getD p

variable {S} {p q : H} {a b : ρ} {l l₁ l₂ : List ρ}

@[simp] theorem linked_nil : S.Linked p [] := trivial

@[simp] theorem linked_cons : S.Linked p (a :: l) ↔ S.Fits p a ∧ S.Linked (S.hash a) l := Iff.rfl

@[simp] theorem tip_nil : S.tip p [] = p := rfl

@[simp] theorem tip_append_singleton : S.tip p (l ++ [a]) = S.hash a := by
  simp [tip]

theorem tip_cons : S.tip p (a :: l) = S.tip (S.hash a) l := by
  rw [tip, tip, getLast?_cons]
  cases l.getLast? <;> rfl

/-- **The verifier accepts exactly the chains.** -/
theorem brokenAt_eq_none [DecidableEq H] {i : ℕ} : S.brokenAt p i l = none ↔ S.Linked p l := by
  induction l generalizing p i with
  | nil => simp [brokenAt]
  | cons a l ih =>
    rw [brokenAt, linked_cons]
    by_cases h : S.Fits p a
    · rw [if_pos h, ih, and_iff_right h]
    · simp [h]

theorem linked_append : S.Linked p (l₁ ++ l₂) ↔ S.Linked p l₁ ∧ S.Linked (S.tip p l₁) l₂ := by
  induction l₁ generalizing p with
  | nil => simp
  | cons a l₁ ih => rw [cons_append, linked_cons, linked_cons, ih, tip_cons, and_assoc]

theorem Linked.fits (h : S.Linked p (l₁ ++ a :: l₂)) : S.Fits (S.tip p l₁) a :=
  (linked_append.mp h).2.1

theorem Linked.prev_getElem (h : S.Linked p l) {i : ℕ} (hi : i < l.length) :
    S.prev l[i] = if i = 0 then p else S.hash l[i - 1] := by
  induction l generalizing p i with
  | nil => simp at hi
  | cons a l ih =>
    cases i with
    | zero => exact h.1.1
    | succ i =>
      have hprev := ih h.2 (Nat.lt_of_succ_lt_succ hi)
      cases i with
      | zero | succ => exact hprev

/-- **A rewritten row.** If the stored hashes of a row stay, the rest of it can be rewritten without
notice exactly if its digest stays. -/
theorem linked_replace (h : S.Linked p (l₁ ++ a :: l₂)) (hprev : S.prev b = S.prev a)
    (hhash : S.hash b = S.hash a) :
    S.Linked p (l₁ ++ b :: l₂) ↔ S.digest (S.prev a) b = S.digest (S.prev a) a := by
  obtain ⟨h₁, ⟨hp, hd⟩, h₂⟩ := linked_append.mp h
  rw [linked_append, linked_cons, Fits, hprev, hhash, hd, hp]
  constructor
  · rintro ⟨-, ⟨-, hb⟩, -⟩
    exact hb.symm
  · intro hb
    exact ⟨h₁, ⟨rfl, hb.symm⟩, hd ▸ h₂⟩

/-! ### Lost rows -/

/-- A hash that a row can have to store: the root or a digest. -/
def Reached (S : Scheme ρ H) (root p : H) : Prop := p = root ∨ ∃ q a, p = S.digest q a

/-- What a digest tells: its predecessor, and that it is not the root. -/
structure Tells (S : Scheme ρ H) (root : H) : Prop where
  prev : ∀ {p q a b}, S.Reached root p → S.Reached root q → S.digest p a = S.digest q b → p = q
  root : ∀ p a, S.digest p a ≠ root

variable {root : H}

theorem Linked.tip_reached (h : S.Linked root l) : S.Reached root (S.tip root l) := by
  cases l using List.reverseRecOn with
  | nil => exact .inl rfl
  | append_singleton l a =>
    rw [tip_append_singleton]
    exact .inr ⟨_, a, h.fits.2⟩

private theorem Linked.length_of_tip (hS : Tells S root) (h₁ : S.Linked root l₁)
    (h₂ : S.Linked root l₂) (h : S.tip root l₁ = S.tip root l₂) : l₁.length = l₂.length := by
  induction l₁ using List.reverseRecOn generalizing l₂ with
  | nil =>
    cases l₂ using List.reverseRecOn with
    | nil => rfl
    | append_singleton l₂ b =>
      rw [tip_nil, tip_append_singleton, h₂.fits.2] at h
      exact absurd h.symm (hS.root _ _)
  | append_singleton l₁ a ih =>
    cases l₂ using List.reverseRecOn with
    | nil =>
      rw [tip_nil, tip_append_singleton, h₁.fits.2] at h
      exact absurd h (hS.root _ _)
    | append_singleton l₂ b =>
      have h₁' := (linked_append.mp h₁).1
      have h₂' := (linked_append.mp h₂).1
      rw [tip_append_singleton, tip_append_singleton, h₁.fits.2, h₂.fits.2] at h
      have hlen := ih h₁' h₂' (hS.prev h₁'.tip_reached h₂'.tip_reached h)
      simp [hlen]

private theorem Linked.prefix_of_sublist_append (hS : Tells S root) (h : S.Linked root (l₁ ++ l))
    (hsub : l₂.Sublist l) (h₂ : S.Linked root (l₁ ++ l₂)) : l₂ <+: l := by
  induction hsub generalizing l₁ with
  | slnil => exact prefix_refl _
  | @cons_cons l₂ l a hsub ih =>
    rw [append_cons] at h h₂
    exact cons_prefix_cons.mpr ⟨rfl, ih h h₂⟩
  | @cons l₂ l a hsub ih =>
    cases l₂ with
    | nil => exact nil_prefix
    | cons b l₂ =>
      -- the first row kept after `a` stores the tip before `a`, yet it comes after `a`
      obtain ⟨t₁, t₂, rfl⟩ := append_of_mem (hsub.subset mem_cons_self)
      have hfit := h₂.fits
      rw [append_cons, ← append_assoc] at h
      have htip : S.tip root l₁ = S.tip root (l₁ ++ [a] ++ t₁) := hfit.1.symm.trans h.fits.1
      have hlen := Linked.length_of_tip hS (linked_append.mp h₂).1 (linked_append.mp h).1 htip
      simp only [length_append, length_cons, length_nil] at hlen
      omega

/-- **Lost rows.** If some rows of a chain are gone and the rest is still a chain, the rows that are
gone were the last ones. -/
theorem Linked.prefix_of_sublist (hS : Tells S root) (h : S.Linked root l) (hsub : l₂.Sublist l)
    (h₂ : S.Linked root l₂) : l₂ <+: l :=
  Linked.prefix_of_sublist_append (l := l) hS (nil_append l ▸ h) hsub
    (nil_append l₂ ▸ h₂)

end Scheme

end Chain
