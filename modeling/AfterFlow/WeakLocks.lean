import Mathlib.Order.Basic
import Mathlib.Tactic.Common

/-!
# Locks by key

A table gives each key its lock. It does not keep a lock alive: one that no party has any more goes
away, and who asks for the key then gets a new lock. Two parties with one key must not get two locks
all the same, and they do not: as long as a party has a lock, it is the one in the table.
-/

namespace AfterFlow.WeakLocks

open Function

/-- What a party has of the lock of its key. -/
inductive Grip where
  | away
  | waits (lock : ℕ)
  | holds (lock : ℕ)
  deriving DecidableEq

/-- Whether the party has a reference to the lock. -/
def Grip.refersTo : Grip → ℕ → Bool
  | .away, _ => false
  | .waits lock, l => lock == l
  | .holds lock, l => lock == l

def Grip.isHolding : Grip → Bool
  | .holds _ => true
  | _ => false

structure Locks (K I : Type) where
  /-- The lock of a key, while there is one. -/
  table : K → Option ℕ
  /-- The lock that is made next. -/
  next : ℕ
  grip : I → Grip

variable {K I : Type}

/-- No key has a lock. -/
def Locks.empty : Locks K I := ⟨fun _ => none, 0, fun _ => .away⟩

namespace Locks

/-- Nobody holds the lock. -/
def IsFree (s : Locks K I) (lock : ℕ) : Prop := ∀ i, s.grip i ≠ .holds lock

section Steps

variable [DecidableEq K] [DecidableEq I] (s : Locks K I)

/-- The party looks the lock of its key up, or makes one. -/
def get (i : I) (k : K) : Locks K I :=
  match s.table k with
  | some lock => { s with grip := update s.grip i (.waits lock) }
  | none =>
    { table := update s.table k (some s.next)
      next := s.next + 1
      grip := update s.grip i (.waits s.next) }

def acquire (i : I) (lock : ℕ) : Locks K I :=
  { s with grip := update s.grip i (.holds lock) }

def release (i : I) : Locks K I := { s with grip := update s.grip i .away }

/-- The lock of the key goes away. -/
def collect (k : K) : Locks K I := { s with table := update s.table k none }

variable {s} {i j : I}

theorem grip_get_of_ne (h : j ≠ i) (k : K) : (s.get i k).grip j = s.grip j := by
  rw [get]
  split <;> exact update_of_ne h _ _

section

omit [DecidableEq K]

theorem grip_acquire_of_ne (h : j ≠ i) (lock : ℕ) : (s.acquire i lock).grip j = s.grip j :=
  update_of_ne h _ _

theorem grip_release_of_ne (h : j ≠ i) : (s.release i).grip j = s.grip j :=
  update_of_ne h _ _

end

end Steps

/-- What holds of the locks. -/
structure Sound (s : Locks K I) (key : I → K) : Prop where
  /-- A lock that a party has is the one in the table. -/
  listed : ∀ i lock, (s.grip i).refersTo lock = true → s.table (key i) = some lock
  made : ∀ k lock, s.table k = some lock → lock < s.next
  distinct : ∀ k k' lock, s.table k = some lock → s.table k' = some lock → k = k'
  single : ∀ i j lock, s.grip i = .holds lock → s.grip j = .holds lock → i = j

end Locks

variable {s : Locks K I} {key : I → K} {i j : I} {lock : ℕ}

theorem sound_empty : (Locks.empty : Locks K I).Sound key where
  listed _ _ h := nomatch h
  made _ _ h := nomatch h
  distinct _ _ _ h := nomatch h
  single _ _ _ h := nomatch h

namespace Locks.Sound

theorem refersTo_of_holds {g : Grip} (h : g = .holds lock) : g.refersTo lock = true := by
  rw [h]
  exact beq_self_eq_true lock

/-- **Two parties with one key do not both hold its lock.** -/
theorem exclusive (h : s.Sound key) (hi : (s.grip i).isHolding = true)
    (hj : (s.grip j).isHolding = true) (hkey : key i = key j) : i = j := by
  have hlock : ∀ i, (s.grip i).isHolding = true → ∃ lock, s.grip i = .holds lock := by
    intro i hi
    cases hg : s.grip i with
    | away =>
      rw [hg] at hi
      cases hi
    | waits lock =>
      rw [hg] at hi
      cases hi
    | holds lock => exact ⟨lock, rfl⟩
  obtain ⟨l, hl⟩ := hlock i hi
  obtain ⟨l', hl'⟩ := hlock j hj
  have hlisted := h.listed i l (refersTo_of_holds hl)
  rw [hkey, h.listed j l' (refersTo_of_holds hl')] at hlisted
  cases hlisted
  exact h.single i j l hl hl'

variable [DecidableEq K] [DecidableEq I]

omit [DecidableEq K] in
theorem holds_of_update {g : Grip} (hg : g.isHolding = false)
    (hj : update s.grip i g j = .holds lock) : s.grip j = .holds lock := by
  by_cases hji : j = i
  · subst hji
    rw [update_self] at hj
    rw [hj] at hg
    cases hg
  · rwa [update_of_ne hji] at hj

/-- A look-up keeps one lock for a key. -/
theorem get (h : s.Sound key) (i : I) : (s.get i (key i)).Sound key := by
  cases htable : s.table (key i) with
  | some lock =>
    have heq : s.get i (key i) = { s with grip := update s.grip i (.waits lock) } := by
      rw [Locks.get, htable]
    rw [heq]
    refine ⟨fun j l (hj : (update s.grip i (.waits lock) j).refersTo l = true) => ?_,
      h.made, h.distinct,
      fun j j' l hj hj' => h.single j j' l (holds_of_update rfl hj) (holds_of_update rfl hj')⟩
    by_cases hji : j = i
    · subst hji
      rw [update_self] at hj
      rw [← eq_of_beq (b := l) hj]
      exact htable
    · rw [update_of_ne hji] at hj
      exact h.listed j l hj
  | none =>
    have heq : s.get i (key i) = ⟨update s.table (key i) (some s.next), s.next + 1,
        update s.grip i (.waits s.next)⟩ := by rw [Locks.get, htable]
    have hkept : ∀ k l, s.table k = some l →
        k ≠ key i ∧ update s.table (key i) (some s.next) k = some l := by
      intro k l hk
      have hki : k ≠ key i := by
        rintro rfl
        rw [htable] at hk
        cases hk
      exact ⟨hki, (update_of_ne hki _ _).trans hk⟩
    have hback : ∀ k l, update s.table (key i) (some s.next) k = some l →
        k = key i ∧ l = s.next ∨ s.table k = some l ∧ l < s.next := by
      intro k l hk
      by_cases hki : k = key i
      · subst hki
        rw [update_self] at hk
        exact .inl ⟨rfl, (Option.some.inj hk).symm⟩
      · rw [update_of_ne hki] at hk
        exact .inr ⟨hk, h.made k l hk⟩
    rw [heq]
    refine ⟨fun j l (hj : (update s.grip i (.waits s.next) j).refersTo l = true) => ?_,
      fun k l hk => ?_, fun k k' l hk hk' => ?_,
      fun j j' l hj hj' => h.single j j' l (holds_of_update rfl hj) (holds_of_update rfl hj')⟩
    · by_cases hji : j = i
      · subst hji
        rw [update_self] at hj
        rw [← eq_of_beq (b := l) hj]
        exact update_self _ _ _
      · rw [update_of_ne hji] at hj
        exact (hkept _ _ (h.listed j l hj)).2
    · rcases hback k l hk with ⟨-, rfl⟩ | ⟨-, hlt⟩
      · exact Nat.lt_succ_self _
      · exact Nat.lt_succ_of_lt hlt
    · rcases hback k l hk with ⟨rfl, rfl⟩ | ⟨hold, hlt⟩
      · rcases hback k' _ hk' with ⟨rfl, -⟩ | ⟨-, hlt⟩
        · rfl
        · exact absurd hlt (Nat.lt_irrefl _)
      · rcases hback k' l hk' with ⟨-, rfl⟩ | ⟨hold', -⟩
        · exact absurd hlt (Nat.lt_irrefl _)
        · exact h.distinct k k' l hold hold'

section

omit [DecidableEq K]

theorem acquire (h : s.Sound key) (hi : s.grip i = .waits lock) (hfree : s.IsFree lock) :
    (s.acquire i lock).Sound key := by
  refine ⟨fun j l (hj : (update s.grip i (.holds lock) j).refersTo l = true) => ?_,
    h.made, h.distinct, fun j j' l hj hj' => ?_⟩
  · by_cases hji : j = i
    · subst hji
      rw [update_self] at hj
      rw [← eq_of_beq (b := l) hj]
      exact h.listed j lock (by rw [hi]; exact beq_self_eq_true lock)
    · rw [update_of_ne hji] at hj
      exact h.listed j l hj
  · have hcases : ∀ j, update s.grip i (.holds lock) j = .holds l →
        j = i ∧ lock = l ∨ j ≠ i ∧ s.grip j = .holds l := by
      intro j hj
      by_cases hji : j = i
      · subst hji
        rw [update_self] at hj
        cases hj
        exact .inl ⟨rfl, rfl⟩
      · rw [update_of_ne hji] at hj
        exact .inr ⟨hji, hj⟩
    rcases hcases j hj with ⟨rfl, rfl⟩ | ⟨-, hold⟩
    · rcases hcases j' hj' with ⟨rfl, -⟩ | ⟨-, hold'⟩
      · rfl
      · exact absurd hold' (hfree j')
    · rcases hcases j' hj' with ⟨-, rfl⟩ | ⟨-, hold'⟩
      · exact absurd hold (hfree j)
      · exact h.single j j' l hold hold'

theorem release (h : s.Sound key) (i : I) : (s.release i).Sound key := by
  refine ⟨fun j l (hj : (update s.grip i .away j).refersTo l = true) => ?_, h.made,
    h.distinct, fun j j' l hj hj' => h.single j j' l (holds_of_update rfl hj) (holds_of_update rfl hj')⟩
  by_cases hji : j = i
  · subst hji
    rw [update_self] at hj
    cases hj
  · rw [update_of_ne hji] at hj
    exact h.listed j l hj

end

omit [DecidableEq I] in
theorem collect {k : K} (h : s.Sound key)
    (hunused : ∀ lock, s.table k = some lock → ∀ i, (s.grip i).refersTo lock = false) :
    (s.collect k).Sound key := by
  have hold : ∀ k' lock, update s.table k none k' = some lock → s.table k' = some lock := by
    intro k' lock hk'
    by_cases hkk : k' = k
    · subst hkk
      rw [update_self] at hk'
      cases hk'
    · rwa [update_of_ne hkk] at hk'
  refine ⟨fun i lock hi => ?_, fun k' lock hk' => h.made k' lock (hold k' lock hk'),
    fun k' k'' lock hk' hk'' => h.distinct k' k'' lock (hold k' lock hk') (hold k'' lock hk''),
    h.single⟩
  have hlisted := h.listed i lock hi
  refine (update_of_ne (fun hkey => ?_) _ _).trans hlisted
  rw [hkey] at hlisted
  have hno := hunused lock hlisted i
  rw [show (s.collect k).grip = s.grip from rfl, hno] at hi
  cases hi

end Locks.Sound

end AfterFlow.WeakLocks
