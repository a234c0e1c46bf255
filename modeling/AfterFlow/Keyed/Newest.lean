import Mathlib.Data.List.Sort

/-!
# The newest entries

A list sorted by a date, the latest first, of which the first few are taken. Where the dates differ,
an entry is among the newest `k` if fewer than `k` others are newer, and leaving out entries that
are not among them changes nothing.

## Main results

* `mem_newest` — the newest entries by counting
* `newest_eq` — what is not among them does not matter
-/

namespace Keyed

open List

variable {α δ : Type} [LinearOrder δ] {date : α → δ} {l l' : List α} {k : ℕ} {a b : α}

/-- The latest date first; entries of one date stay in their order. -/
def newestFirst (date : α → δ) (l : List α) : List α := l.insertionSort fun a b => date b ≤ date a

/-- The newest `k` entries, the newest first. -/
def newest (date : α → δ) (k : ℕ) (l : List α) : List α := (newestFirst date l).take k

/-- How many entries are newer. -/
def newer (date : α → δ) (x : δ) (l : List α) : ℕ := l.countP fun a => x < date a

theorem newestFirst_perm : (newestFirst date l).Perm l := perm_insertionSort _ _

theorem newestFirst_falls (h : (l.map date).Nodup) :
    (newestFirst date l).Pairwise fun a b => date b < date a := by
  have htotal : Std.Total fun a b : α => date b ≤ date a := ⟨fun a b => le_total _ _⟩
  have htrans : IsTrans α fun a b => date b ≤ date a := ⟨fun a b c hab hbc => le_trans hbc hab⟩
  have hsorted := pairwise_insertionSort (fun a b => date b ≤ date a) l
  have hnodup : (newestFirst date l).Pairwise fun a b => date a ≠ date b :=
    pairwise_map.1 ((newestFirst_perm.map date).nodup_iff.2 h)
  exact hsorted.imp₂ (fun _ _ hle hne => lt_of_le_of_ne hle (Ne.symm hne)) hnodup

theorem mem_take_falls (h : l.Pairwise fun a b => date b < date a) :
    a ∈ l.take k ↔ a ∈ l ∧ newer date (date a) l < k := by
  induction l generalizing k with
  | nil => simp
  | cons b l ih =>
    obtain ⟨hb, hl⟩ := pairwise_cons.1 h
    cases k with
    | zero => simp
    | succ k =>
      rw [take_succ_cons, mem_cons, mem_cons, ih hl, newer, newer, countP_cons]
      by_cases hab : a = b
      · subst hab
        have hnone : l.countP (fun c => date a < date c) = 0 :=
          countP_eq_zero.2 fun c hc => by simpa using (hb c hc).le
        simp [hnone]
      · by_cases ha : a ∈ l
        · simp [hab, ha, hb a ha]
        · simp [hab, ha]

/-- **The newest entries by counting.** -/
theorem mem_newest (h : (l.map date).Nodup) :
    a ∈ newest date k l ↔ a ∈ l ∧ newer date (date a) l < k := by
  rw [newest, mem_take_falls (newestFirst_falls h), newestFirst_perm.mem_iff, newer,
    newestFirst_perm.countP_eq, newer]

theorem newest_falls (h : (l.map date).Nodup) :
    (newest date k l).Pairwise fun a b => date b < date a :=
  (newestFirst_falls h).sublist (take_sublist _ _)

theorem eq_of_falls (h : l.Pairwise fun a b => date b < date a)
    (h' : l'.Pairwise fun a b => date b < date a) (hmem : ∀ a, a ∈ l ↔ a ∈ l') : l = l' := by
  have hne : ∀ {a b : α}, date b < date a → a ≠ b := by
    rintro a b hlt rfl
    exact lt_irrefl _ hlt
  have hperm : l.Perm l' := (perm_ext_iff_of_nodup (h.imp hne) (h'.imp hne)).2 hmem
  refine hperm.eq_of_pairwise ?_ h h'
  exact fun a b _ _ hab hba => absurd (hab.trans hba) (lt_irrefl _)

theorem newer_anti {x y : δ} (h : x ≤ y) : newer date y l ≤ newer date x l :=
  countP_mono_left fun _ _ hlt => by simpa using h.trans_lt (of_decide_eq_true hlt)

theorem newer_le_of_subset (h : l'.Nodup) (hsub : ∀ a ∈ l', a ∈ l) (x : δ) :
    newer date x l' ≤ newer date x l :=
  (subperm_of_subset h hsub).countP_le _

/-- **What is not among the newest does not matter.** -/
theorem newest_eq (h : (l.map date).Nodup) (h' : (l'.map date).Nodup)
    (hsub : ∀ a ∈ l', a ∈ l) (htop : ∀ a ∈ newest date k l, a ∈ l') :
    newest date k l' = newest date k l := by
  refine eq_of_falls (newest_falls h') (newest_falls h) fun a => ?_
  constructor
  · intro ha
    obtain ⟨hmem, hnewer⟩ := (mem_newest h').1 ha
    rw [mem_newest h]
    refine ⟨hsub a hmem, ?_⟩
    by_contra hmany
    -- then the newest `k` are all newer, and they are all here
    have hall : ∀ b ∈ newest date k l, date a < date b := by
      intro b hb
      by_contra hle
      have hanti : newer date (date a) l ≤ newer date (date b) l := newer_anti (not_lt.1 hle)
      have hfew := ((mem_newest h).1 hb).2
      omega
    have hlength : (newest date k l).length = k := by
      have hle : newer date (date a) l ≤ l.length := countP_le_length
      rw [newest, length_take, newestFirst_perm.length_eq]
      omega
    have hnodup : (newest date k l).Nodup :=
      (newestFirst_perm.nodup_iff.2 h.of_map).sublist (take_sublist _ _)
    have hcount : newer date (date a) (newest date k l) = k := by
      rw [newer, countP_eq_length.2 fun b hb => decide_eq_true (hall b hb), hlength]
    have hle : newer date (date a) (newest date k l) ≤ newer date (date a) l' :=
      newer_le_of_subset hnodup htop _
    omega
  · intro ha
    rw [mem_newest h']
    refine ⟨htop a ha, (newer_le_of_subset h'.of_map hsub _).trans_lt ((mem_newest h).1 ha).2⟩

end Keyed
