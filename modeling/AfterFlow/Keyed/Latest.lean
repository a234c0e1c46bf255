import Mathlib.Data.List.DropRight
import Mathlib.Data.List.Nodup
import Mathlib.Data.List.Perm.Subperm

/-!
# The last and the first entry under each key

A list of entries under keys, of which only the last under each key stays. What comes later
displaces what came before it under the same key, and leaves the others in their order. Where the
first stays, what comes later under the same key is nothing new.

## Main results

* `latest_of_nodup` — a list without repeated keys stays
* `latest_append` — lists under different keys
* `latest_filter` — entries may be chosen by their keys before or after
* `latest_displaced` — entries that come again do not matter
* `latest_append_filter` — more entries displace those under their keys
* `rtake_latest_append` — a cap on the number of entries
* `firsts_concat` — one more entry
* `lookup_firsts` — nothing else is looked up
* `update_lookup` — a table that is kept beside the entries
-/

namespace Keyed

open List Option

variable {κ α : Type} [DecidableEq κ]

/-- The keys of a list. -/
abbrev keys (l : List (κ × α)) : List κ := l.map Prod.fst

/-- The last entry under each key. -/
@[grind =] def latest : List (κ × α) → List (κ × α)
  | [] => []
  | p :: l => if p.1 ∈ keys l then latest l else p :: latest l

variable {l l₁ l₂ l₃ : List (κ × α)} {p : κ × α} {k : κ}

theorem latest_cons_of_mem (h : p.1 ∈ keys l) : latest (p :: l) = latest l := if_pos h

theorem latest_cons_of_not_mem (h : p.1 ∉ keys l) : latest (p :: l) = p :: latest l := if_neg h

theorem latest_sublist : (latest l).Sublist l := by
  induction l with
  | nil => exact .slnil
  | cons p l ih =>
    by_cases h : p.1 ∈ keys l
    · rw [latest_cons_of_mem h]
      exact ih.cons p
    · rw [latest_cons_of_not_mem h]
      exact ih.cons_cons p

theorem mem_keys_latest : k ∈ keys (latest l) ↔ k ∈ keys l := by
  refine ⟨fun h => (latest_sublist.map Prod.fst).subset h, fun h => ?_⟩
  induction l with
  | nil => exact h
  | cons p l ih =>
    by_cases hp : p.1 ∈ keys l
    · rw [latest_cons_of_mem hp]
      rcases mem_cons.1 h with rfl | h
      · exact ih hp
      · exact ih h
    · rw [latest_cons_of_not_mem hp]
      rcases mem_cons.1 h with rfl | h
      · exact mem_cons_self
      · exact mem_cons_of_mem _ (ih h)

/-- **A list without repeated keys stays.** -/
theorem latest_of_nodup (h : (keys l).Nodup) : latest l = l := by
  induction l with
  | nil => rfl
  | cons p l ih =>
    obtain ⟨hp, hl⟩ := nodup_cons.1 h
    rw [latest_cons_of_not_mem hp, ih hl]

theorem latest_append (h : ∀ k ∈ keys l₁, k ∉ keys l₂) :
    latest (l₁ ++ l₂) = latest l₁ ++ latest l₂ := by
  induction l₁ with
  | nil => rfl
  | cons p l₁ ih =>
    have hkeys : p.1 ∈ keys (l₁ ++ l₂) ↔ p.1 ∈ keys l₁ := by
      rw [keys, map_append, mem_append]
      exact or_iff_left (h p.1 mem_cons_self)
    have ih' := ih fun k hk => h k (mem_cons_of_mem _ hk)
    rw [cons_append]
    by_cases hp : p.1 ∈ keys l₁
    · rw [latest_cons_of_mem (hkeys.2 hp), latest_cons_of_mem hp, ih']
    · rw [latest_cons_of_not_mem fun h' => hp (hkeys.1 h'), latest_cons_of_not_mem hp, ih',
        cons_append]

/-- **Entries may be chosen by their keys before or after.** -/
theorem latest_filter (P : κ → Bool) :
    (latest l).filter (fun p => P p.1) = latest (l.filter fun p => P p.1) := by
  induction l with
  | nil => rfl
  | cons p l ih =>
    cases hP : P p.1 with
    | false =>
      rw [filter_cons_of_neg (by simp [hP]), ← ih]
      by_cases h : p.1 ∈ keys l
      · rw [latest_cons_of_mem h]
      · rw [latest_cons_of_not_mem h, filter_cons_of_neg (by simp [hP])]
    | true =>
      have hkeys : p.1 ∈ keys (l.filter fun q => P q.1) ↔ p.1 ∈ keys l := by
        refine ⟨fun h => (filter_sublist.map Prod.fst).subset h, fun h => ?_⟩
        obtain ⟨q, hq, hqp⟩ := mem_map.1 h
        exact mem_map.2 ⟨q, mem_filter.2 ⟨hq, by rw [hqp, hP]⟩, hqp⟩
      rw [filter_cons_of_pos (by simp [hP])]
      by_cases h : p.1 ∈ keys l
      · rw [latest_cons_of_mem h, latest_cons_of_mem (hkeys.2 h), ih]
      · rw [latest_cons_of_not_mem h, latest_cons_of_not_mem (fun h' => h (hkeys.1 h')),
          filter_cons_of_pos (by simp [hP]), ih]

/-- **Entries that come again do not matter.** -/
theorem latest_displaced (h : ∀ k ∈ keys l₂, k ∈ keys l₃) :
    latest (l₁ ++ l₂ ++ l₃) = latest (l₁ ++ l₃) := by
  induction l₁ with
  | nil =>
    induction l₂ with
    | nil => rfl
    | cons p l₂ ih =>
      have hp : p.1 ∈ keys (l₂ ++ l₃) := by
        rw [keys, map_append]
        exact mem_append_right _ (h _ mem_cons_self)
      exact (latest_cons_of_mem hp).trans (ih fun k hk => h k (mem_cons_of_mem _ hk))
  | cons p l₁ ih =>
    have hkeys : p.1 ∈ keys (l₁ ++ l₂ ++ l₃) ↔ p.1 ∈ keys (l₁ ++ l₃) := by
      simp only [keys, map_append, mem_append]
      exact ⟨fun hp => hp.elim (fun hp => hp.imp_right (h _)) .inr, fun hp => hp.imp_left .inl⟩
    rw [cons_append, cons_append, cons_append]
    by_cases hp : p.1 ∈ keys (l₁ ++ l₂ ++ l₃)
    · rw [latest_cons_of_mem hp, latest_cons_of_mem (hkeys.1 hp), ih]
    · rw [latest_cons_of_not_mem hp, latest_cons_of_not_mem (fun h' => hp (hkeys.2 h')), ih]

/-- **More entries** displace those under their keys. -/
theorem latest_append_filter :
    latest (l₁ ++ l₂) = (latest l₁).filter (fun p => p.1 ∉ keys l₂) ++ latest l₂ := by
  induction l₁ with
  | nil => rfl
  | cons p l₁ ih =>
    have hkeys : p.1 ∈ keys (l₁ ++ l₂) ↔ p.1 ∈ keys l₁ ∨ p.1 ∈ keys l₂ := by
      rw [keys, map_append, mem_append]
    rw [cons_append]
    by_cases h₁ : p.1 ∈ keys l₁
    · rw [latest_cons_of_mem (hkeys.2 (.inl h₁)), latest_cons_of_mem h₁, ih]
    · rw [latest_cons_of_not_mem h₁]
      by_cases h₂ : p.1 ∈ keys l₂
      · rw [latest_cons_of_mem (hkeys.2 (.inr h₂)), filter_cons_of_neg (by simpa using h₂), ih]
      · rw [latest_cons_of_not_mem fun h => (hkeys.1 h).elim h₁ h₂,
          filter_cons_of_pos (by simpa using h₂), ih, cons_append]

theorem nodup_keys_latest : (keys (latest l)).Nodup := by
  induction l with
  | nil => exact nodup_nil
  | cons p l ih =>
    by_cases h : p.1 ∈ keys l
    · rwa [latest_cons_of_mem h]
    · rw [latest_cons_of_not_mem h]
      exact nodup_cons.2 ⟨fun hp => h (mem_keys_latest.1 hp), ih⟩

theorem latest_latest_append : latest (latest l₁ ++ l₂) = latest (l₁ ++ l₂) := by
  rw [latest_append_filter, latest_append_filter, latest_of_nodup nodup_keys_latest]

omit [DecidableEq κ] in
theorem rtake_append_of_le {x y : List (κ × α)} {n : ℕ} (h : n ≤ y.length) :
    (x ++ y).rtake n = y.rtake n := by
  rw [List.rtake, List.rtake, length_append, Nat.add_sub_assoc h, drop_append]
  simp

/-- The last `n` entries of a list without repeated keys are enough to tell the last `n` once more
entries have come. -/
theorem rtake_latest_append {n : ℕ} (h : (keys l₁).Nodup) :
    (latest (l₁.rtake n ++ l₂)).rtake n = (latest (l₁ ++ l₂)).rtake n := by
  by_cases hn : l₁.length ≤ n
  · have hall : l₁.rtake n = l₁ := by rw [List.rtake, Nat.sub_eq_zero_of_le hn, drop_zero]
    rw [hall]
  · obtain ⟨older, newer, rfl, hlength⟩ : ∃ older newer, l₁ = older ++ newer ∧ newer.length = n :=
      ⟨_, _, (take_append_drop (l₁.length - n) l₁).symm, by simp; omega⟩
    have hnewer : (keys newer).Nodup := by
      rw [keys, map_append] at h
      exact h.of_append_right
    have hrtake : (older ++ newer).rtake n = newer := by
      rw [rtake_append_of_le hlength.ge, List.rtake, hlength, Nat.sub_self, drop_zero]
    -- the newer entries alone have `n` keys
    have hcount : n ≤ (latest (newer ++ l₂)).length := by
      have hsub : keys newer ⊆ keys (latest (newer ++ l₂)) := by
        intro k hk
        refine mem_keys_latest.2 ?_
        rw [keys, map_append, mem_append]
        exact .inl hk
      have hle := (hnewer.subperm hsub).length_le
      rwa [keys, keys, length_map, length_map, hlength] at hle
    have hsplit : latest (older ++ (newer ++ l₂)) = (latest older).filter
        (fun p => p.1 ∉ keys (newer ++ l₂)) ++ latest (newer ++ l₂) := latest_append_filter
    rw [hrtake, append_assoc, hsplit, rtake_append_of_le hcount]

/-! ### The first entry under each key -/

/-- The first entry under each key. -/
def firsts (l : List (κ × α)) : List (κ × α) := (latest l.reverse).reverse

/-- **One more entry.** -/
theorem firsts_concat : firsts (l ++ [p]) = if p.1 ∈ keys l then firsts l else firsts l ++ [p] := by
  have hkeys : p.1 ∈ keys l.reverse ↔ p.1 ∈ keys l := by
    rw [keys, map_reverse, mem_reverse]
  rw [firsts, reverse_append, reverse_singleton, singleton_append]
  by_cases h : p.1 ∈ keys l
  · rw [if_pos h, latest_cons_of_mem (hkeys.2 h), firsts]
  · rw [if_neg h, latest_cons_of_not_mem fun h' => h (hkeys.1 h'), reverse_cons, firsts]

theorem firsts_sublist : (firsts l).Sublist l := by
  simpa [firsts] using (latest_sublist (l := l.reverse)).reverse

theorem mem_keys_firsts : k ∈ keys (firsts l) ↔ k ∈ keys l := by
  have h : k ∈ keys (latest l.reverse) ↔ k ∈ keys l.reverse := mem_keys_latest
  simpa [firsts, keys] using h

theorem nodup_keys_firsts : (keys (firsts l)).Nodup := by
  induction l using List.reverseRecOn with
  | nil => exact nodup_nil
  | append_singleton l p ih =>
    rw [firsts_concat]
    split
    · exact ih
    · rename_i h
      rw [keys, map_append]
      refine ih.append (nodup_singleton _) fun k hk hp => ?_
      obtain rfl := mem_singleton.1 hp
      exact h (mem_keys_firsts.1 hk)

theorem lookup_isSome : (l.lookup k).isSome ↔ k ∈ keys l := by
  rw [lookup_isSome_iff, List.mem_map]
  refine exists_congr fun p => and_congr_right fun _ => ?_
  rw [beq_iff_eq, eq_comm]

/-- **Nothing else is looked up** than the first entry under a key. -/
theorem lookup_firsts : (firsts l).lookup k = l.lookup k := by
  induction l using List.reverseRecOn with
  | nil => rfl
  | append_singleton l p ih =>
    rw [firsts_concat, lookup_append]
    by_cases hp : p.1 ∈ keys l
    · rw [if_pos hp, ih]
      by_cases hk : k = p.1
      · obtain ⟨a, ha⟩ := isSome_iff_exists.1 (lookup_isSome.2 hp)
        rw [hk, ha, some_or]
      · rw [lookup_cons, beq_false_of_ne hk, lookup_nil, or_none]
    · rw [if_neg hp, lookup_append, ih]

theorem lookup_concat_known {k' : κ} (h : p.1 ∈ keys l) : (l ++ [p]).lookup k' = l.lookup k' := by
  rw [← lookup_firsts, firsts_concat, if_pos h, lookup_firsts]

theorem update_lookup {β : Type} {f : κ → Option β} {g : α → β}
    (hf : ∀ k, f k = (l.lookup k).map g) (h : p.1 ∉ keys l) (k : κ) :
    Function.update f p.1 (some (g p.2)) k = ((l ++ [p]).lookup k).map g := by
  rw [lookup_append]
  by_cases hk : k = p.1
  · have hnone : l.lookup p.1 = none := by
      rwa [← not_isSome_iff_eq_none, lookup_isSome]
    rw [hk, Function.update_self, hnone, none_or, lookup_cons_self, map_some]
  · rw [Function.update_of_ne hk, lookup_cons, beq_false_of_ne hk, lookup_nil,
      or_none, hf]

end Keyed
