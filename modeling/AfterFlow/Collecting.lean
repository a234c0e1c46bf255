import Mathlib.Data.List.Basic
import Mathlib.Order.Lattice

/-!
# Loops that stop when they have enough

A search appends what it finds to a list and returns from the middle of its loops when the list is
long enough. Here a loop is a function of the list so far, and an `error` is the return.
`Collects limit loop all` is the contract: a loop that is begun with room in the list appends all of
`all`, or as much of it as there is room for. It is kept by sequencing and by nesting loops, so the
loops of a search need no invariant of their own.
-/

namespace AfterFlow.Collecting

open List

variable {α β : Type} {limit : ℕ} {all more : List β}

/-- Append a result, and return if there are enough. -/
def push (limit : ℕ) (found : List β) (result : β) : Except (List β) (List β) :=
  if limit ≤ (found ++ [result]).length then .error (found ++ [result]) else .ok (found ++ [result])

/-- The loop appends `all`, or as much as there is room for. -/
def Collects (limit : ℕ) (loop : List β → Except (List β) (List β)) (all : List β) : Prop :=
  ∀ found, found.length < limit → loop found =
    if limit ≤ (found ++ all).length then .error ((found ++ all).take limit) else .ok (found ++ all)

/-- A search, and whether it returned early. -/
def collect (loop : List β → Except (List β) (List β)) : List β × Bool :=
  match loop [] with
  | .error found => (found, true)
  | .ok found => (found, false)

theorem collects_ok : Collects limit (fun found => .ok found) ([] : List β) := by
  intro found hroom
  rw [append_nil, if_neg (not_le.2 hroom)]

theorem collects_push (result : β) : Collects limit (fun found => push limit found result) [result] := by
  intro found hroom
  show push limit found result = _
  rw [push]
  split
  · rw [take_of_length_le]
    rw [length_append, length_singleton]
    omega
  · rfl

theorem Collects.bind {loop next : List β → Except (List β) (List β)}
    (hloop : Collects limit loop all) (hnext : Collects limit next more) :
    Collects limit (fun found => loop found >>= next) (all ++ more) := by
  intro found hroom
  show loop found >>= next = _
  rw [hloop found hroom, ← append_assoc]
  by_cases hfull : limit ≤ (found ++ all).length
  · have hmore : limit ≤ (found ++ all ++ more).length := by
      rw [length_append]
      omega
    rw [if_pos hfull, if_pos hmore, take_append_of_le_length hfull]
    rfl
  · rw [if_neg hfull]
    exact hnext _ (not_le.1 hfull)

theorem Collects.foldlM {l : List α} {step : List β → α → Except (List β) (List β)}
    {results : α → List β} (h : ∀ a ∈ l, Collects limit (fun found => step found a) (results a)) :
    Collects limit (fun found => l.foldlM step found) (l.flatMap results) := by
  induction l with
  | nil => exact collects_ok
  | cons a l ih =>
    have hhead := h a mem_cons_self
    have htail := ih fun b hb => h b (mem_cons_of_mem a hb)
    rw [flatMap_cons]
    exact hhead.bind htail

theorem Collects.ite {p : Prop} [Decidable p] {loop : List β → Except (List β) (List β)}
    (h : p → Collects limit loop all) :
    Collects limit (fun found => if p then loop found else .ok found) (if p then all else []) := by
  by_cases hp : p
  · simp only [if_pos hp]
    exact h hp
  · simp only [if_neg hp]
    exact collects_ok

theorem Collects.foldlM_filter (l : List α) (p : α → Bool)
    {step : List β → α → Except (List β) (List β)} {results : α → List β}
    (h : ∀ a, Collects limit (fun found => step found a) (results a)) :
    Collects limit (fun found => l.foldlM (fun found a => if p a then step found a else .ok found)
      found) ((l.filter p).flatMap results) := by
  have hall : (l.filter p).flatMap results = l.flatMap fun a => if p a then results a else [] := by
    induction l with
    | nil => rfl
    | cons a l ih =>
      rw [filter_cons, flatMap_cons, ← ih]
      split
      · rw [flatMap_cons]
      · rw [nil_append]
  rw [hall]
  exact Collects.foldlM fun a _ => Collects.ite fun _ => h a

theorem collects_filter (l : List α) (p : α → Bool) (result : α → β) :
    Collects limit (fun found => l.foldlM (fun found a =>
      if p a then push limit found (result a) else .ok found) found) ((l.filter p).map result) := by
  rw [map_eq_flatMap]
  exact Collects.foldlM_filter l p fun a => collects_push (result a)

/-- **The search** finds the first results, and returns early if there are no fewer than it wants. -/
theorem Collects.collect_eq {loop : List β → Except (List β) (List β)}
    (h : Collects limit loop all) (hlimit : 0 < limit) :
    collect loop = (all.take limit, decide (limit ≤ all.length)) := by
  rw [collect, h [] hlimit, nil_append]
  by_cases hfull : limit ≤ all.length
  · rw [if_pos hfull, decide_eq_true hfull]
  · rw [if_neg hfull, decide_eq_false hfull, take_of_length_le (Nat.le_of_not_le hfull)]

end AfterFlow.Collecting
