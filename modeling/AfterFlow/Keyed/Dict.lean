import Mathlib.Data.Finmap

/-!
# Dictionaries

A dictionary as a finite map, with the operations scripts use on them: overwriting by a list of
pairs one after the other, and setting a default. Two dictionaries *agree off* a key if they have
the same values under all others; then so do the results of the same operations, and overwriting
that key makes the dictionaries equal.

## Main results

* `Dict.lookup_update`, `Dict.lookup_setDefault` — what the operations do to a lookup
* `Dict.AgreeOff.eq` — dictionaries that agree off a key and at it are equal
-/

namespace Keyed

open List Option

/-- A dictionary from keys `κ` to values `ν`. -/
abbrev Dict (κ ν : Type) := Finmap fun _ : κ => ν

namespace Dict

variable {κ ν : Type} [DecidableEq κ]

/-- `d.update(pairs)`: later pairs win. -/
def update (d : Dict κ ν) (pairs : List (κ × ν)) : Dict κ ν :=
  pairs.foldl (fun d p => d.insert p.1 p.2) d

/-- `d.setdefault(key, value)`. -/
def setDefault (d : Dict κ ν) (k : κ) (v : ν) : Dict κ ν :=
  if (d.lookup k).isSome then d else d.insert k v

/-- The last value a list of pairs has for a key. -/
def lastOf : List (κ × ν) → κ → Option ν
  | [], _ => none
  | p :: pairs, k => (lastOf pairs k).or (if p.1 = k then some p.2 else none)

variable {d d' : Dict κ ν} {pairs pairs' : List (κ × ν)} {k k' : κ} {v : ν}

theorem lookup_insert_eq : (d.insert k v).lookup k' = if k' = k then some v else d.lookup k' := by
  split
  · rename_i h
    rw [h, Finmap.lookup_insert]
  · rename_i h
    exact Finmap.lookup_insert_of_ne d h

theorem lookup_setDefault :
    (d.setDefault k v).lookup k' =
      if k' = k then some ((d.lookup k).getD v) else d.lookup k' := by
  rw [setDefault]
  cases h : d.lookup k with
  | some w =>
    rw [isSome_some, if_pos rfl]
    split
    · rename_i hk
      rw [hk, h]
      rfl
    · rfl
  | none => exact lookup_insert_eq

@[simp] theorem update_cons {p : κ × ν} :
    d.update (p :: pairs) = Dict.update (d.insert p.1 p.2) pairs := rfl

theorem lastOf_cons {p : κ × ν} :
    lastOf (p :: pairs) k = (lastOf pairs k).or (if p.1 = k then some p.2 else none) := rfl

theorem lookup_update : (d.update pairs).lookup k = (lastOf pairs k).or (d.lookup k) := by
  induction pairs generalizing d with
  | nil => rfl
  | cons p pairs ih =>
    rw [update_cons, ih, lookup_insert_eq, lastOf_cons, Option.or_assoc]
    by_cases h : p.1 = k
    · rw [if_pos h, if_pos h.symm]
      rfl
    · rw [if_neg h, if_neg fun hk => h hk.symm]
      rfl

theorem lastOf_eq_none (h : ∀ p ∈ pairs, p.1 ≠ k) : lastOf pairs k = none := by
  induction pairs with
  | nil => rfl
  | cons p pairs ih =>
    rw [lastOf_cons, ih fun q hq => h q (mem_cons_of_mem _ hq),
      if_neg (h p mem_cons_self)]
    rfl

theorem lastOf_filter (keep : κ → Bool) (hk : keep k = true) :
    lastOf (pairs.filter fun p => keep p.1) k = lastOf pairs k := by
  induction pairs with
  | nil => rfl
  | cons p pairs ih =>
    rw [filter_cons]
    split
    · rw [lastOf_cons, lastOf_cons, ih]
    · rename_i hp
      have hne : p.1 ≠ k := fun h => hp (h ▸ hk)
      rw [ih, lastOf_cons, if_neg hne, or_none]

/-! ### Agreement off a key -/

/-- The same values under every key but `k`. -/
def AgreeOff (k : κ) (d d' : Dict κ ν) : Prop := ∀ k', k' ≠ k → d.lookup k' = d'.lookup k'

theorem AgreeOff.refl : AgreeOff k d d := fun _ _ => rfl

theorem AgreeOff.eq (h : AgreeOff k d d') (hk : d.lookup k = d'.lookup k) : d = d' :=
  Finmap.ext_lookup fun k' => if hne : k' = k then hne ▸ hk else h k' hne

theorem AgreeOff.insert (h : AgreeOff k d d') : AgreeOff k (d.insert k' v) (d'.insert k' v) := by
  intro k'' hne
  rw [lookup_insert_eq, lookup_insert_eq, h k'' hne]

theorem AgreeOff.setDefault (h : AgreeOff k d d') :
    AgreeOff k (d.setDefault k' v) (d'.setDefault k' v) := by
  intro k'' hne
  rw [lookup_setDefault, lookup_setDefault, h k'' hne]
  split
  · rename_i heq
    rw [← heq, h k'' hne]
  · rfl

theorem AgreeOff.erase (h : AgreeOff k d d') : AgreeOff k (d.erase k') (d'.erase k') := by
  intro k'' hne
  by_cases hk : k'' = k'
  · rw [hk, Finmap.lookup_erase, Finmap.lookup_erase]
  · rw [Finmap.lookup_erase_ne hk, Finmap.lookup_erase_ne hk, h k'' hne]

theorem AgreeOff.update (h : AgreeOff k d d')
    (hp : pairs.filter (fun p => p.1 ≠ k) = pairs'.filter fun p => p.1 ≠ k) :
    AgreeOff k (d.update pairs) (d'.update pairs') := by
  intro k' hne
  have hkeep : decide (k' ≠ k) = true := decide_eq_true hne
  rw [lookup_update, lookup_update, h k' hne, ← lastOf_filter (fun q => decide (q ≠ k)) hkeep, hp,
    lastOf_filter (fun q => decide (q ≠ k)) hkeep]

end Dict

end Keyed
