import Mathlib.Algebra.Order.BigOperators.Group.List
import Mathlib.Algebra.Order.Group.Nat
import Mathlib.Data.List.Nodup

/-!
# Tables with a primary key

A table is a list of rows whose keys are pairwise distinct; the distinctness is a field, so a table
that breaks its primary key cannot be built. Rows are added at the end and replaced in place, never
removed, which is all an append-and-update database does.

`Table.sum` adds up a measure of the rows. How an update changes such a sum is what ledgers kept
beside a table are about.

## Main results

* `Table.mem_iff_find?` — a row is in the table iff it is the one found under its key
* `Table.find?_insert` — lookups after a write
* `Table.Evolves` — rows over time
* `Table.sum_put`, `Table.sum_insert` — sums after a write
-/

namespace Keyed

open List

/-- Rows with pairwise distinct keys. -/
structure Table (κ ρ : Type) (key : ρ → κ) where
  rows : List ρ
  nodup : (rows.map key).Nodup

namespace Table

variable {κ ρ M : Type} [DecidableEq κ] {key : ρ → κ} {t : Table κ ρ key} {r x : ρ} {k : κ}

instance : Membership ρ (Table κ ρ key) where
  mem t r := r ∈ t.rows

omit [DecidableEq κ] in
theorem mem_def : r ∈ t ↔ r ∈ t.rows := Iff.rfl

/-- The row under a key. -/
def find? (t : Table κ ρ key) (k : κ) : Option ρ := t.rows.find? fun r => key r = k

/-- The table with no rows. -/
def empty : Table κ ρ key := ⟨[], nodup_nil⟩

theorem key_of_find? (h : t.find? k = some r) : key r = k := by
  simpa using find?_some h

theorem mem_of_find? (h : t.find? k = some r) : r ∈ t := mem_of_find?_eq_some h

private theorem find?_of_mem_list {l : List ρ} (hl : (l.map key).Nodup) (h : r ∈ l) :
    l.find? (fun x => key x = key r) = some r := by
  induction l with
  | nil => cases h
  | cons x l ih =>
    rw [map_cons, nodup_cons] at hl
    rcases mem_cons.mp h with rfl | hmem
    · simp
    · have hne : key x ≠ key r := fun hx => hl.1 (hx ▸ mem_map_of_mem hmem)
      rw [find?_cons_of_neg (by simpa using hne)]
      exact ih hl.2 hmem

theorem mem_iff_find? : r ∈ t ↔ t.find? (key r) = some r :=
  ⟨find?_of_mem_list t.nodup, mem_of_find?⟩

theorem eq_of_key (hr : r ∈ t) (hx : x ∈ t) (h : key r = key x) : r = x := by
  have h₁ := mem_iff_find?.mp hr
  rw [h, mem_iff_find?.mp hx] at h₁
  exact (Option.some.inj h₁).symm

theorem find?_eq_none : t.find? k = none ↔ ∀ r ∈ t, key r ≠ k := by
  simp [find?, mem_def]

/-! ### Writing -/

/-- The list with the row under `r`'s key replaced by `r`. -/
def putRows (key : ρ → κ) (l : List ρ) (r : ρ) : List ρ :=
  l.map fun x => if key x = key r then r else x

theorem map_key_putRows (l : List ρ) (r : ρ) : (putRows key l r).map key = l.map key := by
  rw [putRows, map_map]
  refine map_congr_left fun x _ => ?_
  by_cases h : key x = key r <;> simp [h]

/-- Replace the row under `r`'s key by `r`; nothing happens if there is none. -/
def put (t : Table κ ρ key) (r : ρ) : Table κ ρ key :=
  ⟨putRows key t.rows r, by rw [map_key_putRows]; exact t.nodup⟩

/-- Add a row under a new key. -/
def insert (t : Table κ ρ key) (r : ρ) (h : t.find? (key r) = none) : Table κ ρ key :=
  ⟨t.rows ++ [r], by
    rw [map_append, map_singleton, nodup_append]
    refine ⟨t.nodup, nodup_singleton _, fun a ha b hb => ?_⟩
    obtain ⟨x, hx, rfl⟩ := mem_map.mp ha
    rw [mem_singleton.mp hb]
    exact find?_eq_none.mp h x hx⟩

theorem mem_insert {h : t.find? (key r) = none} : x ∈ t.insert r h ↔ x ∈ t ∨ x = r := by
  simp [mem_def, insert]

theorem mem_put : x ∈ t.put r ↔ (x ∈ t ∧ key x ≠ key r) ∨ (x = r ∧ ∃ y ∈ t, key y = key r) := by
  simp only [mem_def, put, putRows, mem_map]
  constructor
  · rintro ⟨y, hy, rfl⟩
    by_cases h : key y = key r
    · exact .inr ⟨if_pos h, y, hy, h⟩
    · exact .inl ⟨by simpa [h] using hy, by rwa [if_neg h]⟩
  · rintro (⟨hx, hne⟩ | ⟨rfl, y, hy, h⟩)
    · exact ⟨x, hx, if_neg hne⟩
    · exact ⟨y, hy, by simp [h]⟩

theorem find?_put_self (h : t.find? (key r) = some x) : (t.put r).find? (key r) = some r := by
  refine mem_iff_find?.mp (mem_put.mpr (.inr ⟨rfl, x, mem_of_find? h, key_of_find? h⟩))

theorem find?_put_of_ne (h : k ≠ key r) : (t.put r).find? k = t.find? k := by
  cases hk : t.find? k with
  | none =>
    rw [find?_eq_none] at hk ⊢
    intro y hy
    rcases mem_put.mp hy with ⟨hy, -⟩ | ⟨rfl, -⟩
    · exact hk y hy
    · exact fun hc => h hc.symm
  | some y =>
    have hkey := key_of_find? hk
    subst hkey
    exact mem_iff_find?.mp (mem_put.mpr (.inl ⟨mem_of_find? hk, h⟩))

theorem find?_insert {h : t.find? (key r) = none} :
    (t.insert r h).find? k = if k = key r then some r else t.find? k := by
  by_cases hk : k = key r
  · subst hk
    rw [if_pos rfl]
    exact mem_iff_find?.mp (mem_insert.mpr (.inr rfl))
  · rw [if_neg hk]
    cases hf : t.find? k with
    | none =>
      rw [find?_eq_none] at hf ⊢
      intro y hy
      rcases mem_insert.mp hy with hy | rfl
      · exact hf y hy
      · exact fun hc => hk hc.symm
    | some y =>
      have hkey := key_of_find? hf
      subst hkey
      exact mem_iff_find?.mp (mem_insert.mpr (.inl (mem_of_find? hf)))

/-! ### Rows over time -/

/-- Every row of `t` is still there in `t'`, related to what it was by `R`. -/
def Evolves (R : ρ → ρ → Prop) (t t' : Table κ ρ key) : Prop :=
  ∀ k r, t.find? k = some r → ∃ r', t'.find? k = some r' ∧ R r r'

section Evolves

variable {R : ρ → ρ → Prop} {t' t'' : Table κ ρ key}

theorem Evolves.refl (h : ∀ r, R r r) : t.Evolves R t := fun _ r hr => ⟨r, hr, h r⟩

theorem Evolves.trans (h : ∀ {a b c}, R a b → R b c → R a c) (h₁ : t.Evolves R t')
    (h₂ : t'.Evolves R t'') : t.Evolves R t'' := by
  intro k r hr
  obtain ⟨r', hr', h'⟩ := h₁ k r hr
  obtain ⟨r'', hr'', h''⟩ := h₂ k r' hr'
  exact ⟨r'', hr'', h h' h''⟩

theorem Evolves.insert (hR : ∀ r, R r r) (h : t.find? (key r) = none) :
    t.Evolves R (t.insert r h) := by
  intro k x hx
  have hne : k ≠ key r := fun hk => by rw [hk, h] at hx; cases hx
  exact ⟨x, by rw [find?_insert, if_neg hne, hx], hR x⟩

theorem Evolves.put (hR : ∀ r, R r r) (hx : t.find? (key r) = some x) (h : R x r) :
    t.Evolves R (t.put r) := by
  intro k y hy
  by_cases hk : k = key r
  · subst hk
    rw [hx, Option.some.injEq] at hy
    exact ⟨r, find?_put_self hx, hy ▸ h⟩
  · exact ⟨y, by rw [find?_put_of_ne hk, hy], hR y⟩

end Evolves

/-! ### Sums over the rows -/

variable [AddCommMonoid M] {f g : ρ → M}

/-- The sum of a measure over all rows. -/
def sum (t : Table κ ρ key) (f : ρ → M) : M := (t.rows.map f).sum

theorem sum_insert {h : t.find? (key r) = none} : (t.insert r h).sum f = t.sum f + f r := by
  simp [sum, insert]

private theorem putRows_of_absent {l : List ρ} (h : ∀ y ∈ l, key y ≠ key r) :
    putRows key l r = l := by
  rw [putRows]
  conv_rhs => rw [← map_id l]
  exact map_congr_left fun y hy => by simp [h y hy]

private theorem sum_putRows {l : List ρ} (hl : (l.map key).Nodup) (hx : x ∈ l)
    (hk : key x = key r) : ((putRows key l r).map f).sum + f x = (l.map f).sum + f r := by
  induction l with
  | nil => cases hx
  | cons y l ih =>
    rw [map_cons, nodup_cons] at hl
    have hcons : putRows key (y :: l) r = (if key y = key r then r else y) :: putRows key l r := rfl
    rw [hcons, map_cons, sum_cons, map_cons, sum_cons]
    rcases mem_cons.mp hx with rfl | hmem
    · have habsent : ∀ y ∈ l, key y ≠ key r := fun y hy hyr =>
        hl.1 (by rw [hk, ← hyr]; exact mem_map_of_mem hy)
      rw [putRows_of_absent habsent, if_pos hk, add_right_comm, add_right_comm (f x),
        add_comm (f r)]
    · have hne : key y ≠ key r := fun hyr => hl.1 (by rw [hyr, ← hk]; exact mem_map_of_mem hmem)
      rw [if_neg hne, add_assoc, ih hl.2 hmem, add_assoc]

/-- **Sums after an update**: the old row's share goes, the new row's share comes. -/
theorem sum_put (h : t.find? (key r) = some x) : (t.put r).sum f + f x = t.sum f + f r :=
  sum_putRows t.nodup (mem_of_find? h) (key_of_find? h)

end Table

end Keyed
