import AfterFlow.Keyed.Table
import AfterFlow.PyStr
import Mathlib.Data.Finset.Card

/-!
# The delegation ledger

The channel `delegations` of a thread's state holds what was delegated to subagents. Its reducer
`merge_delegations` reads the entries of the ledger and of an update one after the other into a
dictionary: the latest entry of an id stays, in the place of the first, with the first `created_at`
that was given, and an entry that would take back a terminal status is skipped. The last 50 entries
are kept.

An entry is a dictionary, so a field may be missing; an `id` or a `status` that is looked up and
missing raises a `KeyError`. `None` counts as the empty list.

## Main results

* `Absorbed.concat` — what one more entry does
* `mergeDelegations_append` — two batches are one, if there are few ids
* `delegations_reduce` — the reducer's laws
-/

namespace AfterFlow.Agents

open Keyed List Option

/-! ### Entries -/

structure DelegationEntry where
  id : Option String
  description : Option String := none
  subagentType : Option String := none
  status : Option String := none
  resultBrief : Option String := none
  resultSha256 : Option String := none
  resultRef : Option String := none
  stopReason : Option String := none
  createdAt : Option String := none
  deriving DecidableEq

/-- `TERMINAL_STATUSES`. -/
def terminalStatuses : List String :=
  ["completed", "failed", "cancelled", "timed_out", "polling_timed_out"]

/-- `_DELEGATION_LEDGER_MAX_ENTRIES`. -/
def delegationLedgerMaxEntries : ℕ := 50

structure KeyError where
  key : String
  deriving DecidableEq

/-- Equality of results, for the examples. -/
instance {α : Type} [DecidableEq α] : DecidableEq (Except KeyError α)
  | .ok a, .ok b => decidable_of_iff (a = b) (by simp)
  | .error a, .error b => decidable_of_iff (a = b) (by simp)
  | .ok _, .error _ => isFalse (by simp)
  | .error _, .ok _ => isFalse (by simp)

namespace DelegationEntry

/-- The status is terminal. -/
def IsTerminal (e : DelegationEntry) : Prop := ∃ status ∈ e.status, status ∈ terminalStatuses

/-- `entry.get("created_at")` is truthy. -/
def HasCreatedAt (e : DelegationEntry) : Prop := e.createdAt.getD "" ≠ ""

instance (e : DelegationEntry) : Decidable e.HasCreatedAt := inferInstanceAs (Decidable (_ ≠ _))

end DelegationEntry

/-! ### The reducer -/

/-- The entries by id, in the order the ids were first seen. -/
abbrev DelegationTable := Table String (String × DelegationEntry) Prod.fst

/-- The entry would replace a terminal status by one that is not. -/
def downgrades (previous entry : DelegationEntry) : Except KeyError Bool :=
  match previous.status with
  | none => .error ⟨"status"⟩
  | some status =>
    if status ∈ terminalStatuses then
      match entry.status with
      | none => .error ⟨"status"⟩
      | some status' => .ok (decide (status' ∉ terminalStatuses))
    else .ok false

/-- The entry with the `created_at` of the previous one, if that has any. -/
def keepCreatedAt (previous entry : DelegationEntry) : DelegationEntry :=
  if previous.HasCreatedAt then { entry with createdAt := previous.createdAt } else entry

/-- The loop body of `merge_delegations`. -/
def absorb (byId : DelegationTable) (entry : DelegationEntry) : Except KeyError DelegationTable :=
  match entry.id with
  | none => .error ⟨"id"⟩
  | some entryId =>
    match h : byId.find? entryId with
    | none => .ok (byId.insert (entryId, entry) h)
    | some (_, previous) => do
      if ← downgrades previous entry then .ok byId
      else .ok (byId.put (entryId, keepCreatedAt previous entry))

/-- The loop of `merge_delegations`. -/
def absorbAll (byId : DelegationTable) (entries : List DelegationEntry) :
    Except KeyError DelegationTable :=
  entries.foldlM absorb byId

/-- `merge_delegations`. -/
def mergeDelegations (existing new : List DelegationEntry) :
    Except KeyError (List DelegationEntry) :=
  if new.isEmpty then .ok existing
  else do
    let byId ← absorbAll .empty (existing ++ new)
    let merged := byId.rows.map Prod.snd
    .ok (merged.rtake delegationLedgerMaxEntries)

/-- One update after the other. -/
def mergeBatches (existing : List DelegationEntry) (batches : List (List DelegationEntry)) :
    Except KeyError (List DelegationEntry) :=
  batches.foldlM mergeDelegations existing

/-- The ids of a list of entries. -/
def entryIds (l : List DelegationEntry) : List String := l.filterMap DelegationEntry.id

/-! ### One entry -/

variable {t t' : DelegationTable} {e p : DelegationEntry} {l l' : List DelegationEntry}

theorem downgrades_eq_ok {b : Bool} (h : downgrades p e = .ok b) :
    b = true ↔ p.IsTerminal ∧ ¬e.IsTerminal := by
  rw [downgrades] at h
  cases hp : p.status with
  | none => simp [hp] at h
  | some status =>
    simp only [hp] at h
    by_cases hstatus : status ∈ terminalStatuses
    · rw [if_pos hstatus] at h
      cases he : e.status with
      | none => simp [he] at h
      | some status' =>
        simp only [he, Except.ok.injEq] at h
        simp [← h, DelegationEntry.IsTerminal, hp, he, hstatus]
    · rw [if_neg hstatus, Except.ok.injEq] at h
      simp [← h, DelegationEntry.IsTerminal, hp, hstatus]

/-- What an entry does to the table: it is added under a new id, skipped, or put in place. -/
inductive Absorbs (t : DelegationTable) (e : DelegationEntry) : DelegationTable → Prop
  | added (id : String) (hid : e.id = some id) (h : t.find? id = none) :
      Absorbs t e (t.insert (id, e) h)
  | skipped (id : String) (p : DelegationEntry) (hid : e.id = some id)
      (h : t.find? id = some (id, p)) (hp : p.IsTerminal) (he : ¬e.IsTerminal) : Absorbs t e t
  | replaced (id : String) (p : DelegationEntry) (hid : e.id = some id)
      (h : t.find? id = some (id, p)) (hp : p.IsTerminal → e.IsTerminal) :
      Absorbs t e (t.put (id, keepCreatedAt p e))

theorem absorbs_of_absorb (h : absorb t e = .ok t') : Absorbs t e t' := by
  rw [absorb] at h
  split at h
  · cases h
  · rename_i id hid
    split at h
    · rename_i hfind
      obtain rfl := Except.ok.inj h
      exact .added id hid hfind
    · rename_i id' p hfind
      obtain rfl : id' = id := Table.key_of_find? hfind
      cases hdown : downgrades p e with
      | error error => simp [hdown, bind, Except.bind] at h
      | ok b =>
        have hb := downgrades_eq_ok hdown
        simp only [hdown, bind, Except.bind] at h
        split at h
        · rename_i htrue
          obtain rfl := Except.ok.inj h
          obtain ⟨hp, he⟩ := hb.1 htrue
          exact .skipped id' p hid hfind hp he
        · rename_i hfalse
          obtain rfl := Except.ok.inj h
          exact .replaced id' p hid hfind fun hp => by
            by_contra he
            exact hfalse (hb.2 ⟨hp, he⟩)

/-! ### Many entries -/

/-- What the table holds after the entries of `l`. -/
structure Absorbed (l : List DelegationEntry) (t : DelegationTable) : Prop where
  /-- The ids in the order they were first seen. -/
  order : t.rows.map Prod.fst = (entryIds l).eraseDups
  named : ∀ row ∈ t, row.2.id = some row.1
  terminal : ∀ row ∈ t, ∀ e ∈ l, e.id = some row.1 → e.IsTerminal → row.2.IsTerminal
  /-- The `created_at` of the first entry, if it has one. -/
  created : ∀ row ∈ t, ∀ e, l.find? (fun e => e.id = some row.1) = some e → e.HasCreatedAt →
    row.2.createdAt = e.createdAt

theorem Absorbed.nil : Absorbed [] .empty := by
  constructor
  · rfl
  · intro row hrow
    cases hrow
  · intro row hrow
    cases hrow
  · intro row hrow
    cases hrow

theorem entryIds_append : entryIds (l ++ l') = entryIds l ++ entryIds l' := filterMap_append

theorem entryIds_concat {id : String} (hid : e.id = some id) :
    entryIds (l ++ [e]) = entryIds l ++ [id] := by
  rw [entryIds_append]
  simp [entryIds, hid]

theorem mem_entryIds {id : String} : id ∈ entryIds l ↔ ∃ e ∈ l, e.id = some id :=
  mem_filterMap

theorem eraseDups_concat (ids : List String) (id : String) :
    (ids ++ [id]).eraseDups = if id ∈ ids then ids.eraseDups else ids.eraseDups ++ [id] := by
  rw [eraseDups_append]
  by_cases h : id ∈ ids
  · simp [h, List.removeAll]
  · have hsingle : [id].eraseDups = [id] := rfl
    simp [h, List.removeAll, hsingle]

variable {id : String} {row : String × DelegationEntry}

theorem Absorbed.find?_eq_none (h : Absorbed l t) : t.find? id = none ↔ id ∉ entryIds l := by
  rw [Table.find?_eq_none, ← List.mem_eraseDups (l := entryIds l), ← h.order, List.mem_map]
  exact ⟨fun hne ⟨row, hrow, hid⟩ => hne row hrow hid, fun hne row hrow hid => hne ⟨row, hrow, hid⟩⟩

theorem find?_concat (hid : id ∈ entryIds l) :
    (l ++ [e]).find? (fun e => e.id = some id) = l.find? fun e => e.id = some id := by
  obtain ⟨e', he', hid'⟩ := mem_entryIds.1 hid
  have hsome : (l.find? fun e => e.id = some id).isSome := by
    rw [find?_isSome]
    exact ⟨e', he', by simpa using hid'⟩
  obtain ⟨first, hfirst⟩ := isSome_iff_exists.1 hsome
  rw [find?_append, hfirst, some_or]

theorem find?_concat_self (hid : e.id = some id) (hnew : id ∉ entryIds l) :
    (l ++ [e]).find? (fun e => e.id = some id) = some e := by
  have hnone : (l.find? fun e => e.id = some id) = none := by
    rw [find?_eq_none]
    intro e' he' hid'
    exact hnew (mem_entryIds.2 ⟨e', he', by simpa using hid'⟩)
  rw [find?_append, hnone, none_or, find?_cons_of_pos (by simpa using hid)]

theorem mem_of_mem_table (h : Absorbed l t) (hrow : row ∈ t) : row.1 ∈ entryIds l := by
  rw [← mem_eraseDups, ← h.order]
  exact mem_map_of_mem hrow

theorem order_put (h : Absorbed l t) (hid : e.id = some id) (hfind : t.find? id = some (id, p))
    (e' : DelegationEntry) :
    (t.put (id, e')).rows.map Prod.fst = (entryIds (l ++ [e])).eraseDups := by
  have hseen : id ∈ entryIds l := mem_of_mem_table h (Table.mem_of_find? hfind)
  rw [entryIds_concat hid, eraseDups_concat, if_pos hseen, ← h.order]
  exact Table.map_key_putRows _ _

theorem id_keepCreatedAt (p e : DelegationEntry) : (keepCreatedAt p e).id = e.id := by
  rw [keepCreatedAt]
  split <;> rfl

theorem isTerminal_keepCreatedAt : (keepCreatedAt p e).IsTerminal ↔ e.IsTerminal := by
  rw [keepCreatedAt]
  split <;> rfl

/-- **One more entry.** -/
theorem Absorbed.concat (h : Absorbed l t) (ht : Absorbs t e t') : Absorbed (l ++ [e]) t' := by
  cases ht with
  | added id hid hfind =>
    have hnew : id ∉ entryIds l := h.find?_eq_none.1 hfind
    constructor
    · rw [entryIds_concat hid, eraseDups_concat, if_neg hnew, ← h.order]
      exact map_append
    · intro row hrow
      rcases Table.mem_insert.1 hrow with hrow | rfl
      · exact h.named row hrow
      · exact hid
    · intro row hrow e' he' hid' hterminal
      rcases Table.mem_insert.1 hrow with hold | rfl
      · rcases mem_append.1 he' with he' | he'
        · exact h.terminal row hold e' he' hid' hterminal
        · obtain rfl := mem_singleton.1 he'
          obtain rfl := some.inj (hid.symm.trans hid')
          exact absurd (mem_of_mem_table h hold) hnew
      · rcases mem_append.1 he' with he' | he'
        · exact absurd (mem_entryIds.2 ⟨e', he', hid'⟩) hnew
        · obtain rfl := mem_singleton.1 he'
          exact hterminal
    · intro row hrow e' he' hcreated
      rcases Table.mem_insert.1 hrow with hrow | rfl
      · rw [find?_concat (mem_of_mem_table h hrow)] at he'
        exact h.created row hrow e' he' hcreated
      · rw [find?_concat_self hid hnew, some.injEq] at he'
        rw [he']
  | skipped id p hid hfind hp he =>
    have hseen : id ∈ entryIds l := mem_of_mem_table h (Table.mem_of_find? hfind)
    constructor
    · rw [entryIds_concat hid, eraseDups_concat, if_pos hseen, h.order]
    · exact h.named
    · intro row hrow e' he' hid' hterminal
      rcases mem_append.1 he' with he' | he'
      · exact h.terminal row hrow e' he' hid' hterminal
      · obtain rfl := mem_singleton.1 he'
        exact absurd hterminal he
    · intro row hrow e' he' hcreated
      rw [find?_concat (mem_of_mem_table h hrow)] at he'
      exact h.created row hrow e' he' hcreated
  | replaced id p hid hfind hp =>
    have hmem : (id, p) ∈ t := Table.mem_of_find? hfind
    constructor
    · exact order_put h hid hfind _
    · intro row hrow
      rcases Table.mem_put.1 hrow with ⟨hrow, -⟩ | ⟨rfl, -⟩
      · exact h.named row hrow
      · rw [id_keepCreatedAt, hid]
    · intro row hrow e' he' hid' hterminal
      rcases Table.mem_put.1 hrow with ⟨hrow, hne⟩ | ⟨rfl, -⟩
      · rcases mem_append.1 he' with he' | he'
        · exact h.terminal row hrow e' he' hid' hterminal
        · obtain rfl := mem_singleton.1 he'
          exact absurd (some.inj (hid'.symm.trans hid)) hne
      · rw [isTerminal_keepCreatedAt]
        rcases mem_append.1 he' with he' | he'
        · exact hp (h.terminal _ hmem e' he' hid' hterminal)
        · obtain rfl := mem_singleton.1 he'
          exact hterminal
    · intro row hrow e' he' hcreated
      rcases Table.mem_put.1 hrow with ⟨hrow, -⟩ | ⟨rfl, -⟩
      · rw [find?_concat (mem_of_mem_table h hrow)] at he'
        exact h.created row hrow e' he' hcreated
      · rw [find?_concat (mem_of_mem_table h hmem)] at he'
        have hkept := h.created _ hmem e' he' hcreated
        have hhas : p.HasCreatedAt := by
          rw [DelegationEntry.HasCreatedAt, hkept]
          exact hcreated
        rw [keepCreatedAt, if_pos hhas]
        exact hkept

theorem absorbAll_concat : absorbAll t (l ++ [e]) = absorbAll t l >>= fun t => absorb t e := by
  rw [absorbAll, foldlM_append]
  simp [absorbAll]

/-- **What the loop leaves in the table.** -/
theorem absorbed_of_absorbAll (h : absorbAll .empty l = .ok t) : Absorbed l t := by
  induction l using List.reverseRecOn generalizing t with
  | nil =>
    obtain rfl := Except.ok.inj h
    exact .nil
  | append_singleton l e ih =>
    rw [absorbAll_concat] at h
    cases hl : absorbAll .empty l with
    | error error => simp [hl, bind, Except.bind] at h
    | ok t₁ =>
      rw [hl] at h
      exact (ih hl).concat (absorbs_of_absorb h)

/-! ### Batches -/

/-- Entries under ids of their own are read as they are. -/
theorem absorbAll_rows (t : DelegationTable) (hnamed : ∀ row ∈ t, row.2.id = some row.1) :
    absorbAll .empty (t.rows.map Prod.snd) = .ok t := by
  have hprefix : ∀ (rest : List (String × DelegationEntry)) (t₀ : DelegationTable),
      t₀.rows ++ rest = t.rows → absorbAll t₀ (rest.map Prod.snd) = .ok t := by
    intro rest
    induction rest with
    | nil =>
      intro t₀ hrows
      obtain ⟨rows, hnodup⟩ := t
      obtain rfl : t₀.rows = rows := by simpa using hrows
      rfl
    | cons row rest ih =>
      intro t₀ hrows
      have hid : row.2.id = some row.1 := hnamed row (by simp [Table.mem_def, ← hrows])
      have hnew : t₀.find? row.1 = none := by
        rw [Table.find?_eq_none]
        intro r hr hkey
        have hnodup := t.nodup
        rw [← hrows, map_append, nodup_append] at hnodup
        exact hnodup.2.2 r.1 (mem_map_of_mem hr) row.1 (by simp) hkey
      have hstep : absorb t₀ row.2 = .ok (t₀.insert row hnew) := by
        rw [absorb]
        simp only [hid]
        split
        · rfl
        · rename_i hfind
          rw [hnew] at hfind
          cases hfind
      rw [map_cons, absorbAll, foldlM_cons, hstep]
      exact ih (t₀.insert row hnew) (by simp [Table.insert, ← hrows])
  exact hprefix t.rows .empty rfl

theorem Absorbed.length_le (h : Absorbed l t) : t.rows.length ≤ (entryIds l).toFinset.card := by
  have hnodup : (t.rows.map Prod.fst).Nodup := t.nodup
  rw [← length_map (f := Prod.fst), ← toFinset_card_of_nodup hnodup]
  refine Finset.card_le_card fun id hid => ?_
  rw [List.mem_toFinset, h.order, mem_eraseDups] at hid
  exact mem_toFinset.2 hid

theorem rtake_eq_self {α : Type} {l : List α} {n : ℕ} (h : l.length ≤ n) : l.rtake n = l := by
  rw [List.rtake, Nat.sub_eq_zero_of_le h, drop_zero]

/-- **A merge with few ids** gives the table. -/
theorem mergeDelegations_of_few {existing new : List DelegationEntry} (hnew : new ≠ [])
    (h : (entryIds (existing ++ new)).toFinset.card ≤ delegationLedgerMaxEntries) :
    mergeDelegations existing new =
      (absorbAll .empty (existing ++ new)).map fun t => t.rows.map Prod.snd := by
  rw [mergeDelegations, if_neg (by simpa using hnew)]
  cases ht : absorbAll .empty (existing ++ new) with
  | error error => rfl
  | ok t =>
    have hlength : (t.rows.map Prod.snd).length ≤ delegationLedgerMaxEntries := by
      rw [length_map]
      exact (absorbed_of_absorbAll ht).length_le.trans h
    simp [bind, Except.bind, Except.map, rtake_eq_self hlength]

theorem absorbAll_append (t : DelegationTable) (l l' : List DelegationEntry) :
    absorbAll t (l ++ l') = absorbAll t l >>= fun t => absorbAll t l' :=
  foldlM_append

theorem card_entryIds_le {n : ℕ} (h : ∀ id ∈ entryIds l, id ∈ entryIds l')
    (hn : (entryIds l').toFinset.card ≤ n) : (entryIds l).toFinset.card ≤ n :=
  (Finset.card_le_card fun id hid => mem_toFinset.2 (h id (mem_toFinset.1 hid))).trans hn

theorem Absorbed.entryIds_rows (h : Absorbed l t) :
    entryIds (t.rows.map Prod.snd) = t.rows.map Prod.fst := by
  rw [entryIds, filterMap_map]
  refine filterMap_eq_map_iff_forall_eq_some.2 fun row hrow => h.named row hrow

/-- **Two batches are one**, as long as there are few ids. -/
theorem mergeDelegations_append {existing first second : List DelegationEntry}
    (h : (entryIds (existing ++ (first ++ second))).toFinset.card ≤ delegationLedgerMaxEntries) :
    (mergeDelegations existing first >>= fun l => mergeDelegations l second) =
      mergeDelegations existing (first ++ second) := by
  by_cases hfirst : first = []
  · rw [hfirst, nil_append]
    rfl
  by_cases hsecond : second = []
  · rw [hsecond, append_nil]
    exact bind_pure (mergeDelegations existing first)
  have hfew : (entryIds (existing ++ first)).toFinset.card ≤ delegationLedgerMaxEntries := by
    refine card_entryIds_le (fun id hid => ?_) h
    rw [← append_assoc, entryIds_append]
    exact mem_append_left _ hid
  rw [mergeDelegations_of_few hfirst hfew,
    mergeDelegations_of_few (by simp [hfirst]) h, ← append_assoc,
    absorbAll_append _ (existing ++ first)]
  cases ht : absorbAll .empty (existing ++ first) with
  | error error => rfl
  | ok t =>
    have habsorbed := absorbed_of_absorbAll ht
    have hrest : (entryIds (t.rows.map Prod.snd ++ second)).toFinset.card ≤
        delegationLedgerMaxEntries := by
      refine card_entryIds_le (fun id hid => ?_) h
      rw [← append_assoc, entryIds_append]
      rw [entryIds_append, habsorbed.entryIds_rows, habsorbed.order, mem_append,
        mem_eraseDups] at hid
      exact mem_append.2 hid
    have hread : absorbAll .empty (t.rows.map Prod.snd ++ second) = absorbAll t second := by
      rw [absorbAll_append, absorbAll_rows t habsorbed.named]
      rfl
    show mergeDelegations (t.rows.map Prod.snd) second = _
    rw [mergeDelegations_of_few hsecond hrest, hread]
    rfl

/-- **A merge**: the table of the entries, or its last rows. -/
theorem mergeDelegations_eq_ok {existing new : List DelegationEntry} (hnew : new ≠ [])
    (h : mergeDelegations existing new = .ok l) :
    ∃ t, Absorbed (existing ++ new) t ∧
      l = (t.rows.map Prod.snd).rtake delegationLedgerMaxEntries := by
  rw [mergeDelegations, if_neg (by simpa using hnew)] at h
  cases ht : absorbAll .empty (existing ++ new) with
  | error error => simp [ht, bind, Except.bind] at h
  | ok t =>
    rw [ht] at h
    exact ⟨t, absorbed_of_absorbAll ht, (Except.ok.inj h).symm⟩

/-- **The order**: the last 50 of the ids that were seen. -/
theorem entryIds_mergeDelegations {existing new : List DelegationEntry} (hnew : new ≠ [])
    (h : mergeDelegations existing new = .ok l) :
    entryIds l = (entryIds (existing ++ new)).eraseDups.rtake delegationLedgerMaxEntries := by
  obtain ⟨t, ht, rfl⟩ := mergeDelegations_eq_ok hnew h
  rw [← ht.order, List.rtake, List.rtake, ← map_drop, length_map, length_map,
    ← map_drop, entryIds, filterMap_map]
  exact filterMap_eq_map_iff_forall_eq_some.2 fun row hrow =>
    ht.named row (mem_of_mem_drop hrow)

theorem entryIds_of_mergeDelegations {existing new : List DelegationEntry}
    (h : mergeDelegations existing new = .ok l) (hid : id ∈ entryIds l) :
    id ∈ entryIds (existing ++ new) := by
  by_cases hnew : new = []
  · rw [hnew] at h ⊢
    obtain rfl := Except.ok.inj h
    rwa [append_nil]
  · rw [entryIds_mergeDelegations hnew h] at hid
    exact mem_eraseDups.1 (mem_of_mem_drop hid)

/-- **Batching does not matter**, as long as there are few ids. -/
theorem mergeBatches_eq {existing : List DelegationEntry} {batches : List (List DelegationEntry)}
    (h : (entryIds (existing ++ batches.flatten)).toFinset.card ≤ delegationLedgerMaxEntries) :
    mergeBatches existing batches = mergeDelegations existing batches.flatten := by
  induction batches generalizing existing with
  | nil => rfl
  | cons batch batches ih =>
    rw [flatten_cons] at h ⊢
    rw [← mergeDelegations_append h, mergeBatches, foldlM_cons]
    cases hbatch : mergeDelegations existing batch with
    | error error => rfl
    | ok l =>
      refine ih (card_entryIds_le (fun id hid => ?_) h)
      rw [entryIds_append, mem_append] at hid
      rw [← append_assoc, entryIds_append, mem_append]
      exact hid.imp_left (entryIds_of_mergeDelegations hbatch)

/-! ### The laws -/

/-- The first entry of an id. -/
def firstEntry (l : List DelegationEntry) (id : String) : Option DelegationEntry :=
  l.find? fun e => e.id = some id

/-- What a ledger tells of the entries that were merged. -/
structure Ledger (entries l : List DelegationEntry) : Prop where
  /-- Its ids are the last 50 in the order they were first seen, -/
  order : l.map DelegationEntry.id =
    ((entryIds entries).eraseDups.rtake delegationLedgerMaxEntries).map some
  /-- without repetitions. -/
  nodup : (l.map DelegationEntry.id).Nodup
  length : l.length ≤ delegationLedgerMaxEntries
  /-- An entry has the `created_at` of its first one, if that had any. -/
  created : ∀ e ∈ l, ∀ id ∈ e.id, ∀ first ∈ firstEntry entries id, first.HasCreatedAt →
    e.createdAt = first.createdAt
  /-- A terminal status is not taken back. -/
  terminal : ∀ e ∈ l, ∀ e' ∈ entries, e'.id = e.id → e'.IsTerminal → e.IsTerminal

theorem Absorbed.map_id (h : Absorbed l t) :
    (t.rows.map Prod.snd).map DelegationEntry.id = (t.rows.map Prod.fst).map some := by
  rw [List.map_map, List.map_map]
  exact List.map_congr_left fun row hrow => h.named row hrow

/-- **A merge gives a ledger.** -/
theorem ledger_of_mergeDelegations {existing new : List DelegationEntry} (hnew : new ≠ [])
    (h : mergeDelegations existing new = .ok l) : Ledger (existing ++ new) l := by
  obtain ⟨t, ht, rfl⟩ := mergeDelegations_eq_ok hnew h
  have horder : ((t.rows.map Prod.snd).rtake delegationLedgerMaxEntries).map DelegationEntry.id =
      ((entryIds (existing ++ new)).eraseDups.rtake delegationLedgerMaxEntries).map some := by
    rw [← ht.order, List.rtake, List.rtake, map_drop, ht.map_id, map_drop,
      length_map, length_map]
  have hrow : ∀ e ∈ (t.rows.map Prod.snd).rtake delegationLedgerMaxEntries,
      ∃ row ∈ t, row.2 = e := by
    intro e he
    exact mem_map.1 (mem_of_mem_drop he)
  constructor
  · exact horder
  · rw [horder, ← ht.order]
    exact (t.nodup.sublist (drop_sublist _ _)).map (some_injective _)
  · rw [List.rtake, length_drop]
    omega
  · intro e he id hid first hfirst hcreated
    obtain ⟨row, hmem, rfl⟩ := hrow e he
    obtain rfl : row.1 = id := some.inj ((ht.named row hmem).symm.trans hid)
    exact ht.created row hmem first hfirst hcreated
  · intro e he e' he' hid hterminal
    obtain ⟨row, hmem, rfl⟩ := hrow e he
    exact ht.terminal row hmem e' he' (hid.trans (ht.named row hmem)) hterminal

/-- An id stays in the ledger from one ledger to another, update by update. -/
inductive Stays (id : String) (l : List DelegationEntry) : List DelegationEntry → Prop
  | refl : Stays id l l
  | merge {l₁ batch l₂ : List DelegationEntry} : Stays id l l₁ →
      mergeDelegations l₁ batch = .ok l₂ → id ∈ entryIds l₂ → Stays id l l₂

/-- **What an entry keeps while its id stays**: a property that a merge passes on from all entries of
an id in the ledger to all of them in the next. -/
theorem Stays.keeps {P : DelegationEntry → Prop} (h : Stays id l l') (hid : id ∈ entryIds l)
    (hP : ∀ e ∈ l, e.id = some id → P e)
    (hmerge : ∀ l₁ batch l₂, batch ≠ [] → Ledger (l₁ ++ batch) l₂ → id ∈ entryIds l₁ →
      (∀ e ∈ l₁, e.id = some id → P e) → ∀ e ∈ l₂, e.id = some id → P e) :
    id ∈ entryIds l' ∧ ∀ e ∈ l', e.id = some id → P e := by
  induction h with
  | refl => exact ⟨hid, hP⟩
  | @merge l₁ batch l₂ _ hstep hstays ih =>
    obtain ⟨hid₁, hP₁⟩ := ih
    refine ⟨hstays, ?_⟩
    by_cases hbatch : batch = []
    · rw [hbatch] at hstep
      obtain rfl := Except.ok.inj hstep
      exact hP₁
    · exact hmerge l₁ batch l₂ hbatch (ledger_of_mergeDelegations hbatch hstep) hid₁ hP₁

theorem eq_of_id {e' : DelegationEntry} (h : (l.map DelegationEntry.id).Nodup) (he : e ∈ l)
    (he' : e' ∈ l) (hid : e.id = e'.id) : e = e' :=
  inj_on_of_nodup_map h he he' hid

theorem Stays.terminal (h : Stays id l l') (hnodup : (l.map DelegationEntry.id).Nodup)
    (he : e ∈ l) (hid : e.id = some id) (hterminal : e.IsTerminal) :
    ∀ e' ∈ l', e'.id = some id → e'.IsTerminal := by
  refine (h.keeps (P := DelegationEntry.IsTerminal) (mem_entryIds.2 ⟨e, he, hid⟩)
    (fun e₁ he₁ hid₁ => ?_) fun l₁ batch l₂ _ hledger hid₁ hP e' he' hid' => ?_).2
  · rwa [← eq_of_id hnodup he he₁ (hid.trans hid₁.symm)]
  · obtain ⟨e₁, he₁, hid₁⟩ := mem_entryIds.1 hid₁
    exact hledger.terminal e' he' e₁ (mem_append_left _ he₁) (hid₁.trans hid'.symm)
      (hP e₁ he₁ hid₁)

theorem Stays.created (h : Stays id l l') (hnodup : (l.map DelegationEntry.id).Nodup)
    (he : e ∈ l) (hid : e.id = some id) (hcreated : e.HasCreatedAt) :
    ∀ e' ∈ l', e'.id = some id → e'.createdAt = e.createdAt := by
  refine (h.keeps (P := fun e' => e'.createdAt = e.createdAt) (mem_entryIds.2 ⟨e, he, hid⟩)
    (fun e₁ he₁ hid₁ => ?_) fun l₁ batch l₂ _ hledger hid₁ hP e' he' hid' => ?_).2
  · rw [← eq_of_id hnodup he he₁ (hid.trans hid₁.symm)]
  · have hsome : (l₁.find? fun e => e.id = some id).isSome := by
      obtain ⟨e₁, he₁, hid₁⟩ := mem_entryIds.1 hid₁
      rw [find?_isSome]
      exact ⟨e₁, he₁, by simpa using hid₁⟩
    obtain ⟨first, hfirst⟩ := isSome_iff_exists.1 hsome
    have hkept : first.createdAt = e.createdAt :=
      hP first (mem_of_find?_eq_some hfirst) (by simpa using find?_some hfirst)
    have hfirst' : firstEntry (l₁ ++ batch) id = some first := by
      rw [firstEntry, find?_append, hfirst, some_or]
    have hhas : first.HasCreatedAt := by
      rw [DelegationEntry.HasCreatedAt, hkept]
      exact hcreated
    rw [hledger.created e' he' id hid' first hfirst' hhas, hkept]

/-- **The laws of the reducer**, for any lists and any missing fields. As long as there are at most
50 ids, batches give what one update gives, errors included. An empty update changes nothing, and
any other gives a ledger: the last 50 ids in first-seen order, each once, with the `created_at` of
its first entry if that has one. While an id stays in a ledger without repeated ids, a terminal
status stays terminal and a `created_at` stays as it is. -/
theorem delegations_reduce :
    (∀ existing batches, (entryIds (existing ++ batches.flatten)).toFinset.card ≤ 50 →
      mergeBatches existing batches = mergeDelegations existing batches.flatten) ∧
    (∀ existing, mergeDelegations existing [] = .ok existing) ∧
    (∀ existing new l, new ≠ [] → mergeDelegations existing new = .ok l →
      Ledger (existing ++ new) l) ∧
    ∀ id l l', (l.map DelegationEntry.id).Nodup → Stays id l l' →
      ∀ e ∈ l, e.id = some id → ∀ e' ∈ l', e'.id = some id →
        (e.IsTerminal → e'.IsTerminal) ∧ (e.HasCreatedAt → e'.createdAt = e.createdAt) := by
  refine ⟨?_, ?_, ?_, ?_⟩
  · intro existing batches h
    exact mergeBatches_eq h
  · intro existing
    rfl
  · intro existing new l hnew h
    exact ledger_of_mergeDelegations hnew h
  · intro id l l' hnodup hstays e he hid e' he' hid'
    exact ⟨fun hterminal => hstays.terminal hnodup he hid hterminal e' he' hid',
      fun hcreated => hstays.created hnodup he hid hcreated e' he' hid'⟩

/-- An entry without a time of creation, one with a time, and a repeated entry. -/
def undated : DelegationEntry := { id := "a", status := "in_progress", createdAt := "" }

def dated : DelegationEntry := { id := "a", status := "in_progress", createdAt := "t" }

theorem delegations_reduce_undated :
    mergeDelegations [undated] [dated] = .ok [dated] ∧ undated.createdAt ≠ dated.createdAt ∧
      ∃ l, mergeDelegations [undated, dated] [] = .ok l ∧
        ¬(l.map DelegationEntry.id).Nodup := by
  refine ⟨by decide, by decide, [undated, dated], rfl, by decide⟩

end AfterFlow.Agents
