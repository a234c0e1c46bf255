import AfterFlow.Lifecycle
import AfterFlow.Rules
import Mathlib.Algebra.Order.PUnit

/-!
# What the version compare gives

Every handler, in any interleaving, with any failures, moves the world only along `Becomes`: rows
are never lost, versions never go back, a row whose version did not change did not change but for
the reaper's flag, and a rejected or completed action stays what it is. So whatever a call read
earlier is `Seen`: an earlier state of the present row, and equal to it where the versions agree.

The proof is one `Safe` proof for each handler in a logic without resources. It also carries the
invariant `Sound`, which ties every action to its signatures, its decision and its key. Actions that
are in the database before the first call are exempt from it: they are the `old` ones.
-/

namespace AfterFlow

open Coop Coop.Logic

/-! ### The relation -/

/-- What calls may do to the world. -/
structure Becomes (w w' : World) : Prop where
  now : w.now ≤ w'.now
  uuids : w.uuids ≤ w'.uuids
  history : w.history.Extends w'.history
  cases : w.db.cases.Evolves ServiceCase.Evolves w'.db.cases
  actions : w.db.actions.toTable.Evolves ActionRequest.Evolves w'.db.actions.toTable
  transactions : ∀ k t, w.refunds.transactions k = some t → w'.refunds.transactions k = some t

namespace Becomes

variable {w w' w'' : World}

theorem refl (w : World) : Becomes w w where
  now := Nat.le_refl _
  uuids := Nat.le_refl _
  history := .refl _
  cases := .refl .refl
  actions := .refl .refl
  transactions _ _ h := h

theorem trans (h₁ : Becomes w w') (h₂ : Becomes w' w'') : Becomes w w'' where
  now := h₁.now.trans h₂.now
  uuids := h₁.uuids.trans h₂.uuids
  history := h₁.history.trans h₂.history
  cases := h₁.cases.trans .trans h₂.cases
  actions := h₁.actions.trans .trans h₂.actions
  transactions k t h := h₂.transactions k t (h₁.transactions k t h)

theorem of_eq (hdb : w'.db.cases = w.db.cases) (ha : w'.db.actions = w.db.actions)
    (hn : w.now ≤ w'.now) (hu : w.uuids ≤ w'.uuids) (hh : w.history.Extends w'.history)
    (ht : ∀ k t, w.refunds.transactions k = some t → w'.refunds.transactions k = some t) :
    Becomes w w' where
  now := hn
  uuids := hu
  history := hh
  cases := hdb ▸ .refl .refl
  actions := ha ▸ .refl .refl
  transactions := ht

end Becomes

/-! ### Copies -/

/-- `a` was a row of the table, some time ago or just now. -/
def Seen (a : ActionRequest) (w : World) : Prop :=
  ∃ row, w.db.actions.find? a.id = some row ∧ a.Evolves row

section Seen

variable {a : ActionRequest} {case : ServiceCase} {w w' : World}

theorem Seen.becomes (h : Seen a w) (hw : Becomes w w') : Seen a w' := by
  obtain ⟨row, hrow, hev⟩ := h
  obtain ⟨row', hrow', hev'⟩ := hw.actions _ _ hrow
  exact ⟨row', hrow', hev.trans hev'⟩

theorem Seen.of_mem (h : a ∈ w.db.actions.rows) : Seen a w :=
  ⟨a, Keyed.Table.mem_iff_find?.mp h, .refl a⟩

theorem getAction_some {db : Database} {id : Uuid} {u : Option String}
    (h : db.getAction id u = some a) : db.actions.find? id = some a ∧ a.id = id := by
  have hf := (Option.filter_eq_some_iff.mp h).1
  exact ⟨hf, Keyed.Table.key_of_find? hf⟩

theorem getCase_some {db : Database} {id : Uuid} {u : Option String}
    (h : db.getCase id u = some case) :
    db.cases.find? id = some case ∧ case.id = id ∧ ∀ user, u = some user → case.userId = user := by
  obtain ⟨hf, hu⟩ := Option.filter_eq_some_iff.mp h
  refine ⟨hf, Keyed.Table.key_of_find? hf, fun user huser => ?_⟩
  subst huser
  simpa using hu

end Seen

/-! ### The invariant -/

/-- What holds of every action that is not one of the `old` ones. -/
structure Sound (cfg : Config) (old : Uuid → Prop) (w : World) : Prop where
  actionIds : ∀ a ∈ w.db.actions.rows, ¬ old a.id → a.id < w.uuids
  vouched : ∀ a ∈ w.db.actions.rows, ¬ old a.id → Vouched w.history a
  keyed : ∀ a ∈ w.db.actions.rows, ¬ old a.id →
    a.idempotencyKey = idempotencyKey cfg.rt a.caseId a.payload
  originIds : ∀ o ∈ w.history.origins, o.action.id < w.uuids
  originsNodup : (w.history.origins.map fun o => o.action.id).Nodup

theorem Sound.of_eq {cfg : Config} {old : Uuid → Prop} {w w' : World} (h : Sound cfg old w)
    (ha : w'.db.actions = w.db.actions) (hu : w.uuids ≤ w'.uuids)
    (hh : w.history.Extends w'.history) (ho : w'.history.origins = w.history.origins) :
    Sound cfg old w' where
  actionIds a hm hold := (h.actionIds a (ha ▸ hm) hold).trans_le hu
  vouched a hm hold := (h.vouched a (ha ▸ hm) hold).mono hh
  keyed a hm := h.keyed a (ha ▸ hm)
  originIds o hm := (h.originIds o (ho ▸ hm)).trans_le hu
  originsNodup := ho ▸ h.originsNodup

/-! ### Saves -/

/-- `db'` is `db` with the row `row` replaced by `a`. -/
structure Saved (db db' : Database) (row a : ActionRequest) : Prop where
  found : db.actions.find? a.id = some row
  table : db'.actions.toTable = db.actions.toTable.put a
  cases : db'.cases = db.cases

/-- An update that replied one row replaced it, at the expected version. -/
theorem updateAction_ok {db : Database} {a : ActionRequest} {u : Option String} {v : ℕ}
    (h : (db.updateAction a u v).1 = .ok 1) :
    ∃ row, row.version = v ∧
      Saved db (db.updateAction a u v).2 row { a with caseId := row.caseId } := by
  revert h
  rw [Database.updateAction]
  split
  · exact fun h => by cases h
  · rename_i row hrow
    split
    · exact fun h => by cases h
    split
    · rename_i hv hfits
      exact fun _ => ⟨row, not_not.mp hv, (getAction_some hrow).1, rfl, rfl⟩
    · exact fun h => by cases h

theorem insertAction_ok {db : Database} {a : ActionRequest} (h : (db.insertAction a).1 = .ok ()) :
    ∃ hid, (db.insertAction a).2.actions.toTable = db.actions.toTable.insert a hid ∧
      (db.insertAction a).2.cases = db.cases := by
  revert h
  rw [Database.insertAction]
  split
  · rename_i hfits
    exact fun _ => ⟨hfits.1, rfl, rfl⟩
  · exact fun h => by cases h

theorem updateCase_ok {db : Database} {id : Uuid} {u : String} {v : ℕ} {values : CaseValues}
    (h : (db.updateCase id u v values).1 = .ok 1) :
    ∃ case, db.getCase id (some u) = some case ∧ case.version = v ∧
      (db.updateCase id u v values).2 =
        { db with cases := db.cases.put (values.apply case (v + 1)) } := by
  revert h
  rw [Database.updateCase]
  split
  · exact fun h => by cases h
  · rename_i case hcase
    split
    · exact fun h => by cases h
    · rename_i hv
      exact fun _ => ⟨case, hcase, not_not.mp hv, rfl⟩

namespace Saved

variable {db db' : Database} {row a b : ActionRequest}

theorem mem (h : Saved db db' row a) : row ∈ db.actions.rows := Keyed.Table.mem_of_find? h.found

theorem id_eq (h : Saved db db' row a) : row.id = a.id := Keyed.Table.key_of_find? h.found

theorem rows (h : Saved db db' row a) (hb : b ∈ db'.actions.rows) :
    (b ∈ db.actions.rows ∧ b.id ≠ a.id) ∨ b = a := by
  have hb' : b ∈ db'.actions.toTable := hb
  rw [h.table] at hb'
  exact (Keyed.Table.mem_put.mp hb').imp id And.left

theorem find?_self (h : Saved db db' row a) : db'.actions.find? a.id = some a := by
  rw [h.table]
  exact Keyed.Table.find?_put_self h.found

end Saved

/-- **A save of a seen copy replaces a row that is the copy**, but for the flag. -/
theorem saved_of_seen {w : World} {copy a : ActionRequest} {u : Option String} {h : History}
    (hseen : Seen copy w) (ht : Transition h copy a)
    (hok : (w.db.updateAction a u copy.version).1 = .ok 1) :
    ∃ row, row.version = copy.version ∧ copy.Evolves row ∧
      Saved w.db (w.db.updateAction a u copy.version).2 row a := by
  obtain ⟨row, hv, hsaved⟩ := updateAction_ok hok
  obtain ⟨row', hrow', hev⟩ := hseen
  have hfound : w.db.actions.find? a.id = some row := hsaved.found
  rw [ht.id_eq, hrow', Option.some.injEq] at hfound
  subst hfound
  have hcase : { a with caseId := row'.caseId } = a := by rw [hev.caseId, ← ht.caseId_eq]
  rw [hcase] at hsaved
  exact ⟨row', hv, hev, hsaved⟩

/-- **A save of a seen copy is a step of the world**, and keeps the invariant. -/
theorem save_step {cfg : Config} {old : Uuid → Prop} {w : World} {copy a : ActionRequest}
    {u : Option String} (hs : Sound cfg old w) (hseen : Seen copy w)
    (ht : Transition w.history copy a)
    (hok : (w.db.updateAction a u copy.version).1 = .ok 1) :
    Becomes w { w with db := (w.db.updateAction a u copy.version).2 } ∧
      Sound cfg old { w with db := (w.db.updateAction a u copy.version).2 } ∧
      (w.db.updateAction a u copy.version).2.actions.find? a.id = some a := by
  obtain ⟨row, hv, hev, hsaved⟩ := saved_of_seen hseen ht hok
  generalize (w.db.updateAction a u copy.version).2 = db' at hsaved
  have hnext : row.Evolves a := ht.evolves hev hv
  have hcopy : Vouched w.history row → Vouched w.history a := by
    intro hvouched
    rw [hev.eq_copy hv] at hvouched
    exact ht.vouched (hvouched.flag copy.reserved)
  refine ⟨⟨Nat.le_refl _, Nat.le_refl _, .refl _, hsaved.cases ▸ .refl .refl, ?_, fun _ _ h => h⟩,
    ⟨?_, ?_, ?_, hs.originIds, hs.originsNodup⟩, hsaved.find?_self⟩
  · show w.db.actions.toTable.Evolves _ db'.actions.toTable
    rw [hsaved.table]
    exact Keyed.Table.Evolves.put .refl hsaved.found hnext
  · intro b hb hold
    rcases hsaved.rows hb with ⟨hb, -⟩ | rfl
    · exact hs.actionIds b hb hold
    · rw [← hsaved.id_eq] at hold ⊢
      exact hs.actionIds row hsaved.mem hold
  · intro b hb hold
    rcases hsaved.rows hb with ⟨hb, -⟩ | rfl
    · exact hs.vouched b hb hold
    · exact hcopy (hs.vouched row hsaved.mem (hsaved.id_eq ▸ hold))
  · intro b hb hold
    rcases hsaved.rows hb with ⟨hb, -⟩ | rfl
    · exact hs.keyed b hb hold
    · rw [hnext.idempotencyKey, hnext.caseId, hnext.payload]
      exact hs.keyed row hsaved.mem (hsaved.id_eq ▸ hold)

end AfterFlow
