import Mathlib.Data.List.Basic

/-!
# Edit scripts

A script tells how one list becomes another: elements are kept, removed or inserted, in order. Both
lists are read off the script, so a script for two given lists is right by construction.

## Main results

* `length_after` — lengths and the numbers of changes
-/

namespace Diffs

open List

variable {α : Type}

inductive Edit (α : Type) where
  | keep (a : α)
  | remove (a : α)
  | insert (a : α)
  deriving DecidableEq

namespace Edit

def removed? : Edit α → Option α
  | .remove a => some a
  | _ => none

def inserted? : Edit α → Option α
  | .insert a => some a
  | _ => none

@[grind =] def before? : Edit α → Option α
  | .keep a => some a
  | .remove a => some a
  | .insert _ => none

def after? : Edit α → Option α
  | .keep a => some a
  | .remove _ => none
  | .insert a => some a

def IsChange : Edit α → Bool
  | .keep _ => false
  | _ => true

end Edit

/-- The list before the edits. -/
def before (script : List (Edit α)) : List α := script.filterMap Edit.before?

/-- The list after the edits. -/
def after (script : List (Edit α)) : List α := script.filterMap Edit.after?

def removed (script : List (Edit α)) : List α := script.filterMap Edit.removed?

def inserted (script : List (Edit α)) : List α := script.filterMap Edit.inserted?

/-- The edits that change something. -/
def changes (script : List (Edit α)) : List (Edit α) := script.filter Edit.IsChange

variable {script : List (Edit α)}

/-- **Lengths**: what is inserted comes, what is removed goes. -/
theorem length_after (script : List (Edit α)) :
    (after script).length + (removed script).length =
      (before script).length + (inserted script).length := by
  induction script with
  | nil => rfl
  | cons e script ih =>
    simp only [after, before, removed, inserted] at ih ⊢
    cases e with
    | keep a =>
      simp only [filterMap_cons, Edit.after?, Edit.before?, Edit.removed?, Edit.inserted?,
        length_cons]
      omega
    | remove a =>
      simp only [filterMap_cons, Edit.after?, Edit.before?, Edit.removed?, Edit.inserted?,
        length_cons]
      omega
    | insert a =>
      simp only [filterMap_cons, Edit.after?, Edit.before?, Edit.removed?, Edit.inserted?,
        length_cons]
      omega

theorem removed_changes (script : List (Edit α)) : removed (changes script) = removed script := by
  rw [removed, changes, filterMap_filter, removed]
  refine filterMap_congr fun e _ => ?_
  cases e <;> rfl

theorem inserted_changes (script : List (Edit α)) :
    inserted (changes script) = inserted script := by
  rw [inserted, changes, filterMap_filter, inserted]
  refine filterMap_congr fun e _ => ?_
  cases e <;> rfl

end Diffs
