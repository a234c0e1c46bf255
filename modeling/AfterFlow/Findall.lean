import Mathlib.Data.List.Basic

/-!
# All matches of a pattern

Searching a text from the left for a pattern, each match after the last one ended. Where no match
begins inside another, nothing is lost by that: what is found is what matches anywhere.
-/

namespace Findall

open List

variable {α : Type} {m : Option α → List α → Option (List α)} {prev : Option α}
  {text found before after : List α} {skip : ℕ}

/-- The matches in a text that follows `prev`. After a match the next `skip` elements belong to
it. -/
@[grind =] def findall (m : Option α → List α → Option (List α)) :
    ℕ → Option α → List α → List (List α)
  | _, _, [] => []
  | skip + 1, _, c :: text => findall m skip (some c) text
  | 0, prev, c :: text =>
    match m prev (c :: text) with
    | some found => found :: findall m (found.length - 1) (some c) text
    | none => findall m 0 (some c) text

/-- The pattern matches in the text after its first `skip` elements or later. -/
def Occurs (m : Option α → List α → Option (List α)) (skip : ℕ) (prev : Option α)
    (text found : List α) : Prop :=
  ∃ before after, text = before ++ after ∧ skip ≤ before.length ∧
    m (before.getLast?.or prev) after = some found

/-- A match is not empty, and no other begins before it ends. -/
structure Apart (m : Option α → List α → Option (List α)) : Prop where
  nil : ∀ prev, m prev [] = none
  inside : ∀ prev before after found, m prev (before ++ after) = some found → before ≠ [] →
    before.length < found.length → m before.getLast? after = none

theorem occurs_nil (h : Apart m) : ¬ Occurs m skip prev [] found := by
  rintro ⟨before, after, hsplit, -, hfound⟩
  obtain ⟨rfl, rfl⟩ := append_eq_nil_iff.1 hsplit.symm
  rw [h.nil] at hfound
  cases hfound

theorem getLast?_cons_or {c : α} :
    (c :: before).getLast?.or prev = before.getLast?.or (some c) := by
  cases before <;> simp [getLast?_cons]

theorem occurs_cons_succ {c : α} :
    Occurs m (skip + 1) prev (c :: text) found ↔ Occurs m skip (some c) text found := by
  constructor
  · rintro ⟨before, after, hsplit, hskip, hfound⟩
    cases before with
    | nil => simp at hskip
    | cons b before =>
      obtain ⟨rfl, rfl⟩ := List.cons.inj hsplit
      rw [getLast?_cons_or] at hfound
      exact ⟨before, after, rfl, by simpa using hskip, hfound⟩
  · rintro ⟨before, after, rfl, hskip, hfound⟩
    exact ⟨c :: before, after, rfl, by simpa using hskip, by rw [getLast?_cons_or, hfound]⟩

theorem occurs_cons {c : α} : Occurs m 0 prev (c :: text) found ↔
    m prev (c :: text) = some found ∨ Occurs m 0 (some c) text found := by
  constructor
  · rintro ⟨before, after, hsplit, -, hfound⟩
    cases before with
    | nil =>
      rw [nil_append] at hsplit
      subst hsplit
      exact .inl (by simpa using hfound)
    | cons b before =>
      obtain ⟨rfl, rfl⟩ := List.cons.inj hsplit
      rw [getLast?_cons_or] at hfound
      exact .inr ⟨before, after, rfl, Nat.zero_le _, hfound⟩
  · rintro (hfound | h)
    · exact ⟨[], c :: text, rfl, Nat.zero_le _, by simpa using hfound⟩
    · obtain ⟨before, after, rfl, -, hfound⟩ := h
      exact ⟨c :: before, after, rfl, Nat.zero_le _, by rw [getLast?_cons_or, hfound]⟩

theorem occurs_skip (h : Apart m) {c : α} {first : List α}
    (hfirst : m prev (c :: text) = some first) :
    Occurs m (first.length - 1) (some c) text found ↔ Occurs m 0 (some c) text found := by
  constructor
  · rintro ⟨before, after, hsplit, -, hfound⟩
    exact ⟨before, after, hsplit, Nat.zero_le _, hfound⟩
  · rintro ⟨before, after, rfl, -, hfound⟩
    refine ⟨before, after, rfl, ?_, hfound⟩
    by_contra hlt
    have hnone := h.inside prev (c :: before) after first hfirst (cons_ne_nil c before)
      (by rw [length_cons]; omega)
    have hlast : (c :: before).getLast?.or none = before.getLast?.or (some c) := getLast?_cons_or
    rw [Option.or_none] at hlast
    rw [hlast, hfound] at hnone
    cases hnone

theorem mem_findall_skip (h : Apart m) :
    found ∈ findall m skip prev text ↔ Occurs m skip prev text found := by
  induction text generalizing skip prev with
  | nil =>
    rw [findall]
    exact iff_of_false not_mem_nil (occurs_nil h)
  | cons c text ih =>
    cases skip with
    | succ skip => rw [findall, ih, occurs_cons_succ]
    | zero =>
      rw [findall, occurs_cons]
      cases hfirst : m prev (c :: text) with
      | none =>
        rw [ih]
        exact (or_iff_right (by simp)).symm
      | some first =>
        rw [mem_cons, ih, occurs_skip h hfirst, Option.some.injEq, eq_comm]

theorem mem_findall (h : Apart m) : found ∈ findall m 0 none text ↔
    ∃ before after, text = before ++ after ∧ m before.getLast? after = some found := by
  simp only [mem_findall_skip h, Occurs, Nat.zero_le, true_and, Option.or_none]

end Findall
