import Mathlib.Algebra.GroupWithZero.Nat
import Mathlib.Data.List.Basic
import Mathlib.Order.Lattice

/-!
# Excerpts

A long text is shown by its beginning and its end. Where it is cut is a pair of places in order, and
what is left out lies between them, with a marker in its place. The places are moved to where a line
begins, so the searches of `str.find` and `str.rfind` for one letter in a window are here as well.
-/

namespace AfterFlow.Excerpt

open List

variable {α : Type} {text : List α}

/-! ### Cuts -/

/-- Where a text is cut. -/
structure Cut (text : List α) where
  headEnd : ℕ
  tailStart : ℕ
  ordered : headEnd ≤ tailStart
  within : tailStart ≤ text.length

namespace Cut

variable (c : Cut text)

def head : List α := text.take c.headEnd

def tail : List α := text.drop c.tailStart

/-- What is left out. -/
def middle : List α := (text.take c.tailStart).drop c.headEnd

/-- How much is left out, as it is counted. -/
def omitted : ℕ := text.length - c.head.length - c.tail.length

@[simp] theorem length_head : c.head.length = c.headEnd :=
  length_take_of_le (c.ordered.trans c.within)

@[simp] theorem length_tail : c.tail.length = text.length - c.tailStart := length_drop

@[simp] theorem length_middle : c.middle.length = c.tailStart - c.headEnd := by
  rw [middle, length_drop, length_take_of_le c.within]

/-- **The text** is what is shown and what is not. -/
theorem parts : c.head ++ c.middle ++ c.tail = text := by
  have hhead : c.head = (text.take c.tailStart).take c.headEnd := by
    rw [take_take, Nat.min_eq_left c.ordered, head]
  rw [hhead, middle, take_append_drop, tail, take_append_drop]

theorem omitted_eq : c.omitted = c.middle.length := by
  have hordered := c.ordered
  have hwithin := c.within
  rw [omitted, length_head, length_tail, length_middle]
  omega

theorem omitted_le : c.omitted ≤ text.length := (Nat.sub_le _ _).trans (Nat.sub_le _ _)

theorem length_shown : c.head.length + c.tail.length + c.omitted = text.length := by
  have hordered := c.ordered
  have hwithin := c.within
  rw [omitted_eq, length_head, length_tail, length_middle]
  omega

end Cut

/-! ### Windows -/

variable {p : α → Bool} {lo hi i : ℕ}

/-- Whether the letter at a place, if there is one, is looked for. -/
def isAt (p : α → Bool) (text : List α) (i : ℕ) : Bool := text[i]?.any p

/-- The first place from `lo` on and before `hi`. -/
def findIn (p : α → Bool) (text : List α) (lo hi : ℕ) : Option ℕ :=
  (List.range' lo (hi - lo)).find? (isAt p text)

/-- The last place from `lo` on and before `hi`. -/
def rfindIn (p : α → Bool) (text : List α) (lo : ℕ) : (hi : ℕ) → Option ℕ
  | 0 => none
  | hi + 1 =>
    if hi < lo then none
    else if isAt p text hi then some hi
    else rfindIn p text lo hi

theorem bounds_of_findIn (h : findIn p text lo hi = some i) : lo ≤ i ∧ i < hi := by
  have hmem := mem_range'_1.1 (mem_of_find?_eq_some h)
  omega

theorem rfindIn_eq_some (h : rfindIn p text lo hi = some i) :
    lo ≤ i ∧ i < hi ∧ isAt p text i = true ∧ ∀ j, i < j → j < hi → isAt p text j = false := by
  induction hi with
  | zero => cases h
  | succ hi ih =>
    rw [rfindIn] at h
    split at h
    · cases h
    · split at h
      · rename_i hlo hat
        obtain rfl := Option.some.inj h
        refine ⟨by omega, by omega, hat, ?_⟩
        intro j hj hhi
        omega
      · rename_i hlo hat
        obtain ⟨hle, hlt, hi', hafter⟩ := ih h
        refine ⟨hle, by omega, hi', ?_⟩
        intro j hj hhi
        by_cases hlast : j = hi
        · rw [hlast]
          exact Bool.eq_false_iff.2 hat
        · exact hafter j hj (by omega)

/-! ### Slices -/

/-- `text[:stop]`. -/
def sliceTo (text : List α) (stop : ℤ) : List α :=
  if 0 ≤ stop then text.take stop.toNat else text.take (text.length - stop.natAbs)

theorem length_sliceTo_le {stop : ℤ} (h : 0 ≤ stop) : (sliceTo text stop).length ≤ stop := by
  rw [sliceTo, if_pos h]
  have hle := length_take_le stop.toNat text
  omega

theorem sliceTo_prefix (text : List α) (stop : ℤ) : sliceTo text stop <+: text := by
  rw [sliceTo]
  split <;> exact take_prefix _ _

/-! ### Markers -/

/-- A number in a text. -/
def digits (n : ℕ) : List Char := (toString n).toList

/-- Texts with values between them. -/
@[grind =] def fillIn : List String → List (List Char) → List Char
  | [], values => values.flatten
  | t :: texts, [] => t.toList ++ fillIn texts []
  | t :: texts, v :: values => t.toList ++ v ++ fillIn texts values

theorem length_digits_mono {n m : ℕ} (h : n ≤ m) : (digits n).length ≤ (digits m).length := by
  have hpos : 0 < (Nat.toDigits 10 m).length := Nat.length_toDigits_pos
  rw [digits, digits, Nat.toString_eq_repr, Nat.toString_eq_repr, Nat.toList_repr, Nat.toList_repr,
    Nat.length_toDigits_le_iff (by decide) hpos]
  exact h.trans_lt ((Nat.length_toDigits_le_iff (by decide) hpos).1 (Nat.le_refl _))

theorem length_fillIn (texts : List String) (values : List (List Char)) :
    (fillIn texts values).length =
      (texts.map fun t => t.toList.length).sum + (values.map List.length).sum := by
  fun_induction fillIn texts values with
  | case1 values => simp
  | case2 t texts ih => simp [ih]
  | case3 t texts v values ih =>
    simp only [length_append, ih, map_cons, sum_cons]
    omega

theorem mem_fillIn {texts : List String} {values : List (List Char)} {c : Char}
    (h : c ∈ fillIn texts values) : (∃ t ∈ texts, c ∈ t.toList) ∨ ∃ v ∈ values, c ∈ v := by
  fun_induction fillIn texts values with
  | case1 values => exact .inr (mem_flatten.1 h)
  | case2 | case3 => grind

end AfterFlow.Excerpt
