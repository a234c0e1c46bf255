import AfterFlow.PyStr
import Mathlib.Algebra.Order.BigOperators.Group.List
import Mathlib.Algebra.Order.Group.Nat
import Mathlib.Algebra.Ring.Nat

/-!
# Words of a text

`text.split()` cuts a text at its whitespace, and `" ".join(words)` puts the words together again
with single blanks. A text of words joined by blanks is read back as these words. Cut short, it is
again such a text, unless the cut is after a blank.
-/

namespace AfterFlow.PyStr

open List

/-- `text.split()`. -/
def words (text : List Char) : List (List Char) := (text.splitOnP isSpace).filter (· ≠ [])

/-- `" ".join(words)`. -/
@[grind =] def joinWords : List (List Char) → List Char
  | [] => []
  | [w] => w
  | w :: ws => w ++ ' ' :: joinWords ws

/-- A text that is not empty and has no whitespace. -/
def IsWord (w : List Char) : Prop := w ≠ [] ∧ ∀ c ∈ w, isSpace c = false

variable {w : List Char} {ws : List (List Char)} {n : ℕ}

theorem no_space_of_mem_splitOnP {text : List Char} (h : w ∈ text.splitOnP isSpace) :
    ∀ c ∈ w, isSpace c = false := by
  induction text generalizing w with
  | nil =>
    obtain rfl : w = [] := by simpa using h
    simp
  | cons c text ih =>
    rw [splitOnP_cons_eq_if_modifyHead] at h
    split at h
    · rcases mem_cons.1 h with rfl | h
      · simp
      · exact ih h
    · rename_i hc
      cases hrest : text.splitOnP isSpace with
      | nil => exact absurd hrest (splitOnP_ne_nil _ _)
      | cons first rest =>
        rw [hrest] at h
        rcases mem_cons.1 h with rfl | h
        · intro d hd
          rcases mem_cons.1 hd with rfl | hd
          · simpa using hc
          · exact ih (by rw [hrest]; exact mem_cons_self) d hd
        · exact ih (by rw [hrest]; exact mem_cons_of_mem _ h)

theorem isWord_of_mem_words {text : List Char} (h : w ∈ words text) : IsWord w := by
  obtain ⟨hw, hne⟩ := mem_filter.1 h
  exact ⟨by simpa using hne, no_space_of_mem_splitOnP hw⟩

theorem words_word (h : IsWord w) : words w = [w] := by
  rw [words, splitOnP_eq_singleton h.2]
  simp [h.1]

theorem words_cons (h : IsWord w) (text : List Char) : words (w ++ ' ' :: text) = w :: words text := by
  rw [words, splitOnP_append_cons_of_forall_mem h.2 ' ' (by decide), filter_cons_of_pos]
  · rfl
  · simpa using h.1

/-- **Words that were joined are found again.** -/
theorem words_joinWords (h : ∀ w ∈ ws, IsWord w) : words (joinWords ws) = ws := by
  induction ws with
  | nil => rfl
  | cons w ws ih =>
    have hw : IsWord w := h w mem_cons_self
    have hws : ∀ w ∈ ws, IsWord w := fun w hw => h w (mem_cons_of_mem _ hw)
    cases ws with
    | nil => exact words_word hw
    | cons w' ws =>
      rw [joinWords]
      · rw [words_cons hw, ih hws]
      · simp

theorem joinWords_ne_nil (h : ∀ w ∈ ws, IsWord w) (hne : ws ≠ []) : joinWords ws ≠ [] := by
  cases ws with
  | nil => exact absurd rfl hne
  | cons w ws =>
    cases ws with
    | nil => exact (h w mem_cons_self).1
    | cons w' ws => simp [joinWords]

theorem joinWords_cons_cons {w' : List Char} :
    joinWords (w :: w' :: ws) = w ++ ' ' :: joinWords (w' :: ws) := by
  rw [joinWords]
  simp

theorem take_joinWords_cons (hn : n ≤ w.length) : (joinWords (w :: ws)).take n = w.take n := by
  cases ws with
  | nil => rfl
  | cons w' ws => rw [joinWords_cons_cons, take_append_of_le_length hn]

/-- **A text of words cut short** is a text of words, unless the cut is after a blank. -/
theorem take_joinWords (h : ∀ w ∈ ws, IsWord w) (hlast : (joinWords ws)[n - 1]? ≠ some ' ') :
    ∃ ws', (∀ w ∈ ws', IsWord w) ∧ (joinWords ws).take n = joinWords ws' := by
  induction ws generalizing n with
  | nil => exact ⟨[], by simp, by simp [joinWords]⟩
  | cons w ws ih =>
    have hw : IsWord w := h w mem_cons_self
    by_cases hn : n ≤ w.length
    · rw [take_joinWords_cons hn]
      by_cases hzero : n = 0
      · exact ⟨[], by simp, by simp [hzero, joinWords]⟩
      · refine ⟨[w.take n], ?_, rfl⟩
        rintro v hv
        obtain rfl := mem_singleton.1 hv
        exact ⟨by simp [hzero, hw.1], fun c hc => hw.2 c (mem_of_mem_take hc)⟩
    · cases ws with
      | nil => exact ⟨[w], h, take_of_length_le (by simp [joinWords]; omega)⟩
      | cons w' ws =>
        -- the cut is `m` characters into the rest, after the blank
        obtain ⟨m, rfl⟩ : ∃ m, n = w.length + (m + 1) := ⟨n - w.length - 1, by omega⟩
        rw [joinWords_cons_cons] at hlast ⊢
        rw [take_length_add_append, take_succ_cons]
        have hindex : w.length + (m + 1) - 1 = w.length + m := by omega
        rw [hindex, getElem?_append_right (by omega), Nat.add_sub_cancel_left] at hlast
        cases m with
        | zero => exact absurd rfl hlast
        | succ m =>
          rw [getElem?_cons_succ] at hlast
          obtain ⟨ws', hws', htake⟩ := ih (n := m + 1)
            (fun v hv => h v (mem_cons_of_mem _ hv)) hlast
          cases ws' with
          | nil =>
            have hne := joinWords_ne_nil (fun v hv => h v (mem_cons_of_mem w hv)) (by simp)
            simp [joinWords, hne] at htake
          | cons v ws' =>
            refine ⟨w :: v :: ws', ?_, by rw [joinWords_cons_cons, htake]⟩
            rintro u hu
            rcases mem_cons.1 hu with rfl | hu
            · exact hw
            · exact hws' u hu

theorem getLast?_joinWords (h : ∀ w ∈ ws, IsWord w) : (joinWords ws).getLast? ≠ some ' ' := by
  induction ws with
  | nil => simp [joinWords]
  | cons w ws ih =>
    have hw : IsWord w := h w mem_cons_self
    cases ws with
    | nil =>
      intro hlast
      have hspace := hw.2 ' ' (mem_of_getLast? hlast)
      exact absurd hspace (by decide)
    | cons w' ws =>
      have hws : ∀ v ∈ w' :: ws, IsWord v := fun v hv => h v (mem_cons_of_mem _ hv)
      have hne := joinWords_ne_nil hws (by simp)
      rw [joinWords_cons_cons, getLast?_append_of_ne_nil _ (by simp),
        getLast?_cons_of_ne_nil hne]
      exact ih hws

/-! ### Lengths -/

theorem length_joinWords_le : (joinWords ws).length ≤ (ws.map fun w => w.length + 1).sum - 1 := by
  induction ws with
  | nil => simp [joinWords]
  | cons w ws ih =>
    cases ws with
    | nil => simp [joinWords]
    | cons w' ws =>
      rw [joinWords_cons_cons, length_append, length_cons]
      simp only [map_cons, sum_cons] at ih ⊢
      omega

theorem sum_length_splitOnP (text : List Char) :
    ((text.splitOnP isSpace).map fun w => w.length + 1).sum = text.length + 1 := by
  induction text with
  | nil => rfl
  | cons c text ih =>
    rw [splitOnP_cons_eq_if_modifyHead]
    split
    · rw [map_cons, sum_cons, ih, length_cons]
      simp only [length_nil]
      omega
    · cases hrest : text.splitOnP isSpace with
      | nil => exact absurd hrest (splitOnP_ne_nil _ _)
      | cons first rest =>
        rw [hrest] at ih
        simp only [modifyHead_cons, map_cons, sum_cons, length_cons] at ih ⊢
        omega

theorem length_joinWords_words_le (text : List Char) :
    (joinWords (words text)).length ≤ text.length := by
  have hfilter : ((words text).map fun w => w.length + 1).sum ≤
      ((text.splitOnP isSpace).map fun w => w.length + 1).sum :=
    ((filter_sublist).map _).sum_le_sum fun _ _ => Nat.zero_le _
  have hjoin : (joinWords (words text)).length ≤
      ((words text).map fun w => w.length + 1).sum - 1 := length_joinWords_le
  rw [sum_length_splitOnP] at hfilter
  omega

end AfterFlow.PyStr
