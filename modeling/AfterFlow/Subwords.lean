import Mathlib.Data.List.Infix

/-!
# Words in a text

Where a word can be in a text that is put together of others: beyond a letter that the word does not
have it cannot go, and where it reaches over an end of a part, that part ends as the word begins.
-/

namespace AfterFlow.Subwords

open List

variable {α : Type} {word u v before after rest : List α}

theorem prefix_append_cons {c : α} (hc : c ∉ word) (h : word <+: u ++ c :: v) : word <+: u := by
  rcases prefix_or_prefix_of_prefix h (prefix_append u (c :: v)) with h | ⟨d, rfl⟩
  · exact h
  · rw [prefix_append_right_inj] at h
    cases d with
    | nil => rw [append_nil]
    | cons e d =>
      rw [(cons_prefix_cons.1 h).1] at hc
      exact absurd (mem_append_right u mem_cons_self) hc

theorem infix_append_cons {c : α} (hc : c ∉ word) (h : word <:+: u ++ c :: v) :
    word <:+: u ∨ word <:+: v := by
  induction u with
  | nil =>
    rcases infix_cons_iff.1 h with h | h
    · exact .inl (prefix_append_cons (u := []) hc h).isInfix
    · exact .inr h
  | cons d u ih =>
    rcases infix_cons_iff.1 h with h | h
    · exact .inl (prefix_append_cons (u := d :: u) hc h).isInfix
    · exact (ih h).imp_left fun h => infix_cons h

theorem infix_append_apart {middle : List α} (hapart : ∀ c ∈ middle, c ∉ word)
    (hne : middle ≠ []) (h : word <:+: u ++ (middle ++ v)) : word <:+: u ∨ word <:+: v := by
  induction middle generalizing u with
  | nil => exact absurd rfl hne
  | cons c middle ih =>
    rcases infix_append_cons (hapart c mem_cons_self) h with h | h
    · exact .inl h
    · by_cases hlast : middle = []
      · subst hlast
        exact .inr h
      · have hrest : ∀ c ∈ middle, c ∉ word := fun c hc => hapart c (mem_cons_of_mem _ hc)
        refine (ih hrest hlast (u := []) h).imp_left fun hnil => ?_
        exact hnil.trans ( nil_infix)

theorem occurs_cases {first middle last : List α}
    (h : before ++ word ++ after = first ++ middle ++ last) :
    before.length < first.length ∨ after.length < last.length ∨ word <:+: middle := by
  by_cases hfirst : before.length < first.length
  · exact .inl hfirst
  by_cases hlast : after.length < last.length
  · exact .inr (.inl hlast)
  have hbefore : first <+: before :=
    prefix_of_prefix_length_le ⟨middle ++ last, (append_assoc _ _ _).symm⟩
      ⟨word ++ after, by rw [← h, append_assoc]⟩ (not_lt.1 hfirst)
  have hafter : last <:+ after :=
    suffix_of_suffix_length_le ⟨first ++ middle, rfl⟩ ⟨before ++ word, h⟩ (not_lt.1 hlast)
  obtain ⟨b, rfl⟩ := hbefore
  obtain ⟨a, rfl⟩ := hafter
  refine .inr (.inr ⟨b, a, ?_⟩)
  rw [← append_assoc, append_left_inj, append_assoc, append_assoc,
    append_right_inj, ← append_assoc] at h
  exact h

theorem overlap_left {first : List α} (h : before ++ word ++ after = first ++ rest) :
    (first.drop before.length).take word.length = word.take (first.length - before.length) := by
  have hfirst : first = (before ++ word ++ after).take first.length := by
    rw [h, take_left]
  have hword : ((before ++ word ++ after).drop before.length).take word.length = word := by
    rw [append_assoc, drop_left, take_left]
  rw [hfirst, drop_take, ← hfirst, take_take, min_comm, ← take_take, hword]

theorem overlap_right {last : List α} (h : before ++ word ++ after = rest ++ last) :
    (last.reverse.drop after.length).take word.length =
      word.reverse.take (last.length - after.length) := by
  have hrev : after.reverse ++ word.reverse ++ before.reverse = last.reverse ++ rest.reverse := by
    rw [← reverse_append, ← reverse_append, ← reverse_append, ← h, append_assoc]
  simpa using overlap_left hrev

end AfterFlow.Subwords
