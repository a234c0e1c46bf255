import Mathlib.Data.List.Nodup

/-!
# Codes that can be read off the front of a text

A code is self-delimiting if no text begins with the codes of two things. Then a sequence of codes
can be read off as well, if something follows it that begins no code, with or without separators in
between.
-/

namespace AfterFlow.Codes

open List

variable {α β γ : Type}

/-- A code can be read off the front of a text. -/
def SelfDelimiting (code : α → List β) : Prop :=
  ∀ ⦃a b x y⦄, code a ++ x = code b ++ y → a = b ∧ x = y

/-- No code begins with `stop`, and none is empty. -/
def Stops (code : α → List β) (stop : β) : Prop := ∀ a x y, code a ++ x ≠ stop :: y

variable {code : α → List β} {stop sep : β} {l l' : List α} {x y : List β}

theorem SelfDelimiting.of_unnested (h : ∀ a b, code a <+: code b → a = b) :
    SelfDelimiting code := by
  intro a b x y heq
  have hab : a = b := by
    rcases prefix_or_prefix_of_prefix ⟨x, heq⟩ ⟨y, rfl⟩ with hp | hp
    · exact h a b hp
    · exact (h b a hp).symm
  subst hab
  exact ⟨rfl, append_cancel_left heq⟩

theorem SelfDelimiting.pair {code' : γ → List β} (h : SelfDelimiting code)
    (h' : SelfDelimiting code') (mid : List β) :
    SelfDelimiting fun p : α × γ => code p.1 ++ (mid ++ code' p.2) := by
  rintro ⟨a, c⟩ ⟨b, d⟩ x y heq
  simp only [append_assoc] at heq
  obtain ⟨rfl, htail⟩ := h heq
  obtain ⟨rfl, hxy⟩ := h' (append_cancel_left htail)
  exact ⟨rfl, hxy⟩

theorem SelfDelimiting.flatMap_stop (h : SelfDelimiting code) (hstop : Stops code stop)
    (heq : l.flatMap code ++ stop :: x = l'.flatMap code ++ stop :: y) : l = l' ∧ x = y := by
  induction l generalizing l' with
  | nil =>
    cases l' with
    | nil => exact ⟨rfl, (List.cons.inj heq).2⟩
    | cons b l' =>
      rw [flatMap_cons, append_assoc] at heq
      exact absurd heq.symm (hstop _ _ _)
  | cons a l ih =>
    cases l' with
    | nil =>
      rw [flatMap_cons, append_assoc] at heq
      exact absurd heq (hstop _ _ _)
    | cons b l' =>
      rw [flatMap_cons, flatMap_cons, append_assoc, append_assoc] at heq
      obtain ⟨rfl, hrest⟩ := h heq
      obtain ⟨rfl, hxy⟩ := ih hrest
      exact ⟨rfl, hxy⟩

theorem intercalate_map_cons (a : α) (l : List α) :
    [sep].intercalate ((a :: l).map code) = code a ++ (l.map fun b => sep :: code b).flatten := by
  induction l generalizing a with
  | nil => simp [List.intercalate]
  | cons b l ih =>
    have hsplit : [sep].intercalate ((a :: b :: l).map code) =
        code a ++ sep :: [sep].intercalate ((b :: l).map code) := by
      simp [List.intercalate]
    rw [hsplit, ih, map_cons, flatten_cons, cons_append]

theorem SelfDelimiting.intercalate_stop (h : SelfDelimiting code) (hstop : Stops code stop)
    (hsep : sep ≠ stop)
    (heq : [sep].intercalate (l.map code) ++ stop :: x =
      [sep].intercalate (l'.map code) ++ stop :: y) : l = l' ∧ x = y := by
  have hrest : ∀ {l l' : List α}, (l.map fun b => sep :: code b).flatten ++ stop :: x =
      (l'.map fun b => sep :: code b).flatten ++ stop :: y → l = l' ∧ x = y := by
    intro l l' heq
    have hcode : SelfDelimiting fun b => sep :: code b := fun a b x y heq => h (List.cons.inj heq).2
    have hstop : Stops (fun b => sep :: code b) stop := fun a x y heq => hsep (List.cons.inj heq).1
    exact hcode.flatMap_stop hstop heq
  cases l with
  | nil =>
    cases l' with
    | nil => exact ⟨rfl, (List.cons.inj heq).2⟩
    | cons b l' =>
      rw [intercalate_map_cons, append_assoc] at heq
      exact absurd heq.symm (hstop _ _ _)
  | cons a l =>
    cases l' with
    | nil =>
      rw [intercalate_map_cons, append_assoc] at heq
      exact absurd heq (hstop _ _ _)
    | cons b l' =>
      rw [intercalate_map_cons, intercalate_map_cons, append_assoc, append_assoc] at heq
      obtain ⟨rfl, htail⟩ := h heq
      obtain ⟨rfl, hxy⟩ := hrest htail
      exact ⟨rfl, hxy⟩

/-- A dictionary is determined by its entries and the order of its keys. -/
theorem eq_of_perm_of_keys {d d' : List (α × γ)} (hperm : d.Perm d')
    (hkeys : d.map Prod.fst = d'.map Prod.fst) (hnodup : (d.map Prod.fst).Nodup) : d = d' := by
  refine ext_getElem hperm.length_eq fun i hi hi' => ?_
  obtain ⟨j, hj, hij⟩ := mem_iff_getElem.mp (hperm.subset (getElem_mem hi))
  have hkey : ∀ k (hk : k < d.length) (hk' : k < d'.length), d[k].1 = d'[k].1 := by
    intro k hk hk'
    have := getElem_of_eq hkeys (i := k) (by rwa [length_map])
    simpa using this
  have hji : j = i := by
    have hjd : j < d.length := hperm.length_eq ▸ hj
    have hjk : j < (d.map Prod.fst).length := by rwa [length_map]
    have hik : i < (d.map Prod.fst).length := by rwa [length_map]
    have hsame : (d.map Prod.fst)[j] = (d.map Prod.fst)[i] := by
      rw [getElem_map, getElem_map, hkey j hjd hj, hij]
    exact hnodup.getElem_inj_iff.mp hsame
  subst hji
  exact hij.symm

end AfterFlow.Codes
