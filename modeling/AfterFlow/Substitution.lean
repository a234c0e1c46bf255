import Mathlib.Data.List.Infix

/-!
# Substitution in texts

A search says whether something is found at the start of a text: how long it is and what it is.
`scan` goes over a text from the left to the right, tells what is found and goes on behind it, and
`subst` puts it in its place. A search that never succeeds inside a part of the text leaves it as it
is. Where a text is known piece by piece, `reads` says that the search finds the pieces that are due
and nothing else, and then they are put in place and every other piece stays.

Patterns are compared with texts letter by letter, by any relation of letters.

## Main results

* `foldr_scan_of_reads`, `subst_of_reads` — the pieces that are due are put in place
* `subst_of_none` — a text in which nothing is found stays
-/

namespace Substitution

open List

variable {α β : Type}

/-! ### Patterns -/

/-- What is left of a text that starts with the pattern. -/
@[grind =] def stripBy (r : α → β → Bool) : List α → List β → Option (List β)
  | [], t => some t
  | _ :: _, [] => none
  | p :: v, c :: t => if r p c then stripBy r v t else none

/-! ### Scanning -/

/-- The letters of a text, with what is found in place of what it is found for; `skip` letters were
found already. -/
@[grind =] def scan (find : List α → Option (ℕ × β)) : (skip : ℕ) → List α → List (α ⊕ β)
  | _, [] => []
  | skip + 1, _ :: t => scan find skip t
  | 0, c :: t =>
    match find (c :: t) with
    | some (n, found) => .inr found :: scan find (n - 1) t
    | none => .inl c :: scan find 0 t

section Scan

variable {find : List α → Option (ℕ × β)} {c : α} {t w o : List α} {n : ℕ} {found : β}

theorem scan_nil (find : List α → Option (ℕ × β)) (n : ℕ) : scan find n [] = [] := by
  cases n <;> rfl

theorem scan_eq_drop (find : List α → Option (ℕ × β)) (n : ℕ) (t : List α) :
    scan find n t = scan find 0 (t.drop n) := by
  induction t generalizing n with
  | nil => rw [drop_nil, scan_nil, scan_nil]
  | cons c t ih =>
    cases n with
    | zero => rfl
    | succ n => exact ih n

theorem scan_cons_of_none (h : find (c :: t) = none) :
    scan find 0 (c :: t) = .inl c :: scan find 0 t := by
  rw [scan, h]

/-- **Something is found**, and the search goes on behind it. -/
theorem scan_of_some (h : find t = some (n, found)) (hn : 0 < n) (hne : t ≠ []) :
    scan find 0 t = .inr found :: scan find 0 (t.drop n) := by
  cases t with
  | nil => exact absurd rfl hne
  | cons c t =>
    obtain ⟨m, rfl⟩ : ∃ m, n = m + 1 := ⟨n - 1, by omega⟩
    rw [scan, h]
    dsimp only
    rw [Nat.add_sub_cancel, scan_eq_drop]
    rfl

/-- **Nothing is found** inside the first part. -/
theorem scan_append_of_none (h : ∀ s, s ≠ [] → s <:+ w → find (s ++ o) = none) :
    scan find 0 (w ++ o) = w.map .inl ++ scan find 0 o := by
  induction w with
  | nil => rfl
  | cons c w ih =>
    have hhead : find (c :: (w ++ o)) = none := h (c :: w) (cons_ne_nil c w) suffix_rfl
    rw [cons_append, scan_cons_of_none hhead, map_cons, cons_append,
      ih fun s hne hs => h s hne (hs.trans (suffix_cons c w))]

end Scan

/-! ### Texts in pieces -/

section Pieces

variable {P γ : Type} (find : List α → Option (ℕ × β)) (get : P → List α) (due : P → Bool)
  (good : P → List α → Bool)

/-- **The search finds the pieces that are due**, each from its first letter on, and nothing else. It
may go on behind such a piece over others that are not due, if that is good for the piece; `skip`
letters were found with an earlier piece. -/
@[grind =] def reads : (skip : ℕ) → List P → Bool
  | _, [] => true
  | 0, p :: ps =>
    let rest := ps.flatMap get
    if due p then
      (find (get p ++ rest)).any fun found =>
        let more := found.1 - (get p).length
        !(get p).isEmpty && decide ((get p).length ≤ found.1) && good p (rest.take more) &&
          reads more ps
    else (get p).tails.all (fun s => s.isEmpty || (find (s ++ rest)).isNone) && reads 0 ps
  | skip + 1, p :: ps =>
    !due p && decide ((get p).length ≤ skip + 1) && reads (skip + 1 - (get p).length) ps

variable {find get due good} {put : P → List α} {p : P} {ps : List P} {skip : ℕ}

theorem reads_skip (h : reads find get due good (skip + 1) (p :: ps) = true) :
    due p = false ∧ (get p).length ≤ skip + 1 ∧
      reads find get due good (skip + 1 - (get p).length) ps = true := by
  rw [reads, Bool.and_eq_true, Bool.and_eq_true, Bool.not_eq_true', decide_eq_true_iff] at h
  exact ⟨h.1.1, h.1.2, h.2⟩

theorem reads_due (h : reads find get due good 0 (p :: ps) = true) (hdue : due p = true) :
    ∃ n found, find (get p ++ ps.flatMap get) = some (n, found) ∧ get p ≠ [] ∧
      (get p).length ≤ n ∧ good p ((ps.flatMap get).take (n - (get p).length)) = true ∧
      reads find get due good (n - (get p).length) ps = true := by
  rw [reads] at h
  simp only [hdue, ↓reduceIte, Option.any_eq_true, Bool.and_eq_true, Bool.not_eq_true',
    isEmpty_eq_false_iff, decide_eq_true_iff] at h
  obtain ⟨⟨n, found⟩, hfind, ⟨⟨hne, hle⟩, hgood⟩, hrest⟩ := h
  exact ⟨n, found, hfind, hne, hle, hgood, hrest⟩

theorem reads_quiet (h : reads find get due good 0 (p :: ps) = true) (hdue : due p = false) :
    (∀ s, s ≠ [] → s <:+ get p → find (s ++ ps.flatMap get) = none) ∧
      reads find get due good 0 ps = true := by
  rw [reads] at h
  simp only [hdue, Bool.false_eq_true, ↓reduceIte, Bool.and_eq_true, all_eq_true,
    Bool.or_eq_true, List.isEmpty_iff, Option.isNone_iff_eq_none] at h
  refine ⟨fun s hne hs => ?_, h.2⟩
  exact (h.1 s ((List.mem_tails _ _).2 hs)).resolve_left hne

/-- Where no piece is due, nothing may be found. -/
theorem reads_of_none (hdue : ∀ p ∈ ps, due p = false)
    (h : ∀ s, s ≠ [] → s <:+ ps.flatMap get → find s = none) :
    reads find get due good 0 ps = true := by
  induction ps with
  | nil => rfl
  | cons p ps ih =>
    rw [flatMap_cons] at h
    rw [reads]
    simp only [hdue p mem_cons_self, Bool.false_eq_true, ↓reduceIte, Bool.and_eq_true, all_eq_true,
      Bool.or_eq_true, List.isEmpty_iff, Option.isNone_iff_eq_none]
    refine ⟨fun s hs => or_iff_not_imp_left.2 fun hne => ?_,
      ih (fun q hq => hdue q (mem_cons_of_mem p hq)) fun s hne hs => h s hne (hs.trans (suffix_append _ _))⟩
    refine h _ (append_ne_nil_of_left_ne_nil hne _) ?_
    obtain ⟨before, hbefore⟩ := (mem_tails _ _).1 hs
    exact ⟨before, by rw [← append_assoc, hbefore]⟩

theorem take_of_reads (hkeep : ∀ p, due p = false → put p = get p)
    (h : reads find get due good skip ps = true) :
    (ps.flatMap get).take skip = (ps.flatMap put).take skip := by
  induction ps generalizing skip with
  | nil => rfl
  | cons p ps ih =>
    cases skip with
    | zero => rfl
    | succ skip =>
      obtain ⟨hdue, hle, hrest⟩ := reads_skip h
      rw [flatMap_cons, flatMap_cons, hkeep p hdue, take_append,
        take_append, ih hrest]

/-- **The pieces that are due are put in place**, and every other letter stays: what is found is
handled by `step`, and `render` tells what comes of a text. -/
theorem foldr_scan_of_reads {step : α ⊕ β → γ → γ} {render : List α → γ}
    (hkeep : ∀ p, due p = false → put p = get p)
    (hchar : ∀ c t, step (.inl c) (render t) = render (c :: t))
    (hgood : ∀ p rest n found t, due p = true → find (get p ++ rest) = some (n, found) →
      (get p).length ≤ n → good p (rest.take (n - (get p).length)) = true →
      step (.inr found) (render t) = render (put p ++ (rest.take (n - (get p).length) ++ t)))
    (h : reads find get due good skip ps = true) :
    (scan find 0 ((ps.flatMap get).drop skip)).foldr step (render []) =
      render ((ps.flatMap put).drop skip) := by
  induction ps generalizing skip with
  | nil => rw [flatMap_nil, flatMap_nil, drop_nil, scan_nil, foldr_nil]
  | cons p ps ih =>
    rw [flatMap_cons, flatMap_cons]
    cases skip with
    | succ skip =>
      obtain ⟨hdue, hle, hrest⟩ := reads_skip h
      rw [hkeep p hdue, drop_append, drop_append, drop_eq_nil_of_le hle,
        nil_append, nil_append]
      exact ih hrest
    | zero =>
      rw [drop_zero, drop_zero]
      cases hdue : due p with
      | true =>
        obtain ⟨n, found, hfind, hne, hle, hkept, hrest⟩ := reads_due h hdue
        have hpos : 0 < n := Nat.lt_of_lt_of_le (length_pos_iff.2 hne) hle
        rw [scan_of_some hfind hpos (append_ne_nil_of_left_ne_nil hne _), foldr_cons,
          drop_append, drop_eq_nil_of_le hle, nil_append, ih hrest,
          hgood p _ n found _ hdue hfind hle hkept, take_of_reads hkeep hrest,
          take_append_drop]
      | false =>
        obtain ⟨hquiet, hrest⟩ := reads_quiet h hdue
        have hletters : ∀ w t : List α, (w.map Sum.inl).foldr step (render t) = render (w ++ t) := by
          intro w t
          induction w with
          | nil => rfl
          | cons c w ihw => rw [map_cons, foldr_cons, ihw, hchar, cons_append]
        have htail := ih hrest
        rw [drop_zero, drop_zero] at htail
        rw [scan_append_of_none hquiet, foldr_append, htail, hletters, hkeep p hdue]

end Pieces

/-! ### Substitution -/

/-- Put what is found in place of what it is found for. -/
def subst (find : List α → Option (ℕ × List α)) (t : List α) : List α :=
  (scan find 0 t).flatMap (Sum.elim (fun c => [c]) id)

variable {find : List α → Option (ℕ × List α)} {t w o : List α}

theorem subst_nil (find : List α → Option (ℕ × List α)) : subst find [] = [] := rfl

theorem subst_append_of_none (h : ∀ s, s ≠ [] → s <:+ w → find (s ++ o) = none) :
    subst find (w ++ o) = w ++ subst find o := by
  rw [subst, scan_append_of_none h, flatMap_append, flatMap_map, ← subst]
  exact congrArg (· ++ _) (flatMap_singleton' w)

theorem subst_of_none (h : ∀ s, s ≠ [] → s <:+ t → find s = none) : subst find t = t := by
  have hall : subst find (t ++ []) = t ++ subst find [] :=
    subst_append_of_none fun s hne hs => by
      rw [append_nil]
      exact h s hne hs
  rwa [subst_nil, append_nil] at hall

/-- **The pieces that are due are put in place**, if what is found for one is what it becomes. -/
theorem subst_of_reads {P : Type} {get put : P → List α} {due : P → Bool}
    {good : P → List α → Bool} {ps : List P} (hkeep : ∀ p, due p = false → put p = get p)
    (hgood : ∀ p rest n r, due p = true → find (get p ++ rest) = some (n, r) →
      (get p).length ≤ n → good p (rest.take (n - (get p).length)) = true →
      r = put p ++ rest.take (n - (get p).length))
    (h : reads find get due good 0 ps = true) : subst find (ps.flatMap get) = ps.flatMap put := by
  have hsubst : ∀ parts : List (α ⊕ List α), parts.flatMap (Sum.elim (fun c => [c]) id) =
      parts.foldr (Sum.elim List.cons List.append) (id []) := by
    intro parts
    induction parts with
    | nil => rfl
    | cons part parts ih =>
      rw [flatMap_cons, foldr_cons, ih]
      cases part <;> rfl
  have hfound : ∀ p rest n r (t : List α), due p = true → find (get p ++ rest) = some (n, r) →
      (get p).length ≤ n → good p (rest.take (n - (get p).length)) = true →
      Sum.elim List.cons List.append (Sum.inr r) (id t) =
        id (put p ++ (rest.take (n - (get p).length) ++ t)) := by
    intro p rest n r t hdue hfind hle hmore
    rw [hgood p rest n r hdue hfind hle hmore, id, id, ← append_assoc]
    rfl
  rw [subst, hsubst]
  exact foldr_scan_of_reads hkeep (fun _ _ => rfl) hfound h

end Substitution
