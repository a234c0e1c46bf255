import AfterFlow.Subwords

/-!
# Replacing a text in another

`str.replace` goes from left to right, and what it puts in is not looked at again. So a text is a row
of sections with the replaced text between them, and its replacement is the same row with the other
text between them.
-/

namespace AfterFlow.Sandbox

open List

/-- `old in content`. -/
def containsText (old content : List Char) : Bool := content.tails.any fun rest => old.isPrefixOf rest

/-- Replace `old` from left to right, as often as `count` says, after `k` characters of one that was
replaced. -/
@[grind =] def replaceFrom (old new : List Char) : ℕ → Option ℕ → List Char → List Char
  | _, _, [] => []
  | k + 1, count, _ :: l => replaceFrom old new k count l
  | 0, count, c :: l =>
    if count ≠ some 0 ∧ old.isPrefixOf (c :: l) then
      new ++ replaceFrom old new (old.length - 1) (count.map (· - 1)) l
    else c :: replaceFrom old new 0 count l

/-- `content.replace(old, new)`, and `content.replace(old, new, 1)` unless `all`. The empty text is
between any two characters. -/
def replaceText (content old new : List Char) (all : Bool) : List Char :=
  if old = [] then if all then new ++ content.flatMap (fun c => c :: new) else new ++ content
  else replaceFrom old new 0 (if all then none else some 1) content

variable {old new content word : List Char} {count : Option ℕ}

theorem containsText_iff : containsText old content = true ↔ old <:+: content := by
  rw [containsText, any_eq_true]
  simp only [mem_tails, isPrefixOf_iff_prefix, infix_iff_prefix_suffix, and_comm]

theorem replaceFrom_eq_drop (k : ℕ) (content : List Char) :
    replaceFrom old new k count content = replaceFrom old new 0 count (content.drop k) := by
  induction content generalizing k with
  | nil => rw [drop_nil, replaceFrom, replaceFrom]
  | cons c content ih =>
    cases k with
    | zero => rfl
    | succ k => exact ih k

theorem replaceFrom_append (hne : old ≠ []) (hcount : count ≠ some 0) (rest : List Char) :
    replaceFrom old new 0 count (old ++ rest) =
      new ++ replaceFrom old new 0 (count.map (· - 1)) rest := by
  obtain ⟨c, l, rfl⟩ := exists_cons_of_ne_nil hne
  rw [cons_append, replaceFrom, if_pos ⟨hcount, by simp⟩, replaceFrom_eq_drop,
    length_cons, Nat.add_sub_cancel, drop_left]

theorem replaceFrom_cons {c : Char} (h : ¬old <+: c :: content) :
    replaceFrom old new 0 count (c :: content) = c :: replaceFrom old new 0 count content := by
  rw [replaceFrom, if_neg]
  rintro ⟨-, hprefix⟩
  exact h ( isPrefixOf_iff_prefix.1 hprefix)

/-- **The sections** of a text, between what is replaced. -/
theorem exists_sections (hne : old ≠ []) (new content : List Char) :
    ∃ first rest, content = first ++ rest.flatMap (old ++ ·) ∧
      replaceText content old new true = first ++ rest.flatMap (new ++ ·) ∧
      ∀ sec ∈ first :: rest, ¬old <:+: sec := by
  rw [replaceText, if_neg hne, if_pos rfl]
  induction hlength : content.length using Nat.strong_induction_on generalizing content with
  | _ n ih =>
    by_cases hprefix : old <+: content
    · obtain ⟨after, rfl⟩ := hprefix
      have hshorter : after.length < n := by
        have hpos := length_pos_of_ne_nil hne
        rw [← hlength, length_append]
        omega
      obtain ⟨first, rest, hcontent, hreplaced, hsections⟩ := ih _ hshorter after rfl
      refine ⟨[], first :: rest, ?_, ?_, ?_⟩
      · rw [flatMap_cons, nil_append, append_assoc, ← hcontent]
      · rw [replaceFrom_append hne (by simp), Option.map_none, hreplaced, flatMap_cons,
          nil_append, append_assoc]
      · intro sec hsec
        rcases mem_cons.1 hsec with rfl | hsec
        · rw [infix_nil]
          exact hne
        · exact hsections sec hsec
    · cases content with
      | nil =>
        refine ⟨[], [], rfl, rfl, ?_⟩
        intro sec hsec
        rw [mem_singleton.1 hsec, infix_nil]
        exact hne
      | cons c content =>
        have hshorter : content.length < n := by
          rw [← hlength, length_cons]
          omega
        obtain ⟨first, rest, hcontent, hreplaced, hsections⟩ := ih _ hshorter content rfl
        refine ⟨c :: first, rest, ?_, ?_, ?_⟩
        · rw [cons_append, ← hcontent]
        · rw [replaceFrom_cons hprefix, hreplaced, cons_append]
        · intro sec hsec
          rcases mem_cons.1 hsec with rfl | hsec
          · intro hinside
            rcases infix_cons_iff.1 hinside with hstart | hinside
            · refine hprefix (hstart.trans ?_)
              rw [hcontent]
              exact ⟨_, cons_append⟩
            · exact hsections first mem_cons_self hinside
          · exact hsections sec (mem_cons_of_mem first hsec)

theorem infix_sections (hapart : ∀ c ∈ new, c ∉ word) (hne : new ≠ []) {first : List Char}
    {rest : List (List Char)} (h : word <:+: first ++ rest.flatMap (new ++ ·)) :
    ∃ sec ∈ first :: rest, word <:+: sec := by
  induction rest generalizing first with
  | nil =>
    rw [flatMap_nil, append_nil] at h
    exact ⟨first, mem_cons_self, h⟩
  | cons sec rest ih =>
    rw [flatMap_cons, append_assoc] at h
    rcases Subwords.infix_append_apart hapart hne h with h | h
    · exact ⟨first, mem_cons_self, h⟩
    · obtain ⟨sec', hsec', hword⟩ := ih h
      exact ⟨sec', mem_cons_of_mem first hsec', hword⟩

/-- **What is replaced is gone**, if the replacement shares no letter with it. -/
theorem not_infix_replace_self (hold : old ≠ []) (hapart : ∀ c ∈ new, c ∉ old) (hne : new ≠ []) :
    ¬old <:+: replaceText content old new true := by
  obtain ⟨first, rest, -, hreplaced, hsections⟩ := exists_sections hold new content
  intro h
  rw [hreplaced] at h
  obtain ⟨sec, hsec, hword⟩ := infix_sections hapart hne h
  exact hsections sec hsec hword

/-- **What was not there does not appear**, if the replacement shares no letter with it. -/
theorem not_infix_replace (hold : old ≠ []) (hapart : ∀ c ∈ new, c ∉ word) (hne : new ≠ [])
    (h : ¬word <:+: content) : ¬word <:+: replaceText content old new true := by
  obtain ⟨first, rest, hcontent, hreplaced, -⟩ := exists_sections hold new content
  intro hword
  rw [hreplaced] at hword
  obtain ⟨sec, hsec, hword⟩ := infix_sections hapart hne hword
  refine h (hword.trans ?_)
  rw [hcontent]
  rcases mem_cons.1 hsec with rfl | hsec
  · exact (prefix_append _ _).isInfix
  · obtain ⟨before, after, rfl⟩ := append_of_mem hsec
    rw [flatMap_append, flatMap_cons]
    exact ⟨first ++ (before.flatMap (old ++ ·) ++ old), after.flatMap (old ++ ·), by simp⟩

end AfterFlow.Sandbox
