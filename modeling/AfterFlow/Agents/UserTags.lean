import AfterFlow.Agents.UserInput

/-!
# Escaped tags

After `escapeTags` no blocked tag is left, and what comes after it makes none: the two sides of a
tag name are looked at one character further than the name goes, and the characters that take the
place of others are no parts of names.
-/

namespace AfterFlow.Agents.InputSanitization

open PyStr List

variable {w : WordChars} {l u z z' : List Char}

/-- A blocked tag is in the text. -/
def HasTag (w : WordChars) (l : List Char) : Prop :=
  ∃ before after, l = before ++ '<' :: after ∧ tagAt w after = true

theorem hasTag_nil : ¬HasTag w [] := by
  rintro ⟨before, after, h, -⟩
  cases before <;> cases h

theorem hasTag_cons {c : Char} : HasTag w (c :: l) ↔ c = '<' ∧ tagAt w l = true ∨ HasTag w l := by
  constructor
  · rintro ⟨before, after, h, htag⟩
    cases before with
    | nil =>
      obtain ⟨rfl, rfl⟩ := List.cons.inj h
      exact .inl ⟨rfl, htag⟩
    | cons d before =>
      obtain ⟨-, rfl⟩ := List.cons.inj h
      exact .inr ⟨before, after, rfl, htag⟩
  · rintro (⟨rfl, htag⟩ | ⟨before, after, rfl, htag⟩)
    · exact ⟨[], l, rfl, htag⟩
    · exact ⟨c :: before, after, rfl, htag⟩

theorem hasTag_append_left (hu : '<' ∉ u) : HasTag w (u ++ l) ↔ HasTag w l := by
  induction u with
  | nil => rfl
  | cons c u ih =>
    rw [mem_cons, not_or] at hu
    rw [cons_append, hasTag_cons, ih hu.2]
    exact or_iff_right fun h => hu.1 h.1.symm

theorem HasTag.append_left (h : HasTag w l) (u : List Char) : HasTag w (u ++ l) := by
  obtain ⟨before, after, rfl, htag⟩ := h
  exact ⟨u ++ before, after, by rw [append_assoc], htag⟩

/-! ### Beginnings of tags -/

/-- What the text after `<` leaves of the opening. -/
theorem skipOpening_append (u : List Char) :
    (∃ v, ∀ z, skipOpening (u ++ z) = v ++ z) ∨ (∀ z, skipOpening (u ++ z) = skipOpening z) ∨
      ∀ z, skipOpening (u ++ z) = z.dropWhile isSpace := by
  have hdrop : ∀ v : List Char, (∀ z, (v ++ z).dropWhile isSpace = z.dropWhile isSpace) ∨
      ∃ c v', isSpace c = false ∧ ∀ z, (v ++ z).dropWhile isSpace = c :: v' ++ z := by
    intro v
    induction v with
    | nil => exact .inl fun z => rfl
    | cons c v ih =>
      cases hc : isSpace c with
      | true => simpa [hc] using ih
      | false => exact .inr ⟨c, v, hc, fun z => by simp [hc]⟩
  obtain hall | ⟨c, u', hc, hu⟩ := hdrop u
  · exact .inr (.inl fun z => by rw [skipOpening, hall, skipOpening])
  · by_cases hslash : c = '/'
    · subst hslash
      obtain hall | ⟨d, u'', -, hu'⟩ := hdrop u'
      · refine .inr (.inr fun z => ?_)
        rw [skipOpening, hu]
        exact hall z
      · refine .inl ⟨d :: u'', fun z => ?_⟩
        rw [skipOpening, hu]
        exact hu' z
    · refine .inl ⟨c :: u', fun z => ?_⟩
      have hskip : skipSlash (c :: u' ++ z) = c :: u' ++ z := by
        rw [cons_append, skipSlash]
        exact fun l h => hslash (List.cons.inj h).1
      rw [skipOpening, hu, hskip]
      simp [hc]

/-- What cannot complete the beginning of a tag. -/
structure Inert (z : List Char) : Prop where
  /-- Its first character is in no tag name. -/
  head : ∀ c ∈ z.head?, ∀ name ∈ blockedTagNames, ∀ p ∈ name, sameLetter p c = false
  opening : ∀ name ∈ blockedTagNames, dropName name (skipOpening z) = none
  spaces : ∀ name ∈ blockedTagNames, dropName name (z.dropWhile isSpace) = none

/-- A name that fits is in front of what cannot complete it. -/
theorem dropName_append {name v r : List Char}
    (hz : ∀ c ∈ z.head?, ∀ p ∈ name, sameLetter p c = false)
    (h : dropName name (v ++ z) = some r) : ∃ r', dropName name v = some r' ∧ r = r' ++ z := by
  induction name generalizing v with
  | nil =>
    cases h
    exact ⟨v, rfl, rfl⟩
  | cons p name ih =>
    cases v with
    | nil =>
      cases z with
      | nil => cases h
      | cons c z =>
        have hc : sameLetter p c = false := hz c rfl p mem_cons_self
        rw [nil_append, dropName, hc] at h
        cases h
    | cons c v =>
      rw [cons_append, dropName] at h
      rw [dropName]
      cases hc : sameLetter p c with
      | false =>
        rw [hc] at h
        cases h
      | true =>
        rw [hc] at h
        exact ih (fun d hd q hq => hz d hd q (mem_cons_of_mem _ hq)) h

theorem dropName_append_of {name v r : List Char} (h : dropName name v = some r) (z : List Char) :
    dropName name (v ++ z) = some (r ++ z) := by
  induction name generalizing v with
  | nil =>
    cases h
    rfl
  | cons p name ih =>
    cases v with
    | nil => cases h
    | cons c v =>
      rw [dropName] at h
      rw [cons_append, dropName]
      cases hc : sameLetter p c with
      | false =>
        rw [hc] at h
        cases h
      | true =>
        rw [hc] at h
        exact ih h

/-- **Where an inert text begins, anything may begin that is no part of a word.** -/
theorem tagAt_replace (hz : Inert z) (hz' : atBoundary w z' = true)
    (h : tagAt w (u ++ z) = true) : tagAt w (u ++ z') = true := by
  obtain ⟨name, hname, hany⟩ := any_eq_true.1 h
  obtain ⟨r, hr, hbound⟩ := (Option.any_eq_true _ _).1 hany
  obtain ⟨v, hv⟩ | hall | hall := skipOpening_append u
  · rw [hv] at hr
    obtain ⟨r', hr', rfl⟩ := dropName_append (fun c hc p hp => hz.head c hc name hname p hp) hr
    refine any_eq_true.2 ⟨name, hname, (Option.any_eq_true _ _).2 ⟨r' ++ z', ?_, ?_⟩⟩
    · rw [hv]
      exact dropName_append_of hr' z'
    · cases r' with
      | nil => exact hz'
      | cons c r' => exact hbound
  · rw [hall, hz.opening name hname] at hr
    cases hr
  · rw [hall, hz.spaces name hname] at hr
    cases hr

/-- The characters of the tag names. -/
def tagLetters : List Char := "setriomnlya_dupcgkvb-hf".toList

theorem mem_tagLetters : ∀ name ∈ blockedTagNames, ∀ p ∈ name, p ∈ tagLetters := by decide

theorem inert_cons {c : Char} (hspace : isSpace c = false) (hslash : c ≠ '/')
    (hname : ∀ p ∈ tagLetters, sameLetter p c = false) (l : List Char) :
    Inert (c :: l) := by
  have hdrop : (c :: l).dropWhile isSpace = c :: l := by simp [hspace]
  have hskip : skipSlash (c :: l) = c :: l := by
    rw [skipSlash]
    exact fun l h => hslash (List.cons.inj h).1
  have hnone : ∀ name ∈ blockedTagNames, dropName name (c :: l) = none := by
    intro name hmem
    cases name with
    | nil => exact absurd hmem (by decide)
    | cons p name =>
      rw [dropName, hname p (mem_tagLetters _ hmem p mem_cons_self), if_neg Bool.false_ne_true]
  refine ⟨fun d hd name hmem p hp => ?_, fun name hmem => ?_, fun name hmem => ?_⟩
  · cases hd
    exact hname p (mem_tagLetters name hmem p hp)
  · rw [skipOpening, hdrop, hskip, hdrop]
    exact hnone name hmem
  · rw [hdrop]
    exact hnone name hmem

theorem inert_lt (l : List Char) : Inert ('<' :: l) :=
  inert_cons (by decide) (by decide) (by decide) l

theorem inert_amp (l : List Char) : Inert ('&' :: l) :=
  inert_cons (by decide) (by decide) (by decide) l

theorem inert_bracket (l : List Char) : Inert ('[' :: l) :=
  inert_cons (by decide) (by decide) (by decide) l

theorem inert_end : Inert ('\n' :: userInputEnd) := by
  have hnewline : ∀ p ∈ tagLetters, sameLetter p '\n' = false := by decide
  refine ⟨fun c hc => ?_, by decide, by decide⟩
  cases hc
  exact fun name hname p hp => hnewline p (mem_tagLetters name hname p hp)

/-! ### Escaping -/

theorem lt_not_mem_escapeChar (c : Char) : '<' ∉ escapeChar c := by
  rw [escapeChar.eq_def]
  split
  · decide
  · decide
  · rename_i hlt _
    rw [mem_singleton]
    exact fun h => hlt h.symm

theorem escapeFrom_split (l : List Char) : escapeFrom w false l = l ∨
    ∃ u v c v', l = u ++ '<' :: v ∧ (c = '<' ∨ c = '&') ∧ escapeFrom w false l = u ++ c :: v' := by
  induction l with
  | nil => exact .inl rfl
  | cons c l ih =>
    rw [escapeFrom]
    split
    · rename_i h
      have hc : c = '<' := by simpa using (Bool.and_eq_true_iff.1 h).1
      subst hc
      exact .inr ⟨[], l, '&', "lt;".toList ++ escapeFrom w true l, rfl, .inr rfl, rfl⟩
    · by_cases hc : c = '<'
      · exact .inr ⟨[], l, c, escapeFrom w false l, by rw [hc]; rfl, .inl hc, rfl⟩
      · obtain heq | ⟨u, v, d, v', rfl, hd, heq⟩ := ih
        · exact .inl (by rw [heq])
        · exact .inr ⟨c :: u, v, d, v', rfl, hd, by rw [heq]; rfl⟩

theorem atBoundary_cons {c : Char} (hascii : c.toNat < 128)
    (hword : (c.isAlphanum || c == '_') = false) (l : List Char) : atBoundary w (c :: l) = true := by
  rw [atBoundary, w.ascii c hascii, hword]
  rfl

theorem hasTag_escapeFrom (inside : Bool) (l : List Char) : ¬HasTag w (escapeFrom w inside l) := by
  induction l generalizing inside with
  | nil =>
    cases inside <;> exact hasTag_nil
  | cons c l ih =>
    cases inside with
    | true =>
      rw [escapeFrom, hasTag_append_left (lt_not_mem_escapeChar c)]
      exact ih _
    | false =>
      rw [escapeFrom]
      split
      · rw [hasTag_append_left (lt_not_mem_escapeChar c)]
        exact ih _
      · rename_i hno
        rw [hasTag_cons]
        rintro (⟨rfl, htag⟩ | h)
        · refine hno (Bool.and_eq_true_iff.2 ⟨rfl, ?_⟩)
          obtain heq | ⟨u, v, d, v', rfl, hd, heq⟩ := escapeFrom_split (w := w) l
          · rwa [heq] at htag
          · rw [heq] at htag
            refine tagAt_replace ?_ (atBoundary_cons (by decide) (by decide) v) htag
            rcases hd with rfl | rfl
            · exact inert_lt v'
            · exact inert_amp v'
        · exact ih _ h

/-- **No tag is left.** -/
theorem hasTag_escapeTags (w : WordChars) (l : List Char) : ¬HasTag w (escapeTags w l) :=
  hasTag_escapeFrom false l

theorem escapeTags_eq_self (h : ¬HasTag w l) : escapeTags w l = l := by
  rw [escapeTags]
  induction l with
  | nil => rfl
  | cons c l ih =>
    rw [hasTag_cons, not_or] at h
    have hno : ¬(c == '<' && tagAt w l) = true := fun htag =>
      h.1 ⟨by simpa using (Bool.and_eq_true_iff.1 htag).1, (Bool.and_eq_true_iff.1 htag).2⟩
    rw [escapeFrom, if_neg hno, ih h.2]

/-! ### After escaping -/

theorem hasTag_append (hl : ¬HasTag w l) (hz : Inert z) (htag : ¬HasTag w z) :
    ¬HasTag w (l ++ z) := by
  induction l with
  | nil => exact htag
  | cons c l ih =>
    rw [hasTag_cons, not_or] at hl
    rw [cons_append, hasTag_cons, not_or]
    refine ⟨fun ⟨hc, h⟩ => hl.1 ⟨hc, ?_⟩, ih hl.2⟩
    rw [← append_nil l]
    exact tagAt_replace hz rfl h

theorem dash_of_prefix {c : Char} (h : userInputBegin.isPrefixOf (c :: l) = true ∨
    userInputEnd.isPrefixOf (c :: l) = true) : c = '-' := by
  rcases h with h | h
  · exact (cons_prefix_cons.1 ( isPrefixOf_iff_prefix.1 h)).1.symm
  · exact (cons_prefix_cons.1 ( isPrefixOf_iff_prefix.1 h)).1.symm

theorem neutralizeFrom_split (l : List Char) : neutralizeFrom 0 l = l ∨
    ∃ u v v', l = u ++ '-' :: v ∧ neutralizeFrom 0 l = u ++ '[' :: v' := by
  induction l with
  | nil => exact .inl rfl
  | cons c l ih =>
    rw [neutralizeFrom]
    split
    · rename_i h
      obtain rfl := dash_of_prefix (.inl h)
      exact .inr ⟨[], l, _, rfl, rfl⟩
    · split
      · rename_i h
        obtain rfl := dash_of_prefix (.inr h)
        exact .inr ⟨[], l, _, rfl, rfl⟩
      · obtain heq | ⟨u, v, v', rfl, heq⟩ := ih
        · exact .inl (by rw [heq])
        · exact .inr ⟨c :: u, v, v', rfl, by rw [heq]; rfl⟩

theorem hasTag_neutralizeFrom {k : ℕ} (h : ¬HasTag w (l.drop k ++ z)) :
    ¬HasTag w (neutralizeFrom k l ++ z) := by
  induction l generalizing k with
  | nil =>
    rw [drop_nil] at h
    cases k <;> exact h
  | cons c l ih =>
    cases k with
    | succ k => exact ih h
    | zero =>
      have hrest : ∀ k, ¬HasTag w (l.drop k ++ z) := fun k hk => h <| by
        have hsplit : (c :: l) ++ z = (c :: l.take k) ++ (l.drop k ++ z) := by
          rw [cons_append, cons_append, ← append_assoc, take_append_drop]
        rw [drop_zero, hsplit]
        exact hk.append_left _
      rw [neutralizeFrom]
      split
      · rw [append_assoc, hasTag_append_left (by decide)]
        exact ih (hrest _)
      · split
        · rw [append_assoc, hasTag_append_left (by decide)]
          exact ih (hrest _)
        · rw [cons_append, hasTag_cons]
          rintro (⟨rfl, htag⟩ | hlater)
          · refine h (hasTag_cons.2 (.inl ⟨rfl, ?_⟩))
            obtain heq | ⟨u, v, v', rfl, heq⟩ := neutralizeFrom_split l
            · rwa [heq] at htag
            · rw [heq, append_assoc, cons_append] at htag
              show tagAt w ((u ++ '-' :: v) ++ z) = true
              rw [append_assoc, cons_append]
              exact tagAt_replace (inert_bracket _) (atBoundary_cons (by decide) (by decide) _) htag
          · exact ih (hrest 0) hlater

theorem hasTag_neutralize (h : ¬HasTag w (l ++ z)) : ¬HasTag w (neutralizeBoundaryTokens l ++ z) :=
  hasTag_neutralizeFrom h

end AfterFlow.Agents.InputSanitization
