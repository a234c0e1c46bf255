import AfterFlow.Agents.UserTags
import AfterFlow.Subwords

/-!
# A frame around a text

What `checkUserContent` makes of a text is between the two tokens, has no blocked tag, and stays as
it is when it is looked at again. The tokens are nowhere else in it, unless the text came with its
own: such a text is put back right behind the first token and right before the second, and can
complete one with the dashes that it finds there.
-/

namespace AfterFlow.Agents.InputSanitization

open PyStr Subwords List

variable {w : WordChars} {l u z t : List Char}

/-! ### Texts without tokens -/

def tokens : List (List Char) := [userInputBegin, userInputEnd]

/-- No token is in the text. -/
def TokenFree (l : List Char) : Prop := ∀ token ∈ tokens, ¬token <:+: l

theorem TokenFree.of_infix (h : TokenFree l) (hu : u <:+: l) : TokenFree u :=
  fun token hmem hin => h token hmem (hin.trans hu)

theorem tokenFree_append_cons {c : Char} (hc : ∀ token ∈ tokens, c ∉ token) :
    TokenFree (u ++ c :: l) ↔ TokenFree u ∧ TokenFree l := by
  constructor
  · exact fun h => ⟨ h.of_infix infix_append_left,
      h.of_infix ((infix_cons (infix_refl l)).trans infix_append_right)⟩
  · rintro ⟨hu, hl⟩ token hmem hin
    rcases infix_append_cons (hc token hmem) hin with h | h
    · exact hu token hmem h
    · exact hl token hmem h

theorem tokenFree_of_length (h : l.length < 22) : TokenFree l := by
  intro token hmem hin
  have hlen : ∀ token ∈ tokens, 22 ≤ token.length := by decide
  have := hin.length_le
  have := hlen token hmem
  omega

theorem isPrefixOf_eq_false (h : TokenFree l) {token : List Char} (hmem : token ∈ tokens) :
    ¬token.isPrefixOf l = true :=
  fun hprefix => h token hmem ( isPrefixOf_iff_prefix.1 hprefix).isInfix

theorem neutralize_eq_self (h : TokenFree l) : neutralizeBoundaryTokens l = l := by
  rw [neutralizeBoundaryTokens]
  induction l with
  | nil => rfl
  | cons c l ih =>
    rw [neutralizeFrom, if_neg (isPrefixOf_eq_false h (by decide)),
      if_neg (isPrefixOf_eq_false h (by decide)), ih ( h.of_infix (suffix_cons c l).isInfix)]

theorem tokenFree_neutralizeFrom (k : ℕ) (l : List Char) : TokenFree (neutralizeFrom k l) := by
  induction l generalizing k with
  | nil =>
    cases k <;> exact tokenFree_of_length (l := []) (by decide)
  | cons c l ih =>
    cases k with
    | succ k => exact ih k
    | zero =>
      have hreplaced : ∀ u k, TokenFree u → TokenFree ((u ++ [']']) ++ neutralizeFrom k l) := by
        intro u k hu
        rw [append_assoc, singleton_append, tokenFree_append_cons (by decide)]
        exact ⟨hu, ih k⟩
      rw [neutralizeFrom]
      split
      · exact hreplaced "[BEGIN USER INPUT".toList _ (tokenFree_of_length (by decide))
      · split
        · exact hreplaced "[END USER INPUT".toList _ (tokenFree_of_length (by decide))
        · rename_i hbegin hend
          intro token hmem hin
          rcases infix_cons_iff.1 hin with h | h
          · -- A token here would have been here before what follows was replaced.
            have hprefix : token <+: c :: l := by
              obtain heq | ⟨u, v, v', rfl, heq⟩ := neutralizeFrom_split l
              · rwa [heq] at h
              · rw [heq, ← cons_append] at h
                have hbracket : ∀ token ∈ tokens, '[' ∉ token := by decide
                exact (prefix_append_cons (hbracket token hmem) h).trans
                  (prefix_append (c :: u) _)
            rcases mem_pair.1 hmem with rfl | rfl
            · exact hbegin ( isPrefixOf_iff_prefix.2 hprefix)
            · exact hend ( isPrefixOf_iff_prefix.2 hprefix)
          · exact ih 0 token hmem h

theorem tokenFree_neutralize (l : List Char) : TokenFree (neutralizeBoundaryTokens l) :=
  tokenFree_neutralizeFrom 0 l

/-! ### Tokens at the ends -/

/-- The first token is nowhere but at the start, and the second nowhere but at the end. -/
structure OnlyAtEnds (l : List Char) : Prop where
  start : ∀ before after, l = before ++ userInputBegin ++ after → before = []
  finish : ∀ before after, l = before ++ userInputEnd ++ after → after = []

def dashes : List Char := "---".toList

def beginHead : List Char := "--- BEGIN USER INPUT ".toList

def endTail : List Char := " END USER INPUT ---".toList

theorem begin_overlap : ∀ k < 21, k ≠ 0 →
    (userInputBegin.drop k).take userInputBegin.length ≠
      userInputBegin.take (userInputBegin.length - k) := by decide

theorem begin_overlap_end : ∀ k < 21,
    (userInputBegin.drop k).take userInputEnd.length ≠
      userInputEnd.take (userInputBegin.length - k) := by decide

theorem end_overlap : ∀ k < 19, k ≠ 0 →
    (userInputEnd.reverse.drop k).take userInputEnd.length ≠
      userInputEnd.reverse.take (userInputEnd.length - k) := by decide

theorem end_overlap_begin : ∀ k < 19,
    (userInputEnd.reverse.drop k).take userInputBegin.length ≠
      userInputBegin.reverse.take (userInputEnd.length - k) := by decide

/-- **A text can make tokens with the dashes on its two sides only.** -/
theorem onlyAtEnds_iff (x : List Char) :
    OnlyAtEnds (userInputBegin ++ x ++ userInputEnd) ↔ TokenFree (dashes ++ x ++ dashes) := by
  have hsplit : userInputBegin ++ x ++ userInputEnd =
      beginHead ++ (dashes ++ x ++ dashes) ++ endTail := by
    rw [show userInputBegin = beginHead ++ dashes from rfl,
      show userInputEnd = dashes ++ endTail from rfl]
    simp only [append_assoc]
  constructor
  · rintro ⟨hstart, hfinish⟩ token hmem ⟨b, a, hab⟩
    have heq : userInputBegin ++ x ++ userInputEnd = (beginHead ++ b) ++ token ++ (a ++ endTail) := by
      rw [hsplit, ← hab]
      simp only [append_assoc]
    rcases mem_pair.1 hmem with rfl | rfl
    · cases hstart _ _ heq
    · have hnil := hfinish _ _ heq
      cases a <;> cases hnil
  · intro hfree
    constructor
    · intro before after h
      rcases occurs_cases (h.symm.trans hsplit) with hlt | hlt | hin
      · by_contra hne
        refine begin_overlap _ hlt (mt length_eq_zero_iff.1 hne) ?_
        exact overlap_left (h.symm.trans (append_assoc _ _ _))
      · exact absurd (overlap_right h.symm) (end_overlap_begin _ hlt)
      · exact absurd hin (hfree _ (by decide))
    · intro before after h
      rcases occurs_cases (h.symm.trans hsplit) with hlt | hlt | hin
      · exact absurd (overlap_left (h.symm.trans (append_assoc _ _ _)))
          (begin_overlap_end _ hlt)
      · by_contra hne
        exact end_overlap _ hlt (mt length_eq_zero_iff.1 hne) (overlap_right h.symm)
      · exact absurd hin (hfree _ (by decide))

/-- What the text that is sent should be like. -/
structure Framed (w : WordChars) (l : List Char) : Prop where
  hasBegin : userInputBegin <+: l
  hasEnd : userInputEnd <:+ l
  onlyAtEnds : OnlyAtEnds l
  noTag : ¬HasTag w l

theorem isWrapped_iff : isWrapped l = true ↔ userInputBegin <+: l ∧ userInputEnd <:+ l := by
  rw [isWrapped, Bool.and_eq_true, isPrefixOf_iff_prefix, isSuffixOf_iff_suffix]

theorem isWrapped_frame (x : List Char) :
    isWrapped (userInputBegin ++ x ++ userInputEnd) = true :=
  isWrapped_iff.2 ⟨(prefix_append _ _).trans (prefix_append _ _), suffix_append _ _⟩

theorem inner_frame (x : List Char) : inner (userInputBegin ++ x ++ userInputEnd) = x := by
  rw [inner, length_append, Nat.add_sub_cancel, take_left, drop_left]

theorem eq_frame_of_isWrapped (h : isWrapped l = true) (hlen : 46 ≤ l.length) :
    l = userInputBegin ++ inner l ++ userInputEnd := by
  obtain ⟨⟨r, rfl⟩, hsuffix⟩ := isWrapped_iff.1 h
  have hr : userInputEnd.length ≤ r.length := by
    rw [length_append, show userInputBegin.length = 24 from rfl] at hlen
    rw [show userInputEnd.length = 22 from rfl]
    omega
  obtain ⟨x, rfl⟩ := suffix_of_suffix_length_le hsuffix (suffix_append _ r) hr
  rw [← append_assoc, inner_frame]

theorem framed_frame {x : List Char} (htag : ¬HasTag w (userInputBegin ++ x ++ userInputEnd)) :
    Framed w (userInputBegin ++ x ++ userInputEnd) ↔ TokenFree (dashes ++ x ++ dashes) := by
  have hwrapped := isWrapped_iff.1 (isWrapped_frame x)
  exact ⟨fun h => (onlyAtEnds_iff x).1 h.onlyAtEnds,
    fun h => ⟨hwrapped.1, hwrapped.2, (onlyAtEnds_iff x).2 h, htag⟩⟩

/-! ### Tokens that share dashes -/

theorem begin_meets_end : ∀ k < 23, k ≠ 0 →
    userInputBegin.drop (24 - k) = userInputEnd.take k → k = 1 ∨ k = 2 ∨ k = 3 := by decide

theorem shared_dashes : ∀ k ∈ [1, 2, 3], ∀ n < 46,
    (n ≠ 0 → ((userInputBegin ++ userInputEnd.drop k).drop n).take 24 ≠ userInputBegin) ∧
      (n ≠ 24 - k → ((userInputBegin ++ userInputEnd.drop k).drop n).take 22 ≠ userInputEnd) := by
  decide +kernel

theorem onlyAtEnds_of_shared {k : ℕ} (hk : k ∈ [1, 2, 3]) :
    OnlyAtEnds (userInputBegin ++ userInputEnd.drop k) := by
  have hlen : (userInputBegin ++ userInputEnd.drop k).length = 46 - k := by
    rw [length_append, length_drop, show userInputBegin.length = 24 from rfl,
      show userInputEnd.length = 22 from rfl]
    have : k ≤ 3 := by
      revert k
      decide
    omega
  have hpos : 0 < k := by
    revert k
    decide
  have htake : ∀ before word after : List Char, ((before ++ word ++ after).drop before.length).take
      word.length = word := by
    intro before word after
    rw [append_assoc, drop_left, take_left]
  constructor
  · intro before after h
    have hlength := congrArg List.length h
    rw [hlen, length_append, length_append] at hlength
    by_contra hne
    refine (shared_dashes k hk before.length (by omega)).1 (mt length_eq_zero_iff.1 hne) ?_
    rw [h]
    exact htake before userInputBegin after
  · intro before after h
    have hlength := congrArg List.length h
    rw [hlen, length_append, length_append, show userInputEnd.length = 22 from rfl]
      at hlength
    by_contra hne
    have hafter := mt length_eq_zero_iff.1 hne
    refine (shared_dashes k hk before.length (by omega)).2 (by omega) ?_
    rw [h]
    exact htake before userInputEnd after

theorem onlyAtEnds_of_short (h : isWrapped l = true) (hlen : l.length < 46) : OnlyAtEnds l := by
  obtain ⟨⟨r, rfl⟩, hsuffix⟩ := isWrapped_iff.1 h
  rw [length_append, show userInputBegin.length = 24 from rfl] at hlen
  obtain ⟨s, hs⟩ := suffix_of_suffix_length_le (suffix_append _ r) hsuffix (by
    rw [show userInputEnd.length = 22 from rfl]
    omega)
  obtain ⟨b, hb⟩ : s <:+ userInputBegin := by
    obtain ⟨b, hb⟩ := hsuffix
    rw [← hs, ← append_assoc, append_left_inj] at hb
    exact ⟨b, hb⟩
  have hslen : s.length + r.length = 22 := by
    rw [← length_append, hs]
    rfl
  have hblen : b.length + s.length = 24 := by
    rw [← length_append, hb]
    rfl
  have hr : r = userInputEnd.drop s.length := by rw [← hs, drop_left]
  have hk := begin_meets_end s.length (by omega) (by omega) (by
    rw [← hs, take_left, show 24 - s.length = b.length from by omega, ← hb, drop_left])
  rw [hr]
  exact onlyAtEnds_of_shared (by simpa using hk)

/-! ### One text -/

/-- What is kept of a text between its own tokens completes none of them. -/
def WrapSafe (w : WordChars) (text : List Char) : Prop :=
  isWrapped (escapeTags w text) = true → 46 ≤ (escapeTags w text).length →
    TokenFree (dashes ++ neutralizeBoundaryTokens (inner (escapeTags w text)) ++ dashes)

/-- Nothing is to be done for the text. -/
def Settled (w : WordChars) (text : List Char) : Prop :=
  isBlank text = true ∨ ¬HasTag w text ∧ isWrapped text = true ∧ TokenFree (inner text)

theorem inner_of_short (h : l.length < 46) : inner l = [] := by
  rw [inner, drop_eq_nil_iff, length_take, show userInputEnd.length = 22 from rfl,
    show userInputBegin.length = 24 from rfl]
  omega

theorem checkUserContent_of_short (ht : isBlank t = false)
    (hwrapped : isWrapped (escapeTags w t) = true) (hlen : (escapeTags w t).length < 46) :
    checkUserContent w t = escapeTags w t := by
  have hinner : inner (escapeTags w t) = [] := inner_of_short hlen
  simp only [checkUserContent, ht, hwrapped, hinner, Bool.false_eq_true, ↓reduceIte]
  exact if_pos rfl

theorem checkUserContent_of_long (ht : isBlank t = false)
    (hwrapped : isWrapped (escapeTags w t) = true) (hlen : 46 ≤ (escapeTags w t).length) :
    checkUserContent w t = userInputBegin ++ neutralizeBoundaryTokens (inner (escapeTags w t)) ++
      userInputEnd := by
  simp only [checkUserContent, ht, hwrapped, Bool.false_eq_true, ↓reduceIte]
  split
  · rename_i heq
    rw [heq]
    exact eq_frame_of_isWrapped hwrapped hlen
  · rfl

theorem checkUserContent_of_bare (ht : isBlank t = false)
    (hwrapped : isWrapped (escapeTags w t) = false) :
    checkUserContent w t = userInputBegin ++
      ('\n' :: (neutralizeBoundaryTokens (escapeTags w t) ++ ['\n'])) ++ userInputEnd := by
  simp only [checkUserContent, ht, hwrapped, Bool.false_eq_true, ↓reduceIte]
  simp

theorem lt_not_mem_begin : '<' ∉ userInputBegin := by decide

theorem noTag_check (ht : isBlank t = false) : ¬HasTag w (checkUserContent w t) := by
  have hescaped : ¬HasTag w (escapeTags w t) := hasTag_escapeTags w t
  cases hwrapped : isWrapped (escapeTags w t) with
  | true =>
    rcases Nat.lt_or_ge (escapeTags w t).length 46 with hlen | hlen
    · rw [checkUserContent_of_short ht hwrapped hlen]
      exact hescaped
    · rw [checkUserContent_of_long ht hwrapped hlen, append_assoc,
        hasTag_append_left lt_not_mem_begin]
      refine hasTag_neutralize fun h => hescaped ?_
      rw [eq_frame_of_isWrapped hwrapped hlen, append_assoc]
      exact h.append_left _
  | false =>
    rw [checkUserContent_of_bare ht hwrapped, append_assoc,
      hasTag_append_left lt_not_mem_begin, cons_append, append_assoc,
      singleton_append, hasTag_cons]
    rintro (⟨hlt, -⟩ | h)
    · exact absurd hlt (by decide)
    · exact hasTag_neutralize (hasTag_append hescaped inert_end (by
        rw [hasTag_cons, not_or]
        refine ⟨fun h => absurd h.1 (by decide), ?_⟩
        rw [← append_nil userInputEnd, hasTag_append_left (by decide)]
        exact hasTag_nil)) h

theorem isWrapped_check (ht : isBlank t = false) : isWrapped (checkUserContent w t) = true := by
  cases hwrapped : isWrapped (escapeTags w t) with
  | true =>
    rcases Nat.lt_or_ge (escapeTags w t).length 46 with hlen | hlen
    · rw [checkUserContent_of_short ht hwrapped hlen, hwrapped]
    · rw [checkUserContent_of_long ht hwrapped hlen, isWrapped_frame]
  | false => rw [checkUserContent_of_bare ht hwrapped, isWrapped_frame]

theorem newline_not_mem : ∀ token ∈ tokens, '\n' ∉ token := by decide

theorem tokenFree_newlines (l : List Char) :
    TokenFree ('\n' :: (neutralizeBoundaryTokens l ++ ['\n'])) := by
  rw [← nil_append ('\n' :: _), tokenFree_append_cons newline_not_mem,
    tokenFree_append_cons newline_not_mem]
  exact ⟨tokenFree_of_length (by decide), tokenFree_neutralize l, tokenFree_of_length (by decide)⟩

theorem tokenFree_inner_check (ht : isBlank t = false) : TokenFree (inner (checkUserContent w t)) := by
  cases hwrapped : isWrapped (escapeTags w t) with
  | true =>
    rcases Nat.lt_or_ge (escapeTags w t).length 46 with hlen | hlen
    · rw [checkUserContent_of_short ht hwrapped hlen, inner_of_short hlen]
      exact tokenFree_of_length (by decide)
    · rw [checkUserContent_of_long ht hwrapped hlen, inner_frame]
      exact tokenFree_neutralize _
  | false =>
    rw [checkUserContent_of_bare ht hwrapped, inner_frame]
    exact tokenFree_newlines _

/-- **The text is in a frame that holds, if it did not come with its own.** -/
theorem framed_check (ht : isBlank t = false) : Framed w (checkUserContent w t) ↔ WrapSafe w t := by
  have htag : ¬HasTag w (checkUserContent w t) := noTag_check ht
  cases hwrapped : isWrapped (escapeTags w t) with
  | true =>
    rcases Nat.lt_or_ge (escapeTags w t).length 46 with hlen | hlen
    · have hends := isWrapped_iff.1 hwrapped
      rw [checkUserContent_of_short ht hwrapped hlen] at htag ⊢
      exact ⟨fun _ _ hlong => absurd hlong (Nat.not_le.2 hlen),
        fun _ => ⟨hends.1, hends.2, onlyAtEnds_of_short hwrapped hlen, htag⟩⟩
    · rw [checkUserContent_of_long ht hwrapped hlen] at htag ⊢
      rw [framed_frame htag]
      exact ⟨fun h _ _ => h, fun h => h hwrapped hlen⟩
  | false =>
    rw [checkUserContent_of_bare ht hwrapped] at htag ⊢
    refine iff_of_true ((framed_frame htag).2 ?_) fun h => absurd (hwrapped.symm.trans h) (by decide)
    rw [append_assoc, cons_append, append_assoc, singleton_append,
      tokenFree_append_cons newline_not_mem, tokenFree_append_cons newline_not_mem]
    exact ⟨tokenFree_of_length (by decide), tokenFree_neutralize _, tokenFree_of_length (by decide)⟩

theorem settled_check (w : WordChars) (t : List Char) : Settled w (checkUserContent w t) := by
  cases ht : isBlank t with
  | true =>
    refine .inl ?_
    rw [checkUserContent, if_pos ht, ht]
  | false => exact .inr ⟨noTag_check ht, isWrapped_check ht, tokenFree_inner_check ht⟩

/-- **Only what is settled stays as it is.** -/
theorem check_eq_self_iff : checkUserContent w t = t ↔ Settled w t := by
  constructor
  · intro h
    rw [← h]
    exact settled_check w t
  · rintro (hblank | ⟨htag, hwrapped, hfree⟩)
    · rw [checkUserContent, if_pos hblank]
    · cases ht : isBlank t with
      | true => rw [checkUserContent, if_pos ht]
      | false =>
        have hescape : escapeTags w t = t := escapeTags_eq_self htag
        have hneutral := neutralize_eq_self hfree
        simp only [checkUserContent, ht, hescape, hwrapped, Bool.false_eq_true, ↓reduceIte]
        rw [if_pos hneutral]

end AfterFlow.Agents.InputSanitization
