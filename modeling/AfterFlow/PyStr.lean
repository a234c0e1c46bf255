import Mathlib.Data.List.DropRight

/-!
# Texts

What `str.strip` and `str.splitlines` of Python do to a text. The two know different characters:
`splitlines` ends a line at some that are no line ends to most other programs, and three of them,
U+0085, U+2028 and U+2029, are above the control characters.
-/

namespace AfterFlow.PyStr

open List

/-- `str.isspace` on a character. -/
def isSpace (c : Char) : Bool :=
  let n := c.toNat
  (0x9 ≤ n && n ≤ 0xd) || (0x1c ≤ n && n ≤ 0x20) || n == 0x85 || n == 0xa0 || n == 0x1680 ||
    (0x2000 ≤ n && n ≤ 0x200a) || n == 0x2028 || n == 0x2029 || n == 0x202f || n == 0x205f ||
    n == 0x3000

/-- Whether `splitlines` ends a line at the character. -/
def isLineEnd (c : Char) : Bool :=
  let n := c.toNat
  (0xa ≤ n && n ≤ 0xd) || (0x1c ≤ n && n ≤ 0x1e) || n == 0x85 || n == 0x2028 || n == 0x2029

/-- A list without the elements at its ends that satisfy `p`. -/
def stripList {α : Type} (p : α → Bool) (l : List α) : List α := (l.dropWhile p).rdropWhile p

/-- `str.strip`. -/
def strip (s : String) : String := String.ofList (stripList isSpace s.toList)

/-- `str.splitlines`, on characters. -/
@[grind =] def splitlines : List Char → List (List Char)
  | [] => []
  | '\r' :: '\n' :: l => [] :: splitlines l
  | c :: l =>
    if isLineEnd c then [] :: splitlines l
    else
      match splitlines l with
      | [] => [[c]]
      | line :: lines => (c :: line) :: lines

/-- Texts that may be missing are compared as they are. -/
instance lawfulBEqOptionText : LawfulBEq (Option String) := inferInstance

/-- Decided on the characters of the list, not on all there are. -/
instance (priority := high) decidableForallChar (l : List Char) (p : Char → Prop)
    [DecidablePred p] : Decidable (∀ c ∈ l, p c) := List.decidableBAll p l

/-! ### Stripping -/

theorem dropWhile_stripList {α : Type} (p : α → Bool) (l : List α) :
    (stripList p l).dropWhile p = stripList p l := by
  refine dropWhile_eq_self_iff.2 fun hpos => ?_
  have hearlier : stripList p l <+: l.dropWhile p := rdropWhile_prefix p _
  have hl : 0 < (l.dropWhile p).length := Nat.lt_of_lt_of_le hpos hearlier.length_le
  rw [hearlier.getElem hpos]
  exact dropWhile_get_zero_not p l hl

theorem stripList_stripList {α : Type} (p : α → Bool) (l : List α) :
    stripList p (stripList p l) = stripList p l := by
  rw [stripList, dropWhile_stripList, stripList, rdropWhile_idempotent]

@[simp] theorem strip_strip (s : String) : strip (strip s) = strip s := by
  rw [strip, strip, String.toList_ofList, stripList_stripList]

theorem stripList_cons_append {α : Type} {p : α → Bool} {a b : α} {l l' : List α}
    (ha : p a = false) (hb : p b = false) (hl' : ∀ c ∈ l', p c = true) :
    stripList p (a :: l ++ b :: l') = a :: l ++ [b] := by
  have hend : (a :: l ++ b :: l').rdropWhile p = a :: l ++ [b] := by
    rw [List.rdropWhile, reverse_append, reverse_cons, append_assoc,
      dropWhile_append_of_pos (by simpa using hl'), singleton_append,
      dropWhile_cons_of_neg (by simp [hb]), reverse_cons, reverse_reverse]
  rw [stripList, cons_append, dropWhile_cons_of_neg (by simp [ha])]
  exact hend

/-! ### Lines -/

theorem splitlines_cons {c : Char} {l : List Char} (hc : isLineEnd c = false) :
    splitlines (c :: l) = (match splitlines l with
      | [] => [[c]]
      | line :: lines => (c :: line) :: lines) := by
  rw [splitlines, if_neg (by simp [hc])]
  rintro _ rfl
  exact absurd hc (by decide)

theorem splitlines_newline (l : List Char) : splitlines ('\n' :: l) = [] :: splitlines l := rfl

theorem splitlines_crlf (l : List Char) :
    splitlines ('\r' :: '\n' :: l) = [] :: splitlines l := rfl

theorem splitlines_lineEnd {c : Char} {l : List Char} (hc : isLineEnd c = true)
    (hcrlf : c = '\r' → l.head? ≠ some '\n') : splitlines (c :: l) = [] :: splitlines l := by
  rw [splitlines, if_pos hc]
  rintro _ hr rfl
  exact hcrlf hr rfl

theorem splitlines_ne_nil (c : Char) (l : List Char) : splitlines (c :: l) ≠ [] := by
  cases hc : isLineEnd c with
  | true =>
    by_cases hcrlf : c = '\r' ∧ l.head? = some '\n'
    · obtain ⟨rfl, hhead⟩ := hcrlf
      obtain ⟨l', rfl⟩ := head?_eq_some_iff.1 hhead
      rw [splitlines_crlf]
      exact cons_ne_nil _ _
    · rw [splitlines_lineEnd hc fun hr hhead => hcrlf ⟨hr, hhead⟩]
      exact cons_ne_nil _ _
  | false =>
    rw [splitlines_cons hc]
    cases splitlines l <;> exact cons_ne_nil _ _

theorem splitlines_append {line : List Char} (h : ∀ c ∈ line, isLineEnd c = false)
    (rest : List Char) : splitlines (line ++ '\n' :: rest) = line :: splitlines rest := by
  induction line with
  | nil => exact splitlines_newline rest
  | cons c line ih =>
    rw [cons_append, splitlines_cons (h c mem_cons_self),
      ih fun c hc => h c (mem_cons_of_mem _ hc)]

/-- A newline ends a line, whatever the text before it is. -/
theorem splitlines_append_newline (l rest : List Char) :
    splitlines (l ++ '\n' :: rest) = splitlines (l ++ ['\n']) ++ splitlines rest := by
  have hcons : ∀ {c : Char} {l : List Char}, isLineEnd c = false →
      splitlines (l ++ '\n' :: rest) = splitlines (l ++ ['\n']) ++ splitlines rest →
      splitlines (c :: l ++ '\n' :: rest) = splitlines (c :: l ++ ['\n']) ++ splitlines rest := by
    intro c l hc ih
    have hne : splitlines (l ++ ['\n']) ≠ [] := by
      cases l with
      | nil | cons => exact splitlines_ne_nil _ _
    obtain ⟨line, lines, hlines⟩ := exists_cons_of_ne_nil hne
    rw [hlines] at ih
    rw [cons_append, splitlines_cons hc, ih]
    show _ = splitlines (c :: (l ++ ['\n'])) ++ splitlines rest
    rw [splitlines_cons hc, hlines]
    rfl
  fun_induction splitlines l with
  | case1 =>
    rw [nil_append, nil_append, splitlines_newline, splitlines_newline]
    rfl
  | case2 l ih =>
    simp only [cons_append]
    rw [splitlines_crlf, splitlines_crlf, ih]
    rfl
  | case3 c l hcrlf hend ih =>
    by_cases hlast : c = '\r' ∧ l = []
    · obtain ⟨rfl, rfl⟩ := hlast
      simp only [cons_append, nil_append]
      rw [splitlines_crlf, splitlines_crlf]
      rfl
    · have hhead : ∀ l', c = '\r' → (l ++ l').head? ≠ some '\n' := by
        intro l' hc hhead
        cases l with
        | nil => exact hlast ⟨hc, rfl⟩
        | cons d l => exact hcrlf l hc (congrArg (· :: l) (Option.some.inj hhead))
      rw [cons_append, splitlines_lineEnd hend (hhead _), cons_append,
        splitlines_lineEnd hend (hhead _), ih]
      rfl
  | case4 c l hcrlf hend hnil ih => exact hcons (Bool.eq_false_iff.2 hend) ih
  | case5 c l hcrlf hend line lines hlines ih => exact hcons (Bool.eq_false_iff.2 hend) ih

theorem splitlines_single {line : List Char} (h : ∀ c ∈ line, isLineEnd c = false)
    (hne : line ≠ []) : splitlines line = [line] := by
  induction line with
  | nil => exact absurd rfl hne
  | cons c line ih =>
    rw [splitlines_cons (h c mem_cons_self)]
    cases line with
    | nil => rfl
    | cons d line => rw [ih (fun c hc => h c (mem_cons_of_mem _ hc)) (cons_ne_nil _ _)]

theorem no_lineEnd_of_mem_splitlines {l line : List Char} (h : line ∈ splitlines l) :
    ∀ c ∈ line, isLineEnd c = false := by
  fun_induction splitlines l generalizing line with
  | case1 => cases h
  | case2 l ih =>
    rcases mem_cons.1 h with rfl | h
    · simp
    · exact ih h
  | case3 c l _ hc ih =>
    rcases mem_cons.1 h with rfl | h
    · simp
    · exact ih h
  | case4 c l _ hc hnil ih =>
    obtain rfl := mem_singleton.1 h
    simpa using hc
  | case5 c l _ hc first rest hlines ih =>
    rcases mem_cons.1 h with rfl | h
    · have hfirst := ih (hlines ▸ mem_cons_self)
      simpa using ⟨by simpa using hc, hfirst⟩
    · exact ih (hlines ▸ mem_cons_of_mem _ h)

/-- What stands behind the first line: nothing, or a line end and the text of the other lines. -/
theorem splitlines_eq_cons {l line : List Char} {lines : List (List Char)}
    (h : splitlines l = line :: lines) : ∃ rest, l = line ++ rest ∧
      (rest = [] ∧ lines = [] ∨
        ∃ e l', isLineEnd e = true ∧ lines = splitlines l' ∧
          (rest = e :: l' ∨ rest = e :: '\n' :: l')) := by
  fun_induction splitlines l generalizing line lines with
  | case1 => cases h
  | case2 l _ =>
    obtain ⟨rfl, rfl⟩ := List.cons.inj h
    exact ⟨_, rfl, .inr ⟨'\r', l, by decide, rfl, .inr rfl⟩⟩
  | case3 c l _ hc _ =>
    obtain ⟨rfl, rfl⟩ := List.cons.inj h
    exact ⟨_, rfl, .inr ⟨c, l, hc, rfl, .inl rfl⟩⟩
  | case4 c l _ _ hnil _ =>
    obtain ⟨rfl, rfl⟩ := List.cons.inj h
    cases l with
    | nil => exact ⟨[], rfl, .inl ⟨rfl, rfl⟩⟩
    | cons d l => exact absurd hnil (splitlines_ne_nil d l)
  | case5 c l _ _ first rest hlines ih =>
    obtain ⟨rfl, rfl⟩ := List.cons.inj h
    obtain ⟨after, rfl, hafter⟩ := ih hlines
    exact ⟨after, rfl, hafter⟩

end AfterFlow.PyStr
