import AfterFlow.Demo
import AfterFlow.Findall
import Mathlib

/-!
# Order ids in a complaint

`\bORDER-\d+\b` is a pattern over Unicode: Chinese letters are word characters, so that an id with
no blank around it is not found, and digits of other scripts are digits. The grammar that is meant
is the one over ASCII. `extractIntake` agrees with it on a text in exactly the cases below.

## Main results

* `mem_findOrderIds` — the scanner finds every id that stands in the text
* `orderId_extractIntake` — what `extractIntake` answers, by the ids that stand in the text
* `order_id_read_iff` — the answer is the one id that is mentioned exactly where the text is legible
-/

namespace AfterFlow

open List Option

variable {rt : Runtime} {digit word : Char → Bool} {text id first last : List Char} {c : Char}
  {prev : Option Char}

/-! ### The grammar -/

/-- `ORDER-`, in any case, and digits. -/
def IsOrderId (digit : Char → Bool) (id : List Char) : Prop :=
  (id.take 6).map Char.toUpper = "ORDER-".toList ∧ id.drop 6 ≠ [] ∧ ∀ c ∈ id.drop 6, digit c = true

/-- The character next to an id, if there is one, is no word character. -/
def Free (word : Char → Bool) (c : Option Char) : Prop := ∀ x ∈ c, word x = false

/-- An id stands in the text and is not glued to a word character. -/
def Mentions (digit word : Char → Bool) (text id : List Char) : Prop :=
  ∃ before after, text = before ++ id ++ after ∧ IsOrderId digit id ∧
    Free word before.getLast? ∧ Free word after.head?

/-- An id in upper case. -/
def upperId (id : List Char) : String := String.ofList (id.map Char.toUpper)

/-- The ids in a text, in upper case. -/
def mentioned (digit word : Char → Bool) (text : String) : Set String :=
  {id | ∃ found, Mentions digit word text.toList found ∧ upperId found = id}

/-- An ASCII letter, digit or underscore. -/
def asciiWord (c : Char) : Bool := c.isAlphanum || c = '_'

/-- The ids of the grammar that is meant. -/
def asciiIds (text : String) : Set String := mentioned Char.isDigit asciiWord text

/-- Those with a mention that has no letter or digit of any script next to it. -/
def clearIds (rt : Runtime) (text : String) : Set String := mentioned Char.isDigit rt.isWord text

/-- Ids with a digit of another script. -/
def foreignIds (rt : Runtime) (text : String) : Set String :=
  {id | ∃ found, Mentions rt.isDecimal rt.isWord text.toList found ∧
    (∃ c ∈ found.drop 6, c.isDigit = false) ∧ upperId found = id}

/-- The ids that stand in the text lead to the same answer under both readings. -/
structure Legible (rt : Runtime) (text : String) : Prop where
  one : ∀ id, asciiIds text = {id} → id ∈ clearIds rt text ∧ foreignIds rt text = ∅
  none : asciiIds text = ∅ → ∀ id, foreignIds rt text ≠ {id}
  several : (asciiIds text).Nontrivial → ∀ id, clearIds rt text ∪ foreignIds rt text ≠ {id}

/-! ### Characters -/

/-- What the documentation of Python says about characters. -/
structure Unicode (rt : Runtime) : Prop where
  strip : rt.strip = PyStr.strip
  upper : ∀ id : List Char, (∀ c ∈ id, asciiWord c = true ∨ c = '-' ∨ rt.isDecimal c = true) →
    rt.upper (String.ofList id) = upperId id
  space : ∀ c, PyStr.isSpace c = true → rt.isWord c = false
  ascii : ∀ c, asciiWord c = true → rt.isWord c = true
  digit : ∀ c, c.isDigit = true → rt.isDecimal c = true
  decimal : ∀ c, rt.isDecimal c = true → rt.isWord c = true ∧ c.isAlpha = false

/-- Digits are word characters and no letters; the letters of `ORDER` are word characters. -/
structure Alphabet (digit word : Char → Bool) : Prop where
  digit_word : ∀ c, digit c = true → word c = true
  digit_letter : ∀ c, digit c = true → c.isAlpha = false
  ascii : ∀ c, asciiWord c = true → word c = true

theorem isAlpha_of_isLower (h : c.isLower = true) : c.isAlpha = true := by
  simp [Char.isAlpha, h]

theorem isAlpha_of_toUpper (h : c.toUpper = 'O') : c.isAlpha = true := by
  by_cases hlower : c.isLower
  · exact isAlpha_of_isLower hlower
  · rw [← Char.toUpper_eq_of_not_isLower hlower, h]
    rfl

theorem asciiWord_of_isAlpha (h : c.isAlpha = true) : asciiWord c = true := by
  simp [asciiWord, Char.isAlphanum, h]

theorem asciiWord_of_isDigit (h : c.isDigit = true) : asciiWord c = true := by
  simp [asciiWord, Char.isAlphanum, h]

theorem isAlpha_of_isDigit (h : c.isDigit = true) : c.isAlpha = false := by
  simp only [Char.isDigit, Char.isAlpha, Char.isUpper, Char.isLower, ge_iff_le, Bool.and_eq_true,
    decide_eq_true_eq, Bool.or_eq_false_iff, Bool.and_eq_false_iff, decide_eq_false_iff_not,
    UInt32.le_iff_toNat_le] at h ⊢
  have : '9'.val.toNat = 57 := rfl
  have : 'A'.val.toNat = 65 := rfl
  have : 'a'.val.toNat = 97 := rfl
  omega

theorem Unicode.alphabet (h : Unicode rt) : Alphabet rt.isDecimal rt.isWord where
  digit_word := fun c hc => (h.decimal c hc).1
  digit_letter := fun c hc => (h.decimal c hc).2
  ascii := h.ascii

/-! ### The shape of an id -/

theorem IsOrderId.eq_cons (ha : Alphabet digit word) (h : IsOrderId digit id) :
    ∃ o tail, id = o :: tail ∧ o.toUpper = 'O' ∧ ∀ c ∈ tail, c.toUpper ≠ 'O' := by
  obtain ⟨hletters, -, hdigits⟩ := h
  cases id with
  | nil => cases hletters
  | cons o tail =>
    rw [take_succ_cons, map_cons] at hletters
    obtain ⟨ho, htail⟩ := List.cons.inj (hletters.trans (by rfl : _ = 'O' :: "RDER-".toList))
    refine ⟨o, tail, rfl, ho, fun c hc hO => ?_⟩
    rw [← take_append_drop 5 tail] at hc
    rcases mem_append.1 hc with hc | hc
    · have hmem : c.toUpper ∈ "RDER-".toList := htail ▸ mem_map_of_mem hc
      rw [hO] at hmem
      exact absurd hmem (by decide)
    · have hdigit := ha.digit_letter c (hdigits c hc)
      rw [isAlpha_of_toUpper hO] at hdigit
      cases hdigit

theorem IsOrderId.eq_concat (h : IsOrderId digit id) :
    ∃ init d, id = init ++ [d] ∧ digit d = true := by
  obtain ⟨-, hne, hdigits⟩ := h
  refine ⟨id.take 6 ++ (id.drop 6).dropLast, (id.drop 6).getLast hne, ?_,
    hdigits _ (getLast_mem hne)⟩
  rw [append_assoc, dropLast_append_getLast, take_append_drop]

theorem IsOrderId.ne_nil (h : IsOrderId digit id) : id ≠ [] := by
  rintro rfl
  exact h.2.1 rfl

/-! ### The scanner -/

theorem takeWhile_digits (ha : Alphabet digit word) {digits after : List Char}
    (hdigits : ∀ c ∈ digits, digit c = true) (hafter : Free word after.head?) :
    (digits ++ after).takeWhile digit = digits ∧ (digits ++ after).dropWhile digit = after := by
  have hstop : after.takeWhile digit = [] ∧ after.dropWhile digit = after := by
    cases after with
    | nil => exact ⟨rfl, rfl⟩
    | cons c after =>
      have hc : ¬ digit c = true := fun hdigit => by
        have hword := hafter c rfl
        rw [ha.digit_word c hdigit] at hword
        cases hword
      exact ⟨takeWhile_cons_of_neg hc, dropWhile_cons_of_neg hc⟩
  rw [takeWhile_append_of_pos hdigits, dropWhile_append_of_pos hdigits, hstop.1, hstop.2]
  exact ⟨append_nil digits, rfl⟩

theorem free_iff : Free word prev ↔ (prev.map word).getD false = false := by
  cases prev <;> simp [Free]

/-- What the pattern matches. -/
theorem orderIdAt_eq_some_iff (h : Unicode rt) : orderIdAt rt prev text = some id ↔
    ∃ after, text = id ++ after ∧ IsOrderId rt.isDecimal id ∧ Free rt.isWord prev ∧
      Free rt.isWord after.head? := by
  constructor
  · intro hmatch
    simp only [orderIdAt, ite_none_right_eq_some, some.injEq] at hmatch
    obtain ⟨⟨hletters, hdigits, hprev, hnext⟩, rfl⟩ := hmatch
    have hlength : (text.take 6).length = 6 := by simpa using congrArg List.length hletters
    refine ⟨(text.drop 6).dropWhile rt.isDecimal, ?_, ⟨?_, ?_, ?_⟩, free_iff.2 hprev,
      free_iff.2 hnext⟩
    · rw [append_assoc, takeWhile_append_dropWhile, take_append_drop]
    · rw [take_left' hlength]
      exact hletters
    · rw [drop_left' hlength]
      exact hdigits
    · rw [drop_left' hlength]
      exact fun c hc => mem_takeWhile_imp hc
  · rintro ⟨after, rfl, ⟨hletters, hne, hdigits⟩, hprev, hnext⟩
    have hlength : 6 ≤ id.length := by
      have : (id.take 6).length = 6 := by simpa using congrArg List.length hletters
      rw [length_take] at this
      omega
    obtain ⟨htake, hdrop⟩ := takeWhile_digits h.alphabet hdigits hnext
    rw [orderIdAt]
    simp only [take_append_of_le_length hlength, drop_append_of_le_length hlength, htake,
      hdrop]
    rw [if_pos ⟨hletters, hne, free_iff.1 hprev, free_iff.1 hnext⟩, take_append_drop]

/-- No match begins inside another: the only `O` of an id is at its beginning. -/
theorem orderIdAt_apart (h : Unicode rt) : Findall.Apart (orderIdAt rt) where
  nil := fun prev => by
    rw [eq_none_iff_forall_ne_some]
    rintro id hid
    obtain ⟨after, hsplit, hshape, -⟩ := (orderIdAt_eq_some_iff h).1 hid
    exact hshape.ne_nil (append_eq_nil_iff.1 hsplit.symm).1
  inside := by
    intro prev before after found hfound hne hlt
    rw [eq_none_iff_forall_ne_some]
    rintro inner hinner
    obtain ⟨rest, hsplit, hshape, -⟩ := (orderIdAt_eq_some_iff h).1 hfound
    obtain ⟨rest', rfl, hinside, -⟩ := (orderIdAt_eq_some_iff h).1 hinner
    obtain ⟨o, tail, rfl, -, htail⟩ := hshape.eq_cons h.alphabet
    obtain ⟨o', tail', rfl, ho', -⟩ := hinside.eq_cons h.alphabet
    obtain ⟨b, before, rfl⟩ := exists_cons_of_ne_nil hne
    refine htail o' ?_ ho'
    have htext : before ++ (o' :: tail' ++ rest') = tail ++ rest := (List.cons.inj hsplit).2
    have hinner : before.length < tail.length := by simpa using hlt
    have hget : (tail ++ rest)[before.length]? = some o' := by rw [← htext]; simp
    rw [getElem?_append_left hinner] at hget
    exact mem_of_getElem? hget

theorem findOrderIds_eq (rt : Runtime) (skip : ℕ) (prev : Option Char) (text : List Char) :
    findOrderIds rt skip prev text =
      (Findall.findall (orderIdAt rt) skip prev text).map String.ofList := by
  induction text generalizing skip prev with
  | nil => cases skip <;> rfl
  | cons c text ih =>
    cases skip with
    | succ skip => exact ih skip (some c)
    | zero =>
      rw [findOrderIds, Findall.findall]
      cases orderIdAt rt prev (c :: text) with
      | none => exact ih 0 (some c)
      | some found => exact congrArg _ (ih (found.length - 1) (some c))

theorem mem_findOrderIds (h : Unicode rt) : String.ofList id ∈ findOrderIds rt 0 none text ↔
    Mentions rt.isDecimal rt.isWord text id := by
  rw [findOrderIds_eq, List.mem_map_of_injective fun _ _ => String.ofList_injective,
    Findall.mem_findall (orderIdAt_apart h)]
  constructor
  · rintro ⟨before, after, rfl, hmatch⟩
    obtain ⟨rest, rfl, hid, hprev, hnext⟩ := (orderIdAt_eq_some_iff h).1 hmatch
    exact ⟨before, rest, (append_assoc _ _ _).symm, hid, hprev, hnext⟩
  · rintro ⟨before, rest, rfl, hid, hprev, hnext⟩
    exact ⟨before, id ++ rest, append_assoc _ _ _,
      (orderIdAt_eq_some_iff h).2 ⟨rest, rfl, hid, hprev, hnext⟩⟩

/-! ### Blanks at the ends -/

theorem mentions_append_left (ha : Alphabet digit word) (hfirst : ∀ c ∈ first, word c = false) :
    Mentions digit word (first ++ text) id ↔ Mentions digit word text id := by
  constructor
  · rintro ⟨before, after, hsplit, hid, hprev, hnext⟩
    rw [append_assoc, append_eq_append_iff] at hsplit
    rcases hsplit with ⟨b, rfl, rfl⟩ | ⟨b, rfl, hsplit⟩
    · refine ⟨b, after, (append_assoc _ _ _).symm, hid, fun c hc => ?_, hnext⟩
      exact hprev c (by rw [getLast?_append, mem_def.1 hc]; rfl)
    · obtain ⟨o, tail, rfl, ho, -⟩ := hid.eq_cons ha
      cases b with
      | nil => exact ⟨[], after, hsplit.symm, hid, by simp [Free], hnext⟩
      | cons o' b =>
        obtain ⟨rfl, -⟩ := List.cons.inj hsplit
        have hword := ha.ascii o (asciiWord_of_isAlpha (isAlpha_of_toUpper ho))
        rw [hfirst o (by simp)] at hword
        cases hword
  · rintro ⟨before, after, rfl, hid, hprev, hnext⟩
    refine ⟨first ++ before, after, by simp only [append_assoc], hid, fun c hc => ?_, hnext⟩
    rw [getLast?_append] at hc
    cases hlast : before.getLast? with
    | none => exact hfirst c (mem_of_getLast? (by rw [hlast] at hc; simpa using hc))
    | some d =>
      rw [hlast] at hc
      exact hprev c (hlast ▸ hc)

theorem mentions_append_right (ha : Alphabet digit word) (hlast : ∀ c ∈ last, word c = false) :
    Mentions digit word (text ++ last) id ↔ Mentions digit word text id := by
  constructor
  · rintro ⟨before, after, hsplit, hid, hprev, hnext⟩
    rcases append_eq_append_iff.1 hsplit with ⟨a, hbefore, rfl⟩ | ⟨a, rfl, rfl⟩
    · obtain ⟨init, d, rfl, hd⟩ := hid.eq_concat
      rcases eq_nil_or_concat a with rfl | ⟨a, e, rfl⟩
      · exact ⟨before, [], by rw [append_assoc, append_nil, hbefore, append_nil],
          hid, hprev, by simp [Free]⟩
      · have hends := congrArg getLast? hbefore
        simp only [← append_assoc, concat_eq_append, getLast?_append_cons,
          getLast?_singleton, some.injEq] at hends
        subst hends
        have hword := ha.digit_word d hd
        rw [hlast d (by simp)] at hword
        cases hword
    · refine ⟨before, a, rfl, hid, hprev, fun c hc => hnext c ?_⟩
      rw [head?_append, mem_def.1 hc]
      rfl
  · rintro ⟨before, after, rfl, hid, hprev, hnext⟩
    refine ⟨before, after ++ last, append_assoc _ _ _, hid, hprev, fun c hc => ?_⟩
    rw [head?_append] at hc
    cases hhead : after.head? with
    | none => exact hlast c (mem_of_head? (by rw [hhead] at hc; simpa using hc))
    | some d =>
      rw [hhead] at hc
      exact hnext c (hhead ▸ hc)

theorem mentions_strip (h : Unicode rt) (s : String) :
    Mentions rt.isDecimal rt.isWord (rt.strip s).toList id ↔
      Mentions rt.isDecimal rt.isWord s.toList id := by
  have hsplit : s.toList = s.toList.takeWhile PyStr.isSpace ++
      ((rt.strip s).toList ++ (s.toList.dropWhile PyStr.isSpace).rtakeWhile PyStr.isSpace) := by
    rw [h.strip, PyStr.strip, String.toList_ofList, PyStr.stripList,
      rdropWhile_append_rtakeWhile, takeWhile_append_dropWhile]
  have hfirst : ∀ c ∈ s.toList.takeWhile PyStr.isSpace, rt.isWord c = false := fun c hc =>
    h.space c (mem_takeWhile_imp hc)
  have hlast : ∀ c ∈ (s.toList.dropWhile PyStr.isSpace).rtakeWhile PyStr.isSpace,
      rt.isWord c = false := fun c hc => h.space c (mem_rtakeWhile_imp hc)
  conv_rhs => rw [hsplit, mentions_append_left h.alphabet hfirst,
    mentions_append_right h.alphabet hlast]

/-! ### The answer -/

theorem upper_eq (h : Unicode rt) (hid : IsOrderId rt.isDecimal id) :
    rt.upper (String.ofList id) = upperId id := by
  refine h.upper id fun c hc => ?_
  rw [← take_append_drop 6 id] at hc
  rcases mem_append.1 hc with hc | hc
  · by_cases hlower : c.isLower
    · exact .inl (asciiWord_of_isAlpha (isAlpha_of_isLower hlower))
    · have hmem : c.toUpper ∈ "ORDER-".toList := hid.1 ▸ mem_map_of_mem hc
      rw [Char.toUpper_eq_of_not_isLower hlower] at hmem
      have hletters : ∀ c ∈ "ORDER-".toList, asciiWord c = true ∨ c = '-' := by decide
      exact (hletters c hmem).imp_right .inl
  · exact .inr (.inr (hid.2.2 c hc))

theorem eraseDups_eq_singleton {l : List String} {a : String} :
    l.eraseDups = [a] ↔ {x | x ∈ l} = ({a} : Set String) := by
  constructor
  · intro h
    ext x
    rw [Set.mem_ofPred_eq, ← mem_eraseDups, h, mem_singleton, Set.mem_singleton_iff]
  · intro h
    have hmem : ∀ x, x ∈ l ↔ x = a := fun x => by
      rw [← Set.mem_singleton_iff, ← h, Set.mem_ofPred_eq]
    cases l with
    | nil => exact absurd ((hmem a).2 rfl) not_mem_nil
    | cons b l =>
      obtain rfl := (hmem b).1 mem_cons_self
      have hrest : (l.filter fun x => !x == b) = [] := by
        rw [filter_eq_nil_iff]
        intro x hx
        simp [(hmem x).1 (mem_cons_of_mem b hx)]
      rw [eraseDups_cons, hrest, eraseDups_nil]

theorem orderId_extractIntake (h : Unicode rt) (complaintText id : String) :
    (extractIntake rt complaintText).orderId = some id ↔
      mentioned rt.isDecimal rt.isWord complaintText = {id} := by
  have hids : {x | x ∈ (findOrderIds rt 0 none (rt.strip complaintText).toList).map rt.upper} =
      mentioned rt.isDecimal rt.isWord complaintText := by
    ext x
    rw [Set.mem_ofPred_eq, List.mem_map]
    constructor
    · rintro ⟨found, hfound, rfl⟩
      rw [← String.ofList_toList (s := found), mem_findOrderIds h, mentions_strip h] at hfound
      refine ⟨found.toList, hfound, ?_⟩
      obtain ⟨-, -, -, hid, -⟩ := hfound
      rw [← upper_eq h hid, String.ofList_toList]
    · rintro ⟨found, hfound, rfl⟩
      have hid : IsOrderId rt.isDecimal found := by
        obtain ⟨-, -, -, hid, -⟩ := hfound
        exact hid
      exact ⟨String.ofList found, (mem_findOrderIds h).2 ((mentions_strip h _).2 hfound),
        upper_eq h hid⟩
  rw [← hids, ← eraseDups_eq_singleton]
  simp only [extractIntake]
  split
  · next single heq => rw [heq, some.injEq, List.cons.injEq, and_iff_left rfl]
  · next hnot => exact iff_of_false (by simp) fun heq => hnot id heq

/-! ### The two readings -/

theorem mentions_ascii (h : Unicode rt) (hfound : Mentions Char.isDigit rt.isWord text id) :
    Mentions Char.isDigit asciiWord text id := by
  have hfree : ∀ {c}, Free rt.isWord c → Free asciiWord c := fun hfree x hx => by
    by_contra hword
    rw [Bool.not_eq_false] at hword
    have := hfree x hx
    rw [h.ascii x hword] at this
    cases this
  obtain ⟨before, after, hsplit, hid, hprev, hnext⟩ := hfound
  exact ⟨before, after, hsplit, hid, hfree hprev, hfree hnext⟩

theorem clear_union_foreign (h : Unicode rt) (s : String) :
    clearIds rt s ∪ foreignIds rt s = mentioned rt.isDecimal rt.isWord s := by
  ext x
  constructor
  · rintro (⟨found, ⟨before, after, hsplit, hid, hfree⟩, rfl⟩ | ⟨found, hfound, -, rfl⟩)
    · exact ⟨found, ⟨before, after, hsplit,
        ⟨hid.1, hid.2.1, fun c hc => h.digit c (hid.2.2 c hc)⟩, hfree⟩, rfl⟩
    · exact ⟨found, hfound, rfl⟩
  · rintro ⟨found, hfound, rfl⟩
    by_cases hdigits : ∀ c ∈ found.drop 6, c.isDigit = true
    · obtain ⟨before, after, hsplit, hid, hfree⟩ := hfound
      exact .inl ⟨found, ⟨before, after, hsplit, ⟨hid.1, hid.2.1, hdigits⟩, hfree⟩, rfl⟩
    · push Not at hdigits
      obtain ⟨c, hc, hdigit⟩ := hdigits
      exact .inr ⟨found, hfound, ⟨c, hc, Bool.eq_false_of_not_eq_true hdigit⟩, rfl⟩

theorem clearIds_subset (h : Unicode rt) (s : String) : clearIds rt s ⊆ asciiIds s := by
  rintro x ⟨found, hfound, rfl⟩
  exact ⟨found, mentions_ascii h hfound, rfl⟩

/-- A foreign digit stays in the id, so that the id is none of the grammar. -/
theorem foreign_not_ascii (h : Unicode rt) {s x : String} (hx : x ∈ foreignIds rt s) :
    x ∉ asciiIds s := by
  obtain ⟨found, ⟨-, -, -, hid, -⟩, ⟨c, hc, hforeign⟩, rfl⟩ := hx
  rintro ⟨other, ⟨-, -, -, hother, -⟩, heq⟩
  have hlist : other.map Char.toUpper = found.map Char.toUpper := String.ofList_injective heq
  have hdrop : (other.drop 6).map Char.toUpper = (found.drop 6).map Char.toUpper := by
    rw [map_drop, map_drop, hlist]
  have hself : ∀ {c : Char}, c.isAlpha = false → c.toUpper = c := fun halpha =>
    Char.toUpper_eq_of_not_isLower fun hlower => by
      rw [isAlpha_of_isLower hlower] at halpha
      cases halpha
  have hmem : c.toUpper ∈ (other.drop 6).map Char.toUpper := hdrop ▸ mem_map_of_mem hc
  obtain ⟨d, hd, hdc⟩ := mem_map.1 hmem
  have hdigit := hother.2.2 d hd
  rw [hself (isAlpha_of_isDigit hdigit), hself (h.decimal c (hid.2.2 c hc)).2] at hdc
  rw [hdc, hforeign] at hdigit
  cases hdigit

/-- Two readings, of which one has clear ids among those of the other and ids that the other has
not. -/
theorem union_eq_singleton_iff {ids clear foreign : Set String} (hclear : clear ⊆ ids)
    (hforeign : ∀ x ∈ foreign, x ∉ ids) :
    (∀ id, clear ∪ foreign = {id} ↔ ids = {id}) ↔
      (∀ id, ids = {id} → id ∈ clear ∧ foreign = ∅) ∧ (ids = ∅ → ∀ id, foreign ≠ {id}) ∧
        (ids.Nontrivial → ∀ id, clear ∪ foreign ≠ {id}) := by
  constructor
  · intro h
    refine ⟨fun id hid => ?_, fun hempty id hid => ?_, fun hseveral id hid => ?_⟩
    · have hunion := (h id).2 hid
      have hnone : foreign = ∅ := Set.eq_empty_of_forall_notMem fun x hx => by
        have hxid : x ∈ ({id} : Set String) := hunion ▸ Set.mem_union_right clear hx
        exact hforeign x hx (hid ▸ hxid)
      rw [hnone, Set.union_empty] at hunion
      exact ⟨hunion ▸ Set.mem_singleton id, hnone⟩
    · rw [hempty, Set.subset_empty_iff] at hclear
      have hids := (h id).1 (by rw [hclear, hid, Set.empty_union])
      exact Set.singleton_ne_empty id (hids.symm.trans hempty)
    · rw [(h id).1 hid] at hseveral
      exact Set.not_nontrivial_singleton hseveral
  · rintro ⟨hone, hnone, hseveral⟩ id
    constructor
    · intro hunion
      rcases ids.subsingleton_or_nontrivial with hsub | hids
      · rcases hsub.eq_empty_or_singleton with hids | ⟨x, hids⟩
        · have hempty : clear = ∅ := Set.subset_empty_iff.1 (hids ▸ hclear)
          rw [hempty, Set.empty_union] at hunion
          exact absurd hunion (hnone hids id)
        · have hx : x ∈ ({id} : Set String) := hunion ▸ Set.mem_union_left foreign (hone x hids).1
          rw [hids, Set.mem_singleton_iff.1 hx]
      · exact absurd hunion (hseveral hids id)
    · intro hids
      obtain ⟨hmem, hforeign⟩ := hone id hids
      rw [hforeign, Set.union_empty]
      exact (hids ▸ hclear).antisymm (Set.singleton_subset_iff.2 hmem)

/-- **What is read from a complaint.** The answer is the one id that the text mentions, or nothing
where it mentions none or several, exactly if the text is legible. -/
theorem order_id_read_iff (h : Unicode rt) (complaintText : String) :
    (∀ id, (extractIntake rt complaintText).orderId = some id ↔ asciiIds complaintText = {id}) ↔
      Legible rt complaintText := by
  simp only [orderId_extractIntake h, ← clear_union_foreign h]
  rw [union_eq_singleton_iff (clearIds_subset h complaintText) fun x => foreign_not_ascii h]
  constructor
  · rintro ⟨hone, hnone, hseveral⟩
    exact ⟨hone, hnone, hseveral⟩
  · rintro ⟨hone, hnone, hseveral⟩
    exact ⟨hone, hnone, hseveral⟩

/-! ### Texts in ASCII and Chinese -/

/-- The texts of Python, with the given letters beside those of ASCII. -/
def textRuntime (letter : Char → Bool) : Runtime :=
  { demoRuntime with
    strip := PyStr.strip
    isWord := fun c => asciiWord c || letter c }

def isChinese (c : Char) : Bool := 0x4e00 ≤ c.toNat && c.toNat ≤ 0x9fff

theorem asciiWord_of_isSpace (h : PyStr.isSpace c = true) : asciiWord c = false := by
  simp only [PyStr.isSpace, Bool.or_eq_true, Bool.and_eq_true, decide_eq_true_eq, beq_iff_eq] at h
  by_contra hword
  rw [Bool.not_eq_false, asciiWord, Bool.or_eq_true, decide_eq_true_eq] at hword
  rcases hword with hword | rfl
  · simp only [Char.isAlphanum, Char.isAlpha, Char.isUpper, Char.isLower, Char.isDigit, ge_iff_le,
      Bool.or_eq_true, Bool.and_eq_true, decide_eq_true_eq, UInt32.le_iff_toNat_le] at hword
    have : c.toNat = c.val.toNat := rfl
    have : '0'.val.toNat = 48 := rfl
    have : '9'.val.toNat = 57 := rfl
    have : 'A'.val.toNat = 65 := rfl
    have : 'Z'.val.toNat = 90 := rfl
    have : 'a'.val.toNat = 97 := rfl
    have : 'z'.val.toNat = 122 := rfl
    omega
  · exact absurd h (by decide)

theorem textRuntime_unicode {letter : Char → Bool}
    (hletter : ∀ c, PyStr.isSpace c = true → letter c = false) : Unicode (textRuntime letter) where
  strip := rfl
  upper := fun id _ => by
    show String.ofList (((String.ofList id).toList).map Char.toUpper) = _
    rw [String.toList_ofList, upperId]
  space := fun c hc => by
    show (asciiWord c || letter c) = false
    rw [asciiWord_of_isSpace hc, hletter c hc]
    rfl
  ascii := fun c hc => by
    show (asciiWord c || letter c) = true
    rw [hc]
    rfl
  digit := fun _ hc => hc
  decimal := fun c hc => by
    show (asciiWord c || letter c) = true ∧ _
    rw [asciiWord_of_isDigit hc]
    exact ⟨rfl, isAlpha_of_isDigit hc⟩

theorem asciiIds_eq_singleton_iff {s id : String} :
    asciiIds s = {id} ↔ (extractIntake (textRuntime fun _ => false) s).orderId = some id := by
  rw [orderId_extractIntake (textRuntime_unicode fun _ _ => rfl)]
  have hword : (textRuntime fun _ => false).isWord = asciiWord :=
    funext fun c => Bool.or_false (asciiWord c)
  rw [hword]
  rfl

theorem isChinese_of_isSpace (h : PyStr.isSpace c = true) : isChinese c = false := by
  simp only [PyStr.isSpace, Bool.or_eq_true, Bool.and_eq_true, decide_eq_true_eq, beq_iff_eq] at h
  simp only [isChinese, Bool.and_eq_false_iff, decide_eq_false_iff_not]
  omega

/-- With blanks around it the id is read. -/
theorem order_id_read_iff_blanks :
    Legible (textRuntime isChinese) "订单 ORDER-1001 没收到" :=
  (order_id_read_iff (textRuntime_unicode fun _ => isChinese_of_isSpace) _).1 fun id => by
    have hread : (extractIntake (textRuntime isChinese) "订单 ORDER-1001 没收到").orderId =
        some "ORDER-1001" := by decide +kernel
    have hids : asciiIds "订单 ORDER-1001 没收到" = {"ORDER-1001"} :=
      asciiIds_eq_singleton_iff.2 (by decide +kernel)
    rw [hread, hids, some.injEq, Set.singleton_eq_singleton_iff]

/-- Without blanks around it the id is not found. -/
theorem order_id_unread :
    asciiIds "订单ORDER-1001没收到" = {"ORDER-1001"} ∧
      (extractIntake (textRuntime isChinese) "订单ORDER-1001没收到").orderId ≠ some "ORDER-1001" :=
  ⟨asciiIds_eq_singleton_iff.2 (by decide +kernel), by decide +kernel⟩

end AfterFlow
