import AfterFlow.Json
import AfterFlow.PyStr

/-!
# Event records

The records of run events and their JSON text, as `json.dumps(record, ensure_ascii=False)` writes
it. Control characters, quotation marks and backslashes are escaped, and every other character of a
string stands for itself. So the text has no line end in it but those three above the control
characters, which `str.splitlines` takes for line ends, where a string has them.
-/

namespace AfterFlow.Events

open PyStr List

/-! ### Values -/

def isNumeric (c : Char) : Bool := c.isDigit || "+-.eNaInfity".toList.contains c

/-- The text Python prints for a float. -/
structure FloatText where
  text : String
  numeric : ∀ c ∈ text.toList, isNumeric c = true

/-- A JSON value; an object is the list of its fields in the order they were inserted. -/
inductive Value where
  | null
  | bool (b : Bool)
  | int (n : ℤ)
  | float (x : FloatText)
  | str (s : String)
  | arr (items : List Value)
  | obj (fields : List (String × Value))

namespace Value

def quote (s : String) : List Char := '"' :: (s.toList.flatMap Json.escapeChar ++ ['"'])

mutual

/-- The characters of `json.dumps`. -/
@[grind =] def chars : Value → List Char
  | .null => "null".toList
  | .bool b => (if b then "true" else "false").toList
  | .int n => (toString n).toList
  | .float x => x.text.toList
  | .str s => quote s
  | .arr [] => "[]".toList
  | .arr (v :: vs) => '[' :: (chars v ++ (moreItems vs ++ [']']))
  | .obj [] => "\x7b\x7d".toList
  | .obj ((k, v) :: fs) =>
    '\x7b' :: (quote k ++ (": ".toList ++ (chars v ++ (moreFields fs ++ ['\x7d']))))

def moreItems : List Value → List Char
  | [] => []
  | v :: vs => ", ".toList ++ (chars v ++ moreItems vs)

def moreFields : List (String × Value) → List Char
  | [] => []
  | (k, v) :: fs => ", ".toList ++ (quote k ++ (": ".toList ++ (chars v ++ moreFields fs)))

end

mutual

/-- The strings in a value, keys included. -/
def texts : Value → List String
  | .str s => [s]
  | .arr items => itemTexts items
  | .obj fields => fieldTexts fields
  | _ => []

def itemTexts : List Value → List String
  | [] => []
  | v :: vs => texts v ++ itemTexts vs

def fieldTexts : List (String × Value) → List String
  | [] => []
  | (k, v) :: fs => k :: (texts v ++ fieldTexts fs)

end

/-- `json.dumps(value, ensure_ascii=False)`. -/
def dumps (v : Value) : String := String.ofList v.chars

/-- `d.get(key)`. -/
def get? (v : Value) (key : String) : Option Value :=
  match v with
  | .obj fields => fields.lookup key
  | _ => none

end Value

/-- The line ends that are no control characters, and so are not escaped. -/
def isWideLineEnd (c : Char) : Bool := c.toNat == 0x85 || c.toNat == 0x2028 || c.toNat == 0x2029

/-- No string in the value has a line end that is not escaped. -/
def Value.Whole (v : Value) : Prop := ∀ s ∈ v.texts, ∀ c ∈ s.toList, isWideLineEnd c = false

/-! ### Records -/

/-- The record of an event. -/
structure EventRecord where
  threadId : String
  runId : String
  eventType : String
  category : String
  content : Value
  metadata : List (String × Value)
  seq : ℕ
  createdAt : String

def EventRecord.value (r : EventRecord) : Value :=
  .obj [("thread_id", .str r.threadId), ("run_id", .str r.runId), ("event_type", .str r.eventType),
    ("category", .str r.category), ("content", r.content), ("metadata", .obj r.metadata),
    ("seq", .int r.seq), ("created_at", .str r.createdAt)]

/-! ### Fine texts -/

/-- A text whose escapes are those of `json.dumps`, and whose line ends are among the characters in
`T`. -/
inductive Fine (T : Char → Prop) : List Char → Prop
  | nil : Fine T []
  | char {c l} : c ≠ '\\' → (isLineEnd c = true → T c) → Fine T l → Fine T (c :: l)
  | pair {c l} : c ≠ 'u' → isLineEnd c = false → Fine T l → Fine T ('\\' :: c :: l)
  /-- A control character: `\u00` with a digit below 2 and another digit. -/
  | control {a b l} : a = '0' ∨ a = '1' → isLineEnd b = false → Fine T l →
      Fine T ('\\' :: 'u' :: '0' :: '0' :: a :: b :: l)

variable {T T' : Char → Prop} {l l' : List Char}

theorem Fine.append (h : Fine T l) (h' : Fine T l') : Fine T (l ++ l') := by
  induction h with
  | nil => exact h'
  | char hc hT _ ih => exact .char hc hT ih
  | pair hc hend _ ih => exact .pair hc hend ih
  | control ha hb _ ih => exact .control ha hb ih

theorem Fine.lineEnd (h : Fine T l) : ∀ c ∈ l, isLineEnd c = true → T c := by
  induction h with
  | nil => simp
  | char _ hT _ ih => simpa using ⟨hT, ih⟩
  | pair _ hend _ ih => simpa [hend, show isLineEnd '\\' = false by decide] using ih
  | @control a b l ha hb _ ih =>
    have ha : isLineEnd a = false := by rcases ha with rfl | rfl <;> decide
    simpa [ha, hb, show isLineEnd '\\' = false by decide, show isLineEnd 'u' = false by decide,
      show isLineEnd '0' = false by decide] using ih

theorem Fine.mono (h : Fine T l) (hT : ∀ c ∈ l, isLineEnd c = true → T c → T' c) : Fine T' l := by
  induction h with
  | nil => exact .nil
  | char hc hT' _ ih =>
    exact .char hc (fun hend => hT _ mem_cons_self hend (hT' hend))
      (ih fun c hc => hT c (mem_cons_of_mem _ hc))
  | pair hc hend _ ih =>
    exact .pair hc hend (ih fun c hc => hT c (by simp [hc]))
  | control ha hb _ ih =>
    exact .control ha hb (ih fun c hc => hT c (by simp [hc]))

theorem append_eq_of_no_lineEnd {t l₁ l₂ : List Char} {c : Char}
    (ht : ∀ d ∈ t, isLineEnd d = false) (hc : isLineEnd c = true) (h : t ++ l = l₁ ++ c :: l₂) :
    ∃ l₁', l₁ = t ++ l₁' ∧ l = l₁' ++ c :: l₂ := by
  rcases append_eq_append_iff.1 h with ⟨l₁', h₁, h₂⟩ | ⟨rest, h₁, h₂⟩
  · exact ⟨l₁', h₁, h₂⟩
  · cases rest with
    | nil => exact ⟨[], by simp [h₁], by simpa using h₂.symm⟩
    | cons d rest =>
      obtain ⟨rfl, -⟩ := List.cons.inj h₂
      have := ht c (by simp [h₁])
      rw [hc] at this
      cases this

theorem Fine.split {c : Char} {l₁ l₂ : List Char} (h : Fine T (l₁ ++ c :: l₂))
    (hc : isLineEnd c = true) : Fine T l₁ ∧ Fine T l₂ := by
  generalize hl : l₁ ++ c :: l₂ = l at h
  have hslash : isLineEnd '\\' = false := by decide
  induction h generalizing l₁ with
  | nil => simp at hl
  | @char d l hd hT h ih =>
    cases l₁ with
    | nil =>
      obtain ⟨-, rfl⟩ := List.cons.inj hl
      exact ⟨.nil, h⟩
    | cons x l₁ =>
      obtain ⟨rfl, hl'⟩ := List.cons.inj hl
      exact ⟨.char hd hT (ih hl').1, (ih hl').2⟩
  | @pair d l hd hend h ih =>
    obtain ⟨l₁, rfl, hl'⟩ := append_eq_of_no_lineEnd (t := ['\\', d]) (l := l)
      (by simp [hslash, hend]) hc hl.symm
    exact ⟨.pair hd hend (ih hl'.symm).1, (ih hl'.symm).2⟩
  | @control a b l ha hb h ih =>
    have ha' : isLineEnd a = false := by rcases ha with rfl | rfl <;> decide
    obtain ⟨l₁, rfl, hl'⟩ := append_eq_of_no_lineEnd (t := ['\\', 'u', '0', '0', a, b]) (l := l)
      (by simp [hslash, ha', hb, show isLineEnd 'u' = false by decide,
        show isLineEnd '0' = false by decide]) hc hl.symm
    exact ⟨.control ha hb (ih hl'.symm).1, (ih hl'.symm).2⟩

theorem Fine.lines {line : List Char} (h : Fine T l) (hline : line ∈ splitlines l) : Fine T line := by
  generalize hn : l.length = n
  induction n using Nat.strong_induction_on generalizing l with
  | _ n ih =>
    cases hlines : splitlines l with
    | nil => rw [hlines] at hline; cases hline
    | cons first others =>
      obtain ⟨rest, rfl, ⟨rfl, rfl⟩ | ⟨e, l', he, rfl, hrest⟩⟩ := splitlines_eq_cons hlines
      · rw [hlines] at hline
        obtain rfl := mem_singleton.1 hline
        rwa [append_nil] at h
      · -- the text of the other lines is fine, and shorter
        have hl' : Fine T first ∧ Fine T l' ∧ l'.length < n := by
          rcases hrest with rfl | rfl
          · exact ⟨(h.split he).1, (h.split he).2, by simp at hn; omega⟩
          · have htail : Fine T ([] ++ '\n' :: l') := (h.split he).2
            exact ⟨(h.split he).1, (htail.split (by decide)).2, by simp at hn; omega⟩
        rw [hlines] at hline
        rcases mem_cons.1 hline with rfl | hline
        · exact hl'.1
        · exact ih _ hl'.2.2 hl'.2.1 hline rfl

theorem Fine.cons {c : Char} (hc : c ≠ '\\') (hend : isLineEnd c = false) (h : Fine T l) :
    Fine T (c :: l) :=
  .char hc (by simp [hend]) h

theorem fine_of_plain (h : ∀ c ∈ l, c ≠ '\\' ∧ isLineEnd c = false) : Fine T l := by
  induction l with
  | nil => exact .nil
  | cons c l ih =>
    obtain ⟨hc, hend⟩ := h c mem_cons_self
    exact .cons hc hend (ih fun c hc => h c (mem_cons_of_mem _ hc))

/-! ### The text of a value -/

/-- Whether a list of characters is one character or one escape that `json.dumps` writes. -/
def isEscaped : List Char → Bool
  | [c] => c != '\\' && !isLineEnd c
  | ['\\', c] => c != 'u' && !isLineEnd c
  | ['\\', 'u', '0', '0', a, b] => (a == '0' || a == '1') && !isLineEnd b
  | _ => false

theorem fine_of_isEscaped (h : isEscaped l = true) : Fine T l := by
  simp only [isEscaped] at h
  split at h
  · simp only [Bool.and_eq_true, bne_iff_ne, Bool.not_eq_true'] at h
    exact .char h.1 (by simp [h.2]) .nil
  · simp only [Bool.and_eq_true, bne_iff_ne, Bool.not_eq_true'] at h
    exact .pair h.1 h.2 .nil
  · simp only [Bool.and_eq_true, Bool.or_eq_true, beq_iff_eq, Bool.not_eq_true'] at h
    exact .control h.1 h.2 .nil
  · cases h

theorem fine_escapeChar (c : Char) (hT : isWideLineEnd c = true → T c) :
    Fine T (Json.escapeChar c) := by
  by_cases hcontrol : c.toNat < 32
  · have hall : ∀ n : Fin 32, isEscaped (Json.escapeChar (Char.ofNat n)) = true := by decide
    have := hall ⟨c.toNat, hcontrol⟩
    rw [Char.ofNat_toNat] at this
    exact fine_of_isEscaped this
  · by_cases hquote : c = '"'
    · subst hquote
      exact fine_of_isEscaped (by decide)
    · by_cases hslash : c = '\\'
      · subst hslash
        exact fine_of_isEscaped (by decide)
      · rw [Json.escapeChar_self (not_lt.mp hcontrol) hquote hslash]
        refine .char hslash (fun hend => hT ?_) .nil
        simp only [isLineEnd, isWideLineEnd, Bool.or_eq_true, Bool.and_eq_true, decide_eq_true_eq,
          beq_iff_eq] at hend ⊢
        omega

theorem fine_flatMap_escapeChar (l : List Char) (hT : ∀ c ∈ l, isWideLineEnd c = true → T c) :
    Fine T (l.flatMap Json.escapeChar) := by
  induction l with
  | nil => exact .nil
  | cons c l ih =>
    rw [flatMap_cons]
    exact (fine_escapeChar c (hT c mem_cons_self)).append
      (ih fun c hc => hT c (mem_cons_of_mem _ hc))

theorem fine_quote (s : String) (hT : ∀ c ∈ s.toList, isWideLineEnd c = true → T c) :
    Fine T (Value.quote s) :=
  .cons (by decide) (by decide) ((fine_flatMap_escapeChar _ hT).append
    (fine_of_isEscaped (by decide)))

theorem plain_of_isNumeric {c : Char} (h : isNumeric c = true) :
    c ≠ '\\' ∧ isLineEnd c = false := by
  rw [isNumeric, Bool.or_eq_true] at h
  rcases h with h | h
  · simp only [Char.isDigit, Bool.and_eq_true, decide_eq_true_eq, UInt32.le_iff_toNat_le] at h
    have hlow : 48 ≤ c.toNat := h.1
    have hhigh : c.toNat ≤ 57 := h.2
    constructor
    · rintro rfl
      exact absurd hhigh (by decide)
    · simp [isLineEnd]
      omega
  · have hall : ∀ d ∈ "+-.eNaInfity".toList, d ≠ '\\' ∧ isLineEnd d = false := by decide
    exact hall c (by simpa using h)

theorem fine_int (n : ℤ) : Fine T (toString n).toList := by
  have hnat : ∀ m : ℕ, ∀ c ∈ (toString m).toList, isNumeric c = true := by
    intro m c hc
    have hdigit : c.isDigit = true :=
      Nat.isDigit_of_mem_toDigits (b := 10) (n := m) (by decide) (by decide) (by simpa using hc)
    rw [isNumeric, hdigit, Bool.true_or]
  cases n with
  | ofNat m => exact fine_of_plain fun c hc => plain_of_isNumeric (hnat m c hc)
  | negSucc m =>
    have hneg : (toString (Int.negSucc m)).toList = '-' :: (toString (m + 1)).toList := by
      show ("-" ++ toString (m + 1)).toList = _
      rw [String.toList_append]
      rfl
    rw [hneg]
    exact .cons (by decide) (by decide)
      (fine_of_plain fun c hc => plain_of_isNumeric (hnat (m + 1) c hc))

theorem fine_float (x : FloatText) : Fine T x.text.toList := by
  exact fine_of_plain fun c hc => plain_of_isNumeric (x.numeric c hc)

mutual

/-- The text of a value is fine, and has line ends only where its strings have them. -/
theorem Value.fine : (v : Value) →
    (∀ s ∈ v.texts, ∀ c ∈ s.toList, isWideLineEnd c = true → T c) → Fine T v.chars
  | .null, _ => fine_of_plain (by decide)
  | .bool b, _ => by cases b <;> exact fine_of_plain (by decide)
  | .int n, _ => fine_int n
  | .float x, _ => fine_float x
  | .str s, hT => fine_quote s (hT s mem_cons_self)
  | .arr [], _ => fine_of_plain (by decide)
  | .arr (v :: vs), hT => by
    have hv := v.fine fun s hs => hT s (mem_append_left _ hs)
    have hvs := Value.fineItems vs fun s hs => hT s (mem_append_right _ hs)
    exact .cons (by decide) (by decide) (hv.append (hvs.append (fine_of_plain (by decide))))
  | .obj [], _ => fine_of_plain (by decide)
  | .obj ((k, v) :: fs), hT => by
    have hk := fine_quote k (hT k mem_cons_self)
    have hv := v.fine fun s hs => hT s (mem_cons_of_mem _ (mem_append_left _ hs))
    have hfs := Value.fineFields fs fun s hs =>
      hT s (mem_cons_of_mem _ (mem_append_right _ hs))
    exact .cons (by decide) (by decide) (hk.append ((fine_of_plain (by decide)).append
      (hv.append (hfs.append (fine_of_plain (by decide))))))

theorem Value.fineItems : (vs : List Value) →
    (∀ s ∈ Value.itemTexts vs, ∀ c ∈ s.toList, isWideLineEnd c = true → T c) →
    Fine T (Value.moreItems vs)
  | [], _ => .nil
  | v :: vs, hT => by
    have hv := v.fine fun s hs => hT s (mem_append_left _ hs)
    have hvs := Value.fineItems vs fun s hs => hT s (mem_append_right _ hs)
    exact (fine_of_plain (by decide)).append (hv.append hvs)

theorem Value.fineFields : (fs : List (String × Value)) →
    (∀ s ∈ Value.fieldTexts fs, ∀ c ∈ s.toList, isWideLineEnd c = true → T c) →
    Fine T (Value.moreFields fs)
  | [], _ => .nil
  | (k, v) :: fs, hT => by
    have hk := fine_quote k (hT k mem_cons_self)
    have hv := v.fine fun s hs => hT s (mem_cons_of_mem _ (mem_append_left _ hs))
    have hfs := Value.fineFields fs fun s hs =>
      hT s (mem_cons_of_mem _ (mem_append_right _ hs))
    exact (fine_of_plain (by decide)).append (hk.append ((fine_of_plain (by decide)).append
      (hv.append hfs)))

end

end AfterFlow.Events
