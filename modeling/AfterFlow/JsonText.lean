import AfterFlow.Codes
import AfterFlow.Json

/-!
# What a JSON text determines

The text of a dictionary of nulls, truth values and texts determines its entries. Every value can be
read off the front of a text, since a text ends at the first quotation mark that is not escaped.
-/

namespace AfterFlow.Json

open Codes List

/-! ### Texts -/

/-- The characters that are escaped. -/
def escaped : List Char := '"' :: '\\' :: (List.range 32).map Char.ofNat

theorem escapeChar_of_not_mem {c : Char} (h : c ∉ escaped) : escapeChar c = [c] := by
  rw [escaped, mem_cons, mem_cons, not_or, not_or] at h
  refine escapeChar_self ?_ h.1 h.2.1
  by_contra hlt
  refine h.2.2 (mem_map.mpr ⟨c.toNat, mem_range.mpr (not_le.mp hlt), Char.ofNat_toNat c⟩)

theorem escapeChar_of_mem {c : Char} (h : c ∈ escaped) : ['\\'] <+: escapeChar c := by
  have hall : escaped.all (fun c => ['\\'].isPrefixOf (escapeChar c)) = true := by decide +kernel
  exact isPrefixOf_iff_prefix.1 (all_eq_true.1 hall c h)

theorem selfDelimiting_escapeChar : SelfDelimiting escapeChar := by
  have hall : escaped.all (fun a => escaped.all fun b =>
      !(escapeChar a).isPrefixOf (escapeChar b) || a == b) = true := by
    decide +kernel
  have hescaped : ∀ a ∈ escaped, ∀ b ∈ escaped, escapeChar a <+: escapeChar b → a = b := by
    intro a ha b hb hp
    have hab := all_eq_true.1 (all_eq_true.1 hall a ha) b hb
    rw [ isPrefixOf_iff_prefix.2 hp, Bool.not_true, Bool.false_or] at hab
    exact eq_of_beq hab
  have hslash : '\\' ∈ escaped := mem_cons_of_mem _ mem_cons_self
  refine .of_unnested fun a b h => ?_
  by_cases ha : a ∈ escaped
  · by_cases hb : b ∈ escaped
    · exact hescaped a ha b hb h
    · have hp := (escapeChar_of_mem ha).trans h
      rw [escapeChar_of_not_mem hb, cons_prefix_cons] at hp
      exact absurd (hp.1 ▸ hslash) hb
  · rw [escapeChar_of_not_mem ha] at h
    by_cases hb : b ∈ escaped
    · obtain ⟨rest, hrest⟩ := escapeChar_of_mem hb
      rw [← hrest, singleton_append, cons_prefix_cons] at h
      exact absurd (h.1.symm ▸ hslash) ha
    · rw [escapeChar_of_not_mem hb, cons_prefix_cons] at h
      exact h.1

theorem stops_escapeChar : Stops escapeChar '"' := by
  intro c x y h
  by_cases hc : c ∈ escaped
  · obtain ⟨rest, hrest⟩ := escapeChar_of_mem hc
    rw [← hrest] at h
    exact absurd (List.cons.inj h).1 (by decide)
  · rw [escapeChar_of_not_mem hc] at h
    exact hc ((List.cons.inj h).1 ▸ mem_cons_self)

theorem quote_toList (s : String) :
    (quote s).toList = '"' :: (s.toList.flatMap escapeChar ++ ['"']) := by
  simp [quote]

theorem selfDelimiting_quote : SelfDelimiting fun s => (quote s).toList := by
  intro s t x y h
  dsimp only at h
  rw [quote_toList, quote_toList, cons_append, cons_append, append_assoc,
    append_assoc] at h
  obtain ⟨hst, hxy⟩ := selfDelimiting_escapeChar.flatMap_stop stops_escapeChar (List.cons.inj h).2
  exact ⟨String.toList_inj.mp hst, hxy⟩

/-! ### Values -/

/-- The values of a flat dictionary. -/
inductive Scalar where
  | null
  | bool (b : Bool)
  | str (s : String)
  deriving DecidableEq

/-- The JSON value. -/
def Scalar.toJson : Scalar → Json
  | null => .null
  | bool b => .bool b
  | str s => .str s

/-- Its text. -/
def Scalar.text : Scalar → List Char
  | null => ['n', 'u', 'l', 'l']
  | bool true => ['t', 'r', 'u', 'e']
  | bool false => ['f', 'a', 'l', 's', 'e']
  | str s => '"' :: (s.toList.flatMap escapeChar ++ ['"'])

theorem Scalar.dumps_toJson (v : Scalar) : v.toJson.dumps.toList = v.text := by
  cases v with
  | null => decide
  | bool b => cases b <;> decide
  | str s => exact quote_toList s

theorem selfDelimiting_scalar : SelfDelimiting Scalar.text := by
  intro v w x y h
  rcases v with _ | (_ | _) | s <;> rcases w with _ | (_ | _) | t
  all_goals first
    | exact ⟨rfl, append_cancel_left h⟩
    | exact absurd (List.cons.inj h).1 (by decide)
    | have hquote : (quote s).toList ++ x = (quote t).toList ++ y := by
        rw [quote_toList, quote_toList]
        exact h
      obtain ⟨rfl, hxy⟩ := selfDelimiting_quote hquote
      exact ⟨rfl, hxy⟩

/-! ### Dictionaries -/

/-- The text of one entry. -/
def entry (f : String × Scalar) : List Char := (quote f.1).toList ++ ([':'] ++ f.2.text)

theorem selfDelimiting_entry : SelfDelimiting entry :=
  selfDelimiting_quote.pair selfDelimiting_scalar [':']

theorem stops_entry {stop : Char} (h : stop ≠ '"') : Stops entry stop := by
  intro f x y heq
  rw [entry, quote_toList] at heq
  exact h (List.cons.inj heq).1.symm

/-- A flat dictionary as JSON. -/
def ofScalars (d : List (String × Scalar)) : Json := .obj (d.map fun f => (f.1, f.2.toJson))

/-- Its entries in the order in which they are printed. -/
def printed (d : List (String × Scalar)) : List (String × Scalar) :=
  d.insertionSort fun a b => ¬ b.1 < a.1

theorem dumpsFields_map (d : List (String × Scalar)) :
    dumpsFields (d.map fun f => (f.1, f.2.toJson)) = d.map fun f => (f.1, f.2.toJson.dumps) := by
  induction d with
  | nil => rfl
  | cons f d ih => rw [map_cons, map_cons, ← ih, dumpsFields]

theorem dumps_ofScalars (d : List (String × Scalar)) :
    (ofScalars d).dumps.toList =
      '\x7b' :: ([','].intercalate ((printed d).map entry) ++ '\x7d' :: []) := by
  have hsort : sortFields (d.map fun f => (f.1, f.2.toJson.dumps)) =
      (printed d).map fun f => (f.1, f.2.toJson.dumps) :=
    (map_insertionSort _ _ (fun f : String × Scalar => (f.1, f.2.toJson.dumps)) d
      fun _ _ _ _ => Iff.rfl).symm
  have hentry : ∀ f : String × Scalar,
      (quote f.1 ++ ":" ++ f.2.toJson.dumps).toList = entry f := by
    intro f
    rw [String.toList_append, String.toList_append, Scalar.dumps_toJson, entry, append_assoc]
    rfl
  rw [ofScalars, dumps, dumpsFields_map, hsort, map_map, String.toList_append,
    String.toList_append, String.toList_intercalate, map_map]
  have hmap : (printed d).map (String.toList ∘ ((fun f => quote f.1 ++ ":" ++ f.2) ∘
      fun f : String × Scalar => (f.1, f.2.toJson.dumps))) = (printed d).map entry :=
    map_congr_left fun f _ => hentry f
  rw [hmap]
  rfl

/-- **Dictionaries with the same keys and the same JSON text are equal.** -/
theorem dumps_scalars_inj {d d' : List (String × Scalar)} (hkeys : d.map Prod.fst = d'.map Prod.fst)
    (hnodup : (d.map Prod.fst).Nodup) (h : (ofScalars d).dumps = (ofScalars d').dumps) :
    d = d' := by
  have htext := congrArg String.toList h
  rw [dumps_ofScalars, dumps_ofScalars] at htext
  have hprinted := (selfDelimiting_entry.intercalate_stop (stops_entry (by decide)) (by decide)
    (List.cons.inj htext).2).1
  refine eq_of_perm_of_keys ?_ hkeys hnodup
  calc d.Perm (printed d) := (perm_insertionSort _ _).symm
    _ = printed d' := hprinted
    _ |>.Perm d' := perm_insertionSort _ _

end AfterFlow.Json
