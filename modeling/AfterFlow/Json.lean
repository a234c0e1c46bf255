import Mathlib.Data.List.Sort

/-!
# JSON text

The text `json.dumps(value, ensure_ascii=False, sort_keys=True, separators=(",", ":"))` gives a
JSON value. Payload hashes and audit hashes are taken of such texts. A float is kept as the text
Python prints for it.
-/

namespace AfterFlow

/-- A JSON value; an object is the list of its fields in the order they were inserted. -/
inductive Json where
  | null
  | bool (b : Bool)
  | int (n : ℤ)
  | float (text : String)
  | str (s : String)
  | arr (items : List Json)
  | obj (fields : List (String × Json))

namespace Json

private def hexDigit (n : ℕ) : Char := if n < 10 then Char.ofNat (48 + n) else Char.ofNat (87 + n)

/-- The escapes of `json.encoder` with `ensure_ascii=False`. -/
def escapeChar (c : Char) : List Char :=
  if c = '"' then ['\\', '"']
  else if c = '\\' then ['\\', '\\']
  else if c = '\n' then ['\\', 'n']
  else if c = '\r' then ['\\', 'r']
  else if c = '\t' then ['\\', 't']
  else if c.toNat = 8 then ['\\', 'b']
  else if c.toNat = 12 then ['\\', 'f']
  else if c.toNat < 32 then ['\\', 'u', '0', '0', hexDigit (c.toNat / 16), hexDigit (c.toNat % 16)]
  else [c]

theorem escapeChar_self {c : Char} (hcontrol : 32 ≤ c.toNat) (hquote : c ≠ '"') (hslash : c ≠ '\\') :
    escapeChar c = [c] := by
  have hne : ∀ d : Char, d.toNat < 32 → c ≠ d := fun d hd h => absurd (h ▸ hd) (not_lt.mpr hcontrol)
  simp [escapeChar, hquote, hslash, not_lt.mpr hcontrol, hne '\n' (by decide), hne '\r' (by decide),
    hne '\t' (by decide), show c.toNat ≠ 8 by omega, show c.toNat ≠ 12 by omega]

def quote (s : String) : String := "\"" ++ String.ofList (s.toList.flatMap escapeChar) ++ "\""

/-- Fields by key, the order `sort_keys=True` prints them in. -/
def sortFields (l : List (String × String)) : List (String × String) :=
  l.insertionSort fun a b => ¬ b.1 < a.1

mutual

/-- `json.dumps` with sorted keys and no blanks. -/
@[grind =] def dumps : Json → String
  | .null => "null"
  | .bool b => if b then "true" else "false"
  | .int n => toString n
  | .float text => text
  | .str s => quote s
  | .arr items => "[" ++ ",".intercalate (dumpsItems items) ++ "]"
  | .obj fields => "\x7b" ++ ",".intercalate
      ((sortFields (dumpsFields fields)).map fun f => quote f.1 ++ ":" ++ f.2) ++ "\x7d"

def dumpsItems : List Json → List String
  | [] => []
  | x :: xs => dumps x :: dumpsItems xs

def dumpsFields : List (String × Json) → List (String × String)
  | [] => []
  | (k, x) :: xs => (k, dumps x) :: dumpsFields xs

end

end Json

end AfterFlow
