import Mathlib.Data.Rat.Floor

/-!
# Filters on JSON columns

`JsonMatch` compiles `column[key] == value` to a clause for SQLite or for PostgreSQL: a check of the
JSON type and a comparison of what is extracted. SQLite never raises, but it reads an integer beyond
64 bits as a double and casts it to the nearest integer that it has. PostgreSQL raises when a text
is cast to a number it does not stand for, or to one that is out of range, and it may evaluate the
operands of an AND in any order, so that a type check before a cast does not protect it.

Conversions to doubles are the databases' own. All that is relied on is that an integer that is a
double is converted to that double.

## Main results

* `evalPg_isSome_iff`, `evalPg_eq_evalSqlite` — PostgreSQL selects what SQLite selects, where it can
  compare
* `evalSqlite_iff` — SQLite selects what is equal, and integers that it takes for the value
-/

namespace AfterFlow.Threads

open Option

/-! ### Values -/

/-- A number that is a finite double. -/
def IsDouble (x : ℚ) : Prop :=
  ∃ m e : ℤ, |m| < 2 ^ 53 ∧ -1074 ≤ e ∧ e ≤ 971 ∧ x = m * (2 : ℚ) ^ e

/-- A finite double, by its value. -/
def Double : Type := { x : ℚ // IsDouble x }

instance : DecidableEq Double := inferInstanceAs (DecidableEq { x : ℚ // IsDouble x })

/-- A `float` of Python. -/
inductive Float' where
  | finite (x : Double)
  | infinity (negative : Bool)
  | nan
  deriving DecidableEq

/-- A stored JSON value. -/
inductive Value where
  | null
  | bool (b : Bool)
  | int (n : ℤ)
  | float (x : Double)
  | str (s : String)
  /-- An array or an object, with its text and whether a string in it has the character NUL. -/
  | other (isArray : Bool) (text : String) (nul : Bool)
  deriving DecidableEq

/-- A stored JSON object. -/
abbrev Metadata := List (String × Value)

/-- A value that a filter may have. -/
inductive FilterValue where
  | none
  | bool (b : Bool)
  | int (n : ℤ)
  | float (x : Float')
  | str (s : String)
  deriving DecidableEq

def int64Min : ℤ := -2 ^ 63

def int64Max : ℤ := 2 ^ 63 - 1

def inInt64 (n : ℤ) : Bool := int64Min ≤ n && n ≤ int64Max

/-- `[A-Za-z0-9_\-]`. -/
def isKeyChar (c : Char) : Bool :=
  ('a' ≤ c && c ≤ 'z') || ('A' ≤ c && c ≤ 'Z') || ('0' ≤ c && c ≤ '9') || c == '_' || c == '-'

/-- `validate_metadata_filter_key`. The `$` of the pattern is also before a newline at the end. -/
def validateMetadataFilterKey (key : String) : Bool :=
  let rest := key.toList.dropWhile isKeyChar
  !(key.toList.takeWhile isKeyChar).isEmpty && (rest.isEmpty || rest == ['\n'])

/-- `validate_metadata_filter_value`. -/
def validateMetadataFilterValue : FilterValue → Bool
  | .int n => inInt64 n
  | _ => true

/-! ### Clauses -/

/-- A value that is bound for a comparison of numbers. -/
inductive Bound where
  | int (n : ℤ)
  | float (x : Float')

/-- The SQL of a filter, for the type and the extracted value of one key. -/
inductive Clause where
  | typeIn (types : List String)
  | textEq (s : String)
  /-- `CAST(extract AS type) = value`. -/
  | castEq (type : String) (value : Bound)
  | and (a b : Clause)
  /-- `CASE WHEN types AND extract ~ '^-?[0-9]+$' THEN CAST(extract AS type) END = value`. -/
  | guardedCastEq (types : List String) (type : String) (value : Bound)

/-- `_Dialect`. -/
structure Dialect where
  nullType : String
  numTypes : List String
  numCast : String
  intTypes : List String
  intCast : String
  intGuard : Bool
  stringType : String
  boolType : Option String

def sqlite : Dialect where
  nullType := "null"
  numTypes := ["integer", "real"]
  numCast := "REAL"
  intTypes := ["integer"]
  intCast := "INTEGER"
  intGuard := false
  stringType := "text"
  boolType := none

def pg : Dialect where
  nullType := "null"
  numTypes := ["number"]
  numCast := "DOUBLE PRECISION"
  intTypes := ["number"]
  intCast := "BIGINT"
  intGuard := true
  stringType := "string"
  boolType := some "boolean"

def boolText (b : Bool) : String := if b then "true" else "false"

/-- `_build_clause`. -/
@[grind =] def buildClause (dialect : Dialect) : FilterValue → Clause
  | .none => .typeIn [dialect.nullType]
  | .bool b =>
    match dialect.boolType with
    | .none => .typeIn [boolText b]
    | some type => .and (.typeIn [type]) (.textEq (boolText b))
  | .int n =>
    if dialect.intGuard then .guardedCastEq dialect.intTypes dialect.intCast (.int n)
    else .and (.typeIn dialect.intTypes) (.castEq dialect.intCast (.int n))
  | .float x => .and (.typeIn dialect.numTypes) (.castEq dialect.numCast (.float x))
  | .str s => .and (.typeIn [dialect.stringType]) (.textEq s)

/-- Whether a number with this value is the bound one. -/
@[grind =] def Bound.isFloat : Bound → Float' → Bool
  | .float (.finite x), .finite y => x = y
  | .float (.infinity a), .infinity b => a = b
  | _, _ => false

def Bound.isInt : Bound → ℤ → Bool
  | .int m, n => m = n
  | _, _ => false

/-! ### SQLite -/

/-- An integer as a double, where it is not too large for one. -/
abbrev Conversion := ℤ → Option Double

variable (toDouble : Conversion)

/-- An integer read as a double, beyond the range as an infinity. -/
def asFloat (n : ℤ) : Float' :=
  match toDouble n with
  | some x => .finite x
  | none => .infinity (n < 0)

/-- `json_type`. -/
@[grind =] def sqliteJsonType : Value → String
  | .null => "null"
  | .bool b => boolText b
  | .int _ => "integer"
  | .float _ => "real"
  | .str _ => "text"
  | .other isArray _ _ => if isArray then "array" else "object"

/-- A real, cast to an integer: towards zero, and to the nearest that there is. -/
def castReal : Float' → ℤ
  | .finite x => max int64Min (min int64Max (if 0 ≤ x.1 then ⌊x.1⌋ else ⌈x.1⌉))
  | .infinity negative => if negative then int64Min else int64Max
  | .nan => 0

/-- `CAST(json_extract(...) AS type) = value` for a number. Others do not get past the type
check. -/
@[grind =] def sqliteCastEq (type : String) (value : Bound) : Value → Bool
  | .int n =>
    if type = "INTEGER" then value.isInt (if inInt64 n then n else castReal (asFloat toDouble n))
    else value.isFloat (asFloat toDouble n)
  | .float x => if type = "INTEGER" then value.isInt (castReal (.finite x)) else value.isFloat (.finite x)
  | _ => false

/-- Whether SQLite takes the clause for true, at the value of the key if it is there. -/
@[grind =] def evalSqlite (v : Option Value) : Clause → Bool
  | .typeIn types => v.any fun v => types.contains (sqliteJsonType v)
  | .textEq s => v.any fun
    | .str t | .other _ t _ => t = s
    | _ => false
  | .castEq type value => v.any (sqliteCastEq toDouble type value)
  | .and a b => evalSqlite v a && evalSqlite v b
  | .guardedCastEq _ _ _ => false

/-! ### PostgreSQL -/

/-- `json_typeof`. -/
def pgJsonTypeof : Value → String
  | .null => "null"
  | .bool _ => "boolean"
  | .int _ | .float _ => "number"
  | .str _ => "string"
  | .other isArray _ _ => if isArray then "array" else "object"

def hasNul (s : String) : Bool := s.toList.contains (Char.ofNat 0)

/-- `->` and `->>` read the whole object, and raise at a string with the character NUL, which no
text of PostgreSQL can have. -/
def readRaises (metadata : Metadata) : Bool :=
  metadata.any fun (key, v) => hasNul key || match v with
    | .str s => hasNul s
    | .other _ _ nul => nul
    | _ => false

/-- What `->>` gives is the text. The text of a number with a point or an exponent is not looked at:
no clause compares it. -/
@[grind =] def pgTextIs (s : String) : Value → Bool
  | .bool b => boolText b = s
  | .int n => toString n = s
  | .str t | .other _ t _ => t = s
  | _ => false

variable (castable : String → Bool)

/-- `CAST(col ->> key AS DOUBLE PRECISION) = value`, where it does not raise. A text that can be
cast is no matter, since the type is checked as well. -/
@[grind =] def pgCastDoubleEq (value : Bound) : Option Value → Option Bool
  | none | some .null => some false
  | some (.int n) => (toDouble n).map fun x => value.isFloat (.finite x)
  | some (.float x) => some (value.isFloat (.finite x))
  | some (.str s) => if castable s then some false else none
  | some (.bool _) | some (.other _ _ _) => none

/-- `CAST(col ->> key AS BIGINT) = value` after the guard. -/
def pgCastBigintEq (value : Bound) : Option Value → Option Bool
  | some (.int n) => if inInt64 n then some (value.isInt n) else none
  | _ => some false

/-- Whether PostgreSQL takes the clause for true, if it does not raise. The operands of an AND may
be evaluated in any order. -/
def evalPg (v : Option Value) : Clause → Option Bool
  | .typeIn types => some (v.any fun v => types.contains (pgJsonTypeof v))
  | .textEq s => some (v.any (pgTextIs s))
  | .castEq _ value => pgCastDoubleEq toDouble castable value v
  | .and a b => (evalPg v a).bind fun x => (evalPg v b).map fun y => x && y
  | .guardedCastEq types _ value =>
    -- a number whose text is digits: Python writes a float with a point or an exponent
    if v.any fun v => types.contains (pgJsonTypeof v) then pgCastBigintEq value v else some false

/-! ### Equality -/

/-- Equality of JSON values that tells types apart. A float is equal to any number with its
value. -/
@[grind =] def typedEq (v : Option Value) : FilterValue → Bool
  | .none => v = some .null
  | .bool b => v = some (.bool b)
  | .int n => v = some (.int n)
  | .float (.finite x) => v.any fun
    | .int n => (n : ℚ) = x.1
    | .float y => y = x
    | _ => false
  | .float _ => false
  | .str s => v = some (.str s)

/-- PostgreSQL can compare the value with the filter. -/
@[grind =] def Comparable (v : Option Value) : FilterValue → Prop
  | .int _ => ∀ n, v = some (.int n) → inInt64 n = true
  | .float _ =>
    match v with
    | some (.int n) => (toDouble n).isSome = true
    | some (.str s) => castable s = true
    | some (.bool _) | some (.other _ _ _) => False
    | _ => True
  | _ => True

/-- The value is an integer that becomes the filter's value: beyond 64 bits the nearest integer that
there is, or a double. -/
@[grind =] def Coerced (v : Option Value) : FilterValue → Prop
  | .int n => ∃ m, v = some (.int m) ∧ inInt64 m = false ∧ castReal (asFloat toDouble m) = n
  | .float x => ∃ m, v = some (.int m) ∧ asFloat toDouble m = x
  | _ => False

/-! ### Agreement -/

variable {toDouble castable} {v : Option Value} {f : FilterValue}

attribute [local simp] pgJsonTypeof pgCastDoubleEq sqliteJsonType sqliteCastEq

theorem evalPg_isSome_iff :
    (evalPg toDouble castable v (buildClause pg f)).isSome = true ↔ Comparable toDouble castable v f := by
  cases f with
  | int n =>
    simp only [buildClause, pg, evalPg, if_true, Comparable]
    rcases v with _ | v
    · simp
    · cases v with
      | int m => cases hin : inInt64 m <;> simp [pgCastBigintEq, hin]
      | _ => simp [pgCastBigintEq]
  | float x =>
    simp only [buildClause, pg, evalPg, bind_some, isSome_map, Comparable]
    rcases v with _ | v
    · simp
    · cases v with
      | str s => by_cases hcast : castable s = true <;> simp [hcast]
      | _ => simp
  | _ => simp [buildClause, pg, evalPg, Comparable]

/-- **Where PostgreSQL does not raise, it selects what SQLite selects.** -/
theorem evalPg_eq_evalSqlite (h : Comparable toDouble castable v f) :
    evalPg toDouble castable v (buildClause pg f) =
      some (evalSqlite toDouble v (buildClause sqlite f)) := by
  cases f with
  | none =>
    rcases v with _ | v
    · simp [buildClause, evalPg, evalSqlite]
    · cases v with
      | bool b => cases b <;> simp [buildClause, evalPg, evalSqlite, pg, sqlite, boolText]
      | _ => simp [buildClause, evalPg, evalSqlite, pg, sqlite]
  | bool b =>
    simp only [buildClause, pg, sqlite, evalPg, evalSqlite, bind_some, map_some]
    rcases v with _ | v
    · simp
    · cases v with
      | other isArray text nul => cases isArray <;> cases b <;>
          simp [boolText]
      | bool a => cases a <;> cases b <;> simp [pgTextIs, boolText]
      | _ => cases b <;> simp [boolText]
  | int n =>
    simp only [buildClause, pg, sqlite, evalPg, evalSqlite, if_true, Bool.false_eq_true, if_false]
    rcases v with _ | v
    · simp
    · cases v with
      | int m => simp [pgCastBigintEq, h m rfl]
      | bool b => cases b <;> simp [boolText]
      | other isArray text nul => cases isArray <;> simp
      | _ => simp [pgCastBigintEq]
  | float x =>
    simp only [buildClause, pg, sqlite, evalPg, evalSqlite, bind_some]
    rcases v with _ | v
    · simp
    · cases v with
      | int m =>
        obtain ⟨y, hy⟩ := isSome_iff_exists.1 h
        simp [asFloat, hy]
      | str s =>
        have hcast : castable s = true := h
        simp [hcast]
      | bool | other => exact h.elim
      | _ => simp
  | str s =>
    simp only [buildClause, pg, sqlite, evalPg, evalSqlite, bind_some, map_some]
    rcases v with _ | v
    · simp
    · cases v with
      | bool b => cases b <;> simp [boolText]
      | other isArray text nul => cases isArray <;> simp
      | _ => simp [pgTextIs]

theorem isFloat_asFloat {m : ℤ} {x : Float'} :
    (Bound.float x).isFloat (asFloat toDouble m) = true ↔ asFloat toDouble m = x := by
  rw [asFloat]
  cases toDouble m <;> cases x <;> simp [Bound.isFloat, eq_comm]

attribute [local simp] buildClause evalSqlite sqlite sqliteJsonType typedEq Coerced boolText

/-- **SQLite selects what is equal and what becomes equal.** -/
theorem evalSqlite_iff (hexact : ∀ (n : ℤ) (x : Double), (n : ℚ) = x.1 → toDouble n = some x)
    (hf : validateMetadataFilterValue f = true) :
    evalSqlite toDouble v (buildClause sqlite f) = true ↔
      typedEq v f = true ∨ Coerced toDouble v f := by
  cases f with
  | none =>
    rcases v with _ | v
    · simp
    · cases v with
      | bool b => cases b <;> simp
      | other isArray text nul => cases isArray <;> simp
      | _ => simp
  | bool b =>
    rcases v with _ | v
    · simp
    · cases v with
      | bool a => cases a <;> cases b <;> simp
      | other isArray text nul => cases isArray <;> cases b <;> simp
      | _ => cases b <;> simp
  | int n =>
    have hn : inInt64 n = true := hf
    rcases v with _ | v
    · simp
    · cases v with
      | int m =>
        cases hm : inInt64 m with
        | true =>
          have hkept : ¬Coerced toDouble (some (.int m)) (.int n) := by
            rintro ⟨m', hm', hout, -⟩
            cases hm'
            rw [hm] at hout
            cases hout
          rw [or_iff_left hkept]
          simp only [buildClause, sqlite, evalSqlite, Bool.false_eq_true, if_false, any_some,
            sqliteJsonType, sqliteCastEq, hm, if_true, Bound.isInt]
          simp [eq_comm]
        | false =>
          have hne : typedEq (some (.int m)) (.int n) = false := by
            rw [typedEq, decide_eq_false_iff_not]
            rintro h
            cases h
            rw [hm] at hn
            cases hn
          have hcut : evalSqlite toDouble (some (.int m)) (buildClause sqlite (.int n)) = true ↔
              castReal (asFloat toDouble m) = n := by
            simp only [buildClause, sqlite, evalSqlite, Bool.false_eq_true, if_false, any_some,
              sqliteJsonType, sqliteCastEq, hm, if_true, Bound.isInt]
            simp [eq_comm]
          rw [hcut, hne]
          constructor
          · exact fun h => .inr ⟨m, rfl, hm, h⟩
          · rintro (h | ⟨m', hm', -, h⟩)
            · cases h
            · cases hm'
              exact h
      | bool a => cases a <;> simp
      | other isArray text nul => cases isArray <;> simp
      | _ => simp
  | float x =>
    rcases v with _ | v
    · cases x <;> simp
    · cases v with
      | int m =>
        -- an integer that is equal to a double is converted to it
        have hequal : typedEq (some (.int m)) (.float x) = true → asFloat toDouble m = x := by
          intro h
          cases x with
          | finite x => simp [asFloat, hexact m x (by simpa using h)]
          | _ => simp at h
        have hselected : evalSqlite toDouble (some (.int m)) (buildClause sqlite (.float x)) = true ↔
            asFloat toDouble m = x := by
          simp [isFloat_asFloat]
        rw [hselected]
        constructor
        · exact fun h => .inr ⟨m, rfl, h⟩
        · rintro (h | ⟨n, hn, h⟩)
          · exact hequal h
          · cases hn
            exact h
      | float y =>
        cases x <;> simp [Bound.isFloat, eq_comm]
      | bool a => cases a <;> cases x <;> simp
      | other isArray text nul => cases isArray <;> cases x <;> simp
      | _ => cases x <;> simp
  | str s =>
    rcases v with _ | v
    · simp
    · cases v with
      | bool a => cases a <;> simp
      | other isArray text nul => cases isArray <;> simp
      | _ => simp

end AfterFlow.Threads
