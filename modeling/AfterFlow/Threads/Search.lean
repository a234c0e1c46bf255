import AfterFlow.Threads.JsonMatch
import Mathlib.Data.List.Sort
import Mathlib.Data.Prod.Lex
import Mathlib.Data.String.Basic

/-!
# Searching threads

`ThreadMetaRepository.search` compiles the owner, the status and the metadata filter to one
statement, and lets the database order the rows by their last update. `MemoryThreadMetaStore.search`
hands one dictionary to the store of LangGraph, which compares it with the fields of a record
itself, and takes the records in the order in which the store has them. So it looks for a metadata
key among the fields of the record, and not in its metadata.

A database is what it binds, the statement that it runs for a search and how it compares a stored
value with a filter. The statement need not be the one that the search wrote: an engine keeps the
statements that it has compiled under a key with the values of the filter in it, and `True`, `1` and
`1.0` are one key for Python. So the statement of an earlier search with an equal key is run, with
the values that it was compiled for. Which statements an engine still has is left open. Equality of
JSON values is put beside SQLite and PostgreSQL as one more database, to compare them with.

## Main results

* `searches_agree` — the searches agree exactly if nothing raises, no thread is a stray and the
  threads that are found are stored latest first
-/

namespace AfterFlow.Threads

open List Option

variable {T : Type*}

/-- A row, and the record of the store in memory. -/
structure Thread (T : Type*) where
  threadId : String
  assistantId : Option String
  userId : Option String
  displayName : Option String
  status : String
  metadata : Metadata
  createdAt : T
  updatedAt : T

/-- The threads, in the order in which the store in memory has them. -/
structure Table (T : Type*) where
  rows : List (Thread T)
  nodup : (rows.map Thread.threadId).Nodup

/-- The arguments of a search but for the page, with the resolved user. -/
structure Query where
  metadata : List (String × FilterValue)
  nodup : (metadata.map Prod.fst).Nodup
  status : Option String
  user : Option String

namespace Query

variable (q : Query)

/-- `if status`. -/
def statusFilter : Option String := q.status.filter (· ≠ "")

/-- The validators accept the filter. -/
def Valid : Prop :=
  ∀ e ∈ q.metadata, validateMetadataFilterKey e.1 = true ∧ validateMetadataFilterValue e.2 = true

/-- The entries that are not skipped. -/
def applied : List (String × FilterValue) :=
  q.metadata.filter fun e => validateMetadataFilterKey e.1 && validateMetadataFilterValue e.2

/-- The texts that are bound. -/
def texts : List String :=
  (q.applied.filterMap fun e => match e.2 with
    | .str s => some s
    | _ => none) ++ q.statusFilter.toList ++ q.user.toList

/-- The thread has the status and the owner that are asked for. -/
def asks (t : Thread T) : Bool :=
  q.user.all (fun u => t.userId = some u) && q.statusFilter.all (fun s => t.status = s)

theorem valid_of_mem_applied {e : String × FilterValue} (he : e ∈ q.applied) :
    validateMetadataFilterKey e.1 = true ∧ validateMetadataFilterValue e.2 = true := by
  simpa using of_mem_filter he

theorem applied_eq (hvalid : q.Valid) : q.applied = q.metadata :=
  filter_eq_self.2 fun e he => by simp [hvalid e he]

end Query

/-! ### Statements -/

/-- What a number of Python is worth. -/
def FilterValue.number : FilterValue → Option ℚ
  | .bool b => some (if b then 1 else 0)
  | .int n => some n
  | .float (.finite x) => some x.1
  | _ => Option.none

/-- `==` of Python: numbers are equal across their types. -/
def FilterValue.pyEq (a b : FilterValue) : Bool :=
  match a.number, b.number with
  | some x, some y => x = y
  | _, _ => a = b

/-- A statement with the values of the filter. The owner and the status are bound anew whenever it
is run. -/
structure Statement where
  byUser : Bool
  byStatus : Bool
  filter : List (String × FilterValue)
  valid : ∀ e ∈ filter, validateMetadataFilterKey e.1 = true ∧ validateMetadataFilterValue e.2 = true

/-- The statement that the search writes. -/
def Query.statement (q : Query) : Statement where
  byUser := q.user.isSome
  byStatus := q.statusFilter.isSome
  filter := q.applied
  valid := fun _ => q.valid_of_mem_applied

/-- The cache keys of the statements are equal: the value of a `JsonMatch` is in the key. -/
def Statement.sameKey (a b : Statement) : Bool :=
  a.byUser == b.byUser && a.byStatus == b.byStatus && a.filter.length == b.filter.length &&
    (a.filter.zip b.filter).all fun (e, e') => e.1 = e'.1 && e.2.pyEq e'.2

/-- The statements that an engine has compiled and still has. -/
abbrev StatementCache := List Statement

/-- The statement that is run for a search. -/
def StatementCache.compiled (cache : StatementCache) (q : Query) : Statement :=
  (cache.find? fun st => st.sameKey q.statement).getD q.statement

/-- The statement that is run has a filter just if the search has one. -/
theorem StatementCache.compiled_eq_nil_iff (cache : StatementCache) (q : Query) :
    (cache.compiled q).filter = [] ↔ q.applied = [] := by
  rw [StatementCache.compiled]
  cases hfind : cache.find? fun st => st.sameKey q.statement with
  | none => rfl
  | some st =>
    have hsame := find?_some hfind
    simp only [Statement.sameKey, Bool.and_eq_true, beq_iff_eq] at hsame
    have hlength : st.filter.length = q.applied.length := hsame.1.2
    rw [Option.getD_some, ← length_eq_zero_iff, hlength, length_eq_zero_iff]

/-! ### The SQL store -/

inductive SearchError where
  | invalidMetadataFilter (message : String)
  | database

/-- `ORDER BY updated_at DESC, thread_id DESC`. -/
def LatestFirst [LE T] [LT T] (a b : Thread T) : Prop :=
  toLex (b.updatedAt, b.threadId) ≤ toLex (a.updatedAt, a.threadId)

section Order

variable [LinearOrder T]

instance : DecidableRel (LatestFirst (T := T)) := fun a b =>
  inferInstanceAs (Decidable (toLex (b.updatedAt, b.threadId) ≤ toLex (a.updatedAt, a.threadId)))

instance : Std.Total (LatestFirst (T := T)) := ⟨fun _ _ => le_total _ _⟩

instance : IsTrans (Thread T) LatestFirst := ⟨fun _ _ _ hab hbc => le_trans hbc hab⟩

end Order

/-- `LIMIT` and `OFFSET`. -/
def page {α : Type*} (limit offset : ℕ) (l : List α) : List α := (l.drop offset).take limit

/-- What a database does with a statement. -/
structure Database where
  /-- The text can be bound. -/
  binds : String → Bool
  /-- The statement that is run for a search. -/
  statement : Query → Statement
  /-- The condition on one key, or `none` if it may raise. -/
  jsonMatch : Metadata → String → FilterValue → Option Bool

namespace Database

variable (db : Database) (q : Query)

/-- The condition of the statement. Any of its operands may be evaluated, whatever the others
are. -/
def selects (t : Thread T) : Option Bool :=
  let filter := (db.statement q).filter
  if filter.all fun e => (db.jsonMatch t.metadata e.1 e.2).isSome then
    some (q.asks t && filter.all fun e => db.jsonMatch t.metadata e.1 e.2 = some true)
  else none

/-- `ThreadMetaRepository.search`. -/
def search [LinearOrder T] (table : Table T) (limit offset : ℕ) :
    Except SearchError (List (Thread T)) :=
  if !q.metadata.isEmpty && q.applied.isEmpty then
    let rejectedKeys := ", ".intercalate ((q.metadata.map Prod.fst).insertionSort (· ≤ ·))
    .error (.invalidMetadataFilter s!"All metadata filter keys were rejected as unsafe: {rejectedKeys}")
  else if q.texts.all db.binds && table.rows.all fun t => (db.selects q t).isSome then
    .ok (page limit offset
      ((table.rows.filter fun t => db.selects q t = some true).insertionSort LatestFirst))
  else .error .database

end Database

/-- SQLite. -/
def sqliteDatabase (toDouble : Conversion) (cache : StatementCache) : Database where
  binds _ := true
  statement := cache.compiled
  jsonMatch metadata key value :=
    some (evalSqlite toDouble (metadata.lookup key) (buildClause sqlite value))

/-- PostgreSQL. -/
def postgres (toDouble : Conversion) (castable : String → Bool) (cache : StatementCache) :
    Database where
  binds s := !hasNul s
  statement := cache.compiled
  jsonMatch metadata key value :=
    if readRaises metadata then none
    else evalPg toDouble castable (metadata.lookup key) (buildClause pg value)

/-- A database that compares JSON values. -/
def typed : Database where
  binds _ := true
  statement := Query.statement
  jsonMatch metadata key value := some (typedEq (metadata.lookup key) value)

/-! ### The store in memory -/

/-- A field of a record, as far as it can be equal to a filter's value. -/
inductive FieldValue where
  | none
  | str (s : String)
  | dict

/-- `==` of Python. -/
@[grind =] def FieldValue.eq : FieldValue → FilterValue → Bool
  | .none, .none => true
  | .str s, .str t => s = t
  | _, _ => false

def FieldValue.ofOption : Option String → FieldValue
  | some s => .str s
  | .none => .none

/-- `record.get(key)`, with the times as texts. -/
@[grind =] def Thread.get (iso : T → String) (t : Thread T) : String → FieldValue
  | "thread_id" => .str t.threadId
  | "assistant_id" => .ofOption t.assistantId
  | "user_id" => .ofOption t.userId
  | "display_name" => .ofOption t.displayName
  | "status" => .str t.status
  | "metadata" => .dict
  | "values" => .dict
  | "created_at" => .str (iso t.createdAt)
  | "updated_at" => .str (iso t.updatedAt)
  | _ => .none

/-- `d[key] = value`. -/
def setKey (d : List (String × FilterValue)) (key : String) (value : FilterValue) :
    List (String × FilterValue) :=
  d.filter (fun e => e.1 ≠ key) ++ [(key, value)]

/-- The key, if there is something to set it to. -/
def setOption (d : List (String × FilterValue)) (key : String) (value : Option String) :
    List (String × FilterValue) :=
  match value with
  | some s => setKey d key (.str s)
  | none => d

def Query.filterDict (q : Query) : List (String × FilterValue) :=
  setOption (setOption q.metadata "status" q.statusFilter) "user_id" q.user

/-- `MemoryThreadMetaStore.search`. -/
def memorySearch (iso : T → String) (q : Query) (table : Table T) (limit offset : ℕ) :
    List (Thread T) :=
  page limit offset (table.rows.filter fun t => q.filterDict.all fun e => (t.get iso e.1).eq e.2)

/-! ### Agreement -/

variable [LinearOrder T]

/-- **Every page is the same everywhere**, with what the engines have compiled: SQLite and
PostgreSQL select what is equal, without an error, and the store in memory returns what the SQL store
returns. -/
def SearchesAgree (toDouble : Conversion) (castable : String → Bool) (iso : T → String)
    (lite pgsql : StatementCache) (q : Query) (table : Table T) : Prop :=
  ∀ limit offset,
    (sqliteDatabase toDouble lite).search q table limit offset = typed.search q table limit offset ∧
      (postgres toDouble castable pgsql).search q table limit offset =
        typed.search q table limit offset ∧
      .ok (memorySearch iso q table limit offset) =
        (sqliteDatabase toDouble lite).search q table limit offset

/-- The key is set to the status or to the owner that is asked for. -/
def Query.replaces (q : Query) (key : String) : Bool :=
  q.statusFilter.isSome && key = "status" || q.user.isSome && key = "user_id"

/-- The metadata of the thread has the values of the filter. -/
def Query.Equal (q : Query) (t : Thread T) : Prop :=
  ∀ e ∈ q.metadata, typedEq (t.metadata.lookup e.1) e.2 = true

instance (q : Query) (t : Thread T) : Decidable (q.Equal t) :=
  inferInstanceAs (Decidable (∀ _ ∈ _, _))

/-- The fields of the record itself have the values of the filter. -/
def Query.OwnFields (q : Query) (iso : T → String) (t : Thread T) : Prop :=
  ∀ e ∈ q.metadata, q.replaces e.1 = true ∨ (t.get iso e.1).eq e.2 = true

instance (q : Query) (iso : T → String) (t : Thread T) : Decidable (q.OwnFields iso t) :=
  inferInstanceAs (Decidable (∀ _ ∈ _, _))

/-- The metadata of the thread has the values of the statement, or integers that become them. -/
def Statement.Takes (toDouble : Conversion) (st : Statement) (t : Thread T) : Prop :=
  ∀ e ∈ st.filter, typedEq (t.metadata.lookup e.1) e.2 = true ∨
    Coerced toDouble (t.metadata.lookup e.1) e.2

/-- **A thread that is not everywhere what it is.** -/
inductive Stray (toDouble : Conversion) (iso : T → String) (lite pgsql : StatementCache) (q : Query)
    (t : Thread T) : Prop
  /-- It has other values, but integers that are rounded or cut off to what a statement asks for, or
  the values of a statement that was compiled for other types. -/
  | coerced (st : Statement) (hst : st = lite.compiled q ∨ st = pgsql.compiled q)
      (hother : ¬q.Equal t) (htakes : st.Takes toDouble t)
  /-- It has the values, and the statement that is run was compiled for other types. -/
  | retyped (st : Statement) (hst : st = lite.compiled q ∨ st = pgsql.compiled q)
      (hequal : q.Equal t) (htakes : ¬st.Takes toDouble t)
  /-- It has other values, but the fields of its record are called like them. -/
  | lookalike (hother : ¬q.Equal t) (hfields : q.OwnFields iso t)
  /-- It has the values in its metadata only. -/
  | hidden (hequal : q.Equal t) (hfields : ¬q.OwnFields iso t)

/-- What it takes for the searches to agree. -/
structure Uniform (toDouble : Conversion) (castable : String → Bool) (iso : T → String)
    (lite pgsql : StatementCache) (q : Query) (table : Table T) : Prop where
  /-- No text of the filter has the character NUL, -/
  texts : ∀ s ∈ q.texts, hasNul s = false
  /-- and neither has a text in an object that is read. -/
  stored : q.metadata ≠ [] → ∀ t ∈ table.rows, readRaises t.metadata = false
  /-- PostgreSQL can compare every stored value with the one of its statement. -/
  comparable : ∀ t ∈ table.rows, ∀ e ∈ (pgsql.compiled q).filter,
    Comparable toDouble castable (t.metadata.lookup e.1) e.2
  noStray : ∀ t ∈ table.rows, q.asks t = true → ¬Stray toDouble iso lite pgsql q t
  /-- Of two threads with the values, the one that is stored first was updated last. -/
  inOrder : (table.rows.filter fun t => q.asks t && q.Equal t).Pairwise LatestFirst

variable {toDouble : Conversion} {castable : String → Bool} {iso : T → String}
  {cache lite pgsql : StatementCache} {q : Query} {table : Table T} {t : Thread T}

section

omit [LinearOrder T]

theorem forall_mem_setOption {d : List (String × FilterValue)} {key : String} {value : Option String}
    {P : String × FilterValue → Prop} :
    (∀ e ∈ setOption d key value, P e) ↔
      (∀ e ∈ d, (value.isSome = true ∧ e.1 = key) ∨ P e) ∧ ∀ s, value = some s → P (key, .str s) := by
  cases value with
  | none => simp [setOption]
  | some s =>
    simp only [setOption, setKey, mem_append, mem_filter, mem_singleton, or_imp,
      forall_and, forall_eq, isSome_some, true_and, some.injEq, forall_eq']
    refine and_congr_left fun _ => forall_congr' fun e => ?_
    by_cases hkey : e.1 = key <;> simp [hkey]

/-- The store in memory compares the entries that are not replaced with the record's own fields. -/
theorem all_filterDict :
    (q.filterDict.all fun e => (t.get iso e.1).eq e.2) = true ↔
      q.asks t = true ∧ q.OwnFields iso t := by
  have hstatus (s : String) : (t.get iso "status").eq (.str s) = true ↔ t.status = s := by
    simp [Thread.get, FieldValue.eq]
  have huser (u : String) : (t.get iso "user_id").eq (.str u) = true ↔ t.userId = some u := by
    cases h : t.userId <;> simp [Thread.get, FieldValue.eq, FieldValue.ofOption, h]
  rw [List.all_eq_true, Query.filterDict, forall_mem_setOption, forall_mem_setOption]
  simp only [hstatus, huser, Query.OwnFields, Query.asks, Query.replaces, Bool.and_eq_true, Bool.or_eq_true,
    decide_eq_true_eq, Option.all_eq_true]
  constructor
  · rintro ⟨⟨hentries, hs⟩, hu⟩
    refine ⟨⟨hu, fun s h => (hs s h).resolve_left (by simp)⟩, fun e he => ?_⟩
    rcases hentries e he with h | h | h
    · exact .inl (.inl h)
    · exact .inl (.inr h)
    · exact .inr h
  · rintro ⟨⟨hu, hs⟩, hentries⟩
    refine ⟨⟨fun e he => ?_, fun s h => .inr (hs s h)⟩, hu⟩
    rcases hentries e he with (h | h) | h
    · exact .inl h
    · exact .inr (.inl h)
    · exact .inr (.inr h)

/-- **A thread is no stray** if every search takes it just for what it is. -/
theorem not_stray_iff : ¬Stray toDouble iso lite pgsql q t ↔
    (∀ st : Statement, st = lite.compiled q ∨ st = pgsql.compiled q →
      (st.Takes toDouble t ↔ q.Equal t)) ∧ (q.OwnFields iso t ↔ q.Equal t) := by
  constructor
  · intro h
    refine ⟨fun st hst => ⟨fun htakes => ?_, fun hequal => ?_⟩, fun hfields => ?_, fun hequal => ?_⟩
    · exact by_contra fun hother => h (.coerced st hst hother htakes)
    · exact by_contra fun htakes => h (.retyped st hst hequal htakes)
    · exact by_contra fun hother => h (.lookalike hother hfields)
    · exact by_contra fun hfields => h (.hidden hequal hfields)
  · rintro ⟨htakes, hfields⟩ hstray
    cases hstray with
    | coerced st hst hother h => exact hother ((htakes st hst).1 h)
    | retyped st hst hequal h => exact h ((htakes st hst).2 hequal)
    | lookalike hother h => exact hother (hfields.1 h)
    | hidden hequal h => exact h (hfields.2 hequal)

end

/-! #### What the databases select -/

section

omit [LinearOrder T]

theorem selects_isSome {db : Database} :
    (db.selects q t).isSome = true ↔
      ∀ e ∈ (db.statement q).filter, (db.jsonMatch t.metadata e.1 e.2).isSome = true := by
  simp only [Database.selects, ← List.all_eq_true]
  split <;> simp_all

theorem typed_selects (hvalid : q.Valid) (t : Thread T) :
    typed.selects q t = some (q.asks t && q.Equal t) := by
  have hall : (q.metadata.all fun e => typedEq (t.metadata.lookup e.1) e.2) = decide (q.Equal t) := by
    rw [Bool.eq_iff_iff, List.all_eq_true, decide_eq_true_iff]
    rfl
  simp [Database.selects, typed, Query.statement, q.applied_eq hvalid, hall]

theorem sqlite_selects (hexact : ∀ (n : ℤ) (x : Double), (n : ℚ) = x.1 → toDouble n = some x) :
    (sqliteDatabase toDouble cache).selects q t = some true ↔
      q.asks t = true ∧ (cache.compiled q).Takes toDouble t := by
  simp only [Database.selects, sqliteDatabase, Option.isSome_some, List.all_eq_true, implies_true,
    if_true, Option.some.injEq, Bool.and_eq_true, decide_eq_true_eq]
  exact and_congr_right fun _ =>
    forall₂_congr fun e he => evalSqlite_iff hexact ((cache.compiled q).valid e he).2

/-- PostgreSQL may raise unless every value can be read and compared. -/
theorem postgres_selects_isSome (hvalid : q.Valid) :
    ((postgres toDouble castable cache).selects q t).isSome = true ↔
      (q.metadata ≠ [] → readRaises t.metadata = false) ∧
        ∀ e ∈ (cache.compiled q).filter,
          Comparable toDouble castable (t.metadata.lookup e.1) e.2 := by
  have hmatch (e : String × FilterValue) :
      ((postgres toDouble castable cache).jsonMatch t.metadata e.1 e.2).isSome = true ↔
        readRaises t.metadata = false ∧ Comparable toDouble castable (t.metadata.lookup e.1) e.2 := by
    cases hread : readRaises t.metadata <;> simp [postgres, hread, evalPg_isSome_iff]
  have hnil : (cache.compiled q).filter = [] ↔ q.metadata = [] := by
    rw [cache.compiled_eq_nil_iff, q.applied_eq hvalid]
  rw [selects_isSome]
  simp only [hmatch]
  constructor
  · intro h
    refine ⟨fun hne => ?_, fun e he => (h e he).2⟩
    obtain ⟨e, he⟩ := exists_mem_of_ne_nil _ (mt hnil.1 hne)
    exact (h e he).1
  · rintro ⟨hstored, hcomparable⟩ e he
    exact ⟨hstored (mt hnil.2 (ne_nil_of_mem he)), hcomparable e he⟩

/-- **PostgreSQL selects what SQLite selects** with the same statement, where it can. -/
theorem postgres_selects (h : ((postgres toDouble castable cache).selects q t).isSome = true) :
    (postgres toDouble castable cache).selects q t = (sqliteDatabase toDouble cache).selects q t := by
  have hmatch : ∀ e ∈ (cache.compiled q).filter,
      (postgres toDouble castable cache).jsonMatch t.metadata e.1 e.2 =
        (sqliteDatabase toDouble cache).jsonMatch t.metadata e.1 e.2 := by
    intro e he
    have hsome := selects_isSome.1 h e he
    cases hread : readRaises t.metadata with
    | true => simp [postgres, hread] at hsome
    | false =>
      have hcomparable := evalPg_isSome_iff.1 (by simpa [postgres, hread] using hsome)
      simp [postgres, sqliteDatabase, hread, evalPg_eq_evalSqlite hcomparable]
  have hall (p : Option Bool → Bool) :
      ((cache.compiled q).filter.all fun e =>
          p ((postgres toDouble castable cache).jsonMatch t.metadata e.1 e.2)) =
        (cache.compiled q).filter.all fun e =>
          p ((sqliteDatabase toDouble cache).jsonMatch t.metadata e.1 e.2) := by
    rw [Bool.eq_iff_iff, List.all_eq_true, List.all_eq_true]
    exact forall₂_congr fun e he => by rw [hmatch e he]
  have hpg : (postgres toDouble castable cache).statement q = cache.compiled q := rfl
  have hlite : (sqliteDatabase toDouble cache).statement q = cache.compiled q := rfl
  rw [Database.selects, Database.selects, hpg, hlite, hall Option.isSome, hall fun o => o = some true]

end

/-! #### Pages -/

theorem search_of_isSome (db : Database) (hvalid : q.Valid) (htexts : q.texts.all db.binds = true)
    (hrows : ∀ t ∈ table.rows, (db.selects q t).isSome = true) (limit offset : ℕ) :
    db.search q table limit offset = .ok (page limit offset
      ((table.rows.filter fun t => db.selects q t = some true).insertionSort LatestFirst)) := by
  have hskip : (!q.metadata.isEmpty && q.applied.isEmpty) = false := by
    rw [q.applied_eq hvalid]
    exact Bool.not_and_self _
  simp only [Database.search, hskip, htexts, all_eq_true.2 hrows, Bool.and_true, if_true,
    Bool.false_eq_true, if_false]

theorem search_ok (db : Database) (hvalid : q.Valid) {limit offset : ℕ} {l : List (Thread T)}
    (h : db.search q table limit offset = .ok l) :
    q.texts.all db.binds = true ∧ ∀ t ∈ table.rows, (db.selects q t).isSome = true := by
  simp only [Database.search, q.applied_eq hvalid, Bool.not_and_self, Bool.false_eq_true,
    if_false] at h
  split at h
  · rename_i hok
    simpa using hok
  · cases h

theorem typed_search (hvalid : q.Valid) (limit offset : ℕ) :
    typed.search q table limit offset = .ok (page limit offset
      ((table.rows.filter fun t => q.asks t && q.Equal t).insertionSort LatestFirst)) := by
  rw [search_of_isSome typed hvalid (by simp [typed]) fun t _ => by rw [typed_selects hvalid]; rfl]
  simp only [typed_selects hvalid, some.injEq, Bool.decide_eq_true]

theorem sqlite_search (hvalid : q.Valid) (limit offset : ℕ) :
    (sqliteDatabase toDouble cache).search q table limit offset = .ok (page limit offset
      ((table.rows.filter fun t => (sqliteDatabase toDouble cache).selects q t = some true).insertionSort
        LatestFirst)) :=
  search_of_isSome _ hvalid (by simp [sqliteDatabase])
    (fun t _ => by simp [Database.selects, sqliteDatabase]) limit offset

theorem eq_of_page {α : Type*} {l m : List α} (h : ∀ limit offset, page limit offset l = page limit offset m) :
    l = m := by
  have hpage := h (max l.length m.length) 0
  simpa [page, take_of_length_le] using hpage

/-! ### The searches -/

/-- The searches agree where nothing raises, no thread is a stray, and the threads that are found are
stored latest first. -/
theorem Uniform.searchesAgree (hvalid : q.Valid)
    (hexact : ∀ (n : ℤ) (x : Double), (n : ℚ) = x.1 → toDouble n = some x)
    (h : Uniform toDouble castable iso lite pgsql q table) :
    SearchesAgree toDouble castable iso lite pgsql q table := by
  have htakes : ∀ cache, cache.compiled q = lite.compiled q ∨ cache.compiled q = pgsql.compiled q →
      (table.rows.filter fun t => (sqliteDatabase toDouble cache).selects q t = some true) =
        table.rows.filter fun t => q.asks t && q.Equal t := by
    intro cache hcache
    refine filter_congr fun t ht => Bool.eq_iff_iff.2 ?_
    rw [decide_eq_true_iff, sqlite_selects hexact, Bool.and_eq_true, decide_eq_true_iff]
    exact and_congr_right fun hasks => (not_stray_iff.1 (h.noStray t ht hasks)).1 _ hcache
  have hsome : ∀ t ∈ table.rows, ((postgres toDouble castable pgsql).selects q t).isSome = true :=
    fun t ht => (postgres_selects_isSome hvalid).2 ⟨fun hne => h.stored hne t ht, h.comparable t ht⟩
  have hmemory : (table.rows.filter fun t => q.filterDict.all fun e => (t.get iso e.1).eq e.2) =
      table.rows.filter fun t => q.asks t && q.Equal t := by
    refine filter_congr fun t ht => Bool.eq_iff_iff.2 ?_
    rw [all_filterDict, Bool.and_eq_true, decide_eq_true_iff]
    exact and_congr_right fun hasks => (not_stray_iff.1 (h.noStray t ht hasks)).2
  have hsqlite (limit offset : ℕ) : (sqliteDatabase toDouble lite).search q table limit offset =
      typed.search q table limit offset := by
    rw [sqlite_search hvalid, typed_search hvalid, htakes lite (.inl rfl)]
  intro limit offset
  refine ⟨hsqlite limit offset, ?_, ?_⟩
  · have hselects : (table.rows.filter fun t =>
          (postgres toDouble castable pgsql).selects q t = some true) =
        table.rows.filter fun t => (sqliteDatabase toDouble pgsql).selects q t = some true :=
      filter_congr fun t ht => by rw [postgres_selects (hsome t ht)]
    rw [typed_search hvalid, ← htakes pgsql (.inr rfl), ← hselects]
    exact search_of_isSome _ hvalid (by simpa [postgres] using h.texts) hsome limit offset
  · rw [hsqlite, typed_search hvalid, h.inOrder.insertionSort_eq, memorySearch, hmemory]

/-- **Where the searches agree, nothing raises**, no thread is a stray, and the threads that are
found are stored latest first. -/
theorem SearchesAgree.uniform (hvalid : q.Valid)
    (hexact : ∀ (n : ℤ) (x : Double), (n : ℚ) = x.1 → toDouble n = some x)
    (h : SearchesAgree toDouble castable iso lite pgsql q table) :
    Uniform toDouble castable iso lite pgsql q table := by
  have hpostgres := search_ok (postgres toDouble castable pgsql) hvalid
    ((h 0 0).2.1.trans (typed_search hvalid 0 0))
  have hread := fun t ht => (postgres_selects_isSome hvalid).1 (hpostgres.2 t ht)
  -- what the threads have in common with the ones that are equal, for each of the searches
  have hlite : (table.rows.filter fun t =>
      (sqliteDatabase toDouble lite).selects q t = some true).insertionSort LatestFirst =
        (table.rows.filter fun t => q.asks t && q.Equal t).insertionSort LatestFirst :=
    eq_of_page fun limit offset => by
      simpa [sqlite_search hvalid, typed_search hvalid] using (h limit offset).1
  have hpg : (table.rows.filter fun t =>
      (postgres toDouble castable pgsql).selects q t = some true).insertionSort LatestFirst =
        (table.rows.filter fun t => q.asks t && q.Equal t).insertionSort LatestFirst :=
    eq_of_page fun limit offset => by
      have := (h limit offset).2.1
      simpa [search_of_isSome _ hvalid hpostgres.1 hpostgres.2, typed_search hvalid] using this
  have hmemory : (table.rows.filter fun t => q.filterDict.all fun e => (t.get iso e.1).eq e.2) =
      (table.rows.filter fun t => q.asks t && q.Equal t).insertionSort LatestFirst :=
    eq_of_page fun limit offset => by
      have := (h limit offset).2.2.trans (h limit offset).1
      simpa [typed_search hvalid, memorySearch] using this
  have htakes : ∀ t ∈ table.rows, q.asks t = true → ∀ st : Statement,
      st = lite.compiled q ∨ st = pgsql.compiled q → (st.Takes toDouble t ↔ q.Equal t) := by
    rintro t ht hasks st (rfl | rfl)
    · have hmem := congrArg (t ∈ ·) hlite
      simpa [ht, hasks, sqlite_selects hexact] using hmem
    · have hmem := congrArg (t ∈ ·) hpg
      simpa [ht, hasks, postgres_selects (hpostgres.2 t ht), sqlite_selects hexact] using hmem
  have hfields : ∀ t ∈ table.rows, q.asks t = true → (q.OwnFields iso t ↔ q.Equal t) := by
    intro t ht hasks
    have hmem := congrArg (t ∈ ·) hmemory
    simpa only [mem_filter, mem_insertionSort, ht, true_and, all_filterDict, hasks,
      Bool.true_and, decide_eq_true_eq, eq_iff_iff] using hmem
  refine ⟨?_, fun hne t ht => (hread t ht).1 hne, fun t ht => (hread t ht).2,
    fun t ht hasks => not_stray_iff.2 ⟨htakes t ht hasks, hfields t ht hasks⟩, ?_⟩
  · simpa [postgres] using hpostgres.1
  · have hfilter : (table.rows.filter fun t => q.filterDict.all fun e => (t.get iso e.1).eq e.2) =
        table.rows.filter fun t => q.asks t && q.Equal t := by
      refine filter_congr fun t ht => Bool.eq_iff_iff.2 ?_
      rw [all_filterDict, Bool.and_eq_true, decide_eq_true_iff]
      exact and_congr_right fun hasks => hfields t ht hasks
    rw [hfilter] at hmemory
    rw [hmemory]
    exact pairwise_insertionSort _ _

/-- **A search means the same on every backend exactly when** no text has the character NUL,
PostgreSQL can compare every stored value with that of its statement, no thread that is asked for is
a stray, and the threads with the values are stored latest first: whatever the engines have compiled
before. -/
theorem searches_agree (hvalid : q.Valid)
    (hexact : ∀ (n : ℤ) (x : Double), (n : ℚ) = x.1 → toDouble n = some x) :
    SearchesAgree toDouble castable iso lite pgsql q table ↔
      Uniform toDouble castable iso lite pgsql q table :=
  ⟨SearchesAgree.uniform hvalid hexact, Uniform.searchesAgree hvalid hexact⟩

open Classical in
/-- Integers that are doubles, converted. -/
noncomputable def exactDouble : Conversion := fun n => if h : IsDouble n then some ⟨n, h⟩ else none

theorem exactDouble_eq (n : ℤ) (x : Double) (h : (n : ℚ) = x.1) : exactDouble n = some x := by
  have hx : IsDouble n := h ▸ x.2
  rw [exactDouble, dif_pos hx]
  exact congrArg some (@Subtype.ext ℚ IsDouble ⟨n, hx⟩ x h)

/-- A thread of one owner, for a demonstration. -/
def demoThread (threadId status : String) (metadata : Metadata) (updatedAt : ℕ) : Thread ℕ where
  threadId := threadId
  assistantId := none
  userId := some "ada"
  displayName := none
  status := status
  metadata := metadata
  createdAt := 0
  updatedAt := updatedAt

def demoTable : Table ℕ where
  rows := [demoThread "b" "idle" [("status", .str "idle"), ("rank", .int 7)] 2,
    demoThread "a" "busy" [("status", .str "busy")] 1]
  nodup := by decide

def demoQuery : Query where
  metadata := [("status", .str "idle")]
  nodup := by decide
  status := none
  user := some "ada"

theorem mem_compiled_demoQuery {e : String × FilterValue}
    (he : e ∈ (StatementCache.compiled [] demoQuery).filter) : e = ("status", .str "idle") := by
  have hfilter : (StatementCache.compiled [] demoQuery).filter = [("status", .str "idle")] := by
    decide +kernel
  rwa [hfilter, mem_singleton] at he

theorem searches_agree_demo :
    SearchesAgree exactDouble (fun _ => false) (fun n : ℕ => toString n) [] [] demoQuery
      demoTable := by
  refine (searches_agree (by unfold Query.Valid; decide +kernel) exactDouble_eq).2
    ⟨by decide +kernel, by decide +kernel, ?_, ?_, by decide +kernel⟩
  · intro t _ e he
    obtain rfl := mem_compiled_demoQuery he
    trivial
  · intro t ht hasks
    refine not_stray_iff.2 ⟨?_, ?_⟩
    · rintro st (rfl | rfl) <;>
        exact forall₂_congr fun e he => or_iff_left fun hcoerced => by
          obtain rfl := mem_compiled_demoQuery he
          exact hcoerced
    · revert t
      decide +kernel

/-- The metadata of the one thread is what is asked for, and its record has no field of that
name. -/
def envTable : Table ℕ where
  rows := [demoThread "a" "idle" [("env", .str "prod")] 1]
  nodup := by decide

def envQuery : Query where
  metadata := [("env", .str "prod")]
  nodup := by decide
  status := none
  user := some "ada"

theorem metadata_not_searched :
    envQuery.Valid ∧
      ¬SearchesAgree exactDouble (fun _ => false) (fun n : ℕ => toString n) [] [] envQuery
        envTable := by
  refine ⟨by unfold Query.Valid; decide +kernel, fun h => ?_⟩
  have hlength := congrArg (fun r => match r with
    | .ok l => l.length
    | .error _ => 0) ((h 1 0).2.2.trans (h 1 0).1)
  exact absurd hlength (by decide +kernel)

/-- A filter for one key, called "on". -/
def flagQuery (value : FilterValue) : Query where
  metadata := [("on", value)]
  nodup := nodup_singleton _
  status := none
  user := some "ada"

def flagTable : Table ℕ where
  rows := [demoThread "a" "idle" [("on", .bool true)] 1]
  nodup := by decide

/-- The statement for `true` is run for `1`, and selects the thread that has `true`. -/
theorem compiled_for_bool :
    (flagQuery (.int 1)).Valid ∧
      ¬SearchesAgree exactDouble (fun _ => false) (fun n : ℕ => toString n)
        [(flagQuery (.bool true)).statement] [] (flagQuery (.int 1)) flagTable := by
  refine ⟨by unfold Query.Valid; decide +kernel, fun h => ?_⟩
  have hlength := congrArg (fun r => match r with
    | .ok l => l.length
    | .error _ => 0) (h 1 0).1
  exact absurd hlength (by decide +kernel)

end AfterFlow.Threads
