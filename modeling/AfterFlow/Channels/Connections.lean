import AfterFlow.Transition.Runs
import Mathlib.Data.List.Nodup

/-!
# Channel connections and their credentials

A connection ties a user to an external identity: an account in a workspace of a provider. Only one
user at a time may hold an identity. A claim, `upsert_connection` with the status `connected`, takes
it away from whoever has it, and an index on the rows that are not revoked sees to it that there are
no two.

A connection that is revoked loses its credentials, in every transaction that revokes it but one:
`upsert_connection` also takes `revoked` for a status, and leaves the credentials where they are.
And `store_credentials` does not look at the connection at all.

## Main results

* `World.Owned.step`, `World.Cleared.step` — what each transaction keeps
* `connections_sound` — one owner for an identity, and no credentials left behind
* `credentials_left` — credentials that are stored after the connection was revoked
-/

namespace AfterFlow.Channels.Connections

open Transition List Function

/-- The columns of a connection that no lookup goes by. -/
structure Details (M : Type) where
  externalAccountName : Option String
  workspaceName : Option String
  botUserId : Option String
  scopes : List String
  capabilities : M
  metadata : M
  deriving DecidableEq

/-- `ChannelConnectionRow`. -/
structure ConnectionRow (M : Type) where
  id : String
  ownerUserId : String
  provider : String
  status : String
  externalAccountId : String
  workspaceId : String
  details : Details M
  deriving DecidableEq

/-- `ChannelCredentialRow`, with the texts as they are encrypted. -/
structure CredentialRow (T : Type) where
  connectionId : String
  accessToken : Option String
  refreshToken : Option String
  tokenType : Option String
  expiresAt : Option T
  refreshExpiresAt : Option T
  extra : String
  version : ℕ
  deriving DecidableEq

/-- An account in a workspace of a provider. -/
structure Identity where
  provider : String
  externalAccountId : String
  workspaceId : String
  deriving DecidableEq

variable {T M I : Type}

def ConnectionRow.identity (r : ConnectionRow M) : Identity :=
  ⟨r.provider, r.externalAccountId, r.workspaceId⟩

def ConnectionRow.isActive (r : ConnectionRow M) : Bool := r.status ≠ "revoked"

/-- The primary key, `uq_channel_connection_owner_provider_identity` and
`uq_channel_connection_active_identity`. -/
structure Constraints (rows : List (ConnectionRow M)) : Prop where
  ids : (rows.map ConnectionRow.id).Nodup
  owners : (rows.map fun r => (r.ownerUserId, r.identity)).Nodup
  active : ((rows.filter ConnectionRow.isActive).map ConnectionRow.identity).Nodup

instance (rows : List (ConnectionRow M)) : Decidable (Constraints rows) :=
  decidable_of_iff ((rows.map ConnectionRow.id).Nodup ∧
      (rows.map fun r => (r.ownerUserId, r.identity)).Nodup ∧
      ((rows.filter ConnectionRow.isActive).map ConnectionRow.identity).Nodup)
    ⟨fun ⟨h₁, h₂, h₃⟩ => ⟨h₁, h₂, h₃⟩, fun h => ⟨h.ids, h.owners, h.active⟩⟩

/-- The two tables. -/
structure Tables (T M : Type) where
  rows : List (ConnectionRow M)
  credentials : List (CredentialRow T)

/-- `_normalize_optional_identity`. -/
def normalizeOptionalIdentity (value : Option String) : String := value.getD ""

/-- The arguments of `upsert_connection`. -/
structure Claim (M : Type) where
  ownerUserId : String
  provider : String
  externalAccountId : Option String
  workspaceId : Option String
  details : Details M
  status : String

def Claim.identity (c : Claim M) : Identity :=
  ⟨c.provider, normalizeOptionalIdentity c.externalAccountId, normalizeOptionalIdentity c.workspaceId⟩

/-- The arguments of `store_credentials`, as they are encrypted. -/
structure Secrets (T : Type) where
  accessToken : Option String
  refreshToken : Option String
  tokenType : Option String
  expiresAt : Option T
  refreshExpiresAt : Option T
  extra : String

inductive Call (T M : Type) where
  | upsert (claim : Claim M)
  | disconnect (connectionId ownerUserId : String)
  | disconnectProvider (provider : String)
  | store (connectionId : String) (secrets : Secrets T)

/-! ### The transactions -/

def ConnectionRow.revoke (r : ConnectionRow M) : ConnectionRow M := { r with status := "revoked" }

/-- Connections with these ids are revoked and their credentials deleted. -/
def Tables.revoke (t : Tables T M) (ids : List String) : Tables T M where
  rows := t.rows.map fun r => if r.id ∈ ids then r.revoke else r
  credentials := t.credentials.filter fun c => c.connectionId ∉ ids

/-- The active connections that other users have to the identity. -/
def Claim.Rival (c : Claim M) (r : ConnectionRow M) : Bool :=
  r.identity = c.identity && r.ownerUserId ≠ c.ownerUserId && r.isActive

/-- `_revoke_other_active_owners`. -/
def revokeOtherActiveOwners (c : Claim M) (t : Tables T M) : Tables T M :=
  if c.status ≠ "connected" then t
  else t.revoke ((t.rows.filter c.Rival).map ConnectionRow.id)

/-- The user's own connection to the identity. -/
def Claim.Own (c : Claim M) (r : ConnectionRow M) : Bool :=
  r.ownerUserId = c.ownerUserId && r.identity = c.identity

/-- `_apply`. -/
def Claim.apply (c : Claim M) (r : ConnectionRow M) : ConnectionRow M :=
  { r with status := c.status, details := c.details }

/-- The row of a new connection. -/
def Claim.newRow (c : Claim M) (id : String) : ConnectionRow M :=
  ⟨id, c.ownerUserId, c.provider, c.status, normalizeOptionalIdentity c.externalAccountId,
    normalizeOptionalIdentity c.workspaceId, c.details⟩

/-- One attempt of `upsert_connection`: the connection and the tables, unless the commit raises an
`IntegrityError`. -/
def upsertConnection (c : Claim M) (newId : String) (t : Tables T M) :
    Option (ConnectionRow M × Tables T M) :=
  let revoked := revokeOtherActiveOwners c t
  let (row, rows) := match t.rows.find? c.Own with
    | none => (c.newRow newId, revoked.rows ++ [c.newRow newId])
    | some r => (c.apply r, revoked.rows.map fun e => if e.id = r.id then c.apply e else e)
  if Constraints rows then some (row, { revoked with rows := rows }) else none

/-- `disconnect_connection`. -/
def disconnectConnection (connectionId ownerUserId : String) (t : Tables T M) : Bool × Tables T M :=
  match t.rows.find? fun r => r.id = connectionId with
  | none => (false, t)
  | some r => if r.ownerUserId ≠ ownerUserId then (false, t) else (true, t.revoke [connectionId])

/-- `disconnect_provider_connections`. -/
def disconnectProviderConnections (provider : String) (t : Tables T M) : ℕ × Tables T M :=
  let ids := (t.rows.filter fun r => r.provider = provider && r.isActive).map ConnectionRow.id
  (ids.length, t.revoke ids)

/-- `store_credentials`. The connection has to be there, since `connection_id` is a foreign key. -/
def storeCredentials (connectionId : String) (s : Secrets T) (t : Tables T M) :
    Option (Tables T M) :=
  if connectionId ∈ t.rows.map ConnectionRow.id then
    let version := (t.credentials.find? fun c => c.connectionId = connectionId).elim 0
      CredentialRow.version
    let row : CredentialRow T := ⟨connectionId, s.accessToken, s.refreshToken, s.tokenType,
      s.expiresAt, s.refreshExpiresAt, s.extra, version + 1⟩
    some { t with
      credentials := (t.credentials.filter fun c => c.connectionId ≠ connectionId) ++ [row] }
  else none

/-! ### Calls that take turns -/

inductive Result (M : Type) where
  | connection (row : ConnectionRow M)
  | disconnected (ok : Bool)
  | revoked (count : ℕ)
  | stored
  | failed

inductive Stage (M : Type) where
  /-- So many attempts have failed. -/
  | attempts (n : ℕ)
  | done (result : Result M)

/-- `_UPSERT_MAX_ATTEMPTS`. -/
def upsertMaxAttempts : ℕ := 3

structure World (T M I : Type) where
  tables : Tables T M
  stage : I → Stage M
  /-- The connection that the last successful claim of an identity returned. -/
  lastClaim : Identity → Option String
  /-- The connections that were revoked and have not been connected since. -/
  barred : String → Bool

inductive Act (I : Type) where
  /-- The next transaction of the call, with an id for a new row. -/
  | transact (i : I) (newId : String)
  /-- The call raises, or is cancelled, before it has committed. -/
  | fail (i : I)

variable [DecidableEq I] (calls : I → Call T M)

/-- Who is barred, with these rows. -/
def barredBy (rows : List (ConnectionRow M)) (barred : String → Bool) (id : String) : Bool :=
  (rows.any fun r => r.id = id && r.status = "revoked") ||
    (barred id && !rows.any fun r => r.id = id && r.status = "connected")

def World.goTo (w : World T M I) (i : I) (stage : Stage M) : World T M I :=
  { w with stage := update w.stage i stage }

/-- A transaction is committed, and the call returns. -/
def World.commit (w : World T M I) (i : I) (t : Tables T M) (result : Result M) : World T M I :=
  { w.goTo i (.done result) with tables := t, barred := barredBy t.rows w.barred }

/-- A claim has succeeded. -/
def World.claimed (w : World T M I) (c : Claim M) (row : ConnectionRow M) : World T M I :=
  if c.status = "connected" then
    { w with lastClaim := update w.lastClaim c.identity (some row.id) }
  else w

/-- One act, if it is the call's turn to do it. -/
@[grind =] def step (w : World T M I) : Act I → Option (World T M I)
  | .transact i newId =>
    match w.stage i, calls i with
    | .attempts n, .upsert c =>
      match upsertConnection c newId w.tables with
      | some (row, t) => some ((w.claimed c row).commit i t (.connection row))
      | none =>
        if n + 1 < upsertMaxAttempts then some (w.goTo i (.attempts (n + 1)))
        else some (w.goTo i (.done .failed))
    | .attempts _, .disconnect connectionId ownerUserId =>
      let (ok, t) := disconnectConnection connectionId ownerUserId w.tables
      some (w.commit i t (.disconnected ok))
    | .attempts _, .disconnectProvider provider =>
      let (count, t) := disconnectProviderConnections provider w.tables
      some (w.commit i t (.revoked count))
    | .attempts _, .store connectionId secrets =>
      match storeCredentials connectionId secrets w.tables with
      | some t => some (w.commit i t .stored)
      | none => some (w.goTo i (.done .failed))
    | .done _, _ => none
  | .fail i =>
    match w.stage i with
    | .attempts _ => some (w.goTo i (.done .failed))
    | .done _ => none

/-- No connections. -/
def World.start : World T M I :=
  ⟨⟨[], []⟩, fun _ => .attempts 0, fun _ => none, fun _ => false⟩

/-- Credentials are not stored for a connection that was revoked and has not been connected since,
and a connection that has some is not revoked by `upsert_connection`. -/
def Orderly (w : World T M I) : Act I → Prop
  | .transact i _ =>
    match calls i with
    | .store connectionId _ => w.barred connectionId = false
    | .upsert c => c.status = "revoked" → ∀ r ∈ w.tables.rows, c.Own r = true →
      ∀ e ∈ w.tables.credentials, e.connectionId ≠ r.id
    | _ => True
  | .fail _ => True

/-- An identity has one connection at most, and it is from the last claim that was successful. -/
structure World.OneOwner (w : World T M I) : Prop where
  single : ∀ r ∈ w.tables.rows, ∀ r' ∈ w.tables.rows, r.status = "connected" →
    r'.status = "connected" → r.identity = r'.identity → r = r'
  latest : ∀ r ∈ w.tables.rows, r.status = "connected" → w.lastClaim r.identity = some r.id

/-- There are no credentials for a connection that is revoked, nor until it has been connected
again. -/
structure World.NoLeftovers (w : World T M I) : Prop where
  revoked : ∀ r ∈ w.tables.rows, r.status = "revoked" →
    ∀ c ∈ w.tables.credentials, c.connectionId ≠ r.id
  barred : ∀ c ∈ w.tables.credentials, w.barred c.connectionId = false

/-! ### What each transaction does -/

variable {calls} {t t' : Tables T M} {c : Claim M} {r r' row : ConnectionRow M}
  {rows : List (ConnectionRow M)} {ids : List String} {newId connectionId ownerUserId : String}
  {w w' : World T M I} {i : I}

@[simp] theorem revoke_id : r.revoke.id = r.id := rfl

@[simp] theorem revoke_status : r.revoke.status = "revoked" := rfl

theorem mem_revoke : r ∈ (t.revoke ids).rows ↔
    ∃ r₀ ∈ t.rows, (r₀.id ∉ ids ∧ r = r₀) ∨ (r₀.id ∈ ids ∧ r = r₀.revoke) := by
  simp only [Tables.revoke, mem_map]
  constructor
  · rintro ⟨r₀, hr₀, rfl⟩
    by_cases hid : r₀.id ∈ ids
    · exact ⟨r₀, hr₀, .inr ⟨hid, if_pos hid⟩⟩
    · exact ⟨r₀, hr₀, .inl ⟨hid, if_neg hid⟩⟩
  · rintro ⟨r₀, hr₀, ⟨hid, rfl⟩ | ⟨hid, rfl⟩⟩
    · exact ⟨r, hr₀, if_neg hid⟩
    · exact ⟨r₀, hr₀, if_pos hid⟩

theorem revoke_map_id : (t.revoke ids).rows.map ConnectionRow.id = t.rows.map ConnectionRow.id := by
  simp only [Tables.revoke, map_map]
  refine map_congr_left fun r _ => ?_
  simp only [comp]
  split <;> rfl

/-- A table stays within its constraints when connections are revoked. -/
theorem Constraints.revoke (h : Constraints t.rows) (ids : List String) :
    Constraints (t.revoke ids).rows where
  ids := by
    rw [revoke_map_id]
    exact h.ids
  owners := by
    have hsame : ((t.revoke ids).rows.map fun r => (r.ownerUserId, r.identity)) =
        t.rows.map fun r => (r.ownerUserId, r.identity) := by
      simp only [Tables.revoke, map_map]
      refine map_congr_left fun r _ => ?_
      simp only [comp]
      split <;> rfl
    rw [hsame]
    exact h.owners
  active := by
    have hsub : List.Sublist ((t.revoke ids).rows.filter ConnectionRow.isActive)
        (t.rows.filter ConnectionRow.isActive) := by
      simp only [Tables.revoke]
      induction t.rows with
      | nil => exact .slnil
      | cons r rows ih =>
        by_cases hid : r.id ∈ ids
        · rw [map_cons, if_pos hid, filter_cons_of_neg (by simp [ConnectionRow.isActive])]
          exact ih.trans ((sublist_cons_self _ _).filter _)
        · rw [map_cons, if_neg hid]
          by_cases hactive : r.isActive = true
          · rw [filter_cons_of_pos hactive, filter_cons_of_pos hactive]
            exact ih.cons_cons r
          · rw [filter_cons_of_neg hactive, filter_cons_of_neg hactive]
            exact ih
    exact h.active.sublist (hsub.map _)

theorem mem_revokeOtherActiveOwners (h : r ∈ (revokeOtherActiveOwners c t).rows) :
    ∃ r₀ ∈ t.rows, (r = r₀ ∧ (c.status = "connected" → c.Rival r₀ = false)) ∨
      (r = r₀.revoke ∧ (∃ r₁ ∈ t.rows, c.Rival r₁ = true ∧ r₁.id = r₀.id) ∧
        ∀ e ∈ (revokeOtherActiveOwners c t).credentials, e.connectionId ≠ r₀.id) := by
  rw [revokeOtherActiveOwners] at h ⊢
  split at h
  · rename_i hstatus
    exact ⟨r, h, .inl ⟨rfl, fun hconnected => absurd hconnected hstatus⟩⟩
  · rename_i hstatus
    rw [if_neg hstatus]
    obtain ⟨r₀, hr₀, hcases⟩ := mem_revoke.1 h
    refine ⟨r₀, hr₀, ?_⟩
    rcases hcases with ⟨hid, rfl⟩ | ⟨hid, rfl⟩
    · refine .inl ⟨rfl, fun _ => ?_⟩
      by_contra hrival
      simp only [Bool.not_eq_false] at hrival
      exact hid (mem_map.2 ⟨r, mem_filter.2 ⟨hr₀, hrival⟩, rfl⟩)
    · refine .inr ⟨rfl, ?_, ?_⟩
      · obtain ⟨r₁, hr₁, hsame⟩ := mem_map.1 hid
        exact ⟨r₁, (mem_filter.1 hr₁).1, (mem_filter.1 hr₁).2, hsame⟩
      · intro e he heid
        simp only [Tables.revoke, mem_filter, decide_eq_true_eq] at he
        exact he.2 (heid ▸ hid)

theorem credentials_revokeOtherActiveOwners {e : CredentialRow T}
    (h : e ∈ (revokeOtherActiveOwners c t).credentials) : e ∈ t.credentials := by
  rw [revokeOtherActiveOwners] at h
  split at h
  · exact h
  · exact (mem_filter.1 h).1

theorem own_iff : c.Own r = true ↔ r.ownerUserId = c.ownerUserId ∧ r.identity = c.identity := by
  simp [Claim.Own]

theorem not_rival_of_own (h : c.Own r = true) : c.Rival r = false := by
  simp [Claim.Rival, (own_iff.1 h).1]

/-- What a claim leaves: its own connection, and others that are as they were or have been
revoked. -/
structure Upserted (c : Claim M) (newId : String) (t t' : Tables T M) (row : ConnectionRow M) :
    Prop where
  constraints : Constraints t'.rows
  mem : row ∈ t'.rows
  own : c.Own row = true
  status : row.status = c.status
  origin : (∃ r ∈ t.rows, c.Own r = true ∧ row.id = r.id) ∨
    (row.id = newId ∧ newId ∉ t.rows.map ConnectionRow.id)
  others : ∀ r ∈ t'.rows, r = row ∨ (r ∈ t.rows ∧ (c.status = "connected" → c.Rival r = false)) ∨
    (r.status = "revoked" ∧ ∀ e ∈ t'.credentials, e.connectionId ≠ r.id)
  ids : ∀ id ∈ t.rows.map ConnectionRow.id, id ∈ t'.rows.map ConnectionRow.id
  credentials : ∀ e ∈ t'.credentials, e ∈ t.credentials

theorem revokeOtherActiveOwners_map_id : (revokeOtherActiveOwners c t).rows.map ConnectionRow.id =
    t.rows.map ConnectionRow.id := by
  rw [revokeOtherActiveOwners]
  split
  · rfl
  · exact revoke_map_id

/-- All that an upsert does to the table. -/
theorem upsertConnection_spec (ht : Constraints t.rows)
    (h : upsertConnection c newId t = some (row, t')) : Upserted c newId t t' row := by
  have hothers : ∀ r ∈ (revokeOtherActiveOwners c t).rows,
      (r ∈ t.rows ∧ (c.status = "connected" → c.Rival r = false)) ∨
      (r.status = "revoked" ∧
        ∀ e ∈ (revokeOtherActiveOwners c t).credentials, e.connectionId ≠ r.id) := by
    intro r hr
    obtain ⟨r₀, hr₀, ⟨rfl, hrival⟩ | ⟨rfl, -, hcredentials⟩⟩ := mem_revokeOtherActiveOwners hr
    · exact .inl ⟨hr₀, hrival⟩
    · exact .inr ⟨rfl, hcredentials⟩
  simp only [upsertConnection] at h
  cases hfind : t.rows.find? c.Own with
  | none =>
    simp only [hfind] at h
    split at h <;> cases h
    rename_i hconstraints
    refine ⟨hconstraints, by simp, by simp [Claim.Own, Claim.newRow, ConnectionRow.identity,
      Claim.identity], rfl, .inr ⟨rfl, ?_⟩, ?_, ?_,
      fun e he => credentials_revokeOtherActiveOwners he⟩
    · have hids := hconstraints.ids
      rw [map_append, revokeOtherActiveOwners_map_id, nodup_append] at hids
      exact fun hmem => hids.2.2 newId hmem newId (by simp [Claim.newRow]) rfl
    · intro r hr
      rcases mem_append.1 hr with hr | hr
      · exact .inr (hothers r hr)
      · exact .inl (mem_singleton.1 hr)
    · intro id hid
      rw [map_append, revokeOtherActiveOwners_map_id]
      exact mem_append_left _ hid
  | some r =>
    simp only [hfind] at h
    split at h <;> cases h
    rename_i hconstraints
    have hr : r ∈ t.rows := mem_of_find?_eq_some hfind
    have hown : c.Own r = true := find?_some hfind
    -- the user's own connection is not among those that are revoked
    have hsame : ∀ e ∈ (revokeOtherActiveOwners c t).rows, e.id = r.id → e = r := by
      intro e he hid
      obtain ⟨r₀, hr₀, ⟨rfl, -⟩ | ⟨rfl, ⟨r₁, hr₁, hrival, hr₁id⟩, -⟩⟩ :=
        mem_revokeOtherActiveOwners he
      · exact inj_on_of_nodup_map ht.ids hr₀ hr hid
      · have hr₁r : r₁ = r := inj_on_of_nodup_map ht.ids hr₁ hr (hr₁id.trans hid)
        rw [hr₁r, not_rival_of_own hown] at hrival
        cases hrival
    have hrid : r.id ∈ (revokeOtherActiveOwners c t).rows.map ConnectionRow.id := by
      rw [revokeOtherActiveOwners_map_id]
      exact mem_map_of_mem hr
    obtain ⟨e, he, heid⟩ := mem_map.1 hrid
    refine ⟨hconstraints, ?_, own_iff.2 (own_iff.1 hown), rfl, .inl ⟨r, hr, hown, rfl⟩, ?_, ?_,
      fun e he => credentials_revokeOtherActiveOwners he⟩
    · exact mem_map.2 ⟨e, he, by rw [if_pos heid, hsame e he heid]⟩
    · intro r' hr'
      obtain ⟨e', he', rfl⟩ := mem_map.1 hr'
      by_cases hid : e'.id = r.id
      · rw [if_pos hid, hsame e' he' hid]
        exact .inl rfl
      · rw [if_neg hid]
        exact .inr (hothers e' he')
    · intro id hid
      rw [← revokeOtherActiveOwners_map_id (c := c)] at hid
      obtain ⟨e', he', rfl⟩ := mem_map.1 hid
      refine mem_map.2 ⟨_, mem_map.2 ⟨e', he', rfl⟩, ?_⟩
      split <;> rfl

theorem disconnectConnection_cases : (disconnectConnection connectionId ownerUserId t).2 = t ∨
    (disconnectConnection connectionId ownerUserId t).2 = t.revoke [connectionId] := by
  rw [disconnectConnection]
  split
  · exact .inl rfl
  · split
    · exact .inl rfl
    · exact .inr rfl

theorem storeCredentials_spec {secrets : Secrets T}
    (h : storeCredentials connectionId secrets t = some t') :
    connectionId ∈ t.rows.map ConnectionRow.id ∧ t'.rows = t.rows ∧
      ∀ e ∈ t'.credentials, e ∈ t.credentials ∨ e.connectionId = connectionId := by
  simp only [storeCredentials] at h
  split at h <;> cases h
  rename_i hknown
  refine ⟨hknown, rfl, fun e he => ?_⟩
  rcases mem_append.1 he with he | he
  · exact .inl (mem_filter.1 he).1
  · exact .inr (by rw [mem_singleton.1 he])

/-- What one act can do. -/
theorem step_cases {a : Act I} (hstep : step calls w a = some w') :
    (∃ i stage, w' = w.goTo i stage) ∨
    (∃ i result, w' = w.commit i w.tables result) ∨
    (∃ i ids result, w' = w.commit i (w.tables.revoke ids) result) ∨
    (∃ i newId c row t', a = .transact i newId ∧ calls i = .upsert c ∧
      upsertConnection c newId w.tables = some (row, t') ∧
      w' = (w.claimed c row).commit i t' (.connection row)) ∨
    ∃ i newId connectionId secrets t', a = .transact i newId ∧
      calls i = .store connectionId secrets ∧
      storeCredentials connectionId secrets w.tables = some t' ∧ w' = w.commit i t' .stored := by
  cases a with
  | transact i newId =>
    simp only [Connections.step] at hstep
    split at hstep
    · rename_i c _ hcall
      split at hstep
      · rename_i row t' hupsert
        cases hstep
        exact .inr (.inr (.inr (.inl ⟨i, newId, c, row, t', rfl, hcall, hupsert, rfl⟩)))
      · split at hstep <;> cases hstep <;> exact .inl ⟨i, _, rfl⟩
    · cases hstep
      rename_i connectionId ownerUserId _ _
      rcases @disconnectConnection_cases _ _ w.tables connectionId
        ownerUserId with heq | heq
      · rw [heq]
        exact .inr (.inl ⟨i, _, rfl⟩)
      · rw [heq]
        exact .inr (.inr (.inl ⟨i, _, _, rfl⟩))
    · cases hstep
      exact .inr (.inr (.inl ⟨i, _, _, rfl⟩))
    · rename_i connectionId secrets _ hcall
      split at hstep
      · rename_i t' hstore
        cases hstep
        exact .inr (.inr (.inr (.inr ⟨i, newId, _, _, t', rfl, hcall, hstore, rfl⟩)))
      · cases hstep
        exact .inl ⟨i, _, rfl⟩
    · cases hstep
  | fail i =>
    simp only [Connections.step] at hstep
    split at hstep <;> cases hstep
    exact .inl ⟨i, _, rfl⟩

/-! ### One owner -/

/-- The constraints hold, and who is connected was the last to claim. -/
structure World.Owned (w : World T M I) : Prop where
  constraints : Constraints w.tables.rows
  latest : ∀ r ∈ w.tables.rows, r.status = "connected" → w.lastClaim r.identity = some r.id

omit [DecidableEq I] in
theorem World.Owned.start : (World.start : World T M I).Owned where
  constraints := ⟨nodup_nil, nodup_nil, nodup_nil⟩
  latest r hr := by cases hr

theorem World.Owned.revoke (h : w.Owned) (ids : List String) (result : Result M) :
    (w.commit i (w.tables.revoke ids) result).Owned where
  constraints := h.constraints.revoke ids
  latest r hr hconnected := by
    obtain ⟨r₀, hr₀, ⟨-, rfl⟩ | ⟨-, rfl⟩⟩ := mem_revoke.1 hr
    · exact h.latest r hr₀ hconnected
    · simp at hconnected

theorem Upserted.latest (hu : Upserted c newId t t' row) {lastClaim : Identity → Option String}
    (h : ∀ r ∈ t.rows, r.status = "connected" → lastClaim r.identity = some r.id)
    (hr : r ∈ t'.rows) (hconnected : r.status = "connected") :
    (if c.status = "connected" then update lastClaim c.identity (some row.id)
      else lastClaim) r.identity = some r.id := by
  rcases hu.others r hr with rfl | ⟨hold, hrival⟩ | ⟨hrevoked, -⟩
  · rw [if_pos (hu.status ▸ hconnected), (own_iff.1 hu.own).2, update_self]
  · split
    · rename_i hstatus
      by_cases hidentity : r.identity = c.identity
      · have howner : r.ownerUserId = c.ownerUserId := by
          simpa [Claim.Rival, hidentity, ConnectionRow.isActive, hconnected] using hrival hstatus
        have hpair : (r.ownerUserId, r.identity) = (row.ownerUserId, row.identity) := by
          rw [howner, hidentity, (own_iff.1 hu.own).1, (own_iff.1 hu.own).2]
        rw [inj_on_of_nodup_map hu.constraints.owners hr hu.mem hpair, (own_iff.1 hu.own).2,
          update_self]
      · rw [update_of_ne hidentity]
        exact h r hold hconnected
    · exact h r hold hconnected
  · simp [hrevoked] at hconnected

omit [DecidableEq I] in
theorem claimed_lastClaim (w : World T M I) (c : Claim M) (row : ConnectionRow M) :
    (w.claimed c row).lastClaim = if c.status = "connected" then
      update w.lastClaim c.identity (some row.id) else w.lastClaim := by
  rw [World.claimed]
  split <;> rfl

/-- **Whatever comes, an identity has one owner.** -/
theorem World.Owned.step {a : Act I} (h : w.Owned) (hstep : step calls w a = some w') :
    w'.Owned := by
  rcases step_cases hstep with ⟨i, stage, rfl⟩ | ⟨i, result, rfl⟩ | ⟨i, ids, result, rfl⟩ |
    ⟨i, newId, c, row, t', -, -, hupsert, rfl⟩ | ⟨i, -, connectionId, secrets, t', -, -, hstore, rfl⟩
  · exact ⟨h.constraints, h.latest⟩
  · exact ⟨h.constraints, h.latest⟩
  · exact h.revoke ids result
  · have hu := upsertConnection_spec h.constraints hupsert
    refine ⟨hu.constraints, fun r hr hconnected => ?_⟩
    simpa [World.commit, World.goTo, claimed_lastClaim] using hu.latest h.latest hr hconnected
  · have hrows := (storeCredentials_spec hstore).2.1
    refine ⟨?_, fun r hr hconnected => ?_⟩
    · simpa [World.commit, hrows] using h.constraints
    · exact h.latest r (hrows ▸ hr) hconnected

omit [DecidableEq I] in
theorem World.Owned.oneOwner (h : w.Owned) : w.OneOwner where
  single r hr r' hr' hconnected hconnected' hidentity := by
    have hactive : ∀ e ∈ w.tables.rows, e.status = "connected" →
        e ∈ w.tables.rows.filter ConnectionRow.isActive := fun e he hstatus =>
      mem_filter.2 ⟨he, by simp [ConnectionRow.isActive, hstatus]⟩
    exact inj_on_of_nodup_map h.constraints.active (hactive r hr hconnected)
      (hactive r' hr' hconnected') hidentity
  latest := h.latest

/-! ### No credentials left behind -/

/-- Credentials are for connections that are there and not barred. -/
structure World.Cleared (w : World T M I) : Prop where
  known : ∀ e ∈ w.tables.credentials, e.connectionId ∈ w.tables.rows.map ConnectionRow.id
  barred : ∀ r ∈ w.tables.rows, r.status = "revoked" → w.barred r.id = true
  cleared : ∀ e ∈ w.tables.credentials, w.barred e.connectionId = false

omit [DecidableEq I] in
theorem World.Cleared.start : (World.start : World T M I).Cleared where
  known e he := by cases he
  barred r hr := by cases hr
  cleared e he := by cases he

/-- A transaction after which no connection with credentials is revoked. -/
theorem cleared_commit (result : Result M)
    (hknown : ∀ e ∈ t.credentials, e.connectionId ∈ t.rows.map ConnectionRow.id)
    (hold : ∀ e ∈ t.credentials, w.barred e.connectionId = false)
    (hrevoked : ∀ e ∈ t.credentials, ∀ r ∈ t.rows, r.status = "revoked" → e.connectionId ≠ r.id) :
    (w.commit i t result).Cleared where
  known := hknown
  barred r hr hstatus := by
    simp only [World.commit, barredBy, Bool.or_eq_true, any_eq_true]
    exact .inl ⟨r, hr, by simp [hstatus]⟩
  cleared e he := by
    have hnone : (t.rows.any fun r => r.id = e.connectionId && r.status = "revoked") = false := by
      rw [any_eq_false]
      intro r hr
      simp only [Bool.and_eq_true, decide_eq_true_eq, not_and]
      exact fun hid hstatus => hrevoked e he r hr hstatus hid.symm
    simp only [World.commit, barredBy]
    rw [hnone, hold e he]
    rfl

omit [DecidableEq I] in
theorem World.Cleared.not_revoked (h : w.Cleared) {e : CredentialRow T}
    (he : e ∈ w.tables.credentials) (hr : r ∈ w.tables.rows) (hstatus : r.status = "revoked") :
    e.connectionId ≠ r.id := by
  intro hid
  have hbarred := h.barred r hr hstatus
  rw [← hid, h.cleared e he] at hbarred
  cases hbarred

theorem World.Cleared.revoke (h : w.Cleared) (ids : List String) (result : Result M) :
    (w.commit i (w.tables.revoke ids) result).Cleared := by
  have hcred : ∀ e ∈ (w.tables.revoke ids).credentials,
      e ∈ w.tables.credentials ∧ e.connectionId ∉ ids := fun e he => by
    simpa [Tables.revoke] using he
  refine cleared_commit result ?_ (fun e he => h.cleared e (hcred e he).1) ?_
  · intro e he
    rw [revoke_map_id]
    exact h.known e (hcred e he).1
  · intro e he r hr hstatus
    obtain ⟨r₀, hr₀, ⟨-, rfl⟩ | ⟨hid, rfl⟩⟩ := mem_revoke.1 hr
    · exact h.not_revoked (hcred e he).1 hr₀ hstatus
    · exact fun heq => (hcred e he).2 (heq ▸ hid)

/-- A claim leaves no credentials behind, if it does not revoke a connection that has some. -/
theorem World.Cleared.upsert (h : w.Cleared) (hu : Upserted c newId w.tables t' row)
    (horderly : c.status = "revoked" → ∀ r ∈ w.tables.rows, c.Own r = true →
      ∀ e ∈ w.tables.credentials, e.connectionId ≠ r.id) (result : Result M) :
    ((w.claimed c row).commit i t' result).Cleared := by
  have hbarred : (w.claimed c row).barred = w.barred := by
    rw [World.claimed]
    split <;> rfl
  refine cleared_commit result (fun e he => hu.ids _ (h.known e (hu.credentials e he))) ?_ ?_
  · intro e he
    rw [hbarred]
    exact h.cleared e (hu.credentials e he)
  · intro e he r hr hstatus
    rcases hu.others r hr with rfl | ⟨hold, -⟩ | ⟨-, hgone⟩
    · rcases hu.origin with ⟨r₀, hr₀, hown, hid⟩ | ⟨hid, hfresh⟩
      · rw [hid]
        exact horderly (hu.status ▸ hstatus) r₀ hr₀ hown e (hu.credentials e he)
      · rw [hid]
        exact fun heq => hfresh (heq ▸ h.known e (hu.credentials e he))
    · exact h.not_revoked (hu.credentials e he) hold hstatus
    · exact hgone e he

/-- **What an orderly transaction keeps.** -/
theorem World.Cleared.step {a : Act I} (howned : w.Owned) (h : w.Cleared)
    (horderly : Orderly calls w a) (hstep : step calls w a = some w') : w'.Cleared := by
  rcases step_cases hstep with ⟨i, stage, rfl⟩ | ⟨i, result, rfl⟩ | ⟨i, ids, result, rfl⟩ |
    ⟨i, newId, c, row, t', rfl, hcall, hupsert, rfl⟩ |
    ⟨i, newId, connectionId, secrets, t', rfl, hcall, hstore, rfl⟩
  · exact ⟨h.known, h.barred, h.cleared⟩
  · exact cleared_commit result h.known h.cleared fun e he r hr => h.not_revoked he hr
  · exact h.revoke ids result
  · refine h.upsert (upsertConnection_spec howned.constraints hupsert) ?_ _
    simpa [Orderly, hcall] using horderly
  · have hallowed : w.barred connectionId = false := by simpa [Orderly, hcall] using horderly
    obtain ⟨hknown, hrows, hcases⟩ := storeCredentials_spec hstore
    refine cleared_commit _ ?_ ?_ ?_
    · intro e he
      rw [hrows]
      rcases hcases e he with he | he
      · exact h.known e he
      · exact he ▸ hknown
    · intro e he
      rcases hcases e he with he | he
      · exact h.cleared e he
      · exact he ▸ hallowed
    · intro e he r hr hstatus
      rw [hrows] at hr
      rcases hcases e he with he | he
      · exact h.not_revoked he hr hstatus
      · intro heq
        have hbarred := h.barred r hr hstatus
        rw [← heq, he, hallowed] at hbarred
        cases hbarred

omit [DecidableEq I] in
theorem World.Cleared.noLeftovers (h : w.Cleared) : w.NoLeftovers where
  revoked _ hr hstatus _ he := h.not_revoked he hr hstatus
  barred := h.cleared

/-- **An identity has one owner**, the last who claimed it, **and no credentials are left behind**
if none are stored for a barred connection and none are there when `upsert_connection` revokes
one. -/
theorem connections_sound :
    (∀ w : World T M I, Runs (step calls) (fun _ _ => True) .start w → w.OneOwner) ∧
    (∀ w : World T M I, Runs (step calls) (Orderly calls) .start w → w.NoLeftovers) := by
  constructor
  · intro w hrun
    have h : w.Owned := hrun.invariant .start fun _ _ _ h _ hstep => h.step hstep
    exact h.oneOwner
  · intro w hrun
    have h : w.Owned ∧ w.Cleared := by
      refine hrun.invariant (I := fun w => w.Owned ∧ w.Cleared) ⟨.start, .start⟩ ?_
      rintro w₁ a w₂ ⟨howned, hcleared⟩ horderly hstep
      exact ⟨howned.step hstep, hcleared.step howned horderly hstep⟩
    exact h.2.noLeftovers

/-- A claim of an account. -/
def demoClaim (ownerUserId : String) : Claim Unit :=
  ⟨ownerUserId, "slack", some "U1", none, ⟨none, none, none, [], (), ()⟩, "connected"⟩

def demoSecrets : Secrets ℕ := ⟨some "fernet:v1:token", none, none, none, none, "fernet:v1:extra"⟩

/-- Ann connects an account and Bob takes it over. -/
def demoCalls : Fin 4 → Call ℕ Unit
  | 0 => .upsert (demoClaim "ann")
  | 1 => .store "c1" demoSecrets
  | 2 => .upsert (demoClaim "bob")
  | 3 => .disconnect "c2" "bob"

instance (w : World ℕ Unit (Fin 4)) (a : Act (Fin 4)) : Decidable (Orderly demoCalls w a) := by
  simp only [Orderly]
  cases a with
  | transact i newId =>
    dsimp only
    split <;> infer_instance
  | fail i => exact .isTrue trivial

theorem connections_sound_demo : ∃ w : World ℕ Unit (Fin 4),
    runWith (step demoCalls) (Orderly demoCalls) .start
      [.transact 0 "c1", .transact 1 "", .transact 2 "c2"] = some w ∧
    w.tables.rows.map ConnectionRow.status = ["revoked", "connected"] ∧
    w.tables.credentials = [] ∧ w.OneOwner ∧ w.NoLeftovers := by
  obtain ⟨w, hw, hshows⟩ := (Option.any_eq_true _ _).1
    (by decide +kernel : (runWith (step demoCalls) (Orderly demoCalls) .start
      [.transact 0 "c1", .transact 1 "", .transact 2 "c2"]).any (fun w => decide
        (w.tables.rows.map ConnectionRow.status = ["revoked", "connected"] ∧
          w.tables.credentials = [])) = true)
  obtain ⟨hrows, hcredentials⟩ := of_decide_eq_true hshows
  have hrun := runs_of_runWith hw
  exact ⟨w, hw, hrows, hcredentials, connections_sound.1 w (hrun.mono fun _ _ _ => trivial),
    connections_sound.2 w hrun⟩

/-- **Credentials are left**: they arrive when the connection has been taken over. -/
theorem credentials_left : ¬∀ w : World ℕ Unit (Fin 4),
    Runs (step demoCalls) (fun _ _ => True) .start w → w.NoLeftovers := by
  intro hall
  obtain ⟨w, hw, hshows⟩ := (Option.any_eq_true _ _).1
    (by decide +kernel : (runWith (step demoCalls) (fun _ _ => True) .start
      [.transact 0 "c1", .transact 2 "c2", .transact 1 ""]).any (fun w => decide
        (∃ r ∈ w.tables.rows, r.status = "revoked" ∧
          ∃ e ∈ w.tables.credentials, e.connectionId = r.id)) = true)
  obtain ⟨r, hr, hstatus, e, he, hid⟩ := of_decide_eq_true hshows
  exact (hall w (runs_of_runWith hw)).revoked r hr hstatus e he hid

end AfterFlow.Channels.Connections
