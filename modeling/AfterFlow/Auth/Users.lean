import AfterFlow.MockData
import Mathlib.Data.List.Nodup

/-!
# Users and their passwords

`auth/password.py`, the repository of users and the check of a session token. A hash says which
version it was made by; the current one hashes the password with SHA-256 first, so that all of it
counts.

bcrypt is a parameter. What is relied on is that it tells two hashed passwords apart.
-/

namespace AfterFlow.Auth

open List

/-! ### Hashes -/

/-- The package `bcrypt`, and the base64 of a SHA-256 digest. -/
structure Bcrypt where
  /-- `base64.b64encode(hashlib.sha256(password.encode("utf-8")).digest())`. -/
  preHash : String → String
  /-- `bcrypt.hashpw`, with the salt that `bcrypt.gensalt` gave. -/
  hashpw : String → String → String
  /-- `bcrypt.checkpw`, which raises `ValueError` on a malformed hash. -/
  checkpw : String → String → Option Bool

/-- SHA-256 has no collisions, and bcrypt tells the digests apart, which are shorter than 72
bytes. -/
structure Bcrypt.Reliable (b : Bcrypt) : Prop where
  injective : Function.Injective b.preHash
  checkpw (p q salt : String)
    (h : b.checkpw (b.preHash p) (b.hashpw (b.preHash q) salt) = some true) :
    b.preHash p = b.preHash q

/-- `_PREFIX_V2`. -/
def prefixV2 : List Char := "$dfv2$".toList

/-- `_PREFIX_V1`. -/
def prefixV1 : List Char := "$dfv1$".toList

variable (b : Bcrypt)

def hashPassword (salt password : String) : String :=
  String.ofList (prefixV2 ++ (b.hashpw (b.preHash password) salt).toList)

def verifyPassword (plainPassword hashedPassword : String) : Bool :=
  if prefixV2 <+: hashedPassword.toList then
    (b.checkpw (b.preHash plainPassword)
      (String.ofList (hashedPassword.toList.drop prefixV2.length))).getD false
  else
    let bcryptHash := if prefixV1 <+: hashedPassword.toList then
      String.ofList (hashedPassword.toList.drop prefixV1.length) else hashedPassword
    (b.checkpw plainPassword bcryptHash).getD false

def needsRehash (hashedPassword : String) : Bool := ¬ prefixV2 <+: hashedPassword.toList

variable {b}

/-- **A current hash accepts one password only.** -/
theorem verifyPassword_hashPassword (hb : b.Reliable) {p q salt : String}
    (h : verifyPassword b p (hashPassword b salt q) = true) : p = q := by
  rw [verifyPassword, hashPassword, String.toList_ofList, if_pos (prefix_append _ _),
    drop_left, String.ofList_toList, Option.getD_eq_iff] at h
  rcases h with h | ⟨-, h⟩
  · exact hb.injective (hb.checkpw p q salt h)
  · cases h

/-! ### The table -/

structure User where
  id : String
  email : String
  passwordHash : Option String
  systemRole : SystemRole
  oauthProvider : Option String
  oauthId : Option String
  needsSetup : Bool
  tokenVersion : ℤ
  deriving DecidableEq

variable {users users' : List User} {u user : User} {id email : String}

def getUserById (users : List User) (id : String) : Option User := users.find? fun u => u.id = id

def getUserByEmail (users : List User) (email : String) : Option User :=
  users.find? fun u => u.email = email

/-- Two rows that may not both be there. -/
def User.clashes (u v : User) : Bool :=
  u.id ≠ v.id && (u.email = v.email ||
    u.oauthProvider.isSome && u.oauthId.isSome &&
      (u.oauthProvider = v.oauthProvider && u.oauthId = v.oauthId))

/-- `update_user`: every column is written. It fails if the row is gone or breaks a unique index. -/
def updateUser (user : User) (users : List User) : Option (List User) :=
  if (getUserById users user.id).isNone || users.any user.clashes then none
  else some (users.map fun u => if u.id = user.id then user else u)

theorem getUserById_some (h : getUserById users id = some u) : u ∈ users ∧ u.id = id :=
  ⟨mem_of_find?_eq_some h, by simpa using find?_some h⟩

theorem getUserByEmail_some (h : getUserByEmail users email = some u) :
    u ∈ users ∧ u.email = email :=
  ⟨mem_of_find?_eq_some h, by simpa using find?_some h⟩

theorem updateUser_some (h : updateUser user users = some users') :
    users' = users.map fun u => if u.id = user.id then user else u := by
  rw [updateUser] at h
  split at h
  · cases h
  · exact (Option.some.inj h).symm

theorem mem_updateUser (h : updateUser user users = some users') (hu : u ∈ users') :
    u = user ∨ u ∈ users ∧ u.id ≠ user.id := by
  rw [updateUser_some h, mem_map] at hu
  obtain ⟨v, hv, heq⟩ := hu
  split at heq
  · exact .inl heq.symm
  · exact .inr ⟨heq ▸ hv, heq ▸ ‹_›⟩

/-! ### Session tokens -/

/-- What a session token says, once it is decoded. -/
structure TokenPayload where
  sub : String
  ver : ℤ
  deriving DecidableEq

/-- `get_current_user_from_request` with a token that can be decoded: the user, if the token is not
refused with 401. -/
def getCurrentUser (users : List User) (payload : TokenPayload) : Option User :=
  match getUserById users payload.sub with
  | none => none
  | some user => if user.tokenVersion ≠ payload.ver then none else some user

theorem getCurrentUser_some {payload : TokenPayload} (h : getCurrentUser users payload = some u) :
    u ∈ users ∧ u.id = payload.sub ∧ u.tokenVersion = payload.ver := by
  rw [getCurrentUser] at h
  split at h
  · cases h
  · rename_i v hv
    split at h
    · cases h
    · obtain rfl := Option.some.inj h
      exact ⟨(getUserById_some hv).1, (getUserById_some hv).2, not_not.mp ‹_›⟩

end AfterFlow.Auth
