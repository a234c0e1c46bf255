import AfterFlow.Auth.Users
import AfterFlow.Transition.Runs

/-!
# Password changes

`login_local`, `change_password` and `reset_admin` read a user, hash for a while and write the whole
user back. A login writes too, where the stored hash is of an older version. Nothing checks that the
row is still the one that was read, so a login can put the old password and the old token version
back, and two changes can give one version out twice.

Where a call relies on the version of the user that is stored, a change is final.

## History

The passwords that were set, the tokens that were issued and the logins that were let in are
proof-only, as is what a call remembers of the first.

## Main results

* `World.Told.step` — what each step keeps
* `changes_final` — the invariant of the runs
* `change_undone` — a login that puts the old password back
-/

namespace AfterFlow.Auth

open Transition List Function Option

/-! ### The calls -/

inductive Call where
  | loginLocal (email password : String)
  | changePassword (token : TokenPayload) (currentPassword newPassword : String)
    (newEmail : Option String)
  /-- `reset_admin`; the email is empty where none is given. -/
  | resetAdmin (email newPassword : String)

/-- How far a call is. `since` are the passwords that had been set when it read the user. -/
inductive Stage where
  | called
  /-- A reset that has found an admin. -/
  | found (id : String)
  | read (user : User) (since : List String)
  /-- A change whose new email has to be looked up. -/
  | verified (user : User) (since : List String)
  /-- About to hash and to write. -/
  | ready (user : User) (since : List String)
  | done (ok : Bool)

/-- A token, and after how many changes the user was read to whom it was given. -/
structure Issued where
  payload : TokenPayload
  basis : ℤ
  deriving DecidableEq

/-- A login that was let in, and the passwords that had been set by then. -/
structure Login where
  userId : String
  password : String
  changes : List String

structure World (I : Type) where
  users : List User
  stage : I → Stage
  /-- The passwords that changes and resets have set, the last one last. -/
  changes : String → List String
  issued : List Issued
  logins : List Login

inductive Act (I : Type) where
  /-- A reset without an email finds an admin. -/
  | find (i : I) (id : String)
  | read (i : I)
  | verify (i : I)
  /-- The new email is looked up. -/
  | lookup (i : I)
  | write (i : I) (salt : String)
  /-- What the call awaits raises. -/
  | fail (i : I)

section Steps

variable {I : Type} [DecidableEq I] (b : Bcrypt) (calls : I → Call)

def World.goTo (w : World I) (i : I) (stage : Stage) : World I :=
  { w with stage := update w.stage i stage }

/-- A token for the user is given out. -/
def World.issue (w : World I) (user : User) (basis : ℤ) : World I :=
  { w with issued := w.issued ++ [⟨⟨user.id, user.tokenVersion⟩, basis⟩] }

/-- `authenticate` has returned the user, and `login_local` gives a token out. -/
def World.letIn (w : World I) (i : I) (user : User) (since : List String) (password : String) :
    World I :=
  let w' := w.issue user since.length
  World.goTo { w' with logins := w.logins ++ [⟨user.id, password, w.changes user.id⟩] } i
    (.done true)

/-- The user that a call goes on with, if it finds one who has a password or is reset. -/
@[grind =] def Call.find (users : List User) (stage : Stage) : Call → Option User
  | .loginLocal email password =>
    if email = "" ∨ password = "" then none
    else (getUserByEmail users email).filter fun u => u.passwordHash.isSome
  | .changePassword token _ _ _ =>
    (getCurrentUser users token).filter fun u => u.passwordHash.isSome
  | .resetAdmin email _ =>
    match stage with
    | .found id => getUserById users id
    | _ => if email = "" then none else getUserByEmail users email

/-- The call goes on with the user that it has found. -/
@[grind =] def World.take (w : World I) (i : I) : Option User → World I
  | none => w.goTo i (.done false)
  | some user =>
    match calls i with
    | .resetAdmin _ _ => w.goTo i (.ready user (w.changes user.id))
    | _ => w.goTo i (.read user (w.changes user.id))

/-- The row that a change writes. -/
def changedUser (user : User) (salt newPassword : String) (newEmail : Option String) : User :=
  { user with
    passwordHash := some (hashPassword b salt newPassword)
    tokenVersion := user.tokenVersion + 1
    needsSetup := user.needsSetup && newEmail.isNone }

/-- The row that a reset writes. -/
def resetUser (user : User) (salt newPassword : String) : User :=
  { user with
    passwordHash := some (hashPassword b salt newPassword)
    tokenVersion := user.tokenVersion + 1
    needsSetup := true }

/-- The row that a login writes, whose hash was of an older version. -/
def rehashedUser (user : User) (salt password : String) : User :=
  { user with passwordHash := some (hashPassword b salt password) }

/-- The table after a change or a reset, which is noted. -/
def World.change (w : World I) (users : List User) (id newPassword : String) : World I :=
  { w with users, changes := update w.changes id (w.changes id ++ [newPassword]) }

/-- The user's password is right. -/
def User.verifies (user : User) (password : String) : Bool :=
  user.passwordHash.any (verifyPassword b password)

/-- One act of a call, if it is the call's turn to do it. -/
@[grind =] def step (w : World I) : Act I → Option (World I)
  | .find i id =>
    match calls i, w.stage i with
    | .resetAdmin "" _, .called =>
      if w.users.any fun u => u.id = id && u.systemRole = .admin then some (w.goTo i (.found id))
      else none
    | _, _ => none
  | .read i =>
    match w.stage i with
    | .called | .found _ => some (w.take calls i ((calls i).find w.users (w.stage i)))
    | _ => none
  | .verify i =>
    match calls i, w.stage i with
    | .loginLocal _ password, .read user since =>
      if user.verifies b password then
        if user.passwordHash.any needsRehash then some (w.goTo i (.ready user since))
        else some (w.letIn i user since password)
      else some (w.goTo i (.done false))
    | .changePassword _ currentPassword _ newEmail, .read user since =>
      if user.verifies b currentPassword then
        if newEmail.isSome then some (w.goTo i (.verified user since))
        else some (w.goTo i (.ready user since))
      else some (w.goTo i (.done false))
    | _, _ => none
  | .lookup i =>
    match calls i, w.stage i with
    | .changePassword _ _ _ (some newEmail), .verified user since =>
      if (getUserByEmail w.users newEmail).any fun u => u.id ≠ user.id then
        some (w.goTo i (.done false))
      else some (w.goTo i (.ready { user with email := newEmail } since))
    | _, _ => none
  | .write i salt =>
    match calls i, w.stage i with
    | .loginLocal _ password, .ready user since =>
      -- a failed rehash is logged, and the login succeeds
      match updateUser (rehashedUser b user salt password) w.users with
      | none => some (w.letIn i user since password)
      | some users => some (World.letIn { w with users } i user since password)
    | .changePassword _ _ newPassword newEmail, .ready user _ =>
      let user' := changedUser b user salt newPassword newEmail
      match updateUser user' w.users with
      | none => some (w.goTo i (.done false))
      | some users =>
        let w' := w.change users user.id newPassword
        some ((w'.issue user' (w'.changes user.id).length).goTo i (.done true))
    | .resetAdmin _ newPassword, .ready user _ =>
      match updateUser (resetUser b user salt newPassword) w.users with
      | none => some (w.goTo i (.done false))
      | some users => some ((w.change users user.id newPassword).goTo i (.done true))
    | _, _ => none
  | .fail i =>
    match calls i, w.stage i with
    | .loginLocal _ password, .ready user since => some (w.letIn i user since password)
    | _, .done _ => none
    | _, _ => some (w.goTo i (.done false))

/-- The row by which the call writes the user or lets a login in. -/
@[grind =] def World.relies (w : World I) : Act I → Option User
  | .verify i =>
    match calls i, w.stage i with
    | .loginLocal _ password, .read user _ =>
      if user.verifies b password && !user.passwordHash.any needsRehash then some user else none
    | _, _ => none
  | .write i _ =>
    match w.stage i with
    | .ready user _ => some user
    | _ => none
  | .fail i =>
    match calls i, w.stage i with
    | .loginLocal _ _, .ready user _ => some user
    | _, _ => none
  | _ => none

/-- The row is of the version that is stored. -/
def World.Current (w : World I) (user : User) : Prop :=
  ∃ u ∈ w.users, u.id = user.id ∧ u.tokenVersion = user.tokenVersion

/-- No call writes a user or lets a login in by a row of another version than the one stored. -/
def Orderly (w : World I) (a : Act I) : Prop := ∀ user ∈ w.relies b calls a, w.Current user

/-! ### A change is final -/

/-- The version that the user had at first. -/
def World.version (w₀ : World I) (id : String) : ℤ :=
  ((getUserById w₀.users id).map User.tokenVersion).getD 0

/-- The password is the last one that was set, or is right for the first hash if none was. -/
def World.InForce (w₀ : World I) (id : String) (changes : List String) (password : String) : Prop :=
  match changes.getLast? with
  | some last => password = last
  | none => (getUserById w₀.users id).any fun u => u.verifies b password

/-- Nothing has been changed yet. Older tokens go back to the changes that came before, the last of
which has the number 0. -/
structure World.Begins (w₀ : World I) : Prop where
  unique : ∀ u ∈ w₀.users, ∀ v ∈ w₀.users, u.id = v.id → u = v
  called : ∀ i, w₀.stage i = .called
  changes : ∀ id, w₀.changes id = []
  issued : ∀ t ∈ w₀.issued, t.payload.ver = w₀.version t.payload.sub + t.basis
  logins : w₀.logins = []

/-- A change is final. -/
structure Final (w₀ w : World I) : Prop where
  /-- The version grows by one with each change. -/
  version : ∀ u ∈ w.users, u.tokenVersion = w₀.version u.id + (w.changes u.id).length
  /-- A token is accepted only if it goes back to the last change. -/
  token : ∀ t ∈ w.issued, ∀ u, getCurrentUser w.users t.payload = some u →
    t.basis = (w.changes u.id).length
  /-- A login is let in only by the password that is in force then. -/
  login : ∀ l ∈ w.logins, w₀.InForce b l.userId l.changes l.password

/-! ### What each step keeps -/

variable {b calls} {w w' w₀ : World I} {i : I} {u user user' : User} {users' : List User}
  {since changes : List String} {id password : String} {call : Call}

/-- A row as it was after some changes. -/
structure User.Sound (b : Bcrypt) (w₀ : World I) (u : User) (since : List String) : Prop where
  version : u.tokenVersion = w₀.version u.id + since.length
  secret : ∀ password, u.verifies b password = true → w₀.InForce b u.id since password

/-- What is known of the row that a call has read. -/
def Stage.Told (b : Bcrypt) (w₀ w : World I) (call : Call) : Stage → Prop
  | .read user since | .verified user since =>
    user.Sound b w₀ since ∧ since <+: w.changes user.id
  | .ready user since => (user.Sound b w₀ since ∧ since <+: w.changes user.id) ∧
    ∀ email password, call = .loginLocal email password → w₀.InForce b user.id since password
  | _ => True

/-- The invariant. -/
structure World.Told (b : Bcrypt) (calls : I → Call) (w₀ w : World I) : Prop where
  rows : ∀ u ∈ w.users, u.Sound b w₀ (w.changes u.id)
  stages : ∀ i, (w.stage i).Told b w₀ w (calls i)
  issued : ∀ t ∈ w.issued, t.payload.ver = w₀.version t.payload.sub + t.basis
  logins : ∀ l ∈ w.logins, w₀.InForce b l.userId l.changes l.password

section

omit [DecidableEq I]

theorem World.Begins.told (b : Bcrypt) (calls : I → Call) (h : w₀.Begins) : w₀.Told b calls w₀ where
  rows u hu := by
    have hfind : getUserById w₀.users u.id = some u := by
      have hsome : (getUserById w₀.users u.id).isSome :=
        find?_isSome.mpr ⟨u, hu, decide_eq_true rfl⟩
      obtain ⟨v, hv⟩ := isSome_iff_exists.mp hsome
      rw [hv, h.unique v (getUserById_some hv).1 u hu (getUserById_some hv).2]
    rw [h.changes]
    refine ⟨?_, fun password hpassword => ?_⟩
    · simp [World.version, hfind]
    · simpa [World.InForce, hfind] using hpassword
  stages i := by
    rw [h.called i]
    trivial
  issued := h.issued
  logins l hl := by
    rw [h.logins] at hl
    cases hl

theorem World.Told.final (h : w₀.Told b calls w) : Final b w₀ w where
  version u hu := (h.rows u hu).version
  token t ht u hu := by
    obtain ⟨hmem, hid, hver⟩ := getCurrentUser_some hu
    have hrow := (h.rows u hmem).version
    have htoken := h.issued t ht
    rw [← hver, hrow, ← hid] at htoken
    omega
  login := h.logins

theorem Stage.Told.mono {stage : Stage} (h : stage.Told b w₀ w call)
    (hgrow : ∀ id, w.changes id <+: w'.changes id) : stage.Told b w₀ w' call := by
  cases stage with
  | read | verified => exact ⟨h.1, h.2.trans (hgrow _)⟩
  | ready user since => exact ⟨⟨h.1.1, h.1.2.trans (hgrow _)⟩, h.2⟩
  | _ => trivial

end

theorem World.Told.goTo {stage : Stage} (h : w₀.Told b calls w)
    (hstage : stage.Told b w₀ w (calls i)) :
    w₀.Told b calls (w.goTo i stage) where
  rows := h.rows
  stages j := by
    by_cases hj : j = i
    · subst hj
      have hself : (w.goTo j stage).stage j = stage := update_self ..
      rw [hself]
      exact hstage.mono fun _ => prefix_refl _
    · have hother : (w.goTo i stage).stage j = w.stage j := update_of_ne hj ..
      rw [hother]
      exact (h.stages j).mono fun _ => prefix_refl _
  issued := h.issued
  logins := h.logins

section

omit [DecidableEq I]

theorem World.Told.issue {basis : ℤ} (h : w₀.Told b calls w)
    (hversion : user.tokenVersion = w₀.version user.id + basis) :
    w₀.Told b calls (w.issue user basis) where
  rows := h.rows
  stages j := (h.stages j).mono fun _ => prefix_refl _
  issued t ht := by
    rcases mem_append.mp ht with ht | ht
    · exact h.issued t ht
    · rw [mem_singleton.mp ht]
      exact hversion
  logins := h.logins

theorem World.Told.since_eq (h : w₀.Told b calls w) (hcurrent : w.Current user)
    (hsound : user.Sound b w₀ since) (hsince : since <+: w.changes user.id) :
    since = w.changes user.id := by
  obtain ⟨u, hu, hid, hver⟩ := hcurrent
  have hrow := (h.rows u hu).version
  have hread := hsound.version
  rw [hid] at hrow
  exact hsince.eq_of_length (by omega)

theorem World.Told.ready (h : w₀.Told b calls w) (hready : w.stage i = .ready user since)
    (hcurrent : w.Current user) :
    user.Sound b w₀ since ∧ user.Sound b w₀ (w.changes user.id) ∧
      ∀ email password, calls i = .loginLocal email password →
        w₀.InForce b user.id (w.changes user.id) password := by
  have htold := h.stages i
  rw [hready] at htold
  have hsince := h.since_eq hcurrent htold.1.1 htold.1.2
  exact ⟨htold.1.1, hsince ▸ htold.1.1, hsince ▸ htold.2⟩

end

theorem World.Told.letIn (h : w₀.Told b calls w) (hsound : user.Sound b w₀ since)
    (hforce : w₀.InForce b user.id (w.changes user.id) password) :
    w₀.Told b calls (w.letIn i user since password) := by
  have hissued := h.issue hsound.version
  refine World.Told.goTo ⟨hissued.rows,
    fun j => (hissued.stages j).mono fun _ => prefix_refl _, hissued.issued,
    fun l hl => ?_⟩ trivial
  rcases mem_append.mp hl with hl | hl
  · exact hissued.logins l hl
  · rw [mem_singleton.mp hl]
    exact hforce

section

omit [DecidableEq I]

theorem World.Told.write {noted : String → List String} (h : w₀.Told b calls w)
    (hupdate : updateUser user w.users = some users') (hsound : user.Sound b w₀ (noted user.id))
    (hgrow : ∀ id, w.changes id <+: noted id) (hother : ∀ id ≠ user.id, noted id = w.changes id) :
    w₀.Told b calls { w with users := users', changes := noted } where
  rows u hu := by
    rcases mem_updateUser hupdate hu with rfl | ⟨hmem, hne⟩
    · exact hsound
    · have hrow := h.rows u hmem
      rwa [← hother u.id hne] at hrow
  stages j := (h.stages j).mono hgrow
  issued := h.issued
  logins := h.logins

theorem World.change_changes :
    (w.change users' id password).changes id = w.changes id ++ [password] :=
  update_self ..

theorem World.Told.change (h : w₀.Told b calls w)
    (hupdate : updateUser user' w.users = some users') (hid : user'.id = id)
    (hsound : user'.Sound b w₀ (w.changes id ++ [password])) :
    w₀.Told b calls (w.change users' id password) := by
  subst hid
  refine h.write hupdate ?_ (fun id => ?_) fun id hid => update_of_ne hid _ _
  · rwa [update_self]
  · by_cases hid : id = user'.id
    · subst hid
      rw [update_self]
      exact prefix_append _ _
    · simp only [update_of_ne hid]
      exact prefix_refl _

end

/-! #### Rows -/

omit [DecidableEq I] in
theorem inForce_append {last : String} :
    w₀.InForce b id (changes ++ [last]) password ↔ password = last := by
  simp [World.InForce]

theorem verifies_hashed (hb : b.Reliable) {salt new : String}
    (hhash : user.passwordHash = some (hashPassword b salt new))
    (h : user.verifies b password = true) :
    password = new := by
  rw [User.verifies, hhash, any_some] at h
  exact verifyPassword_hashPassword hb h

section

omit [DecidableEq I]

theorem User.Sound.next (hb : b.Reliable) {salt new : String} (h : user.Sound b w₀ since)
    (hid : user'.id = user.id) (hhash : user'.passwordHash = some (hashPassword b salt new))
    (hversion : user'.tokenVersion = user.tokenVersion + 1) :
    user'.Sound b w₀ (since ++ [new]) where
  version := by
    have hold := h.version
    rw [hversion, hid, length_append, length_singleton]
    omega
  secret password hpassword := inForce_append.mpr (verifies_hashed hb hhash hpassword)

theorem User.Sound.rehashed (hb : b.Reliable) {salt : String} (h : user.Sound b w₀ since)
    (hforce : w₀.InForce b user.id since password) :
    (rehashedUser b user salt password).Sound b w₀ since where
  version := h.version
  secret other hother := by
    obtain rfl := verifies_hashed hb rfl hother
    exact hforce

end

theorem Call.find_mem {users : List User} {stage : Stage} (h : call.find users stage = some u) :
    u ∈ users := by
  cases call with
  | loginLocal email password =>
    simp only [Call.find] at h
    split at h
    · cases h
    · exact (getUserByEmail_some (filter_eq_some_iff.mp h).1).1
  | changePassword token currentPassword newPassword newEmail =>
    exact (getCurrentUser_some (filter_eq_some_iff.mp h).1).1
  | resetAdmin email newPassword =>
    simp only [Call.find] at h
    split at h
    · exact (getUserById_some h).1
    · split at h
      · cases h
      · exact (getUserByEmail_some h).1

/-! #### Steps -/

theorem World.Told.take {found : Option User} (h : w₀.Told b calls w)
    (hfound : ∀ user ∈ found, user ∈ w.users) : w₀.Told b calls (w.take calls i found) := by
  cases found with
  | none => exact h.goTo trivial
  | some user =>
    have hsound := h.rows user (hfound user rfl)
    simp only [World.take]
    split
    · rename_i email newPassword hcall
      refine h.goTo ⟨⟨hsound, prefix_refl _⟩, fun _ _ hlogin => ?_⟩
      rw [hcall] at hlogin
      cases hlogin
    · exact h.goTo ⟨hsound, prefix_refl _⟩

/-- A password is compared with the hash that was read. -/
theorem World.Told.verify (h : w₀.Told b calls w) (horderly : Orderly b calls w (.verify i))
    (hstep : step b calls w (.verify i) = some w') : w₀.Told b calls w' := by
  simp only [Auth.step] at hstep
  split at hstep
  · rename_i email password user since hcall hread
    have htold := h.stages i
    rw [hread] at htold
    split at hstep
    · rename_i hverifies
      have hforce := htold.1.secret password hverifies
      split at hstep <;> cases hstep
      · refine h.goTo ⟨htold, fun _ _ hlogin => ?_⟩
        rw [hcall] at hlogin
        cases hlogin
        exact hforce
      · rename_i hcurrent
        have hrelies : w.relies b calls (.verify i) = some user := by
          simp [World.relies, hcall, hread, hverifies, hcurrent]
        have hsince := h.since_eq (horderly user hrelies) htold.1 htold.2
        exact h.letIn htold.1 (hsince ▸ hforce)
    · cases hstep
      exact h.goTo trivial
  · rename_i token currentPassword newPassword newEmail user since hcall hread
    have htold := h.stages i
    rw [hread] at htold
    split at hstep
    · split at hstep <;> cases hstep
      · exact h.goTo htold
      · refine h.goTo ⟨htold, fun _ _ hlogin => ?_⟩
        rw [hcall] at hlogin
        cases hlogin
    · cases hstep
      exact h.goTo trivial
  · cases hstep

/-- A hash is written back. -/
theorem World.Told.writes {salt : String} (hb : b.Reliable) (h : w₀.Told b calls w)
    (horderly : Orderly b calls w (.write i salt))
    (hstep : step b calls w (.write i salt) = some w') : w₀.Told b calls w' := by
  simp only [Auth.step] at hstep
  split at hstep
  · rename_i email password user since hcall hready
    have hcurrent := h.ready hready (horderly user (by simp [World.relies, hready]))
    have hforce := hcurrent.2.2 email password hcall
    split at hstep <;> cases hstep
    · exact h.letIn hcurrent.1 hforce
    · rename_i users hupdate
      have hwrite := h.write hupdate (hcurrent.2.1.rehashed hb hforce)
        (fun _ => prefix_refl _) fun _ _ => rfl
      exact hwrite.letIn hcurrent.1 hforce
  · rename_i token currentPassword newPassword newEmail user since hcall hready
    have hcurrent := h.ready hready (horderly user (by simp [World.relies, hready]))
    have hnext : (changedUser b user salt newPassword newEmail).Sound b w₀
        (w.changes user.id ++ [newPassword]) := hcurrent.2.1.next hb rfl rfl rfl
    split at hstep <;> cases hstep
    · exact h.goTo trivial
    · rename_i users hupdate
      refine ((h.change hupdate rfl hnext).issue ?_).goTo trivial
      rw [hnext.version, World.change_changes]
  · rename_i email newPassword user since hcall hready
    have hcurrent := h.ready hready (horderly user (by simp [World.relies, hready]))
    have hnext : (resetUser b user salt newPassword).Sound b w₀
        (w.changes user.id ++ [newPassword]) := hcurrent.2.1.next hb rfl rfl rfl
    split at hstep <;> cases hstep
    · exact h.goTo trivial
    · rename_i users hupdate
      exact (h.change hupdate rfl hnext).goTo trivial
  · cases hstep

/-- **Every act keeps what is told.** -/
theorem World.Told.step {a : Act I} (hb : b.Reliable) (h : w₀.Told b calls w)
    (horderly : Orderly b calls w a) (hstep : step b calls w a = some w') : w₀.Told b calls w' := by
  cases a with
  | find i id =>
    simp only [Auth.step] at hstep
    split at hstep
    · split at hstep <;> cases hstep
      exact h.goTo trivial
    · cases hstep
  | read i =>
    simp only [Auth.step] at hstep
    split at hstep <;> cases hstep
    · exact h.take fun user huser => Call.find_mem huser
    · exact h.take fun user huser => Call.find_mem huser
  | verify i => exact h.verify horderly hstep
  | lookup i =>
    simp only [Auth.step] at hstep
    split at hstep
    · rename_i token currentPassword newPassword newEmail user since hcall hverified
      have htold := h.stages i
      rw [hverified] at htold
      split at hstep <;> cases hstep
      · exact h.goTo trivial
      · refine h.goTo ⟨⟨⟨htold.1.version, htold.1.secret⟩, htold.2⟩, fun _ _ hlogin => ?_⟩
        rw [hcall] at hlogin
        cases hlogin
    · cases hstep
  | write i salt => exact h.writes hb horderly hstep
  | fail i =>
    simp only [Auth.step] at hstep
    split at hstep
    · rename_i email password user since hcall hready
      cases hstep
      have hcurrent := h.ready hready (horderly user (by simp [World.relies, hcall, hready]))
      exact h.letIn hcurrent.1 (hcurrent.2.2 email password hcall)
    · cases hstep
    · cases hstep
      exact h.goTo trivial

theorem take_changes {found : Option User} : (w.take calls i found).changes = w.changes := by
  cases found with
  | none => rfl
  | some user =>
    simp only [World.take]
    split <;> rfl

omit [DecidableEq I] in
theorem World.change_grows (users' : List User) (id password id' : String) :
    w.changes id' <+: (w.change users' id password).changes id' := by
  by_cases hid : id' = id
  · subst hid
    rw [World.change_changes]
    exact prefix_append _ _
  · exact (update_of_ne hid _ w.changes).symm ▸ prefix_refl _

/-- No step takes a change back. -/
theorem step_grows {a : Act I} (h : step b calls w a = some w') (id : String) :
    w.changes id <+: w'.changes id := by
  cases a with
  | find i id' =>
    simp only [Auth.step] at h
    split at h
    · split at h <;> cases h
      exact prefix_refl _
    · cases h
  | read i =>
    simp only [Auth.step] at h
    split at h <;> cases h
    all_goals
      simp only [take_changes]
      exact prefix_refl _
  | verify i | lookup i =>
    simp only [Auth.step] at h
    repeat' split at h
    all_goals cases h
    all_goals exact prefix_refl _
  | write i salt =>
    simp only [Auth.step] at h
    split at h
    · split at h <;> cases h <;> exact prefix_refl _
    · split at h <;> cases h
      · exact prefix_refl _
      · rename_i users _
        exact World.change_grows users _ _ id
    · split at h <;> cases h
      · exact prefix_refl _
      · rename_i users _
        exact World.change_grows users _ _ id
    · cases h
  | fail i =>
    simp only [Auth.step] at h
    split at h <;> cases h <;> exact prefix_refl _

/-- **A change is final**, where no call writes a user or lets a login in by a row of another
version than the one that is stored. -/
theorem changes_final (hb : b.Reliable) (hbegins : w₀.Begins)
    (hrun : Runs (step b calls) (Orderly b calls) w₀ w)
    (hrest : Runs (step b calls) (Orderly b calls) w w') :
    Final b w₀ w ∧ Final b w₀ w' ∧ ∀ id, w.changes id <+: w'.changes id := by
  have htold := hrun.invariant (hbegins.told b calls) fun _ _ _ h horderly hstep =>
    h.step hb horderly hstep
  have htold' := hrest.invariant htold fun _ _ _ h horderly hstep => h.step hb horderly hstep
  refine ⟨htold.final, htold'.final, fun id => ?_⟩
  refine hrest.invariant (I := fun v => w.changes id <+: v.changes id) (prefix_refl _) ?_
  intro w₁ a w₂ hgrown _ hstep
  exact hgrown.trans (step_grows hstep id)

end Steps

/-! ### A change that is undone -/

/-- Hashes that are the passwords. -/
def demoBcrypt : Bcrypt where
  preHash password := password
  hashpw password _ := password
  checkpw password hashed := some (password = hashed)

theorem demoBcrypt_reliable : demoBcrypt.Reliable where
  injective _ _ h := h
  checkpw _ _ _ h := of_decide_eq_true (some.inj h)

/-- A user whose hash is of the first version. -/
def demoUser : User where
  id := "1"
  email := "user@example.com"
  passwordHash := some "$dfv1$spring"
  systemRole := .user
  oauthProvider := none
  oauthId := none
  needsSetup := false
  tokenVersion := 0

/-- A login, and a change of the password. -/
def demoCalls : Bool → Call
  | false => .loginLocal "user@example.com" "spring"
  | true => .changePassword ⟨"1", 0⟩ "spring" "summer" none

/-- A session is open. -/
def demoWorld : World Bool := ⟨[demoUser], fun _ => .called, fun _ => [], [⟨⟨"1", 0⟩, 0⟩], []⟩

theorem demoWorld_begins : demoWorld.Begins where
  unique u hu v hv _ := by
    rw [mem_singleton.mp hu, mem_singleton.mp hv]
  called _ := rfl
  changes _ := rfl
  issued t ht := by
    rw [mem_singleton.mp ht]
    decide +kernel
  logins := rfl

section Decide

variable {I : Type} [DecidableEq I] (b : Bcrypt) (calls : I → Call)

instance (w : World I) (user : User) : Decidable (w.Current user) :=
  inferInstanceAs (Decidable (∃ u ∈ w.users, _))

instance (w : World I) (a : Act I) : Decidable (Orderly b calls w a) :=
  inferInstanceAs (Decidable (∀ user ∈ w.relies b calls a, _))

end Decide

/-- The login hashes the password anew before the change begins. -/
theorem changes_final_demo : ∃ w w' : World Bool,
    runWith (step demoBcrypt demoCalls) (Orderly demoBcrypt demoCalls) demoWorld
      [.read false, .verify false, .write false "salt"] = some w ∧
    runWith (step demoBcrypt demoCalls) (Orderly demoBcrypt demoCalls) w
      [.read true, .verify true, .write true "salt"] = some w' ∧
    Final demoBcrypt demoWorld w ∧ Final demoBcrypt demoWorld w' ∧
      ∀ id, w.changes id <+: w'.changes id := by
  obtain ⟨w', hw'⟩ : ∃ w', ((runWith (step demoBcrypt demoCalls) (Orderly demoBcrypt demoCalls)
      demoWorld [.read false, .verify false, .write false "salt"]).bind fun w =>
      runWith (step demoBcrypt demoCalls) (Orderly demoBcrypt demoCalls) w
        [.read true, .verify true, .write true "salt"]) = some w' :=
    isSome_iff_exists.mp (by decide +kernel)
  obtain ⟨w, hw, hrest⟩ := bind_eq_some_iff.mp hw'
  exact ⟨w, w', hw, hrest, changes_final demoBcrypt_reliable demoWorld_begins (runs_of_runWith hw)
    (runs_of_runWith hrest)⟩

/-- **A change is undone** by a login that has read the user before: the old password is right
again, and so is the version of the older tokens. -/
theorem change_undone : ¬∀ w : World Bool,
    Runs (step demoBcrypt demoCalls) (fun _ _ => True) demoWorld w →
      Final demoBcrypt demoWorld w := by
  intro h
  have hlast : ((runWith (step demoBcrypt demoCalls) (fun _ _ => True) demoWorld
      [.read false, .verify false, .read true, .verify true, .write true "salt",
        .write false "salt"]).any fun w =>
      (getCurrentUser w.users ⟨"1", 0⟩).isSome ∧ w.changes "1" = ["summer"] ∧
        w.issued.head? = some ⟨⟨"1", 0⟩, 0⟩) = true := by decide +kernel
  obtain ⟨w, hw, hend⟩ := (any_eq_true _ _).mp hlast
  obtain ⟨haccepted, hchanges, hissued⟩ := of_decide_eq_true hend
  obtain ⟨u, hu⟩ := isSome_iff_exists.mp haccepted
  have hbasis := (h w (runs_of_runWith hw)).token _ (mem_of_head? hissued) u hu
  rw [(getCurrentUser_some hu).2.1, hchanges] at hbasis
  exact absurd hbasis (by decide)

end AfterFlow.Auth
