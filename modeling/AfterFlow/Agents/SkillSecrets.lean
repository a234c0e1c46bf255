import AfterFlow.Agents.SkillActivation
import AfterFlow.Json
import AfterFlow.Sandbox.Paths
import AfterFlow.Transition.Runs

/-!
# Secrets of skills

A request may bring secrets. A skill that declares one of them gets it in the environment of the
bash tool: if the user has activated the skill with a slash in this run, or if the model has read
the skill in this thread and the skill lets it bind without an activation. The middleware puts the
environment together anew for each model call, from the skills as they are then.

It does so when the call goes on to the model. A call whose activation fails is answered before, and
then the environment of the call before it stays.

## Main results

* `resolveSecretBindings_congr` — a secret that no such skill declares is not looked at
* `secrets_sealed` — only declared secrets are bound, and the others make no difference
* `disabled_skill_bound` — an activation that fails leaves the secrets of a disabled skill bound
-/

namespace AfterFlow.Agents.SkillSecrets

open Transition SkillActivation Sandbox

/-! ### The run context -/

/-- `_string_pairs`. -/
def stringPairs : Option Json → List (String × String)
  | some (.obj fields) => fields.filterMap fun
    | (key, .str value) => some (key, value)
    | _ => none
  | _ => []

/-- What is put down of a binding: names, and never values. -/
structure Audit where
  skills : List String
  secrets : List String
  missing : List (String × List String)
  deriving DecidableEq

structure Context where
  /-- `secrets`, as the caller has it. -/
  secrets : Option Json
  /-- `__active_skill_secrets`. -/
  active : Option (List (String × String))
  /-- The path in `__slash_skill_secret_source`. -/
  slashSource : Option (List Char)
  /-- `__skill_secrets_binding_audit`. -/
  audit : Option Audit

/-- `build_run_config` takes the private keys out of a caller's context. -/
def buildContext (contextValue : String → Option Json) (key : String) : Option Json :=
  if "__".toList.isPrefixOf key.toList then none else contextValue key

/-- The context that a run begins with. -/
def Context.start (contextValue : String → Option Json) : Context :=
  ⟨buildContext contextValue "secrets", none, none, none⟩

/-- `read_active_secrets`: the environment for the bash tool. -/
def Context.env (c : Context) : List (String × String) := c.active.getD []

/-! ### Bindings -/

/-- `_load_skill_registry_by_path`, at a path. A later skill takes the place of one before it. -/
def registrySkill (st : Storage) (path : List Char) : Option Skill :=
  st.skills.reverse.find? fun s => normpath (s.containerFilePath st.containerRoot) = normpath path

/-- `_resolve_registry_skill`. -/
def resolveRegistrySkill (availableSkills : Option (List (List Char))) (st : Storage)
    (requireAutonomous : Bool) (path : List Char) : Option Skill :=
  if path = [] then none
  else (registrySkill st path).filter fun s =>
    s.enabled && !s.requiredSecrets.isEmpty && (!requireAutonomous || s.secretsAutonomous) &&
      isAvailable availableSkills s.name

/-- `entry.get("path")`, if it is a text. -/
def entryPath : Json → Option (List Char)
  | .obj fields =>
    match fields.lookup "path" with
    | some (.str path) => some path.toList
    | _ => none
  | _ => none

/-- `_in_context_secret_sources`, without the skills whose names have been seen. -/
@[grind =] def inContextSecretSources (availableSkills : Option (List (List Char))) (st : Storage) :
    List (List Char) → List Json → List Skill
  | _, [] => []
  | seen, entry :: entries =>
    match (entryPath entry).bind (resolveRegistrySkill availableSkills st true) with
    | none => inContextSecretSources availableSkills st seen entries
    | some s =>
      if seen.contains s.name then inContextSecretSources availableSkills st seen entries
      else s :: inContextSecretSources availableSkills st (s.name :: seen) entries

/-- A model call: its messages, the storage when the activation is resolved and when the secrets
are, `skill_context` of the state, and a `uuid4`. -/
structure Call where
  messages : List SkillActivation.Message
  storage : Option Storage
  registry : Option Storage
  skillContext : List Json
  uuid : String

/-- The skills that secrets are bound for. -/
def secretSources (availableSkills : Option (List (List Char))) (e : Call)
    (slashSource : Option (List Char)) : List Skill :=
  match e.registry with
  | none => []
  | some st =>
    (slashSource.bind (resolveRegistrySkill availableSkills st false)).toList ++
      inContextSecretSources availableSkills st [] e.skillContext

/-- The declarations of the skills, one after the other. -/
def requirements (sources : List Skill) : List (String × SecretRequirement) :=
  sources.flatMap fun s => s.requiredSecrets.map fun r => (String.ofList s.name, r)

/-- The pairs of a dict that is filled from a list, where a key has one value only. -/
def fill (pairs : List (String × String)) : List (String × String) :=
  pairs.foldl (fun d p => if d.contains p then d else d ++ [p]) []

/-- What is bound. -/
def injected (secrets : List (String × String)) (declared : List (String × SecretRequirement)) :
    List (String × String) :=
  fill (declared.filterMap fun d => (secrets.lookup d.2.name).map fun value => (d.2.name, value))

/-- `sorted` of a set of names. -/
def sortedNames (names : List String) : List String := names.dedup.insertionSort (· ≤ ·)

/-- The names of the required secrets that the request does not bring, by skill. -/
def missing (secrets : List (String × String)) (declared : List (String × SecretRequirement)) :
    List (String × List String) :=
  let absent := declared.filter fun d => (secrets.lookup d.2.name).isNone && !d.2.optional
  (sortedNames (absent.map Prod.fst)).map fun name =>
    (name, ((absent.filter fun d => d.1 = name).map fun d => d.2.name).insertionSort (· ≤ ·))

/-- `audit_state`. -/
def auditState (secrets : List (String × String)) (declared : List (String × SecretRequirement)) :
    Audit where
  skills := sortedNames
    ((declared.filter fun d => (secrets.lookup d.2.name).isSome).map Prod.fst)
  secrets := (injected secrets declared).map Prod.fst |>.insertionSort (· ≤ ·)
  missing := missing secrets declared

/-- The declarations that are looked at: none, if the request has no secrets. -/
def declarations (availableSkills : Option (List (List Char))) (e : Call)
    (slashSource : Option (List Char)) (secrets : List (String × String)) :
    List (String × SecretRequirement) :=
  if secrets.isEmpty then [] else requirements (secretSources availableSkills e slashSource)

/-- `_resolve_secret_bindings`. -/
def resolveSecretBindings (availableSkills : Option (List (List Char))) (e : Call)
    (activation : Option Activation) (c : Context) : Context :=
  let slashSource := (activation.map Activation.containerFilePath).or c.slashSource
  let secrets := stringPairs c.secrets
  let declared := declarations availableSkills e slashSource secrets
  let bound := injected secrets declared
  let audit := auditState secrets declared
  { secrets := c.secrets
    active := if bound.isEmpty then none else some bound
    slashSource := slashSource
    audit :=
      if c.audit = some audit then c.audit
      else if c.audit = none ∧ bound = [] ∧ audit.missing = [] then c.audit
      else some audit }

/-! ### The model calls of a run -/

inductive Reply where
  | raised
  | answered (message : List Char)
  | forwarded (messages : List SkillActivation.Message)

structure World where
  context : Context
  /-- The skill that the latest activation of the run was of, by its path. -/
  command : Option (List Char)
  /-- The latest model call, and the secrets of the request then. -/
  last : Option (Call × List (String × String))
  reply : Option Reply

inductive Act where
  /-- The caller supplies other secrets. -/
  | supply (secrets : Option Json)
  | call (e : Call)

variable (sha256 : List Char → List Char) (availableSkills : Option (List (List Char)))

/-- What becomes of the request of a model call. -/
def Call.prepared (e : Call) : Prepared :=
  prepareModelRequest sha256 availableSkills e.storage e.messages e.uuid

/-- The latest activation of the run, once the call has been prepared. -/
def World.commandAfter (w : World) (e : Call) : Option (List Char) :=
  match e.prepared sha256 availableSkills with
  | .forwarded _ activation => (activation.map Activation.containerFilePath).or w.command
  | _ => w.command

/-- `_handle_model_request`. -/
def World.handle (w : World) (e : Call) : World :=
  let last := some (e, stringPairs w.context.secrets)
  match e.prepared sha256 availableSkills with
  | .raised => { w with last := last, reply := some .raised }
  | .answered message => { w with last := last, reply := some (.answered message) }
  | .forwarded messages activation =>
    { context := resolveSecretBindings availableSkills e activation w.context
      command := w.commandAfter sha256 availableSkills e
      last := last
      reply := some (.forwarded messages) }

def World.supply (w : World) (secrets : Option Json) : World :=
  { w with context := { w.context with secrets := secrets } }

@[grind =] def step (w : World) : Act → Option World
  | .supply secrets => some (w.supply secrets)
  | .call e => some (w.handle sha256 availableSkills e)

/-- The run of a request begins. -/
def World.start (contextValue : String → Option Json) : World :=
  ⟨.start contextValue, none, none, none⟩

/-- A call whose activation fails, or raises, comes only where nothing is bound. -/
def Orderly (w : World) : Act → Prop
  | .supply _ => True
  | .call e =>
    match e.prepared sha256 availableSkills with
    | .forwarded _ _ => True
    | _ => w.context.active = none

/-- The skill has the path. -/
def HasPath (st : Storage) (s : Skill) (path : List Char) : Prop :=
  normpath (s.containerFilePath st.containerRoot) = normpath path

/-- Some skill that is enabled and available to the agent declares the secret, and it is the one
that was activated, or the thread has read it and it may bind without. -/
def Allowed (e : Call) (command : Option (List Char)) (name : String) : Prop :=
  ∃ st, e.registry = some st ∧ ∃ s ∈ st.skills, s.enabled = true ∧
    isAvailable availableSkills s.name = true ∧ (∃ r ∈ s.requiredSecrets, r.name = name) ∧
    ((∃ path, command = some path ∧ HasPath st s path) ∨
      (s.secretsAutonomous = true ∧ ∃ entry ∈ e.skillContext, ∃ path,
        entryPath entry = some path ∧ HasPath st s path))

/-- The environment has only secrets that a skill may have, as the request of the latest call
brought them, and the latest call that went on to the model put it together from nothing. -/
structure World.Sealed (w : World) : Prop where
  only : ∀ p ∈ w.context.env, ∃ e secrets, w.last = some (e, secrets) ∧
    Allowed availableSkills e w.command p.1 ∧ secrets.lookup p.1 = some p.2
  anew : ∀ e secrets messages, w.last = some (e, secrets) → w.reply = some (.forwarded messages) →
    w.context.env = injected secrets (declarations availableSkills e w.command secrets)

/-! ### Two runs -/

/-- Two runs that are told apart by their secrets only. -/
structure Alike (w w' : World) : Prop where
  active : w.context.active = w'.context.active
  slashSource : w.context.slashSource = w'.context.slashSource
  audit : w.context.audit = w'.context.audit
  command : w.command = w'.command
  reply : w.reply = w'.reply

inductive TwinAct where
  | supply (secrets secrets' : Option Json)
  | call (e : Call)

/-- Two runs side by side, with the same model calls. -/
def twinStep (w : World × World) : TwinAct → Option (World × World)
  | .supply secrets secrets' => some (w.1.supply secrets, w.2.supply secrets')
  | .call e => some (w.1.handle sha256 availableSkills e, w.2.handle sha256 availableSkills e)

/-- At a model call, the requests have secrets of the same names, and the values are the same where
a skill may have the secret. -/
def Harmless (w : World × World) : TwinAct → Prop
  | .supply _ _ => True
  | .call e => ∀ name,
    ((stringPairs w.1.context.secrets).lookup name).isSome =
      ((stringPairs w.2.context.secrets).lookup name).isSome ∧
    (Allowed availableSkills e (w.1.commandAfter sha256 availableSkills e) name →
      (stringPairs w.1.context.secrets).lookup name = (stringPairs w.2.context.secrets).lookup name)

/-! ### What is bound -/

variable {sha256 availableSkills} {st : Storage} {s : Skill} {path : List Char} {auto : Bool}
  {e : Call} {slashSource : Option (List Char)} {secrets secrets' : List (String × String)}
  {declared : List (String × SecretRequirement)} {w w' : World} {c c' : Context}

theorem resolveRegistrySkill_spec
    (h : resolveRegistrySkill availableSkills st auto path = some s) :
    s ∈ st.skills ∧ HasPath st s path ∧ s.enabled = true ∧
      isAvailable availableSkills s.name = true ∧ (auto = true → s.secretsAutonomous = true) := by
  rw [resolveRegistrySkill] at h
  split at h
  · cases h
  · obtain ⟨hfind, hchecks⟩ := Option.filter_eq_some_iff.1 h
    simp only [Bool.and_eq_true, Bool.or_eq_true, Bool.not_eq_true'] at hchecks
    refine ⟨by simpa using List.mem_of_find?_eq_some hfind, by simpa [HasPath] using List.find?_some hfind,
      hchecks.1.1.1, hchecks.2, fun hauto => ?_⟩
    simpa [hauto] using hchecks.1.2

theorem mem_inContextSecretSources {seen : List (List Char)} {entries : List Json}
    (h : s ∈ inContextSecretSources availableSkills st seen entries) :
    ∃ entry ∈ entries, ∃ path, entryPath entry = some path ∧
      resolveRegistrySkill availableSkills st true path = some s := by
  induction entries generalizing seen with
  | nil => cases h
  | cons entry entries ih =>
    have hlater : ∀ seen, s ∈ inContextSecretSources availableSkills st seen entries →
        ∃ entry' ∈ entry :: entries, ∃ path, entryPath entry' = some path ∧
          resolveRegistrySkill availableSkills st true path = some s := by
      intro seen hs
      obtain ⟨entry', hentry', hrest⟩ := ih hs
      exact ⟨entry', List.mem_cons_of_mem _ hentry', hrest⟩
    rw [inContextSecretSources] at h
    split at h
    · exact hlater _ h
    · rename_i t ht
      split at h
      · exact hlater _ h
      · rcases List.mem_cons.1 h with rfl | h
        · obtain ⟨path, hpath, hskill⟩ := Option.bind_eq_some_iff.1 ht
          exact ⟨entry, List.mem_cons_self, path, hpath, hskill⟩
        · exact hlater _ h

theorem allowed_of_declared {d : String × SecretRequirement}
    (h : d ∈ declarations availableSkills e slashSource secrets) :
    Allowed availableSkills e slashSource d.2.name := by
  rw [declarations] at h
  split at h
  · cases h
  · obtain ⟨s, hs, hd⟩ := List.mem_flatMap.1 h
    obtain ⟨r, hr, rfl⟩ := List.mem_map.1 hd
    rw [secretSources] at hs
    split at hs
    · cases hs
    · rename_i st hst
      rcases List.mem_append.1 hs with hs | hs
      · obtain ⟨path, hpath, hskill⟩ := Option.bind_eq_some_iff.1 (Option.mem_toList.1 hs)
        obtain ⟨hmem, hhas, henabled, havailable, -⟩ := resolveRegistrySkill_spec hskill
        exact ⟨st, hst, s, hmem, henabled, havailable, ⟨r, hr, rfl⟩, .inl ⟨path, hpath, hhas⟩⟩
      · obtain ⟨entry, hentry, path, hpath, hskill⟩ := mem_inContextSecretSources hs
        obtain ⟨hmem, hhas, henabled, havailable, hauto⟩ := resolveRegistrySkill_spec hskill
        exact ⟨st, hst, s, hmem, henabled, havailable, ⟨r, hr, rfl⟩,
          .inr ⟨hauto rfl, entry, hentry, path, hpath, hhas⟩⟩

theorem mem_fill {pairs : List (String × String)} {p : String × String} :
    p ∈ fill pairs ↔ p ∈ pairs := by
  have hgo : ∀ d : List (String × String),
      p ∈ pairs.foldl (fun d p => if d.contains p then d else d ++ [p]) d ↔ p ∈ d ∨ p ∈ pairs := by
    induction pairs with
    | nil => simp
    | cons q pairs ih =>
      intro d
      rw [List.foldl_cons, ih, List.mem_cons]
      split
      · rename_i hq
        have hq : q ∈ d := by simpa using hq
        constructor
        · rintro (h | h)
          · exact .inl h
          · exact .inr (.inr h)
        · rintro (h | rfl | h)
          · exact .inl h
          · exact .inl hq
          · exact .inr h
      · rw [List.mem_append, List.mem_singleton, or_assoc]
  simpa [fill] using hgo []

theorem mem_injected {p : String × String} (h : p ∈ injected secrets declared) :
    ∃ d ∈ declared, d.2.name = p.1 ∧ secrets.lookup p.1 = some p.2 := by
  rw [injected, mem_fill] at h
  obtain ⟨d, hd, hp⟩ := List.mem_filterMap.1 h
  obtain ⟨value, hvalue, rfl⟩ := Option.map_eq_some_iff.1 hp
  exact ⟨d, hd, rfl, hvalue⟩

/-! ### Secrets that make no difference -/

theorem injected_congr
    (h : ∀ d ∈ declared, secrets.lookup d.2.name = secrets'.lookup d.2.name) :
    injected secrets declared = injected secrets' declared := by
  rw [injected]
  congr 1
  refine List.filterMap_congr fun d hd => ?_
  rw [h d hd]

theorem auditState_congr
    (h : ∀ d ∈ declared, secrets.lookup d.2.name = secrets'.lookup d.2.name) :
    auditState secrets declared = auditState secrets' declared := by
  have hfound : (declared.filter fun d => (secrets.lookup d.2.name).isSome) =
      declared.filter fun d => (secrets'.lookup d.2.name).isSome :=
    List.filter_congr fun d hd => by rw [h d hd]
  have habsent : (declared.filter fun d => (secrets.lookup d.2.name).isNone && !d.2.optional) =
      declared.filter fun d => (secrets'.lookup d.2.name).isNone && !d.2.optional :=
    List.filter_congr fun d hd => by rw [h d hd]
  simp only [auditState, missing, hfound, habsent, injected_congr h]

theorem isEmpty_congr (h : ∀ name, (secrets.lookup name).isSome = (secrets'.lookup name).isSome) :
    secrets.isEmpty = secrets'.isEmpty := by
  cases secrets with
  | nil =>
    cases secrets' with
    | nil => rfl
    | cons p secrets' => simpa using h p.1
  | cons p secrets =>
    cases secrets' with
    | nil => simpa using h p.1
    | cons p' secrets' => rfl

/-- **A secret that no skill may have is not looked at.** -/
theorem resolveSecretBindings_congr {activation : Option Activation}
    (hslash : c.slashSource = c'.slashSource) (haudit : c.audit = c'.audit)
    (hnames : ∀ name, ((stringPairs c.secrets).lookup name).isSome =
      ((stringPairs c'.secrets).lookup name).isSome)
    (hvalues : ∀ name, Allowed availableSkills e
      ((activation.map Activation.containerFilePath).or c.slashSource) name →
      (stringPairs c.secrets).lookup name = (stringPairs c'.secrets).lookup name) :
    { resolveSecretBindings availableSkills e activation c with secrets := c'.secrets } =
      resolveSecretBindings availableSkills e activation c' := by
  have hdeclared : declarations availableSkills e
        ((activation.map Activation.containerFilePath).or c.slashSource) (stringPairs c.secrets) =
      declarations availableSkills e
        ((activation.map Activation.containerFilePath).or c.slashSource) (stringPairs c'.secrets) := by
    simp only [declarations, isEmpty_congr hnames]
  have hsame : ∀ d ∈ declarations availableSkills e
        ((activation.map Activation.containerFilePath).or c.slashSource) (stringPairs c'.secrets),
      (stringPairs c.secrets).lookup d.2.name = (stringPairs c'.secrets).lookup d.2.name :=
    fun d hd => hvalues _ (allowed_of_declared hd)
  simp only [resolveSecretBindings, ← hslash, ← haudit, hdeclared, injected_congr hsame,
    auditState_congr hsame]

/-! ### What each model call keeps -/

/-- The command is where the middleware looks for it. -/
structure World.Bound (availableSkills : Option (List (List Char))) (w : World) : Prop where
  sealed : w.Sealed availableSkills
  command : w.command = w.context.slashSource

theorem World.Bound.start (contextValue : String → Option Json) :
    (World.start contextValue).Bound availableSkills where
  sealed := ⟨fun p hp => (by cases hp), fun e secrets messages h => (by cases h)⟩
  command := rfl

theorem env_resolveSecretBindings {activation : Option Activation} :
    (resolveSecretBindings availableSkills e activation c).env =
      injected (stringPairs c.secrets) (declarations availableSkills e
        ((activation.map Activation.containerFilePath).or c.slashSource) (stringPairs c.secrets)) := by
  simp only [resolveSecretBindings, Context.env]
  split
  · rename_i hempty
    rw [List.isEmpty_iff.1 hempty]
    rfl
  · rfl

theorem World.Bound.answered (h : w.Bound availableSkills) (hactive : w.context.active = none)
    (last : Option (Call × List (String × String))) {reply : Reply}
    (hreply : ∀ messages, reply ≠ .forwarded messages) :
    ({ w with last := last, reply := some reply } : World).Bound availableSkills where
  sealed := by
    constructor
    · intro p hp
      simp [Context.env, hactive] at hp
    · intro e secrets messages _ hforwarded
      exact absurd (Option.some.inj hforwarded) (hreply messages)
  command := h.command

theorem handle_command (h : w.command = w.context.slashSource) :
    (w.handle sha256 availableSkills e).command =
      (w.handle sha256 availableSkills e).context.slashSource := by
  rw [World.handle]
  cases hprepared : e.prepared sha256 availableSkills with
  | raised | answered => exact h
  | forwarded messages activation =>
    simp only [World.commandAfter, hprepared, h, resolveSecretBindings]

/-- **What one model call keeps.** -/
theorem World.Bound.handle (h : w.Bound availableSkills)
    (horderly : Orderly sha256 availableSkills w (.call e)) :
    (w.handle sha256 availableSkills e).Bound availableSkills := by
  simp only [Orderly] at horderly
  rw [World.handle]
  cases hprepared : e.prepared sha256 availableSkills with
  | raised =>
    rw [hprepared] at horderly
    exact h.answered horderly _ (by simp)
  | answered message =>
    rw [hprepared] at horderly
    exact h.answered horderly _ (by simp)
  | forwarded messages activation =>
    have hcommand : w.commandAfter sha256 availableSkills e =
        (activation.map Activation.containerFilePath).or w.context.slashSource := by
      simp only [World.commandAfter, hprepared, h.command]
    refine ⟨⟨?_, ?_⟩, hcommand⟩
    · intro p hp
      refine ⟨e, _, rfl, ?_⟩
      simp only [env_resolveSecretBindings] at hp
      obtain ⟨d, hd, hname, hvalue⟩ := mem_injected hp
      refine ⟨?_, hvalue⟩
      rw [hcommand, ← hname]
      exact allowed_of_declared hd
    · intro e' secrets messages' hlast _
      cases hlast
      rw [hcommand]
      exact env_resolveSecretBindings

theorem World.Bound.step {a : Act} (h : w.Bound availableSkills)
    (horderly : Orderly sha256 availableSkills w a) (hstep : step sha256 availableSkills w a = some w') :
    w'.Bound availableSkills := by
  cases a with
  | supply secrets =>
    cases hstep
    exact ⟨⟨h.sealed.only, h.sealed.anew⟩, h.command⟩
  | call e =>
    cases hstep
    exact h.handle horderly

theorem Alike.handle (h : Alike w w') (hcommand : w.command = w.context.slashSource)
    (hharmless : Harmless sha256 availableSkills (w, w') (.call e)) :
    Alike (w.handle sha256 availableSkills e) (w'.handle sha256 availableSkills e) := by
  simp only [World.handle]
  cases hprepared : e.prepared sha256 availableSkills with
  | raised | answered => exact ⟨h.active, h.slashSource, h.audit, h.command, rfl⟩
  | forwarded messages activation =>
    have hafter : w.commandAfter sha256 availableSkills e =
        (activation.map Activation.containerFilePath).or w.context.slashSource := by
      simp only [World.commandAfter, hprepared, hcommand]
    have hresolve := @resolveSecretBindings_congr availableSkills e _ _ activation h.slashSource h.audit (fun name => (hharmless name).1)
      (fun name hallowed => (hharmless name).2 (hafter ▸ hallowed))
    have hafter' : w.commandAfter sha256 availableSkills e =
        w'.commandAfter sha256 availableSkills e := by
      simp only [World.commandAfter, hprepared, h.command]
    have hactive := congrArg Context.active hresolve
    have hslash := congrArg Context.slashSource hresolve
    have haudit := congrArg Context.audit hresolve
    exact ⟨hactive, hslash, haudit, hafter', rfl⟩

theorem Alike.step {v v' : World × World} {a : TwinAct}
    (h : Alike v.1 v.2 ∧ v.1.command = v.1.context.slashSource)
    (hharmless : Harmless sha256 availableSkills v a)
    (hstep : twinStep sha256 availableSkills v a = some v') :
    Alike v'.1 v'.2 ∧ v'.1.command = v'.1.context.slashSource := by
  cases a with
  | supply secrets secrets' =>
    cases hstep
    exact ⟨⟨h.1.active, h.1.slashSource, h.1.audit, h.1.command, h.1.reply⟩, h.2⟩
  | call e =>
    cases hstep
    exact ⟨h.1.handle h.2 hharmless, handle_command h.2⟩

/-- **Secrets reach only skills that declared them**, where an activation fails only while nothing
is bound, **and other secrets make no difference.** -/
theorem secrets_sealed :
    (∀ (contextValue : String → Option Json) (w : World),
      Runs (step sha256 availableSkills) (Orderly sha256 availableSkills) (.start contextValue) w →
      w.Sealed availableSkills) ∧
    (∀ (contextValue contextValue' : String → Option Json) (w w' : World),
      Runs (twinStep sha256 availableSkills) (Harmless sha256 availableSkills)
        (.start contextValue, .start contextValue') (w, w') → Alike w w') := by
  constructor
  · intro contextValue w hrun
    have h : w.Bound availableSkills :=
      hrun.invariant (.start contextValue) fun _ _ _ h horderly hstep => h.step horderly hstep
    exact h.sealed
  · intro contextValue contextValue' w w' hrun
    have h := hrun.invariant (I := fun v => Alike v.1 v.2 ∧ v.1.command = v.1.context.slashSource)
      ⟨⟨rfl, rfl, rfl, rfl, rfl⟩, rfl⟩
      fun _ _ _ h hharmless hstep => Alike.step h hharmless hstep
    exact h.1

/-! ### A skill that is disabled -/

/-- A skill that declares one secret and binds it after an activation only. -/
def demoSkill (enabled : Bool) : Skill :=
  ⟨"erp".toList, .custom, "erp".toList, enabled, [⟨"ERP_TOKEN", false⟩], false⟩

def demoStorage (enabled : Bool) : Storage :=
  ⟨[demoSkill enabled], "/mnt/skills".toList, fun _ => some "Ask the ERP.".toList⟩

/-- A model call for the message `/erp report`. -/
def demoCall (enabled : Bool) : Call where
  messages := [⟨true, some "m1", none, .string "/erp report".toList, false, none, false, none⟩]
  storage := some (demoStorage enabled)
  registry := some (demoStorage enabled)
  skillContext := []
  uuid := "u1"

/-- The context of a request with two secrets, of which the skill declares one. -/
def demoContext (other : String) (key : String) : Option Json :=
  if key = "secrets" then some (.obj [("ERP_TOKEN", .str "t"), ("OTHER", .str other)]) else none

theorem demo_harmless (w w' : World)
    (hw : stringPairs w.context.secrets = [("ERP_TOKEN", "t"), ("OTHER", "x")])
    (hw' : stringPairs w'.context.secrets = [("ERP_TOKEN", "t"), ("OTHER", "y")]) :
    Harmless id none (w, w') (.call (demoCall true)) := by
  intro name
  simp only [hw, hw']
  by_cases hname : name = "OTHER"
  · subst hname
    refine ⟨rfl, ?_⟩
    rintro ⟨st, hst, s, hs, -, -, ⟨r, hr, hrname⟩, -⟩
    cases hst
    rw [List.mem_singleton.1 hs] at hr
    rw [List.mem_singleton.1 hr] at hrname
    exact absurd hrname (by decide)
  · have hlookup : ∀ other, List.lookup name [("ERP_TOKEN", "t"), ("OTHER", other)] =
        List.lookup name [("ERP_TOKEN", "t")] := fun other => by
      simp [List.lookup_cons, beq_false_of_ne hname]
    simp [hlookup]

theorem secrets_sealed_demo : ∃ w w' : World,
    w.context.env = [("ERP_TOKEN", "t")] ∧ w.Sealed none ∧ Alike w w' := by
  have hrun : Runs (step id none) (Orderly id none) (.start (demoContext "x"))
      ((World.start (demoContext "x")).handle id none (demoCall true)) :=
    Runs.refl.tail (l := .call (demoCall true)) trivial rfl
  have htwin : Runs (twinStep id none) (Harmless id none)
      (.start (demoContext "x"), .start (demoContext "y"))
      ((World.start (demoContext "x")).handle id none (demoCall true),
        (World.start (demoContext "y")).handle id none (demoCall true)) :=
    Runs.refl.tail (l := .call (demoCall true)) (demo_harmless _ _ rfl rfl) rfl
  exact ⟨_, _, by decide +kernel, secrets_sealed.1 _ _ hrun, secrets_sealed.2 _ _ _ _ htwin⟩

/-- **The secrets of a disabled skill stay bound** when the next call fails to activate it. -/
theorem disabled_skill_bound : ¬∀ (contextValue : String → Option Json) (w : World),
    Runs (step id none) (fun _ _ => True) (.start contextValue) w → w.Sealed none := by
  intro hall
  let first := (World.start (demoContext "x")).handle id none (demoCall true)
  let second := first.handle id none (demoCall false)
  have hrun : Runs (step id none) (fun _ _ => True) (.start (demoContext "x")) second :=
    (Runs.refl.tail (l := .call (demoCall true)) trivial rfl).tail (l := .call (demoCall false))
      trivial rfl
  have hbound : second.context.env = [("ERP_TOKEN", "t")] := by decide +kernel
  obtain ⟨e, secrets, hlast, ⟨st, hst, s, hs, henabled, -⟩, -⟩ :=
    (hall _ _ hrun).only ("ERP_TOKEN", "t") (by rw [hbound]; exact List.mem_singleton_self _)
  have hcall : e = demoCall false := by
    have h : second.last = some (demoCall false, [("ERP_TOKEN", "t"), ("OTHER", "x")]) := rfl
    rw [h] at hlast
    exact (congrArg Prod.fst (Option.some.inj hlast)).symm
  subst hcall
  cases hst
  rw [List.mem_singleton.1 hs] at henabled
  cases henabled

end AfterFlow.Agents.SkillSecrets
