import AfterFlow.Runs.Confinement

/-!
# A client cannot forge who it is

Whatever a body says about identity, the user of the request is stamped last; internal flags are
removed after everything that could have put them there; private keys are dropped where the
`context` section is copied, and no later step writes one. What the body's own context says about
tokens reaches the runtime context only.

The recursion limit is another matter. A positive int is cut down to the ceiling, but anything else
is replaced by the default of 100, and the default is not.

## Main results

* `identity_not_forged_iff` — identity and flags are not forged; the recursion limit
-/

namespace AfterFlow.Runs

open Keyed List Option

section

variable {env : GatewayEnv} {threadId : String} {body : RunBody} {request : RunRequest}
  {user : RequestUser} {base pinned config : RunConfig} {requestConfig : Option Fields}
  {context : PyDict}

/-! ### Identity -/

/-- The context says who the user is. -/
structure Identifies (user : RequestUser) (context : PyDict) : Prop where
  userId : context.lookup (.str "user_id") = some (.str user.id)
  userRole : context.lookup (.str "user_role") = some (optionText user.systemRole)
  oauthProvider : context.lookup (.str "oauth_provider") = some (optionText user.oauthProvider)
  oauthId : context.lookup (.str "oauth_id") = some (optionText user.oauthId)

theorem finishConfig_context (body : RunBody) (pinned : RunConfig) (huser : request.user = some user)
    (hrole : user.systemRole ≠ some internalSystemRole) (hsource : request.internalSource = false) :
    ∃ context : PyDict, (finishConfig body request pinned).context =
        some (stampAttribution (context.insert (.str "user_id") (.str user.id)) user) ∧
      context.lookup (.str "non_interactive") = none := by
  refine ⟨((stripInternalContextKeys
    (mergeRunContextOverrides pinned body.context false)).context.getD ∅), ?_, ?_⟩
  · simp only [finishConfig, injectAuthenticatedUserContext, huser, hsource, if_neg hrole]
    rfl
  · cases h : (mergeRunContextOverrides pinned body.context false).context with
    | none => simp [stripInternalContextKeys, h]
    | some context =>
      simp only [stripInternalContextKeys, h, map_some, getD_some]
      exact Finmap.lookup_erase _ _

theorem stampAttribution_identifies :
    Identifies user (stampAttribution (context.insert (.str "user_id") (.str user.id)) user) := by
  constructor <;> simp [stampAttribution]

theorem injectAuthenticatedUserContext_configurable :
    (injectAuthenticatedUserContext config request).configurable = config.configurable := by
  rw [injectAuthenticatedUserContext.eq_def]
  split
  · rfl
  split
  · split <;> rfl
  · rfl

theorem finishConfig_configurable (hsource : request.internalSource = false) :
    (finishConfig body request pinned).configurable =
      popInternal (mergeRunContextOverrides pinned body.context false).configurable := by
  simp only [finishConfig, injectAuthenticatedUserContext_configurable, hsource]
  rfl

/-! ### Private keys -/

theorem contextFields_private {value : Json} {fields : Fields} (h : contextFields value = .ok fields)
    {key : String} (hkey : isPrivate key = true) : ∀ p ∈ Fields.pairs fields, p.1 ≠ .str key := by
  rw [contextFields.eq_def] at h
  split at h
  · cases h
    exact fun p hp => (not_mem_nil hp).elim
  · cases h
    intro p hp heq
    obtain ⟨f, hf, rfl⟩ := mem_map.mp hp
    have hpublic := of_decide_eq_true (mem_filter.mp hf).2
    cases heq
    exact hpublic hkey
  · cases h

/-- No private key is copied from the client's `context` section. -/
theorem baseConfig_private (h : baseConfig env threadId requestConfig = .ok base) {key : String}
    (hkey : isPrivate key = true) : (base.context.getD ∅).lookup (.str key) = none := by
  have hthread : key ≠ "thread_id" := fun h => by
    subst h
    exact absurd hkey (by decide)
  rw [baseConfig.eq_def] at h
  split at h
  iterate 2
    cases h
    rfl
  rename_i fields _
  obtain ⟨⟨configurable, context⟩, hsections, h⟩ := bind_eq_ok.mp h
  cases h
  rw [requestedSections] at hsections
  split at hsections
  · obtain ⟨_, -, hsections⟩ := bind_eq_ok.mp hsections
    obtain ⟨section', hcontext, hsections⟩ := bind_eq_ok.mp hsections
    cases hsections
    obtain ⟨kept, hkept, hcontext⟩ := bind_eq_ok.mp hcontext
    cases hcontext
    rw [getD_some, Finmap.lookup_insert_of_ne _ (by simpa using hthread), Dict.lookup_update,
      Dict.lastOf_eq_none (contextFields_private hkept hkey)]
    rfl
  · obtain ⟨pairs, -, hsections⟩ := bind_eq_ok.mp hsections
    cases hsections
    rfl

theorem Assembled.no_private {read : Option ReadConfig}
    (h : Assembled env threadId body request base pinned config read) {key : String}
    (hkey : isPrivate key = true) : (config.context.getD ∅).lookup (.str key) = none := by
  have hpublic : ∀ names : List String, (∀ name ∈ names, isPrivate name = false) →
      Key.str key ∉ names.map Key.str := by
    intro names hnames hmem
    obtain ⟨name, hname, heq⟩ := mem_map.mp hmem
    cases heq
    exact absurd hkey (by rw [hnames _ hname]; decide)
  rw [h.finish, finishConfig_touches.context _ (hpublic _ (by decide)),
    h.early.context _ (hpublic _ (by decide)), baseConfig_private h.sections hkey]

/-! ### Tokens -/

theorem mergeRunContextOverrides_configurable {context : Option Fields} {internal : Bool} {k : Key}
    (hk : k ∉ (overrideKeys internal).map Key.str) :
    (mergeRunContextOverrides config context internal).configurable.lookup k =
      config.configurable.lookup k := by
  rw [mergeRunContextOverrides.eq_def]
  split
  iterate 2 rfl
  exact setDefaults_lookup hk

theorem Assembled.runtimeOnly {read : Option ReadConfig}
    (h : Assembled env threadId body request base pinned config read)
    (hsource : request.internalSource = false) {key : String} (hkey : key ∈ contextRuntimeOnlyKeys) :
    config.configurable.lookup (.str key) =
      Dict.lastOf (clientConfigurable env body.config) (.str key) := by
  have hother : ∀ key ∈ contextRuntimeOnlyKeys, Key.str key ≠ .str "non_interactive" ∧
      Key.str key ∉ (overrideKeys false).map Key.str ∧ Key.str key ∉ earlyKeys.map Key.str ∧
      Key.str key ≠ .str "thread_id" := by decide
  obtain ⟨hflag, hoverride, hearly, hthread⟩ := hother key hkey
  rw [h.finish, finishConfig_configurable hsource]
  refine (Finmap.lookup_erase_ne hflag).trans ?_
  rw [mergeRunContextOverrides_configurable hoverride, h.early.configurable _ hearly,
    baseConfig_configurable h.sections, Dict.lookup_update,
    Finmap.lookup_eq_none.mpr (by simpa using hthread), or_none]

/-! ### The recursion limit -/

/-- A positive int, which no bool is. -/
def isPositiveInt : Json → Bool
  | .int n => 0 < n
  | _ => false

/-- The recursion limit a client supplies. -/
def clientRecursionLimit (body : RunBody) : Option Json :=
  body.config.bind fun fields => fields.lookup "recursion_limit"

theorem clampRecursionLimit_bounded_iff {value : Json} {limit : ℕ} (hlimit : 1 ≤ limit) :
    (1 ≤ clampRecursionLimit value limit ∧ clampRecursionLimit value limit ≤ limit) ↔
      isPositiveInt value = true ∨ 100 ≤ limit := by
  cases value with
  | int n =>
    simp only [clampRecursionLimit, defaultRecursionLimit, isPositiveInt, decide_eq_true_eq]
    split <;> omega
  | _ =>
    simp only [clampRecursionLimit, defaultRecursionLimit, isPositiveInt, Bool.false_eq_true,
      false_or]
    omega

theorem Assembled.recursionLimit {read : Option ReadConfig}
    (h : Assembled env threadId body request base pinned config read) {value : Json}
    (hvalue : clientRecursionLimit body = some value) :
    config.rest.lookup (.str "recursion_limit") =
      some (.int (clampRecursionLimit value env.maxRecursionLimit)) := by
  rw [h.finish, finishConfig_touches.rest _ (by decide), h.early.rest _ (by decide)]
  have hbase := h.sections
  obtain ⟨fields, hfields, hvalue⟩ := bind_eq_some_iff.mp hvalue
  rw [hfields, baseConfig.eq_def] at hbase
  cases fields with
  | nil => cases hvalue
  | cons f fields =>
    obtain ⟨⟨configurable, context⟩, -, hbase⟩ := bind_eq_ok.mp hbase
    cases hbase
    dsimp only
    rw [hvalue]
    exact Finmap.lookup_insert _

end

/-- The fields of a context that say who the user is, or that only the server sets. -/
def serverKeys : List String :=
  ["user_id", "user_role", "oauth_provider", "oauth_id", "non_interactive"]

/-- What the request's user fixes in a config, whatever the body. -/
structure Authenticated (env : GatewayEnv) (user : RequestUser) (body : RunBody)
    (config : RunConfig) : Prop where
  identified : ∃ context, config.context = some context ∧ Identifies user context ∧
    context.lookup (.str "non_interactive") = none
  interactive : config.configurable.lookup (.str "non_interactive") = none
  no_private : ∀ key, isPrivate key = true → (config.context.getD ∅).lookup (.str key) = none
  runtimeOnly : ∀ key ∈ contextRuntimeOnlyKeys, config.configurable.lookup (.str key) =
    Dict.lastOf (clientConfigurable env body.config) (.str key)

theorem runConfig_authenticated {env : GatewayEnv} {threadId : String} {request : RunRequest}
    {user : RequestUser} (huser : request.user = some user)
    (hrole : user.systemRole ≠ some internalSystemRole) (hsource : request.internalSource = false)
    {body : RunBody} {config : RunConfig} (hok : runConfig env threadId body request = .ok config) :
    Authenticated env user body config := by
  obtain ⟨base, pinned, read, h⟩ := runConfig_ok hok
  obtain ⟨context, hcontext, hflag⟩ := finishConfig_context body pinned huser hrole hsource
  rw [← h.finish] at hcontext
  refine ⟨⟨_, hcontext, stampAttribution_identifies, ?_⟩, ?_, fun key hkey => h.no_private hkey,
    fun key hkey => h.runtimeOnly hsource hkey⟩
  · simpa [stampAttribution] using hflag
  · rw [h.finish, finishConfig_configurable hsource]
    exact Finmap.lookup_erase _ _

theorem Authenticated.lookup_eq {env : GatewayEnv} {user : RequestUser} {body body' : RunBody}
    {config config' : RunConfig} (h : Authenticated env user body config)
    (h' : Authenticated env user body' config') {key : String} (hkey : key ∈ serverKeys) :
    (config'.context.getD ∅).lookup (.str key) = (config.context.getD ∅).lookup (.str key) := by
  obtain ⟨context, hcontext, hid, hflag⟩ := h.identified
  obtain ⟨context', hcontext', hid', hflag'⟩ := h'.identified
  rw [hcontext, hcontext', getD_some, getD_some]
  simp only [serverKeys, mem_cons, not_mem_nil, or_false] at hkey
  rcases hkey with rfl | rfl | rfl | rfl | rfl
  · rw [hid.userId, hid'.userId]
  · rw [hid.userRole, hid'.userRole]
  · rw [hid.oauthProvider, hid'.oauthProvider]
  · rw [hid.oauthId, hid'.oauthId]
  · rw [hflag, hflag']

/-- **A client cannot forge its identity or an internal flag, and its recursion limit is bounded
exactly if it is a positive int or the ceiling is no less than the default.** For any accepted body
of a user who is not internal: the context identifies that user, neither section has
`non_interactive`, no key of the context is private, and what `configurable` has under a
runtime-only key is what the client's own `configurable` section says. Any other accepted body gives
the same values for the keys of the server, and, with the same client config, for the runtime-only
keys of `configurable`. -/
theorem identity_not_forged_iff (env : GatewayEnv) (threadId : String) (request : RunRequest)
    (user : RequestUser) (huser : request.user = some user)
    (hrole : user.systemRole ≠ some internalSystemRole) (hsource : request.internalSource = false)
    (body : RunBody) (config : RunConfig) (hok : runConfig env threadId body request = .ok config) :
    Authenticated env user body config ∧
    (∀ body' config', runConfig env threadId body' request = .ok config' →
      (∀ key ∈ serverKeys, (config'.context.getD ∅).lookup (.str key) =
        (config.context.getD ∅).lookup (.str key)) ∧
      (body'.config = body.config → ∀ key ∈ contextRuntimeOnlyKeys,
        config'.configurable.lookup (.str key) = config.configurable.lookup (.str key))) ∧
    ∀ value, clientRecursionLimit body = some value →
      ((∃ n : ℤ, config.rest.lookup (.str "recursion_limit") = some (.int n) ∧ 1 ≤ n ∧
        n ≤ env.maxRecursionLimit) ↔ isPositiveInt value = true ∨ 100 ≤ env.maxRecursionLimit) := by
  have hauth := runConfig_authenticated huser hrole hsource hok
  refine ⟨hauth, fun body' config' hok' => ⟨fun key hkey => ?_, fun hsame key hkey => ?_⟩,
    fun value hvalue => ?_⟩
  · exact hauth.lookup_eq (runConfig_authenticated huser hrole hsource hok') hkey
  · have hauth' := runConfig_authenticated huser hrole hsource hok'
    rw [hauth.runtimeOnly key hkey, hauth'.runtimeOnly key hkey, hsame]
  · obtain ⟨base, pinned, read, h⟩ := runConfig_ok hok
    rw [h.recursionLimit hvalue, ← clampRecursionLimit_bounded_iff env.one_le_max]
    simp

/-! ### A recursion limit that is no number -/

/-- A body with a text for a recursion limit. -/
def textLimit : RunBody := { config := some [("recursion_limit", .str "many")] }

/-- The recursion limit of an accepted body's config. -/
def limitOf (result : Except RunExn RunConfig) : Option ℤ :=
  match result with
  | .ok config => match config.rest.lookup (.str "recursion_limit") with
    | some (.int n) => some n
    | _ => none
  | .error _ => none

/-- The ceiling is 50, and the run gets 100. -/
theorem default_above_ceiling :
    limitOf (runConfig demoGateway "mine" textLimit userRequest) = some 100 ∧
    demoGateway.maxRecursionLimit = 50 := by
  decide +kernel

/-- A body that claims to be somebody else. -/
def forgedBody : RunBody :=
  { config := some [("context", .obj [("user_id", .str "bob"), ("user_role", .str "admin"),
      ("__slash_skill_secret_source", .bool true), ("non_interactive", .bool true)]),
      ("recursion_limit", .int 1000000)]
    context := some [("user_id", .str "bob"), ("github_token", .str "token")] }

/-- It stays who it is. -/
theorem identity_not_forged_demo : ∃ config,
    runConfig demoGateway "mine" forgedBody userRequest = .ok config ∧
    Authenticated demoGateway ⟨"alice", some "user", none, none⟩ forgedBody config ∧
    ∃ n : ℤ, config.rest.lookup (.str "recursion_limit") = some (.int n) ∧ 1 ≤ n ∧ n ≤ 50 := by
  obtain ⟨config, hok⟩ := accepted_of_threadOf (runConfig demoGateway "mine" forgedBody userRequest)
    (by decide +kernel)
  have h := identity_not_forged_iff demoGateway "mine" userRequest _ rfl (by decide) rfl forgedBody
    config hok
  exact ⟨config, hok, h.1, (h.2.2 _ rfl).mpr (.inl rfl)⟩

end AfterFlow.Runs
