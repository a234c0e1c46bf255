import AfterFlow.Demo
import AfterFlow.Runs.Config

/-!
# A run is confined to its thread

The thread a run works on is the one under `configurable["thread_id"]`, while ownership was checked
for the one in the URL. The five functions agree on the thread of the URL with one exception:
without a `context` section, the client's `configurable` section is written over it, and only a
checkpoint puts it back. Everything else a body can say about `thread_id` makes no difference.

## Main results

* `buildRunConfig_ok`, `applyCheckpoint_ok` — what the steps leave alone
* `run_confined_iff` — which bodies stay on the thread, and that their thread ids do not matter
* `client_thread_wins` — a body that names another thread
-/

namespace AfterFlow.Runs

open Keyed List Option

/-! ### What each step leaves alone -/

section Steps

variable {env : GatewayEnv} {threadId : String} {body : RunBody} {request : RunRequest}
  {config config' : RunConfig} {context fields : Fields} {keys : List String} {d : PyDict} {k : Key}

theorem bind_eq_ok {α β : Type} {x : Except RunExn α} {f : α → Except RunExn β} {b : β} :
    (x >>= f) = .ok b ↔ ∃ a, x = .ok a ∧ f a = .ok b := by
  cases x with
  | error | ok => simp [bind, Except.bind]

/-- `config` comes from `base` by changes under `names` in the sections and under `entries` beside
them. -/
structure Touches (names entries : List String) (base config : RunConfig) : Prop where
  configurable : ∀ k, k ∉ names.map Key.str →
    config.configurable.lookup k = base.configurable.lookup k
  context : ∀ k, k ∉ names.map Key.str →
    (config.context.getD ∅).lookup k = (base.context.getD ∅).lookup k
  rest : ∀ k, k ∉ entries.map Key.str → config.rest.lookup k = base.rest.lookup k

namespace Touches

variable {names names' entries entries' : List String} {base : RunConfig}

theorem refl : Touches names entries config config :=
  ⟨fun _ _ => rfl, fun _ _ => rfl, fun _ _ => rfl⟩

theorem trans (h : Touches names entries base config)
    (h' : Touches names' entries' config config') :
    Touches (names ++ names') (entries ++ entries') base config' := by
  refine ⟨fun k hk => ?_, fun k hk => ?_, fun k hk => ?_⟩ <;>
    rw [map_append, mem_append, not_or] at hk
  · rw [h'.configurable k hk.2, h.configurable k hk.1]
  · rw [h'.context k hk.2, h.context k hk.1]
  · rw [h'.rest k hk.2, h.rest k hk.1]

theorem mono (h : Touches names entries base config) (hn : names ⊆ names')
    (he : entries ⊆ entries') : Touches names' entries' base config :=
  ⟨fun k hk => h.configurable k fun hmem => hk (map_subset _ hn hmem),
    fun k hk => h.context k fun hmem => hk (map_subset _ hn hmem),
    fun k hk => h.rest k fun hmem => hk (map_subset _ he hmem)⟩

end Touches

theorem withAgentName_ok {id : Option String} (h : withAgentName env id config = .ok config') :
    Touches ["agent_name"] ["run_name"] config config' := by
  rw [withAgentName.eq_def] at h
  split at h
  iterate 3
    cases h
    exact .refl
  simp only at h
  split at h
  · cases h
  · cases h
    refine ⟨fun k hk => ?_, fun k hk => ?_, fun k hk => ?_⟩
    · exact Finmap.lookup_insert_of_ne _ (by simpa using hk)
    · exact Finmap.lookup_insert_of_ne _ (by simpa using hk)
    · rw [Dict.lookup_setDefault, if_neg (by simpa using hk)]
      rfl

theorem withMetadata_ok {metadata : Option Fields} (h : withMetadata metadata config = .ok config') :
    Touches [] ["metadata"] config config' := by
  rw [withMetadata.eq_def] at h
  split at h
  iterate 2
    cases h
    exact .refl
  split at h
  · cases h
    exact ⟨fun _ _ => rfl, fun _ _ => rfl,
      fun k hk => Finmap.lookup_insert_of_ne _ (by simpa using hk)⟩
  · cases h

theorem buildRunConfig_ok {requestConfig metadata : Option Fields} {assistantId : Option String}
    (h : buildRunConfig env threadId requestConfig metadata assistantId = .ok config) :
    ∃ base, baseConfig env threadId requestConfig = .ok base ∧
      Touches ["agent_name"] ["run_name", "metadata"] base config := by
  obtain ⟨base, hbase, h⟩ := bind_eq_ok.mp h
  obtain ⟨named, hnamed, h⟩ := bind_eq_ok.mp h
  exact ⟨base, hbase, (withAgentName_ok hnamed).trans (withMetadata_ok h)⟩

theorem applyCheckpoint_ok (h : applyCheckpointToRunConfig env config body threadId = .ok config') :
    ∃ read, requestedCheckpoint env body threadId = .ok read ∧
      Touches ["thread_id", "checkpoint_ns", "checkpoint_id", "checkpoint_map"] [] config config' ∧
      config'.configurable.lookup (.str "thread_id") =
        if read.isSome then some (.str threadId) else config.configurable.lookup (.str "thread_id") := by
  obtain ⟨read, hread, h⟩ := bind_eq_ok.mp h
  refine ⟨read, hread, ?_⟩
  cases read with
  | none =>
    cases h
    exact ⟨.refl, rfl⟩
  | some read =>
    simp only at h
    split at h
    · cases h
    · cases h
    · cases h
      refine ⟨⟨fun k hk => ?_, fun _ _ => rfl, fun _ _ => rfl⟩, ?_⟩
      · simp only [map_cons, map_nil, mem_cons, not_mem_nil, or_false,
          not_or] at hk
        dsimp only
        split <;> simp [hk]
      · dsimp only
        split <;> simp

theorem setDefaults_lookup (h : k ∉ keys.map Key.str) :
    (setDefaults d context keys).lookup k = d.lookup k := by
  induction keys generalizing d with
  | nil => rfl
  | cons key keys ih =>
    rw [map_cons, mem_cons, not_or] at h
    rw [setDefaults, foldl_cons]
    refine (ih h.2).trans ?_
    split
    · rw [Dict.lookup_setDefault, if_neg h.1]
    · rfl

theorem mergeRunContextOverrides_touches {context : Option Fields} {internal : Bool} :
    Touches (overrideKeys internal ++ contextRuntimeOnlyKeys ++ ["user_id", "channel_user_id"]) []
      config (mergeRunContextOverrides config context internal) := by
  rw [mergeRunContextOverrides.eq_def]
  split
  iterate 2 exact .refl
  refine ⟨fun k hk => setDefaults_lookup fun hmem => hk ?_, fun k hk => setDefaults_lookup hk,
    fun _ _ => rfl⟩
  rw [map_append, map_append]
  exact mem_append_left _ (mem_append_left _ hmem)

theorem stripInternalContextKeys_touches :
    Touches contextInternalCallerKeys [] config (stripInternalContextKeys config) := by
  refine ⟨fun k hk => ?_, fun k hk => ?_, fun _ _ => rfl⟩
  · exact Finmap.lookup_erase_ne (by simpa [contextInternalCallerKeys] using hk)
  · cases hc : config.context with
    | none => simp [stripInternalContextKeys, hc]
    | some context =>
      simp only [stripInternalContextKeys, hc, map_some, getD_some]
      exact Finmap.lookup_erase_ne (by simpa [contextInternalCallerKeys] using hk)

theorem injectAuthenticatedUserContext_touches :
    Touches ["user_id", "user_role", "oauth_provider", "oauth_id"] [] config
      (injectAuthenticatedUserContext config request) := by
  rw [injectAuthenticatedUserContext.eq_def]
  split
  · exact .refl
  refine ⟨fun k _ => ?_, fun k hk => ?_, fun k _ => ?_⟩
  · split
    · split <;> rfl
    · rfl
  · simp only [map_cons, map_nil, mem_cons, not_mem_nil, or_false,
      not_or] at hk
    split
    · split
      · simp [Finmap.lookup_erase_ne, hk]
      · simp [stampAttribution, hk]
    · simp [stampAttribution, hk]
  · split
    · split <;> rfl
    · rfl

end Steps

/-! ### From the body to the config -/

section Run

variable {env : GatewayEnv} {threadId : String} {body : RunBody} {request : RunRequest}
  {base pinned config : RunConfig} {requestConfig : Option Fields}

/-- The keys the steps up to the checkpoint may write, beside the client's sections. -/
def earlyKeys : List String :=
  ["agent_name", "thread_id", "checkpoint_ns", "checkpoint_id", "checkpoint_map"]

/-- The keys the steps after the checkpoint may write. -/
def lateKeys : List String :=
  overrideKeys true ++ contextRuntimeOnlyKeys ++ ["user_id", "channel_user_id"] ++
    contextInternalCallerKeys ++ ["user_id", "user_role", "oauth_provider", "oauth_id"]

theorem finishConfig_touches : Touches lateKeys [] config (finishConfig body request config) := by
  rw [finishConfig]
  generalize request.internalSource = internal
  cases internal with
  | true =>
    exact (mergeRunContextOverrides_touches.trans injectAuthenticatedUserContext_touches).mono
      (by decide) (by decide)
  | false =>
    exact ((mergeRunContextOverrides_touches.trans stripInternalContextKeys_touches).trans
      injectAuthenticatedUserContext_touches).mono (by decide) (by decide)

/-- The pairs the client's `configurable` section adds, where it is used. -/
def clientConfigurable (env : GatewayEnv) : Option Fields → List (Key × Json)
  | none => []
  | some fields =>
    match fields.lookup "context", configurablePairs env (fields.lookup "configurable") with
    | none, .ok pairs => pairs
    | _, _ => []

theorem baseConfig_configurable (h : baseConfig env threadId requestConfig = .ok base) :
    base.configurable = Dict.update (Finmap.singleton (.str "thread_id") (.str threadId))
      (clientConfigurable env requestConfig) := by
  rw [baseConfig.eq_def] at h
  split at h
  · cases h
    rfl
  · cases h
    rfl
  · rename_i fields _
    obtain ⟨⟨configurable, context⟩, hsections, h⟩ := bind_eq_ok.mp h
    cases h
    rw [requestedSections] at hsections
    rw [clientConfigurable]
    cases hcontext : fields.lookup "context" with
    | some value =>
      rw [hcontext] at hsections
      obtain ⟨_, -, hsections⟩ := bind_eq_ok.mp hsections
      obtain ⟨kept, -, hsections⟩ := bind_eq_ok.mp hsections
      cases hsections
      rfl
    | none =>
      rw [hcontext] at hsections
      obtain ⟨pairs, hpairs, hsections⟩ := bind_eq_ok.mp hsections
      cases hsections
      rw [hpairs]

/-- What a config that is handed over was made of: the client's sections in `base`, the checkpoint
in `pinned`. -/
structure Assembled (env : GatewayEnv) (threadId : String) (body : RunBody) (request : RunRequest)
    (base pinned config : RunConfig) (read : Option ReadConfig) : Prop where
  sections : baseConfig env threadId body.config = .ok base
  checkpoint : requestedCheckpoint env body threadId = .ok read
  early : Touches earlyKeys ["run_name", "metadata"] base pinned
  thread : pinned.configurable.lookup (.str "thread_id") =
    if read.isSome then some (.str threadId) else base.configurable.lookup (.str "thread_id")
  finish : config = finishConfig body request pinned

theorem runConfig_ok (h : runConfig env threadId body request = .ok config) :
    ∃ base pinned read, Assembled env threadId body request base pinned config read := by
  obtain ⟨built, hbuilt, h⟩ := bind_eq_ok.mp h
  obtain ⟨pinned, hpinned, h⟩ := bind_eq_ok.mp h
  cases h
  obtain ⟨base, hbase, hb⟩ := buildRunConfig_ok hbuilt
  obtain ⟨read, hread, hp, hthread⟩ := applyCheckpoint_ok hpinned
  refine ⟨base, pinned, read, hbase, hread, hb.trans hp, ?_, rfl⟩
  rw [hthread, hb.configurable _ (by decide)]

/-- The client's config does not get to name another thread: a checkpoint is given, or the
`configurable` section that is used, if any, names no thread or this one. -/
def Confined (env : GatewayEnv) (threadId : String) (body : RunBody) : Prop :=
  (∃ read, requestedCheckpoint env body threadId = .ok (some read)) ∨
    ∀ value, Dict.lastOf (clientConfigurable env body.config) (.str "thread_id") = some value →
      value = .str threadId

theorem runConfig_thread_iff (h : runConfig env threadId body request = .ok config) :
    config.configurable.lookup (.str "thread_id") = some (.str threadId) ↔
      Confined env threadId body := by
  obtain ⟨base, pinned, read, hbase, hread, -, hthread, rfl⟩ := runConfig_ok h
  rw [finishConfig_touches.configurable _ (by decide), hthread, baseConfig_configurable hbase,
    Dict.lookup_update, Finmap.lookup_singleton_eq, Confined, hread]
  cases read with
  | some read => simp
  | none =>
    cases Dict.lastOf (clientConfigurable env body.config) (.str "thread_id") with
    | none | some => simp

end Run

/-! ### Thread ids do not matter -/

section Noninterference

variable {env : GatewayEnv} {threadId : String} {body body' : RunBody} {request : RunRequest}
  {config config' : RunConfig} {fields fields' : Fields}

/-- A section without its thread id. -/
def dropThreadId : Json → Json
  | .obj fields => .obj (fields.filter fun f => f.1 ≠ "thread_id")
  | value => value

/-- An entry of a client config, without the thread id if it is a section. -/
def dropEntry (key : String) (value : Json) : Json :=
  if key = "configurable" ∨ key = "context" then dropThreadId value else value

/-- The body without the thread ids of its sections. -/
def RunBody.dropThreadIds (body : RunBody) : RunBody :=
  { body with config := body.config.map fun fields => fields.map fun f => (f.1, dropEntry f.1 f.2) }

/-- The configs differ in the thread of `configurable` at most. -/
structure RunConfig.Agrees (config config' : RunConfig) : Prop where
  configurable : Dict.AgreeOff (.str "thread_id") config.configurable config'.configurable
  context : config.context = config'.context
  rest : config.rest = config'.rest

/-- The results fail in the same way, or agree. -/
def Agreeing : Except RunExn RunConfig → Except RunExn RunConfig → Prop
  | .ok config, .ok config' => config.Agrees config'
  | .error e, .error e' => e = e'
  | _, _ => False

theorem Agreeing.refl (x : Except RunExn RunConfig) : Agreeing x x := by
  cases x with
  | ok config => exact ⟨Dict.AgreeOff.refl, rfl, rfl⟩
  | error e => rfl

theorem Agreeing.bind {x x' : Except RunExn RunConfig} {f f' : RunConfig → Except RunExn RunConfig}
    (h : Agreeing x x') (hf : ∀ c c', c.Agrees c' → Agreeing (f c) (f' c')) :
    Agreeing (x >>= f) (x' >>= f') := by
  match x, x', h with
  | .ok c, .ok c', h => exact hf c c' h
  | .error _, .error _, h => exact h

private theorem lookup_dropped (fields : Fields) (key : String) :
    (fields.map fun f => (f.1, dropEntry f.1 f.2)).lookup key =
      (fields.lookup key).map (dropEntry key) := by
  induction fields with
  | nil => rfl
  | cons f fields ih =>
    rw [map_cons, lookup_cons, lookup_cons]
    split
    · rename_i h
      rw [beq_iff_eq.mp h]
      rfl
    · exact ih

private theorem otherEntries_dropped (fields : Fields) :
    otherEntries (fields.map fun f => (f.1, dropEntry f.1 f.2)) = otherEntries fields := by
  rw [otherEntries, List.filter_map]
  refine (List.map_congr_left fun f hf => ?_).trans (List.map_id _)
  have hkey : f.1 ≠ "configurable" ∧ f.1 ≠ "context" :=
    of_decide_eq_true (List.mem_filter.mp hf).2
  rw [dropEntry, if_neg (by tauto)]
  rfl

/-- Two client configs that are the same without thread ids. -/
def SameButThreadIds (fields fields' : Fields) : Prop :=
  (fields.map fun f => (f.1, dropEntry f.1 f.2)) = fields'.map fun f => (f.1, dropEntry f.1 f.2)

namespace SameButThreadIds

theorem lookup (h : SameButThreadIds fields fields') (key : String) :
    (fields.lookup key).map (dropEntry key) = (fields'.lookup key).map (dropEntry key) := by
  rw [← lookup_dropped, ← lookup_dropped, h]

theorem otherEntries (h : SameButThreadIds fields fields') :
    Runs.otherEntries fields = Runs.otherEntries fields' := by
  rw [← otherEntries_dropped, ← otherEntries_dropped fields', h]

end SameButThreadIds

private theorem dropThreadId_eq {value value' : Json} (h : dropThreadId value = dropThreadId value') :
    value = value' ∨ ∃ fs fs' : Fields, value = .obj fs ∧ value' = .obj fs' ∧
      fs.filter (fun f => f.1 ≠ "thread_id") = fs'.filter fun f => f.1 ≠ "thread_id" := by
  cases value <;> cases value' <;> first
    | exact .inl h
    | (simp only [dropThreadId, Json.obj.injEq, reduceCtorEq] at h) <;> exact .inr ⟨_, _, rfl, rfl, h⟩

private theorem pairs_filter {fs fs' : Fields}
    (h : fs.filter (fun f => f.1 ≠ "thread_id") = fs'.filter fun f => f.1 ≠ "thread_id") :
    (Fields.pairs fs).filter (fun p => p.1 ≠ .str "thread_id") =
      (Fields.pairs fs').filter fun p => p.1 ≠ .str "thread_id" := by
  have hmap : ∀ l : Fields, (Fields.pairs l).filter (fun p => p.1 ≠ .str "thread_id") =
      Fields.pairs (l.filter fun f => f.1 ≠ "thread_id") := fun l => by
    rw [Fields.pairs, List.filter_map, Fields.pairs]
    congr 2
    funext f
    simp
  rw [hmap, hmap, h]

private theorem contextSection_agree {value value' : Json}
    (h : dropThreadId value = dropThreadId value') :
    contextSection threadId value = contextSection threadId value' := by
  rcases dropThreadId_eq h with rfl | ⟨fs, fs', rfl, rfl, hfs⟩
  · rfl
  · have hkept : (fs.filter fun f => ¬ isPrivate f.1).filter (fun f => f.1 ≠ "thread_id") =
        (fs'.filter fun f => ¬ isPrivate f.1).filter fun f => f.1 ≠ "thread_id" := by
      rw [filter_comm, hfs, filter_comm]
    have hagree : Dict.AgreeOff (.str "thread_id")
        (Dict.update (∅ : PyDict) (Fields.pairs (fs.filter fun f => ¬ isPrivate f.1)))
        (Dict.update (∅ : PyDict) (Fields.pairs (fs'.filter fun f => ¬ isPrivate f.1))) :=
      Dict.AgreeOff.refl.update (pairs_filter hkept)
    refine congrArg Except.ok (hagree.insert.eq ?_)
    rw [Finmap.lookup_insert, Finmap.lookup_insert]

/-- A `configurable` section gives the same pairs, thread ids aside, or fails in the same way. -/
private theorem configurablePairs_agree (env : GatewayEnv) {value value' : Option Json}
    (h : value.map dropThreadId = value'.map dropThreadId) :
    (∃ e, configurablePairs env value = .error e ∧ configurablePairs env value' = .error e) ∨
    ∃ pairs pairs', configurablePairs env value = .ok pairs ∧
      configurablePairs env value' = .ok pairs' ∧
      pairs.filter (fun p => p.1 ≠ .str "thread_id") =
        pairs'.filter fun p => p.1 ≠ .str "thread_id" := by
  have hsame : ∀ x : Except RunExn (List (Key × Json)), (∃ e, x = .error e) ∨ ∃ pairs, x = .ok pairs :=
    fun x => by cases x <;> simp
  match value, value', h with
  | none, none, _ => exact .inr ⟨[], [], rfl, rfl, rfl⟩
  | some value, some value', h =>
    rcases dropThreadId_eq (some.inj h) with rfl | ⟨fs, fs', rfl, rfl, hfs⟩
    · rcases hsame (configurablePairs env (some value)) with ⟨e, he⟩ | ⟨pairs, hp⟩
      · exact .inl ⟨e, he, he⟩
      · exact .inr ⟨pairs, pairs, hp, hp, rfl⟩
    · exact .inr ⟨_, _, rfl, rfl, pairs_filter hfs⟩

private theorem loggedKeys_agree {value value' : Option Json}
    (h : value.map dropThreadId = value'.map dropThreadId) : loggedKeys value = loggedKeys value' := by
  match value, value', h with
  | none, none, _ => rfl
  | some value, some value', h =>
    rcases dropThreadId_eq (some.inj h) with rfl | ⟨fs, fs', rfl, rfl, -⟩ <;> rfl

theorem requestedConfig_agrees (h : SameButThreadIds fields fields') :
    Agreeing (requestedConfig env threadId fields) (requestedConfig env threadId fields') := by
  have hlimit : fields.lookup "recursion_limit" = fields'.lookup "recursion_limit" := by
    have hl := h.lookup "recursion_limit"
    have hid : dropEntry "recursion_limit" = id := by
      funext value
      simp [dropEntry]
    simpa only [hid, Option.map_id, id] using hl
  have hcontext : (fields.lookup "context").map dropThreadId =
      (fields'.lookup "context").map dropThreadId := h.lookup "context"
  have hconfigurable : (fields.lookup "configurable").map dropThreadId =
      (fields'.lookup "configurable").map dropThreadId := h.lookup "configurable"
  rw [requestedConfig, requestedConfig, h.otherEntries, hlimit, requestedSections,
    requestedSections]
  match fields.lookup "context", fields'.lookup "context", hcontext with
  | some value, some value', hvalue =>
    dsimp only
    rw [loggedKeys_agree hconfigurable, contextSection_agree (some.inj hvalue)]
    exact Agreeing.refl _
  | none, none, _ =>
    rcases configurablePairs_agree env hconfigurable with
      ⟨e, he, he'⟩ | ⟨pairs, pairs', hp, hp', hpairs⟩
    · rw [he, he']
      rfl
    · rw [hp, hp']
      exact ⟨Dict.AgreeOff.refl.update hpairs, rfl, rfl⟩

theorem baseConfig_agrees {requestConfig requestConfig' : Option Fields}
    (h : requestConfig.map (List.map fun f => (f.1, dropEntry f.1 f.2)) =
      requestConfig'.map (List.map fun f => (f.1, dropEntry f.1 f.2))) :
    Agreeing (baseConfig env threadId requestConfig) (baseConfig env threadId requestConfig') := by
  match requestConfig, requestConfig', h with
  | none, none, _ => exact Agreeing.refl _
  | some [], some [], _ => exact Agreeing.refl _
  | some (f :: fs), some (f' :: fs'), h => exact requestedConfig_agrees (some.inj h)

theorem textAt_agree {d d' : PyDict} (h : Dict.AgreeOff (.str "thread_id") d d') :
    textAt d "agent_name" = textAt d' "agent_name" := by
  rw [textAt, textAt, h _ (by decide)]

theorem resolveRootRunName_agree {id : String} (h : config.Agrees config') :
    resolveRootRunName env config id = resolveRootRunName env config' id := by
  simp only [resolveRootRunName, textAt_agree h.configurable, h.context]

theorem withAgentName_agrees {id : Option String} (h : config.Agrees config') :
    Agreeing (withAgentName env id config) (withAgentName env id config') := by
  rw [withAgentName.eq_def, withAgentName.eq_def]
  split
  iterate 3 exact h
  rename_i name _ _
  have hname : agentName config (normalizeAssistantId env name) =
      agentName config' (normalizeAssistantId env name) := by
    rw [agentName, agentName, textAt_agree h.configurable, h.context]
  have hnamed : ∀ n, (config.named n).Agrees (config'.named n) := fun n =>
    ⟨h.configurable.insert, by rw [RunConfig.named, RunConfig.named, h.context], h.rest⟩
  dsimp only
  split
  · rfl
  · rw [hname]
    have hn := hnamed (agentName config' (normalizeAssistantId env name))
    refine ⟨hn.configurable, hn.context, ?_⟩
    dsimp only
    rw [hn.rest, resolveRootRunName_agree hn]

theorem withMetadata_agrees {metadata : Option Fields} (h : config.Agrees config') :
    Agreeing (withMetadata metadata config) (withMetadata metadata config') := by
  rw [withMetadata.eq_def, withMetadata.eq_def, h.rest]
  split
  iterate 2 exact h
  split
  · exact ⟨h.configurable, h.context, rfl⟩
  · rfl

theorem applyCheckpoint_agrees (env : GatewayEnv) (threadId : String) (body : RunBody)
    (h : config.Agrees config') :
    Agreeing (applyCheckpointToRunConfig env config body threadId)
      (applyCheckpointToRunConfig env config' body threadId) := by
  rw [applyCheckpointToRunConfig, applyCheckpointToRunConfig]
  cases requestedCheckpoint env body threadId with
  | error e => rfl
  | ok read =>
    cases read with
    | none => exact h
    | some read =>
      dsimp only [bind, Except.bind]
      split
      · rfl
      · rfl
      · refine ⟨?_, h.context, h.rest⟩
        dsimp only
        split
        · exact h.configurable.insert.insert.insert.insert
        · exact h.configurable.insert.insert.insert

theorem setDefaults_agree {d d' : PyDict} {context : Fields} {keys : List String}
    (h : Dict.AgreeOff (.str "thread_id") d d') :
    Dict.AgreeOff (.str "thread_id") (setDefaults d context keys) (setDefaults d' context keys) := by
  induction keys generalizing d d' with
  | nil => exact h
  | cons key keys ih =>
    rw [setDefaults, setDefaults, foldl_cons, foldl_cons]
    refine ih ?_
    split
    · exact h.setDefault
    · exact h

theorem mergeRunContextOverrides_agrees {context : Option Fields} {internal : Bool}
    (h : config.Agrees config') : (mergeRunContextOverrides config context internal).Agrees
      (mergeRunContextOverrides config' context internal) := by
  rw [mergeRunContextOverrides.eq_def, mergeRunContextOverrides.eq_def, h.context]
  split
  iterate 2 exact h
  exact ⟨setDefaults_agree h.configurable, rfl, h.rest⟩

theorem stripInternalContextKeys_agrees (h : config.Agrees config') :
    (stripInternalContextKeys config).Agrees (stripInternalContextKeys config') :=
  ⟨h.configurable.erase, by rw [stripInternalContextKeys, stripInternalContextKeys, h.context], h.rest⟩

theorem injectAuthenticatedUserContext_agrees (h : config.Agrees config') :
    (injectAuthenticatedUserContext config request).Agrees
      (injectAuthenticatedUserContext config' request) := by
  rw [injectAuthenticatedUserContext.eq_def, injectAuthenticatedUserContext.eq_def, h.context]
  split
  · exact h
  split
  · split
    · exact ⟨h.configurable, rfl, h.rest⟩
    · exact ⟨h.configurable, rfl, h.rest⟩
  · exact ⟨h.configurable, rfl, h.rest⟩

theorem runConfig_agrees (env : GatewayEnv) (threadId : String) (request : RunRequest)
    (h : body.dropThreadIds = body'.dropThreadIds) :
    Agreeing (runConfig env threadId body request) (runConfig env threadId body' request) := by
  obtain ⟨assistantId, metadata, requestConfig, context, checkpointId, checkpoint⟩ := body
  obtain ⟨_, _, requestConfig', _, _, _⟩ := body'
  simp only [RunBody.dropThreadIds, RunBody.mk.injEq] at h
  obtain ⟨rfl, rfl, hconfig, rfl, rfl, rfl⟩ := h
  have hbuild : Agreeing (buildRunConfig env threadId requestConfig metadata assistantId)
      (buildRunConfig env threadId requestConfig' metadata assistantId) :=
    (baseConfig_agrees hconfig).bind fun _ _ h₁ =>
      (withAgentName_agrees h₁).bind fun _ _ h₂ => withMetadata_agrees h₂
  refine hbuild.bind fun _ _ h₁ => ?_
  have hpinned := applyCheckpoint_agrees env threadId
    ⟨assistantId, metadata, requestConfig, context, checkpointId, checkpoint⟩ h₁
  refine Agreeing.bind hpinned fun _ _ h₂ => injectAuthenticatedUserContext_agrees ?_
  dsimp only
  split
  · exact mergeRunContextOverrides_agrees h₂
  · exact stripInternalContextKeys_agrees (mergeRunContextOverrides_agrees h₂)

end Noninterference

/-- **Runs are confined to their thread exactly if their clients' configs name no other one.** For
any two accepted bodies that differ in the thread ids of their sections only, possibly the same one:
both configs have the thread of the URL and are equal if and only if both bodies are confined. -/
theorem run_confined_iff (env : GatewayEnv) (threadId : String) (body body' : RunBody)
    (request : RunRequest) (config config' : RunConfig)
    (hsame : body.dropThreadIds = body'.dropThreadIds)
    (hok : runConfig env threadId body request = .ok config)
    (hok' : runConfig env threadId body' request = .ok config') :
    (config.configurable.lookup (.str "thread_id") = some (.str threadId) ∧
      config'.configurable.lookup (.str "thread_id") = some (.str threadId) ∧ config = config') ↔
      Confined env threadId body ∧ Confined env threadId body' := by
  rw [← runConfig_thread_iff hok, ← runConfig_thread_iff hok']
  refine ⟨fun h => ⟨h.1, h.2.1⟩, fun ⟨hthread, hthread'⟩ => ⟨hthread, hthread', ?_⟩⟩
  have hagree := runConfig_agrees env threadId request hsame
  rw [hok, hok'] at hagree
  have hconfigurable := hagree.configurable.eq (hthread.trans hthread'.symm)
  obtain ⟨configurable, context, rest⟩ := config
  obtain ⟨configurable', context', rest'⟩ := config'
  obtain ⟨-, rfl, rfl⟩ := hagree
  cases hconfigurable
  rfl

/-! ### A body that names another thread -/

/-- The demo's gateway, with a ceiling below the default. -/
def demoGateway : GatewayEnv where
  rt := demoRuntime
  pyStr := fun
    | .str s => s
    | value => value.dumps
  pyRepr := fun s => "'" ++ s ++ "'"
  floatInt := fun _ => none
  maxRecursionLimit := 50
  one_le_max := by decide
  agetTuple := fun _ => .ok true

/-- A user's request. -/
def userRequest : RunRequest := { user := some ⟨"alice", some "user", none, none⟩ }

/-- A body that names a thread in its `configurable` section. -/
def namesThread (threadId : String) : RunBody :=
  { config := some [("configurable", .obj [("thread_id", .str threadId)])] }

/-- The thread an accepted body runs on. -/
def threadOf (result : Except RunExn RunConfig) : Option String :=
  match result with
  | .ok config => textAt config.configurable "thread_id"
  | .error _ => none

/-- The run works on the client's thread, not on that of the URL. -/
theorem client_thread_wins :
    threadOf (runConfig demoGateway "mine" (namesThread "yours") userRequest) = some "yours" ∧
    threadOf (runConfig demoGateway "mine" (namesThread "mine") userRequest) = some "mine" ∧
    (namesThread "yours").dropThreadIds = (namesThread "mine").dropThreadIds :=
  ⟨by decide +kernel, by decide +kernel, rfl⟩

/-- A body that names a thread in its `context` section. -/
def contextThread (threadId : String) : RunBody :=
  { config := some [("context", .obj [("thread_id", .str threadId)])] }

theorem accepted_of_threadOf (result : Except RunExn RunConfig)
    (h : (threadOf result).isSome) : ∃ config, result = .ok config := by
  cases result with
  | ok config => exact ⟨config, rfl⟩
  | error e => cases h

/-- In a `context` section it does not matter. -/
theorem run_confined_demo : ∃ config,
    runConfig demoGateway "mine" (contextThread "yours") userRequest = .ok config ∧
    runConfig demoGateway "mine" (contextThread "mine") userRequest = .ok config ∧
    config.configurable.lookup (.str "thread_id") = some (.str "mine") := by
  obtain ⟨config, hok⟩ := accepted_of_threadOf
    (runConfig demoGateway "mine" (contextThread "yours") userRequest) (by decide +kernel)
  obtain ⟨config', hok'⟩ := accepted_of_threadOf
    (runConfig demoGateway "mine" (contextThread "mine") userRequest) (by decide +kernel)
  have hconfined : ∀ threadId, Confined demoGateway "mine" (contextThread threadId) :=
    fun _ => .inr fun _ hvalue => by cases hvalue
  obtain ⟨hthread, -, rfl⟩ := (run_confined_iff demoGateway "mine" (contextThread "yours")
    (contextThread "mine") userRequest config config' rfl hok hok').mpr
      ⟨hconfined _, hconfined _⟩
  exact ⟨config, hok, hok', hthread⟩

end AfterFlow.Runs
