import AfterFlow.Agents.ToolOutput

/-!
# The budget of a tool result, and of the history

A result of a tool is budgeted when it comes, after a scan that says whether it can be too long, and
the history is budgeted again before each call of the model. The scan takes a message without a name
for a tool named `""`, and the budget for one named `"unknown"`.

## Main results

* `respected_iff` — the budget is respected, exactly if the preview's tail begins near a line
* `scan_complete_iff` — the scan overlooks nothing, exactly in results that are `Covered`
-/

namespace AfterFlow.ToolOutput

open Excerpt List Option

/-! ### One output -/

structure ToolOutputConfig where
  externalizeMinChars : ℕ
  previewHeadChars : ℕ
  previewTailChars : ℕ
  fallbackMaxChars : ℕ
  fallbackHeadChars : ℕ
  fallbackTailChars : ℕ
  storageSubdir : String
  exemptTools : List String
  toolOverrides : List (String × ℤ)

/-- Whether the sandbox's provider mounts the thread's directories. -/
inductive SandboxKind where
  | mounted
  | remote

/-- Where an output can be stored, and the virtual paths that storing it gives. -/
structure Storage where
  /-- `_externalize`, of the content, the tool's name, the call's id and two directories. -/
  externalize : List Char → String → String → String → String → Option (List Char)
  /-- `_externalize_to_sandbox`, without the directory on the host. -/
  externalizeToSandbox : List Char → String → String → String → Option (List Char)
  outputsPath : Option String
  sandbox : Option SandboxKind

/-- Nothing can be stored when the history is budgeted. -/
def Storage.history (st : Storage) : Storage := { st with outputsPath := none, sandbox := none }

section

variable (st : Storage) (config : ToolOutputConfig)

/-- The path of the output, if it was stored. -/
def virtualPath (content : List Char) (toolName toolCallId : String) : Option (List Char) :=
  match st.sandbox with
  | some .remote => st.externalizeToSandbox content toolName toolCallId config.storageSubdir
  | some .mounted | none =>
    match st.outputsPath with
    | none => none
    | some outputsPath =>
      if outputsPath = "" then none
      else st.externalize content toolName toolCallId outputsPath config.storageSubdir

def threshold (toolName : String) : ℤ :=
  (config.toolOverrides.lookup toolName).getD config.externalizeMinChars

/-- `_budget_content`. -/
def budgetContent (content : List Char) (toolName toolCallId : String) : Option (List Char) :=
  let threshold := threshold config toolName
  if threshold ≤ 0 ∧ config.fallbackMaxChars = 0 then none
  else if content.length ≤ threshold ∧ content.length ≤ config.fallbackMaxChars then none
  else
    let path := if 0 < threshold ∧ threshold < content.length then
      virtualPath st config content toolName toolCallId else none
    match path with
    | some path => some (buildPreview content toolName.toList path config.previewHeadChars
        config.previewTailChars)
    | none =>
      if 0 < config.fallbackMaxChars ∧ config.fallbackMaxChars < content.length then
        some (buildFallback content toolName.toList config.fallbackMaxChars
          config.fallbackHeadChars config.fallbackTailChars)
      else none

end

/-! ### Messages -/

/-- A part of a message's content: a text, a block with a text, or anything else. -/
inductive Part where
  | text (text : List Char)
  | textBlock (text : List Char)
  | other

inductive Content where
  | text (text : List Char)
  | missing
  | parts (parts : List Part)
  | other

def Part.text? : Part → Option (List Char)
  | .text t => some t
  | .textBlock t => some t
  | .other => none

/-- `_message_text`. -/
def messageText : Content → Option (List Char)
  | .text t => some t
  | .missing => none
  | .parts parts =>
    (parts.mapM Part.text?).bind fun pieces =>
      if pieces = [] then none else some (['\n'].intercalate pieces)
  | .other => none

structure ToolMessage where
  name : Option String
  content : Content
  toolCallId : String

/-- `msg.name or default`. -/
def ToolMessage.nameOr (msg : ToolMessage) (default : String) : String :=
  match msg.name with
  | some name => if name = "" then default else name
  | none => default

/-- A message of a tool, or another one, of which nothing is known. -/
inductive Message (β : Type) where
  | tool (msg : ToolMessage)
  | other (msg : β)

/-- What a tool returns. A command may have no messages to add. -/
inductive ToolResult (β : Type) where
  | message (msg : ToolMessage)
  | command (messages : Option (List (Message β)))

section

variable (st : Storage) (config : ToolOutputConfig) {β : Type}

/-- `_patch_tool_message`, and `none` where the message is returned as it is. -/
def patchToolMessage (msg : ToolMessage) : Option ToolMessage :=
  let toolName := msg.nameOr "unknown"
  if toolName ∈ config.exemptTools then none
  else
    (messageText msg.content).bind fun text =>
      (budgetContent st config text toolName msg.toolCallId).map fun replacement =>
        { msg with content := .text replacement }

/-- `_effective_trigger`. -/
def effectiveTrigger (toolName : String) : ℤ :=
  let externalize := threshold config toolName
  let candidates := (if 0 < externalize then [externalize] else []) ++
    if 0 < config.fallbackMaxChars then [(config.fallbackMaxChars : ℤ)] else []
  candidates.min?.getD (-1)

/-- `_tool_message_over_budget`. -/
def toolMessageOverBudget (msg : ToolMessage) : Bool :=
  if msg.nameOr "" ∈ config.exemptTools then false
  else
    let trigger := effectiveTrigger config (msg.nameOr "")
    if trigger < 0 then false
    else (messageText msg.content).any fun text => decide (trigger < text.length)

def Message.overBudget : Message β → Bool
  | .tool msg => toolMessageOverBudget config msg
  | .other _ => false

/-- `_needs_budget`. -/
def needsBudget : ToolResult β → Bool
  | .message msg => toolMessageOverBudget config msg
  | .command messages => (messages.getD []).any (Message.overBudget config)

def Message.patch : Message β → Option (Message β)
  | .tool msg => (patchToolMessage st config msg).map .tool
  | .other _ => none

/-- The messages with the changed ones in place, and `none` if there are none. -/
def patchMessages (messages : List (Message β)) : Option (List (Message β)) :=
  if messages.any fun msg => (msg.patch st config).isSome then
    some (messages.map fun msg => (msg.patch st config).getD msg)
  else none

/-- `_patch_result`, and `none` where the result is returned as it is. -/
def patchResult : ToolResult β → Option (ToolResult β)
  | .message msg => (patchToolMessage st config msg).map .message
  | .command messages =>
    (messages.bind (patchMessages st config)).map fun messages => .command (some messages)

/-- `_patch_model_messages`. -/
def patchModelMessages (messages : List (Message β)) : Option (List (Message β)) :=
  if !messages.any (Message.overBudget config) then none
  else patchMessages st.history config messages

end

/-! ### What becomes of one output -/

section

variable {st : Storage} {config : ToolOutputConfig} {content r : List Char}
  {toolName toolCallId : String}

/-- The output is long enough to be stored, and was. -/
def Stored (st : Storage) (config : ToolOutputConfig) (content : List Char)
    (toolName toolCallId : String) : Prop :=
  0 < threshold config toolName ∧ threshold config toolName < content.length ∧
    (virtualPath st config content toolName toolCallId).isSome

/-- The output is too long for a fallback. -/
def Cuts (config : ToolOutputConfig) (n : ℕ) : Prop :=
  0 < config.fallbackMaxChars ∧ config.fallbackMaxChars < n

theorem not_stored_history : ¬Stored st.history config content toolName toolCallId :=
  fun h => absurd h.2.2 Bool.false_ne_true

theorem budgetContent_cases (h : budgetContent st config content toolName toolCallId = some r) :
    (∃ path, Stored st config content toolName toolCallId ∧
        virtualPath st config content toolName toolCallId = some path ∧
        r = buildPreview content toolName.toList path config.previewHeadChars
          config.previewTailChars) ∨
      Cuts config content.length ∧ r = buildFallback content toolName.toList
        config.fallbackMaxChars config.fallbackHeadChars config.fallbackTailChars := by
  rw [budgetContent] at h
  dsimp only at h
  split at h
  · cases h
  · split at h
    · cases h
    · split at h
      · rename_i path hpath
        split at hpath
        · rename_i hlong
          exact .inl ⟨path, ⟨hlong.1, hlong.2, hpath ▸ rfl⟩, hpath, (some.inj h).symm⟩
        · cases hpath
      · split at h
        · rename_i hcuts
          exact .inr ⟨hcuts, (some.inj h).symm⟩
        · cases h

/-- Nothing becomes of the others. -/
theorem budgetContent_eq_none : budgetContent st config content toolName toolCallId = none ↔
    ¬Stored st config content toolName toolCallId ∧ ¬Cuts config content.length := by
  constructor
  · intro h
    rw [budgetContent] at h
    dsimp only at h
    rw [Stored, Cuts]
    split at h
    · omega
    · split at h
      · omega
      · split at h
        · cases h
        · rename_i hpath
          split at h
          · cases h
          · rename_i hcuts
            refine ⟨?_, hcuts⟩
            rintro ⟨hpos, hlong, hstored⟩
            rw [if_pos ⟨hpos, hlong⟩] at hpath
            rw [hpath] at hstored
            cases hstored
  · rintro ⟨hstored, hcuts⟩
    refine eq_none_iff_forall_ne_some.2 fun r h => ?_
    rcases budgetContent_cases h with ⟨path, hs, -⟩ | ⟨hc, -⟩
    · exact hstored hs
    · exact hcuts hc

end

/-! ### The scan -/

section

variable {st : Storage} {config : ToolOutputConfig} {β : Type} {msg : ToolMessage}
  {messages : List ToolMessage}

theorem nameOr_cases (msg : ToolMessage) :
    (msg.nameOr "" ≠ "" ∧ ∀ default, msg.nameOr default = msg.nameOr "") ∨
      msg.nameOr "" = "" ∧ ∀ default, msg.nameOr default = default := by
  obtain ⟨name, content, toolCallId⟩ := msg
  cases name with
  | none => exact .inr ⟨rfl, fun _ => rfl⟩
  | some name =>
    by_cases hname : name = ""
    · subst hname
      exact .inr ⟨rfl, fun _ => rfl⟩
    · have hnamed : ∀ default, (ToolMessage.mk (some name) content toolCallId).nameOr default =
          name := fun _ => if_neg hname
      refine .inl ⟨?_, fun default => ?_⟩
      · rwa [hnamed]
      · rw [hnamed, hnamed]

/-- What the scan looks for: the length is above a bound for the tool. -/
def Exceeds (config : ToolOutputConfig) (toolName : String) (n : ℕ) : Prop :=
  toolName ∉ config.exemptTools ∧
    (0 < threshold config toolName ∧ threshold config toolName < n ∨ Cuts config n)

theorem effectiveTrigger_lt {toolName : String} {n : ℕ} :
    ¬effectiveTrigger config toolName < 0 ∧ effectiveTrigger config toolName < n ↔
      0 < threshold config toolName ∧ threshold config toolName < n ∨ Cuts config n := by
  rw [effectiveTrigger, Cuts]
  by_cases ht : 0 < threshold config toolName
  · by_cases hf : 0 < config.fallbackMaxChars
    · rw [if_pos ht, if_pos hf]
      simp only [cons_append, nil_append, min?_cons, min?_nil, elim_some,
        elim_none, getD_some]
      omega
    · rw [if_pos ht, if_neg hf]
      simp only [append_nil, min?_cons, min?_nil, elim_none, getD_some]
      omega
  · by_cases hf : 0 < config.fallbackMaxChars
    · rw [if_neg ht, if_pos hf]
      simp only [nil_append, min?_cons, min?_nil, elim_none, getD_some]
      omega
    · rw [if_neg ht, if_neg hf]
      simp only [append_nil, min?_nil, getD_none]
      omega

theorem toolMessageOverBudget_iff : toolMessageOverBudget config msg = true ↔
    ∃ text, messageText msg.content = some text ∧
      Exceeds config (msg.nameOr "") text.length := by
  rw [toolMessageOverBudget]
  split
  · rename_i hexempt
    constructor
    · intro h
      cases h
    · rintro ⟨text, -, h⟩
      exact absurd hexempt h.1
  · rename_i hexempt
    simp only [Exceeds, hexempt, not_false_eq_true, true_and, ← effectiveTrigger_lt]
    split
    · rename_i htrigger
      simp [htrigger]
    · rename_i htrigger
      simp [htrigger, Option.any_eq_true]

theorem patchToolMessage_ne_none : patchToolMessage st config msg ≠ none ↔
    ∃ text, messageText msg.content = some text ∧ msg.nameOr "unknown" ∉ config.exemptTools ∧
      (Stored st config text (msg.nameOr "unknown") msg.toolCallId ∨ Cuts config text.length) := by
  rw [patchToolMessage]
  split
  · rename_i hexempt
    constructor
    · intro h
      exact absurd rfl h
    · rintro ⟨text, -, h, -⟩
      exact absurd hexempt h
  · rename_i hexempt
    cases htext : messageText msg.content with
    | none => simp
    | some text =>
      rw [bind_some, ne_eq, map_eq_none_iff, budgetContent_eq_none]
      constructor
      · intro h
        exact ⟨text, rfl, hexempt, by tauto⟩
      · rintro ⟨text', htext', -, h⟩
        obtain rfl := some.inj htext'
        tauto

/-- A message without a name that is shortened as one of `"unknown"` is among messages of which one
exceeds a bound under the name it has, and a missing name is `""`. -/
def Covered (st : Storage) (config : ToolOutputConfig) (messages : List ToolMessage) : Prop :=
  ∀ msg ∈ messages, msg.nameOr "" = "" → ∀ text, messageText msg.content = some text →
    "unknown" ∉ config.exemptTools →
    (Stored st config text "unknown" msg.toolCallId ∨ Cuts config text.length) →
    ∃ msg' ∈ messages, ∃ text', messageText msg'.content = some text' ∧
      Exceeds config (msg'.nameOr "") text'.length

theorem Stored.exceeds {text : List Char} {name : String} (hexempt : name ∉ config.exemptTools)
    (h : Stored st config text name msg.toolCallId ∨ Cuts config text.length) :
    Exceeds config name text.length :=
  ⟨hexempt, h.imp_left fun hstored => ⟨hstored.1, hstored.2.1⟩⟩

/-- **The scan overlooks no message**, exactly among messages that are covered. -/
theorem covered_iff :
    ((∀ msg ∈ messages, toolMessageOverBudget config msg = false) →
        ∀ msg ∈ messages, patchToolMessage st config msg = none) ↔
      Covered st config messages := by
  constructor
  · intro h msg hmsg hname text htext hexempt hshort
    have hunknown : msg.nameOr "unknown" = "unknown" := by
      rcases nameOr_cases msg with ⟨hne, -⟩ | ⟨-, hdefault⟩
      · exact absurd hname hne
      · exact hdefault "unknown"
    have hpatch : patchToolMessage st config msg ≠ none := by
      rw [patchToolMessage_ne_none, hunknown]
      exact ⟨text, htext, hexempt, hshort⟩
    by_contra hnone
    refine hpatch (h (fun msg' hmsg' => ?_) msg hmsg)
    rw [← Bool.not_eq_true, toolMessageOverBudget_iff]
    exact fun hexceeds => hnone ⟨msg', hmsg', hexceeds⟩
  · intro h hover msg hmsg
    by_contra hpatch
    obtain ⟨text, htext, hexempt, hshort⟩ := patchToolMessage_ne_none.1 hpatch
    have hmissed : ∃ msg' ∈ messages, ∃ text', messageText msg'.content = some text' ∧
        Exceeds config (msg'.nameOr "") text'.length := by
      rcases nameOr_cases msg with ⟨-, hname⟩ | ⟨hname, hdefault⟩
      · rw [hname] at hexempt hshort
        exact ⟨msg, hmsg, text, htext, Stored.exceeds hexempt hshort⟩
      · rw [hdefault] at hexempt hshort
        exact h msg hmsg hname text htext hexempt hshort
    obtain ⟨msg', hmsg', hexceeds⟩ := hmissed
    exact absurd (toolMessageOverBudget_iff.2 hexceeds) (by simp [hover msg' hmsg'])

/-! ### Results and histories -/

def Message.tool? : Message β → Option ToolMessage
  | .tool msg => some msg
  | .other _ => none

/-- The messages of tools, which are all that is looked at. -/
def toolMessages (messages : List (Message β)) : List ToolMessage :=
  messages.filterMap Message.tool?

def ToolResult.toolMessages : ToolResult β → List ToolMessage
  | .message msg => [msg]
  | .command messages => ToolOutput.toolMessages (messages.getD [])

theorem forall_toolMessages {P : ToolMessage → Prop} {Q : Message β → Prop}
    (htool : ∀ msg, Q (.tool msg) ↔ P msg) (hother : ∀ msg, Q (.other msg))
    {messages : List (Message β)} : (∀ msg ∈ messages, Q msg) ↔ ∀ msg ∈ toolMessages messages, P msg := by
  constructor
  · intro h msg hmsg
    obtain ⟨msg', hmsg', htool'⟩ := mem_filterMap.1 hmsg
    cases msg' with
    | other _ => cases htool'
    | tool m =>
      obtain rfl := some.inj htool'
      exact (htool m).1 (h _ hmsg')
  · intro h msg hmsg
    cases msg with
    | other m => exact hother m
    | tool m => exact (htool m).2 (h m (mem_filterMap.2 ⟨_, hmsg, rfl⟩))

theorem overBudget_eq_false {messages : List (Message β)} :
    (∀ msg ∈ messages, Message.overBudget config msg = false) ↔
      ∀ msg ∈ toolMessages messages, toolMessageOverBudget config msg = false :=
  forall_toolMessages (fun _ => Iff.rfl) fun _ => rfl

theorem patch_eq_none {messages : List (Message β)} :
    (∀ msg ∈ messages, Message.patch st config msg = none) ↔
      ∀ msg ∈ toolMessages messages, patchToolMessage st config msg = none :=
  forall_toolMessages (fun _ => map_eq_none_iff) fun _ => rfl

theorem patchMessages_eq_none {messages : List (Message β)} :
    patchMessages st config messages = none ↔
      ∀ msg ∈ messages, Message.patch st config msg = none := by
  rw [patchMessages]
  split
  · rename_i hany
    obtain ⟨msg, hmsg, hpatch⟩ := any_eq_true.1 hany
    constructor
    · intro h
      cases h
    · intro h
      rw [h msg hmsg] at hpatch
      cases hpatch
  · rename_i hany
    simpa using hany

theorem needsBudget_eq_false {result : ToolResult β} : needsBudget config result = false ↔
    ∀ msg ∈ result.toolMessages, toolMessageOverBudget config msg = false := by
  cases result with
  | message msg =>
    rw [ToolResult.toolMessages, forall_mem_singleton]
    rfl
  | command messages =>
    rw [needsBudget, List.any_eq_false]
    simp only [Bool.not_eq_true]
    exact overBudget_eq_false

theorem patchResult_eq_none {result : ToolResult β} : patchResult st config result = none ↔
    ∀ msg ∈ result.toolMessages, patchToolMessage st config msg = none := by
  cases result with
  | message msg =>
    rw [ToolResult.toolMessages, forall_mem_singleton]
    exact map_eq_none_iff
  | command messages =>
    rw [patchResult, map_eq_none_iff]
    cases messages with
    | none => simp [ToolResult.toolMessages, toolMessages]
    | some messages => exact patchMessages_eq_none.trans patch_eq_none

end

/-! ### The second budget -/

section

variable {st : Storage} {config : ToolOutputConfig} {β : Type} {msg : ToolMessage}
  {content : List Char}

/-- What is kept of a message that was budgeted. -/
def budgeted (st : Storage) (config : ToolOutputConfig) (msg : ToolMessage) : ToolMessage :=
  (patchToolMessage st config msg).getD msg

theorem patchToolMessage_history_eq_none : patchToolMessage st.history config msg = none ↔
    ∀ text, messageText msg.content = some text → msg.nameOr "unknown" ∉ config.exemptTools →
      ¬Cuts config text.length := by
  rw [← not_iff_not, ← ne_eq, patchToolMessage_ne_none]
  simp only [not_stored_history, false_or]
  push Not
  rfl

theorem patchModelMessages_eq_none {messages : List (Message β)}
    (h : ∀ msg ∈ messages, Message.patch st.history config msg = none) :
    patchModelMessages st config messages = none := by
  rw [patchModelMessages]
  split
  · rfl
  · exact patchMessages_eq_none.2 h

/-- The configured preview and its reference are short enough for a fallback. -/
def PreviewFits (config : ToolOutputConfig) (content toolName path : List Char) : Prop :=
  config.previewHeadChars + config.previewTailChars +
      (reference toolName path content.length
        (previewCut content config.previewHeadChars config.previewTailChars).omitted).length ≤
    config.fallbackMaxChars

/-- What is expected of the budget of a content. -/
structure Respected (β : Type) (config : ToolOutputConfig) (content : List Char) : Prop where
  /-- A preview is a beginning and an end, no longer than configured, and says what is omitted. -/
  preview : ∀ toolName path,
    let cut := previewCut content config.previewHeadChars config.previewTailChars
    buildPreview content toolName path config.previewHeadChars config.previewTailChars =
        cut.head ++ reference toolName path content.length cut.middle.length ++ cut.tail ∧
      cut.head ++ cut.middle ++ cut.tail = content ∧
      cut.head.length + cut.tail.length ≤ config.previewHeadChars + config.previewTailChars
  /-- So is a fallback, with the marker if there is room for it. -/
  fallback : ∀ toolName, 0 < config.fallbackMaxChars → config.fallbackMaxChars < content.length →
    (buildFallback content toolName config.fallbackMaxChars config.fallbackHeadChars
        config.fallbackTailChars).length ≤ config.fallbackMaxChars ∧
      ∃ cut : Cut content,
        buildFallback content toolName config.fallbackMaxChars config.fallbackHeadChars
            config.fallbackTailChars =
          cut.head ++ fallbackMarker toolName cut.omitted ++ cut.tail ∨
        buildFallback content toolName config.fallbackMaxChars config.fallbackHeadChars
            config.fallbackTailChars = cut.head ++ cut.tail
  /-- A message that was budgeted changes no history. -/
  stable : ∀ (st : Storage) (msg : ToolMessage), messageText msg.content = some content →
    (∀ path, virtualPath st config content (msg.nameOr "unknown") msg.toolCallId = some path →
      PreviewFits config content (msg.nameOr "unknown").toList path) →
    ∀ before after : List (Message β),
      (∀ m ∈ before ++ after, Message.patch st.history config m = none) →
      patchModelMessages st config (before ++ .tool (budgeted st config msg) :: after) = none

theorem length_buildPreview_le {toolName path : List Char}
    (h : TailNearLine content config.previewHeadChars config.previewTailChars)
    (hfits : PreviewFits config content toolName path) :
    (buildPreview content toolName path config.previewHeadChars config.previewTailChars).length ≤
      config.fallbackMaxChars := by
  have hshown := shown_previewCut_le_iff.2 h
  rw [PreviewFits] at hfits
  simp only [buildPreview, length_append]
  omega

/-- What was budgeted is not too long for a fallback, if its preview is not. -/
theorem budgeted_stays (h : messageText msg.content = some content)
    (htail : TailNearLine content config.previewHeadChars config.previewTailChars)
    (hfits : ∀ path, virtualPath st config content (msg.nameOr "unknown") msg.toolCallId = some path →
      PreviewFits config content (msg.nameOr "unknown").toList path) :
    patchToolMessage st.history config (budgeted st config msg) = none := by
  rw [patchToolMessage_history_eq_none, budgeted]
  cases hpatch : patchToolMessage st config msg with
  | none =>
    intro text htext hexempt hcuts
    exact patchToolMessage_ne_none.2 ⟨text, htext, hexempt, .inr hcuts⟩ hpatch
  | some patched =>
    rw [getD_some]
    rw [patchToolMessage] at hpatch
    split at hpatch
    · cases hpatch
    · rw [h, bind_some, map_eq_some_iff] at hpatch
      obtain ⟨r, hr, rfl⟩ := hpatch
      intro text htext hexempt hcuts
      obtain rfl := some.inj htext
      rcases budgetContent_cases hr with ⟨path, -, hpath, rfl⟩ | ⟨hlong, rfl⟩
      · exact absurd (length_buildPreview_le htail (hfits path hpath)) (not_le.2 hcuts.2)
      · exact absurd (length_buildFallback_le hlong.1) (not_le.2 hcuts.2)

end

/-- **The budget is respected**, exactly if a preview's tail begins near a line. -/
theorem respected_iff (β : Type) (config : ToolOutputConfig) (content : List Char) :
    Respected β config content ↔
      TailNearLine content config.previewHeadChars config.previewTailChars := by
  constructor
  · intro h
    exact shown_previewCut_le_iff.1 (h.preview [] []).2.2
  · intro h
    refine ⟨?_, ?_, ?_⟩
    · intro toolName path
      refine ⟨?_, Cut.parts _, shown_previewCut_le_iff.2 h⟩
      rw [← Cut.omitted_eq]
      rfl
    · intro toolName hpos hlong
      exact ⟨length_buildFallback_le hpos, buildFallback_shows hlong hpos⟩
    · intro st msg hmsg hfits before after hothers
      refine patchModelMessages_eq_none fun m hm => ?_
      rcases mem_append.1 hm with hm | hm
      · exact hothers m (mem_append_left _ hm)
      · rcases mem_cons.1 hm with rfl | hm
        · exact map_eq_none_iff.2 (budgeted_stays hmsg h hfits)
        · exact hothers m (mem_append_right _ hm)

/-- A line that begins far before the tail is shown with it. -/
theorem preview_too_long : ¬∀ (config : ToolOutputConfig) (content : List Char),
    Respected Unit config content := by
  intro h
  have hshown := ((h ⟨12000, 0, 1, 30000, 8000, 3000, ".tool-results", ["read_file"], []⟩
    "abcd\nef".toList).preview [] []).2.2
  exact absurd hshown (by decide)

/-- **The scan overlooks nothing**, exactly in results and histories that are covered: there it says
no only of what the budget leaves as it is. -/
theorem scan_complete_iff (st : Storage) (config : ToolOutputConfig) (β : Type) :
    (∀ result : ToolResult β,
        (needsBudget config result = false → patchResult st config result = none) ↔
          Covered st config result.toolMessages) ∧
      ∀ messages : List (Message β),
        ((∀ msg ∈ messages, Message.overBudget config msg = false) →
            ∀ msg ∈ messages, Message.patch st.history config msg = none) ↔
          Covered st.history config (toolMessages messages) := by
  constructor
  · intro result
    rw [needsBudget_eq_false, patchResult_eq_none]
    exact covered_iff
  · intro messages
    rw [overBudget_eq_false, patch_eq_none]
    exact covered_iff

/-- A message without a name, with an override for `"unknown"`, is overlooked. -/
theorem scan_overlooks : ¬∀ (st : Storage) (config : ToolOutputConfig) (result : ToolResult Unit),
    needsBudget config result = false → patchResult st config result = none := by
  intro h
  let st : Storage := ⟨fun _ _ _ _ _ => some "/mnt/user-data/outputs/.tool-results/unknown-0.txt".toList,
    fun _ _ _ _ => none, some "/outputs", none⟩
  let config : ToolOutputConfig :=
    ⟨12000, 2000, 1000, 30000, 8000, 3000, ".tool-results", ["read_file"], [("unknown", 5)]⟩
  let msg : ToolMessage := ⟨none, .text "abcdefgh".toList, "call_1"⟩
  have hnone := h st config (.message msg) (by decide)
  rw [patchResult_eq_none] at hnone
  refine absurd (hnone msg (mem_singleton_self msg)) ?_
  rw [← ne_eq, patchToolMessage_ne_none]
  exact ⟨"abcdefgh".toList, rfl, by decide, .inl ⟨by decide, by decide, rfl⟩⟩

end AfterFlow.ToolOutput
