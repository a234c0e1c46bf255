import AfterFlow.Agents.UserInput

/-!
# Slash activation of skills

A user who begins a message with a slash and the name of a skill activates the skill. Before a model
call the middleware looks at the last message of the user and, if there is an activation in it, puts
a message with the text of the skill before it, or answers itself when the skill cannot be had.
-/

namespace AfterFlow.Agents.SkillActivation

open InputSanitization (Content)

/-! ### Skills -/

structure SecretRequirement where
  name : String
  optional : Bool
  deriving DecidableEq

inductive SkillCategory where
  | «public»
  | custom
  | legacy
  deriving DecidableEq

def SkillCategory.text : SkillCategory → List Char
  | .«public» => "public".toList
  | .custom => "custom".toList
  | .legacy => "legacy".toList

structure Skill where
  name : List Char
  category : SkillCategory
  /-- The path from the root of the category, empty for the root itself. -/
  skillPath : List Char
  enabled : Bool
  requiredSecrets : List SecretRequirement
  secretsAutonomous : Bool
  deriving DecidableEq

/-- `get_container_file_path`. -/
def Skill.containerFilePath (s : Skill) (containerBasePath : List Char) : List Char :=
  let categoryBase := containerBasePath ++ '/' :: s.category.text
  (if s.skillPath = [] then categoryBase else categoryBase ++ '/' :: s.skillPath) ++
    "/SKILL.md".toList

/-- What the storage gives, when it does not raise. -/
structure Storage where
  skills : List Skill
  containerRoot : List Char
  /-- `_read_skill_content`, unless it raises an `OSError` or a `ValueError`. -/
  content : Skill → Option (List Char)

/-! ### References -/

def reservedSlashSkillNames : List (List Char) :=
  ["bootstrap", "goal", "help", "memory", "models", "new", "status"].map String.toList

/-- `[a-z0-9]`. -/
def isSlugChar (c : Char) : Bool := ('a' ≤ c && c ≤ 'z') || ('0' ≤ c && c ≤ '9')

/-- `[a-z0-9]+(?:-[a-z0-9]+)*`, for a text of these characters. -/
def isSlug (name : List Char) : Bool := (name.splitOn '-').all fun part => !part.isEmpty

/-- `parse_slash_skill_reference`: the name and the remaining text. The name ends before the first
character that it cannot have, since what follows has to be a blank or the end. -/
def parseSlashSkillReference : List Char → Option (List Char × List Char)
  | '/' :: text =>
    let name := text.takeWhile fun c => isSlugChar c || c == '-'
    let rest := text.dropWhile fun c => isSlugChar c || c == '-'
    if isSlug name && (rest.head?.all PyStr.isSpace) && !reservedSlashSkillNames.contains name then
      some (name, rest.dropWhile PyStr.isSpace)
    else none
  | _ => none

/-! ### Activations -/

structure Activation where
  skillName : List Char
  category : SkillCategory
  containerFilePath : List Char
  skillContent : List Char
  remainingText : List Char
  editable : Bool

inductive Resolution where
  | activation (a : Activation)
  | failure (message : List Char)

/-- Whether the agent may have the skill. -/
def isAvailable (availableSkills : Option (List (List Char))) (name : List Char) : Bool :=
  availableSkills.all fun names => names.contains name

/-- `resolve_slash_skill`, for a reference that has been parsed. -/
def resolveSlashSkill (availableSkills : Option (List (List Char))) (storage : Storage)
    (name : List Char) : Option Skill :=
  if isAvailable availableSkills name then
    storage.skills.find? fun s => s.name = name && s.enabled
  else none

def quoted (name : List Char) : List Char := "`/".toList ++ name ++ "`".toList

/-- `_resolve_activation`, once there is a reference. -/
def resolveActivation (availableSkills : Option (List (List Char))) (storage : Storage)
    (name remainingText : List Char) : Resolution :=
  let skill := quoted name
  match storage.skills.find? fun s => s.name = name with
  | none => .failure ("Skill ".toList ++ skill ++ " is not installed.".toList)
  | some candidate =>
    if !candidate.enabled then
      .failure ("Skill ".toList ++ skill ++
        " is installed but disabled. Enable it before using slash activation.".toList)
    else if !isAvailable availableSkills name then
      .failure ("Skill ".toList ++ skill ++ " is not available for this agent.".toList)
    else
      match resolveSlashSkill availableSkills storage name with
      | none => .failure ("Skill ".toList ++ skill ++ " could not be resolved.".toList)
      | some s =>
        match storage.content s with
        | none => .failure ("Skill ".toList ++ skill ++
            " could not be loaded safely. Please check the skill installation.".toList)
        | some content => .activation
            ⟨s.name, s.category, s.containerFilePath storage.containerRoot, content, remainingText,
              s.category = .custom⟩

/-! ### Messages -/

structure Message where
  /-- Whether it is a `HumanMessage`. -/
  human : Bool
  id : Option String
  name : Option String
  content : Content
  hideFromUi : Bool
  originalUserContent : Option (List Char)
  slashSkillActivation : Bool
  slashSkillActivationTargetId : Option String
  deriving DecidableEq

/-- `is_real_user_message`. -/
def Message.isRealUserMessage (m : Message) : Bool :=
  m.human && m.name ≠ some "summary" && !m.hideFromUi

/-- `is_slash_skill_activation_reminder`. -/
def Message.isActivationReminder (m : Message) : Bool := m.human && m.slashSkillActivation

/-- The id, if it is not empty. -/
def Message.properId (m : Message) : Option String := m.id.filter fun id => id ≠ ""

/-- `get_original_user_content_text`. -/
def Message.userText (m : Message) : List Char := m.originalUserContent.getD m.content.messageText

/-- `_has_existing_activation_for_target`, with the messages before the target. -/
def hasExistingActivationForTarget (previous : List Message) (target : Message) : Bool :=
  (target.properId.any fun id => previous.any fun m => m.isActivationReminder &&
    (m.slashSkillActivationTargetId = some id || m.id = some (id ++ "__slash_activation"))) ||
  previous.getLast?.any Message.isActivationReminder

/-- The last message of the user, with the messages before and after it. -/
def lastUserMessage : List Message → Option (List Message × Message × List Message)
  | [] => none
  | m :: rest =>
    match lastUserMessage rest with
    | some (before, target, after) => some (m :: before, target, after)
    | none => if m.isRealUserMessage then some ([], m, rest) else none

/-- The reference of the last message of the user, unless it has been activated before. -/
def findActivationTarget (messages : List Message) :
    Option (List Message × Message × List Message × List Char × List Char) :=
  match lastUserMessage messages with
  | none => none
  | some (before, target, after) =>
    if hasExistingActivationForTarget before target then none
    else (parseSlashSkillReference target.userText).map fun (name, remainingText) =>
      (before, target, after, name, remainingText)

/-- `_make_activation_message`, with the text of the reminder and a new `uuid4`. -/
def makeActivationMessage (target : Message) (activationContent : List Char) (uuid : String) :
    Message where
  human := true
  id := some (target.properId.getD uuid ++ "__slash_activation")
  name := none
  content := .string activationContent
  hideFromUi := true
  originalUserContent := none
  slashSkillActivation := true
  slashSkillActivationTargetId := target.properId

/-- What becomes of a model call. -/
inductive Prepared where
  /-- `load_skills` raises. -/
  | raised
  /-- The middleware answers itself. -/
  | answered (message : List Char)
  | forwarded (messages : List Message) (activation : Option Activation)

/-- `html.escape`. -/
def htmlEscape (quote : Bool) (text : List Char) : List Char :=
  text.flatMap fun c =>
    if c = '&' then "&amp;".toList
    else if c = '<' then "&lt;".toList
    else if c = '>' then "&gt;".toList
    else if quote && c = '"' then "&quot;".toList
    else if quote && c = '\'' then "&#x27;".toList
    else [c]

variable (sha256 : List Char → List Char)

/-- `_build_activation_reminder`. -/
def buildActivationReminder (a : Activation) : List Char :=
  let userRequest := if a.remainingText = [] then
      ("No additional task text was provided after the slash skill command. " ++
        "Ask the user what they want to do with this skill if the next step is unclear.").toList
    else a.remainingText
  "<slash_skill_activation>\nThe user explicitly activated the `".toList ++ a.skillName ++
  "` skill for this turn.\nTreat the task text as:\n<user_request>\n".toList ++
  htmlEscape false userRequest ++
  ("\n</user_request>\n\nFollow this skill before choosing a general workflow. " ++
    "Load supporting resources from the same skill directory only when needed.\n\n").toList ++
  "<skill name=\"".toList ++ htmlEscape true a.skillName ++
  "\" category=\"".toList ++ htmlEscape true a.category.text ++
  "\" path=\"".toList ++ htmlEscape true a.containerFilePath ++
  "\" sha256=\"".toList ++ htmlEscape true (sha256 a.skillContent) ++
  "\" editable=\"".toList ++ (if a.editable then "true" else "false").toList ++
  "\">\n<skill_content encoding=\"xml-escaped\">\n".toList ++ htmlEscape false a.skillContent ++
  "\n</skill_content>\n</skill>\n</slash_skill_activation>".toList

/-- `_prepare_model_request`. -/
def prepareModelRequest (availableSkills : Option (List (List Char))) (storage : Option Storage)
    (messages : List Message) (uuid : String) : Prepared :=
  match findActivationTarget messages with
  | none => .forwarded messages none
  | some (before, target, after, name, remainingText) =>
    match storage with
    | none => .raised
    | some st =>
      match resolveActivation availableSkills st name remainingText with
      | .failure message => .answered message
      | .activation a => .forwarded
          (before ++ makeActivationMessage target (buildActivationReminder sha256 a) uuid :: target :: after)
          (some a)

end AfterFlow.Agents.SkillActivation
