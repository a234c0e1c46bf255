import AfterFlow.PyStr

/-!
# The user input frame

`InputSanitizationMiddleware` rewrites the last message that a user really wrote. In its text, tags
that the framework or an attacker could use are escaped, the two boundary tokens are replaced by
look-alikes, and the text is put between the tokens. A text that is already between them keeps its
frame, and only what is inside is looked at.

Texts are lists of characters. Which characters other than ASCII count as parts of words is a
parameter. Of a message nothing is kept but what decides whether a user wrote it, its content, and
the original text in its `additional_kwargs`.
-/

namespace AfterFlow.Agents.InputSanitization

open PyStr

/-! ### Blocked tags -/

/-- The characters that `\w` matches. -/
structure WordChars where
  isWord : Char → Bool
  ascii : ∀ c, c.toNat < 128 → isWord c = (c.isAlphanum || c == '_')

/-- `_BLOCKED_TAG_NAMES`, sorted. -/
def blockedTagNames : List (List Char) :=
  ["analysis", "current_date", "ignore", "important", "instruction", "memory", "override", "prompt",
    "role", "skill_system", "subagent_system", "system", "system-reminder", "think",
    "todo_list_system", "uploaded_files"].map String.toList

/-- Whether `re.IGNORECASE` takes `c` for the lower case character `p` of a tag name. -/
def sameLetter (p c : Char) : Bool :=
  c == p || c == p.toUpper || (p == 'i' && (c == 'İ' || c == 'ı')) || (p == 's' && c == 'ſ') ||
    (p == 'k' && c == '\u212a')

/-- What follows a tag name, if the text starts with it. -/
@[grind =] def dropName : List Char → List Char → Option (List Char)
  | [], l => some l
  | p :: name, c :: l => if sameLetter p c then dropName name l else none
  | _ :: _, [] => none

variable (w : WordChars)

/-- `\b` after a tag name. -/
def atBoundary : List Char → Bool
  | [] => true
  | c :: _ => !w.isWord c

def skipSlash : List Char → List Char
  | '/' :: l => l
  | l => l

/-- `\s*/?\s*`. -/
def skipOpening (l : List Char) : List Char := (skipSlash (l.dropWhile isSpace)).dropWhile isSpace

/-- Whether a blocked tag goes on like this, after its `<`. What `[^>]*>?` matches does not
matter. -/
def tagAt (l : List Char) : Bool :=
  blockedTagNames.any fun name => (dropName name (skipOpening l)).any (atBoundary w)

/-- Escape `<` and `>`. -/
def escapeChar : Char → List Char
  | '<' => "&lt;".toList
  | '>' => "&gt;".toList
  | c => [c]

/-- Outside of a tag, or inside of one, up to its `>`. -/
@[grind =] def escapeFrom : Bool → List Char → List Char
  | _, [] => []
  | true, c :: l => escapeChar c ++ escapeFrom (c != '>') l
  | false, c :: l =>
    if c == '<' && tagAt w l then escapeChar c ++ escapeFrom true l else c :: escapeFrom false l

/-- `_BLOCKED_TAG_PATTERN.sub(_escape_tag_match, text)`. -/
def escapeTags (text : List Char) : List Char := escapeFrom w false text

/-! ### Boundary tokens -/

def userInputBegin : List Char := "--- BEGIN USER INPUT ---".toList

def userInputEnd : List Char := "--- END USER INPUT ---".toList

def neutralizedBegin : List Char := "[BEGIN USER INPUT]".toList

def neutralizedEnd : List Char := "[END USER INPUT]".toList

/-- Replace tokens from left to right, after `k` characters that belong to one that was replaced. -/
@[grind =] def neutralizeFrom : ℕ → List Char → List Char
  | _, [] => []
  | k + 1, _ :: l => neutralizeFrom k l
  | 0, c :: l =>
    if userInputBegin.isPrefixOf (c :: l) then
      neutralizedBegin ++ neutralizeFrom (userInputBegin.length - 1) l
    else if userInputEnd.isPrefixOf (c :: l) then
      neutralizedEnd ++ neutralizeFrom (userInputEnd.length - 1) l
    else c :: neutralizeFrom 0 l

/-- `_neutralize_boundary_tokens`. -/
def neutralizeBoundaryTokens (text : List Char) : List Char := neutralizeFrom 0 text

/-- `not text.strip()`. -/
def isBlank (text : List Char) : Bool := (stripList isSpace text).isEmpty

/-- `text.startswith(_USER_INPUT_BEGIN) and text.endswith(_USER_INPUT_END)`. -/
def isWrapped (text : List Char) : Bool :=
  userInputBegin.isPrefixOf text && userInputEnd.isSuffixOf text

/-- `text[len(_USER_INPUT_BEGIN) : -len(_USER_INPUT_END)]`. -/
def inner (text : List Char) : List Char :=
  (text.take (text.length - userInputEnd.length)).drop userInputBegin.length

/-- `_check_user_content`. -/
def checkUserContent (text : List Char) : List Char :=
  if isBlank text then text
  else
    let text := escapeTags w text
    if isWrapped text then
      let neutralizedInner := neutralizeBoundaryTokens (inner text)
      if neutralizedInner = inner text then text
      else userInputBegin ++ neutralizedInner ++ userInputEnd
    else userInputBegin ++ '\n' :: neutralizeBoundaryTokens text ++ '\n' :: userInputEnd

/-! ### Messages -/

/-- An item of a content that is a list: a string, a text block, or another block with the text
under its key `"text"`, if there is one. -/
inductive Block where
  | string (text : List Char)
  | text (text : List Char)
  | other (id : ℕ) (text : Option (List Char))
  deriving DecidableEq

inductive Content where
  | string (text : List Char)
  | blocks (blocks : List Block)
  deriving DecidableEq

def Block.isText : Block → Bool
  | .text _ => true
  | _ => false

def Block.text? : Block → Option (List Char)
  | .text s => some s
  | _ => none

/-- `"\n".join(parts)`. -/
def joinLines (parts : List (List Char)) : List Char := ['\n'].intercalate parts

/-- The text of `_extract_text_from_content`. -/
def Content.extractText : Content → List Char
  | .string s => s
  | .blocks bs => joinLines (bs.filterMap Block.text?)

/-- `_rebuild_content`: the first text block gets the text, and the others are left out. -/
@[grind =] def rebuildContent (processedText : List Char) : List Block → List Block
  | [] => []
  | .text _ :: blocks => .text processedText :: blocks.filter fun b => !b.isText
  | b :: blocks => b :: rebuildContent processedText blocks

/-- `message_content_to_text`. -/
def Content.messageText : Content → List Char
  | .string s => s
  | .blocks bs => joinLines ((bs.filterMap fun
      | .string s => some s
      | .text s => some s
      | .other _ s => s).filter fun part => !part.isEmpty)

structure Message where
  /-- Whether it is a `HumanMessage`. -/
  human : Bool
  name : Option String
  hideFromUi : Bool
  /-- Whether `read_human_input_response` finds a response of the user. -/
  hasResponse : Bool
  content : Content
  originalUserContent : Option (List Char)
  deriving DecidableEq

/-- `_is_genuine_user_message`. -/
def Message.isGenuine (m : Message) : Bool :=
  m.human && !decide (m.name = some "summary") && !(m.hideFromUi && !m.hasResponse)

/-- The new content, if there is one. -/
def Content.process? : Content → Option Content
  | .string s =>
    let processed := checkUserContent w s
    if processed = s then none else some (.string processed)
  | .blocks bs =>
    let textContent := (Content.blocks bs).extractText
    if textContent.isEmpty then none
    else
      let processed := checkUserContent w textContent
      if processed = textContent then none else some (.blocks (rebuildContent processed bs))

/-- The message that is sent. -/
def Message.process (m : Message) : Message :=
  match m.content.process? w with
  | none => m
  | some newContent => { m with
      content := newContent
      originalUserContent := some (m.originalUserContent.getD m.content.messageText) }

/-- The loop of `_process_request`, from the last message on. -/
def processFromLast : List Message → List Message
  | [] => []
  | m :: earlier => if m.isGenuine then m.process w :: earlier else m :: processFromLast earlier

/-- `_process_request`. -/
def processRequest (messages : List Message) : List Message :=
  (processFromLast w messages.reverse).reverse

end AfterFlow.Agents.InputSanitization
