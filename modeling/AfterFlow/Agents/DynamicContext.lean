import AfterFlow.Json
import AfterFlow.PyStr
import AfterFlow.Transition.Runs

/-!
# The date and the memory in a conversation

Before a run the middleware puts the date, and the first time also the memory, before a message of
the user. It gives the reminder the id of that message, so that the reducer puts it there, and the
message itself a new id. The reducer appends what has a new id: the memory and the message of the
user are at the end of the list afterwards, and so in their place only if the message was the last.

That is so when a turn begins with a message of the user. It is not so when the first message of the
user has others after it, as in a thread that was begun without the middleware.

## Main results

* `addMessages_swap_iff` — when the reducer puts the messages in their place
* `context_in_order` — the conversation stays in order
* `answer_overtakes` — a message that is moved behind the answer to it
-/

namespace AfterFlow.Agents.DynamicContext

open Transition List Option

/-! ### Messages -/

inductive Kind where
  | human
  | system
  /-- An `AIMessage` or a `ToolMessage`. -/
  | other
  deriving DecidableEq

inductive Content where
  | text (s : List Char)
  /-- A list of blocks, with the text that `str` makes of it. -/
  | blocks (number : ℕ) (repr : List Char)
  deriving DecidableEq

def Content.str : Content → List Char
  | .text s => s
  | .blocks _ repr => repr

/-- `additional_kwargs`. -/
structure Kwargs where
  hideFromUi : Bool
  dynamicContextReminder : Bool
  reminderDate : Option String
  others : List (String × String)
  deriving DecidableEq

structure Message where
  id : String
  kind : Kind
  name : Option String
  content : Content
  kwargs : Kwargs
  deriving DecidableEq

/-- A text that is not empty, as a date and a `uuid4` are. -/
def ProperText : Type := { text : String // text ≠ "" }

/-- What stands between the tags of a date, where the text begins with one. -/
def dateAt (text : List Char) : Option (List Char) :=
  match text.dropPrefix? "<current_date>".toList with
  | none => none
  | some rest =>
    let date := rest.takeWhile fun c => c != '<'
    if !date.isEmpty && "</current_date>".toList.isPrefixOf (rest.dropWhile fun c => c != '<')
    then some date
    else none

/-- `_extract_date`. -/
def extractDate : List Char → Option (List Char)
  | [] => none
  | c :: text => (dateAt (c :: text)).or (extractDate text)

/-- `is_dynamic_context_reminder`. -/
def Message.isReminder (m : Message) : Bool :=
  m.kind ≠ .other && m.kwargs.dynamicContextReminder

/-- The date of a reminder. One that is in the text only is from before `reminder_date` was
there. -/
def Message.injectedDate (m : Message) : Option String :=
  if m.isReminder then
    (m.kwargs.reminderDate.filter fun date => date ≠ "").or
      (if m.kind = .system then (extractDate m.content.str).map String.ofList else none)
  else none

/-- `_last_injected_date`. -/
def lastInjectedDate (messages : List Message) : Option String :=
  messages.reverse.findSome? Message.injectedDate

/-- `_is_user_injection_target`. -/
def Message.isTarget (m : Message) : Bool :=
  m.kind = .human && !m.isReminder && m.name ≠ some "summary" &&
    !"__user".toList.isSuffixOf m.id.toList

/-! ### The middleware -/

/-- The two reminders with a date, which have the same text. -/
def dateReminder (currentDate : String) : Content :=
  .text ("<system-reminder>\n<current_date>".toList ++ currentDate.toList ++
    "</current_date>\n</system-reminder>".toList)

def reminderKwargs (reminderDate : Option String) : Kwargs := ⟨true, true, reminderDate, []⟩

/-- The id that the reminder gets. -/
def stableId (original : Message) (uuid : ProperText) : String :=
  if original.id = "" then uuid.1 else original.id

/-- `_make_reminder_and_user_messages`. -/
def makeReminderAndUserMessages (original : Message) (currentDate : ProperText)
    (memoryContent : List Char) (uuid : ProperText) : List Message :=
  let id := stableId original uuid
  ⟨id, .system, none, dateReminder currentDate.1, reminderKwargs (some currentDate.1)⟩ ::
    ((if memoryContent = [] then []
      else [⟨id ++ "__memory", .human, none, .text memoryContent, reminderKwargs none⟩]) ++
    [⟨id ++ "__user", .human, original.name, original.content, original.kwargs⟩])

/-- The first element that satisfies `p`, with those before and after it. -/
@[grind =] def splitFirst {α : Type} (p : α → Bool) : List α → Option (List α × α × List α)
  | [] => none
  | x :: xs =>
    if p x then some ([], x, xs)
    else (splitFirst p xs).map fun (pre, y, post) => (x :: pre, y, post)

/-- The last element that satisfies `p`, with those before and after it. -/
def splitLast {α : Type} (p : α → Bool) : List α → Option (List α × α × List α)
  | [] => none
  | x :: xs =>
    match splitLast p xs with
    | some (pre, y, post) => some (x :: pre, y, post)
    | none => if p x then some ([], x, xs) else none

/-- The message of the user that the reminder is put before, and the memory that goes with it: at
first, the first message; when the date has changed, the last, and no memory. -/
def target (messages : List Message) (currentDate : ProperText) (memoryContext : List Char) :
    Option ((List Message × Message × List Message) × List Char) :=
  match lastInjectedDate messages with
  | none => (splitFirst Message.isTarget messages).map fun place =>
      (place, PyStr.stripList PyStr.isSpace memoryContext)
  | some date =>
    if date = currentDate.1 then none
    else (splitLast Message.isTarget messages).map fun place => (place, [])

/-- `_inject`. -/
def inject (messages : List Message) (currentDate : ProperText) (memoryContext : List Char)
    (uuid : ProperText) : Option (List Message) :=
  (target messages currentDate memoryContext).map fun ((_, original, _), memoryContent) =>
    makeReminderAndUserMessages original currentDate memoryContent uuid

/-- One message goes through the reducer. -/
def addMessage (messages : List Message) (m : Message) : List Message :=
  if m.id ∈ messages.map Message.id then messages.map fun x => if x.id = m.id then m else x
  else messages ++ [m]

/-- The reducer: a message with an id that is there takes the place of the one that has it, others
are appended. -/
def addMessages (messages updates : List Message) : List Message := updates.foldl addMessage messages

/-! ### Turns -/

/-- A message with a text of the user. -/
def Message.isUserText (m : Message) : Bool :=
  m.kind = .human && !m.isReminder && m.name ≠ some "summary"

def userTexts (messages : List Message) : List Content :=
  (messages.filter Message.isUserText).map Message.content

structure World where
  messages : List Message
  /-- The texts of the user, turn by turn. -/
  texts : List Content
  /-- The day of the latest injection. -/
  injectedOn : Option ProperText

inductive Act where
  /-- Messages are appended. -/
  | turn (messages : List Message)
  /-- The middleware runs. -/
  | run (currentDate : ProperText) (memoryContext : List Char) (uuid : ProperText)

/-- Messages with new ids, and without reminders. -/
structure IsTurn (messages new : List Message) : Prop where
  distinct : ((messages ++ new).map Message.id).Nodup
  plain : ∀ m ∈ new, m.isReminder = false

instance (messages new : List Message) : Decidable (IsTurn messages new) :=
  decidable_of_iff (((messages ++ new).map Message.id).Nodup ∧ ∀ m ∈ new, m.isReminder = false)
    ⟨fun ⟨h₁, h₂⟩ => ⟨h₁, h₂⟩, fun h => ⟨h.distinct, h.plain⟩⟩

@[grind =] def step (w : World) : Act → Option World
  | .turn new =>
    if IsTurn w.messages new then
      some { w with messages := addMessages w.messages new, texts := w.texts ++ userTexts new }
    else none
  | .run currentDate memoryContext uuid =>
    match inject w.messages currentDate memoryContext uuid with
    | none => some w
    | some updates => some { w with
        messages := addMessages w.messages updates
        injectedOn := some currentDate }

/-- The message is the last, and the ids that are made of its id are new. -/
structure Tame (messages post : List Message) (original : Message) (memoryContent : List Char) :
    Prop where
  last : post = []
  id_ne : original.id ≠ ""
  user : original.id ++ "__user" ∉ messages.map Message.id
  memory : memoryContent ≠ [] → original.id ++ "__memory" ∉ messages.map Message.id

/-- The middleware injects only where the message of the user is the last. -/
def Orderly (w : World) : Act → Prop
  | .turn _ => True
  | .run currentDate memoryContext _ => ∀ pre original post memoryContent,
    target w.messages currentDate memoryContext = some ((pre, original, post), memoryContent) →
    Tame w.messages post original memoryContent

/-- A conversation in which nothing has been injected yet. -/
structure World.Begins (w : World) : Prop where
  distinct : (w.messages.map Message.id).Nodup
  texts : w.texts = userTexts w.messages
  injectedOn : w.injectedOn = none

/-- The text of each turn is there once, in order, ids are distinct, and another run of the
middleware on the day of the latest injection changes nothing. -/
structure World.Ordered (w : World) : Prop where
  distinct : (w.messages.map Message.id).Nodup
  texts : userTexts w.messages = w.texts
  settled : ∀ day, w.injectedOn = some day →
    ∀ memoryContext uuid, inject w.messages day memoryContext uuid = none

/-! ### The reducer -/

variable {messages updates new pre post : List Message} {m original : Message} {w w' : World}
  {currentDate day : ProperText} {memoryContext memoryContent : List Char} {uuid : ProperText}

theorem addMessage_fresh (h : m.id ∉ messages.map Message.id) :
    addMessage messages m = messages ++ [m] := if_neg h

theorem addMessage_swap (hdistinct : ((pre ++ original :: post).map Message.id).Nodup)
    (hid : m.id = original.id) : addMessage (pre ++ original :: post) m = pre ++ m :: post := by
  rw [map_append, map_cons, nodup_append, nodup_cons] at hdistinct
  obtain ⟨-, ⟨hpost, -⟩, hpre⟩ := hdistinct
  have hsame : ∀ l : List Message, original.id ∉ l.map Message.id →
      l.map (fun x => if x.id = m.id then m else x) = l := by
    intro l hl
    refine (map_congr_left fun x hx => ?_).trans (map_id l)
    refine if_neg fun hx' => hl ?_
    rw [← hid, ← hx']
    exact mem_map_of_mem hx
  rw [addMessage]
  rw [if_pos (by simp [hid]), map_append, map_cons, if_pos hid.symm, hsame post hpost]
  rw [hsame pre fun hmem => hpre _ hmem _ mem_cons_self rfl]

theorem length_addMessage : (addMessage messages m).length =
    messages.length + if m.id ∈ messages.map Message.id then 0 else 1 := by
  rw [addMessage]
  split <;> simp

theorem map_id_addMessage : (addMessage messages m).map Message.id =
    if m.id ∈ messages.map Message.id then messages.map Message.id
    else messages.map Message.id ++ [m.id] := by
  rw [addMessage]
  split
  · rw [List.map_map]
    refine List.map_congr_left fun x _ => ?_
    simp only [Function.comp]
    split
    · rename_i h
      exact h.symm
    · rfl
  · simp

theorem addMessages_fresh (h : ((messages ++ new).map Message.id).Nodup) :
    addMessages messages new = messages ++ new := by
  induction new generalizing messages with
  | nil => simp [addMessages]
  | cons m new ih =>
    have hm : m.id ∉ messages.map Message.id := by
      rw [map_append, nodup_append] at h
      exact fun hmem => h.2.2 _ hmem _ mem_cons_self rfl
    rw [addMessages, foldl_cons, addMessage_fresh hm]
    have hrest := @ih (messages ++ [m]) (by simpa using h)
    rw [addMessages] at hrest
    rw [hrest, append_assoc, singleton_append]

theorem mem_addMessages (hm : m ∈ messages) (h : ∀ u ∈ updates, u.id ≠ m.id) :
    m ∈ addMessages messages updates := by
  induction updates generalizing messages with
  | nil => exact hm
  | cons u updates ih =>
    rw [addMessages, foldl_cons]
    refine ih ?_ fun u' hu' => h u' (mem_cons_of_mem _ hu')
    rw [addMessage]
    split
    · exact mem_map.2 ⟨m, hm, if_neg fun heq => h u mem_cons_self heq.symm⟩
    · exact mem_append_left _ hm

theorem length_addMessages_le :
    (addMessages messages updates).length ≤ messages.length + updates.length := by
  induction updates generalizing messages with
  | nil => simp [addMessages]
  | cons u updates ih =>
    rw [addMessages, foldl_cons]
    refine (@ih (addMessage messages u)).trans ?_
    rw [length_addMessage, length_cons]
    split <;> omega

theorem mem_map_id_addMessage {id : String} (h : id ∈ messages.map Message.id) :
    id ∈ (addMessage messages m).map Message.id := by
  rw [map_id_addMessage]
  split
  · exact h
  · exact mem_append_left _ h

theorem length_addMessages_lt {u : Message} (hu : u ∈ updates)
    (hid : u.id ∈ messages.map Message.id) :
    (addMessages messages updates).length < messages.length + updates.length := by
  induction updates generalizing messages with
  | nil => cases hu
  | cons v updates ih =>
    rw [addMessages, foldl_cons, length_cons]
    rcases mem_cons.1 hu with rfl | hu
    · have hle := @length_addMessages_le (addMessage messages u) updates
      rw [length_addMessage, if_pos hid] at hle
      rw [addMessages] at hle
      omega
    · have hlt := @ih (addMessage messages v) hu (mem_map_id_addMessage hid)
      rw [length_addMessage, addMessages] at hlt
      split at hlt <;> omega

/-! ### The messages of an injection -/

theorem makeReminderAndUserMessages_eq (hid : original.id ≠ "") : ∃ reminder rest,
    makeReminderAndUserMessages original currentDate memoryContent uuid = reminder :: rest ∧
    reminder.id = original.id ∧ rest ≠ [] ∧ (rest.map Message.id).Nodup ∧
    ∀ id, id ∈ rest.map Message.id ↔ id = original.id ++ "__user" ∨
      (memoryContent ≠ [] ∧ id = original.id ++ "__memory") := by
  have hne : original.id ++ "__memory" ≠ original.id ++ "__user" := by simp
  refine ⟨_, _, rfl, by simp [stableId, hid], by simp, ?_, fun id => ?_⟩
  · by_cases hmemory : memoryContent = [] <;> simp [hmemory, stableId, hid, hne]
  · by_cases hmemory : memoryContent = [] <;> simp [hmemory, stableId, hid, or_comm]

theorem ne_of_mem_makeReminderAndUserMessages (hid : original.id = "")
    (hm : m ∈ makeReminderAndUserMessages original currentDate memoryContent uuid) : m.id ≠ "" := by
  have huuid := uuid.2
  by_cases hmemory : memoryContent = []
  · simp only [makeReminderAndUserMessages, stableId, hid, if_pos, hmemory, nil_append,
      mem_cons, not_mem_nil, or_false] at hm
    rcases hm with rfl | rfl <;> simp [huuid]
  · simp only [makeReminderAndUserMessages, stableId, hid, if_pos, if_neg hmemory, mem_cons,
      cons_append, nil_append, not_mem_nil, or_false] at hm
    rcases hm with rfl | rfl | rfl <;> simp [huuid]

/-- **The reducer puts the messages in the place of the original exactly if that is the last
message** and the ids that are made of its id are new. -/
theorem addMessages_swap_iff (hdistinct : ((pre ++ original :: post).map Message.id).Nodup) :
    addMessages (pre ++ original :: post)
        (makeReminderAndUserMessages original currentDate memoryContent uuid) =
      pre ++ makeReminderAndUserMessages original currentDate memoryContent uuid ++ post ↔
    Tame (pre ++ original :: post) post original memoryContent := by
  by_cases hid : original.id = ""
  · refine ⟨fun heq => ?_, fun h => absurd hid h.id_ne⟩
    have hmem : original ∈ pre ++ makeReminderAndUserMessages original currentDate memoryContent uuid ++
        post := by
      rw [← heq]
      refine mem_addMessages (by simp) fun u hu => ?_
      rw [hid]
      exact ne_of_mem_makeReminderAndUserMessages hid hu
    rw [map_append, map_cons, nodup_append, nodup_cons] at hdistinct
    obtain ⟨-, ⟨hpost, -⟩, hpre⟩ := hdistinct
    rcases mem_append.1 hmem with hmem | hmem
    · rcases mem_append.1 hmem with hmem | hmem
      · exact absurd rfl (hpre _ (mem_map_of_mem hmem) _ mem_cons_self)
      · exact absurd hid (ne_of_mem_makeReminderAndUserMessages hid hmem)
    · exact absurd (mem_map_of_mem hmem) hpost
  obtain ⟨reminder, rest, hmake, hreminder, hne, hrest, hids⟩ := @makeReminderAndUserMessages_eq
    original currentDate memoryContent uuid hid
  have hsame : (pre ++ reminder :: post).map Message.id =
      (pre ++ original :: post).map Message.id := by simp [hreminder]
  have hfirst : addMessages (pre ++ original :: post) (reminder :: rest) =
      addMessages (pre ++ reminder :: post) rest := by
    rw [addMessages, foldl_cons, addMessage_swap hdistinct hreminder, addMessages]
  -- the other messages are appended, if their ids are new
  have happend : (∀ id ∈ rest.map Message.id, id ∉ (pre ++ original :: post).map Message.id) →
      addMessages (pre ++ reminder :: post) rest = pre ++ reminder :: post ++ rest := by
    intro hfresh
    refine addMessages_fresh ?_
    rw [map_append, hsame]
    exact nodup_append.2 ⟨hdistinct, hrest, fun a ha b hb hab => hfresh b hb (hab ▸ ha)⟩
  rw [hmake, hfirst]
  constructor
  · intro heq
    have hfresh : ∀ id ∈ rest.map Message.id, id ∉ (pre ++ original :: post).map Message.id := by
      intro id hmem hold
      obtain ⟨u, hu, rfl⟩ := mem_map.1 hmem
      have hlt := length_addMessages_lt hu (hsame ▸ hold)
      rw [heq] at hlt
      simp only [length_append, length_cons] at hlt
      omega
    refine ⟨?_, hid, hfresh _ ((hids _).2 (.inl rfl)),
      fun hmemory => hfresh _ ((hids _).2 (.inr ⟨hmemory, rfl⟩))⟩
    rw [happend hfresh] at heq
    simp only [append_assoc, cons_append, append_cancel_left_eq,
      List.cons.injEq, true_and] at heq
    cases post with
    | nil => rfl
    | cons p post =>
      obtain ⟨r, rest', rfl⟩ := exists_cons_of_ne_nil hne
      simp only [cons_append, List.cons.injEq] at heq
      exact absurd (by simp [heq.1] : r.id ∈ (pre ++ original :: p :: post).map Message.id)
        (hfresh r.id (by simp))
  · rintro ⟨rfl, -, huser, hmemory⟩
    rw [happend]
    · simp
    · intro id hmem
      rcases (hids id).1 hmem with rfl | ⟨hm, rfl⟩
      · exact huser
      · exact hmemory hm

/-! ### The message that is chosen -/

theorem splitFirst_spec {α : Type} {p : α → Bool} {l pre post : List α} {x : α}
    (h : splitFirst p l = some (pre, x, post)) : l = pre ++ x :: post ∧ p x = true := by
  induction l generalizing pre with
  | nil => cases h
  | cons y l ih =>
    rw [splitFirst] at h
    split at h
    · rename_i hy
      cases h
      exact ⟨rfl, hy⟩
    · obtain ⟨⟨pre', z, post'⟩, hsplit, heq⟩ := map_eq_some_iff.1 h
      cases heq
      obtain ⟨rfl, hx⟩ := ih hsplit
      exact ⟨rfl, hx⟩

theorem splitLast_spec {α : Type} {p : α → Bool} {l pre post : List α} {x : α}
    (h : splitLast p l = some (pre, x, post)) : l = pre ++ x :: post ∧ p x = true := by
  induction l generalizing pre with
  | nil => cases h
  | cons y l ih =>
    rw [splitLast] at h
    split at h
    · rename_i hsplit
      cases h
      obtain ⟨rfl, hx⟩ := ih hsplit
      exact ⟨rfl, hx⟩
    · split at h
      · rename_i hy
        cases h
        exact ⟨rfl, hy⟩
      · cases h

theorem target_spec (h : target messages currentDate memoryContext =
    some ((pre, original, post), memoryContent)) :
    messages = pre ++ original :: post ∧ original.isTarget = true := by
  rw [target] at h
  split at h
  · obtain ⟨place, hplace, heq⟩ := map_eq_some_iff.1 h
    cases heq
    exact splitFirst_spec hplace
  · split at h
    · cases h
    · obtain ⟨place, hplace, heq⟩ := map_eq_some_iff.1 h
      cases heq
      exact splitLast_spec hplace

theorem inject_eq_none (h : lastInjectedDate messages = some day.1) :
    inject messages day memoryContext uuid = none := by
  simp [inject, target, h]

theorem inject_eq_some (h : inject messages currentDate memoryContext uuid = some updates) :
    ∃ pre original post memoryContent,
      target messages currentDate memoryContext = some ((pre, original, post), memoryContent) ∧
      updates = makeReminderAndUserMessages original currentDate memoryContent uuid := by
  obtain ⟨⟨⟨pre, original, post⟩, memoryContent⟩, htarget, rfl⟩ := map_eq_some_iff.1 h
  exact ⟨pre, original, post, memoryContent, htarget, rfl⟩

theorem isTarget_iff : original.isTarget = true ↔ original.kind = .human ∧
    original.isReminder = false ∧ original.name ≠ some "summary" ∧
    "__user".toList.isSuffixOf original.id.toList = false := by
  simp [Message.isTarget, and_assoc]

theorem injectedDate_of_plain (h : m.isReminder = false) : m.injectedDate = none := by
  simp [Message.injectedDate, h]

theorem lastInjectedDate_append_plain (h : ∀ m ∈ new, m.isReminder = false) :
    lastInjectedDate (messages ++ new) = lastInjectedDate messages := by
  simp only [lastInjectedDate]
  rw [reverse_append, findSome?_append]
  have hnone : new.reverse.findSome? Message.injectedDate = none :=
    findSome?_eq_none_iff.2 fun m hm => injectedDate_of_plain (h m (mem_reverse.1 hm))
  rw [hnone, none_or]

theorem lastInjectedDate_inject (htarget : original.isTarget = true) :
    lastInjectedDate (pre ++ makeReminderAndUserMessages original day memoryContent uuid) =
      some day.1 := by
  obtain ⟨hkind, hplain, -, -⟩ := isTarget_iff.1 htarget
  have huser : ∀ id, (⟨id, .human, original.name, original.content, original.kwargs⟩ :
      Message).injectedDate = none := fun id =>
    injectedDate_of_plain (by simpa [Message.isReminder, hkind] using hplain)
  have hmemory : ∀ id, (⟨id, .human, none, .text memoryContent, reminderKwargs none⟩ :
      Message).injectedDate = none := fun id => by
    simp [Message.injectedDate, reminderKwargs]
  have hreminder : ∀ id, (⟨id, .system, none, dateReminder day.1, reminderKwargs (some day.1)⟩ :
      Message).injectedDate = some day.1 := fun id => by
    simp [Message.injectedDate, Message.isReminder, reminderKwargs, day.2]
  rw [lastInjectedDate, makeReminderAndUserMessages]
  by_cases hempty : memoryContent = []
  · simp [hempty, huser, hreminder]
  · simp [hempty, huser, hmemory, hreminder]

theorem userTexts_append (l l' : List Message) : userTexts (l ++ l') = userTexts l ++ userTexts l' := by
  simp [userTexts]

theorem userTexts_inject (htarget : original.isTarget = true) :
    userTexts (makeReminderAndUserMessages original currentDate memoryContent uuid) =
      userTexts [original] := by
  obtain ⟨hkind, hplain, hname, -⟩ := isTarget_iff.1 htarget
  have hflag : original.kwargs.dynamicContextReminder = false := by
    simpa [Message.isReminder, hkind] using hplain
  by_cases hempty : memoryContent = [] <;>
    simp [userTexts, makeReminderAndUserMessages, hempty, Message.isUserText, Message.isReminder,
      reminderKwargs, hkind, hflag, hname]

/-! ### What turns and runs keep -/

/-- The text of each turn is there once, and the latest injection is of the day it was on. -/
structure World.Kept (w : World) : Prop where
  distinct : (w.messages.map Message.id).Nodup
  texts : userTexts w.messages = w.texts
  dated : ∀ day, w.injectedOn = some day → lastInjectedDate w.messages = some day.1

theorem World.Kept.ordered (h : w.Kept) : w.Ordered where
  distinct := h.distinct
  texts := h.texts
  settled day hday _ _ := inject_eq_none (h.dated day hday)

theorem Tame.distinct (h : Tame (pre ++ original :: post) post original memoryContent)
    (hdistinct : ((pre ++ original :: post).map Message.id).Nodup) :
    ((pre ++ makeReminderAndUserMessages original currentDate memoryContent uuid).map
      Message.id).Nodup := by
  obtain ⟨reminder, rest, hmake, hreminder, -, hrest, hids⟩ := @makeReminderAndUserMessages_eq
    original currentDate memoryContent uuid h.id_ne
  obtain rfl := h.last
  have hsplit : (pre ++ reminder :: rest).map Message.id =
      (pre ++ [original]).map Message.id ++ rest.map Message.id := by simp [hreminder]
  rw [hmake, hsplit]
  refine nodup_append.2 ⟨hdistinct, hrest, ?_⟩
  rintro a ha b hb rfl
  rcases (hids a).1 hb with rfl | ⟨hmemory, rfl⟩
  · exact h.user ha
  · exact h.memory hmemory ha

/-- **What a turn or a run keeps.** -/
theorem World.Kept.step {a : Act} (h : w.Kept) (horderly : Orderly w a) (hstep : step w a = some w') :
    w'.Kept := by
  cases a with
  | turn new =>
    simp only [DynamicContext.step] at hstep
    split at hstep <;> cases hstep
    rename_i hturn
    refine ⟨?_, ?_, fun day hday => ?_⟩
    · simpa only [addMessages_fresh hturn.distinct] using hturn.distinct
    · simp only [addMessages_fresh hturn.distinct, userTexts_append, h.texts]
    · simp only [addMessages_fresh hturn.distinct, lastInjectedDate_append_plain hturn.plain]
      exact h.dated day hday
  | run currentDate memoryContext uuid =>
    simp only [DynamicContext.step] at hstep
    split at hstep <;> cases hstep
    · exact h
    · rename_i updates hinject
      obtain ⟨pre, original, post, memoryContent, htarget, rfl⟩ := inject_eq_some hinject
      have htame := horderly pre original post memoryContent htarget
      obtain ⟨hmessages, histarget⟩ := target_spec htarget
      have hdistinct := h.distinct
      have htexts := h.texts
      rw [hmessages] at htame hdistinct htexts
      have hplace := (@addMessages_swap_iff _ _ _ currentDate _ uuid hdistinct).2 htame
      obtain rfl := htame.last
      rw [append_nil] at hplace
      refine ⟨?_, ?_, fun day hday => ?_⟩
      · simp only [hmessages, hplace]
        exact htame.distinct hdistinct
      · simp only [hmessages, hplace, userTexts_append, userTexts_inject histarget]
        rw [← htexts, userTexts_append]
      · cases hday
        simp only [hmessages, hplace]
        exact lastInjectedDate_inject histarget

/-- **The conversation stays in order** where the message that gets the reminder is the last:
exactly then the reminder, the memory and the message are in its place, and then every text of the
user is there once and another run on the same day changes nothing. -/
theorem context_in_order {messages : List Message} (hdistinct : (messages.map Message.id).Nodup) :
    (∀ pre original post currentDate memoryContext memoryContent uuid,
      target messages currentDate memoryContext = some ((pre, original, post), memoryContent) →
      messages = pre ++ original :: post ∧ ∃ updates,
        inject messages currentDate memoryContext uuid = some updates ∧
        updates = makeReminderAndUserMessages original currentDate memoryContent uuid ∧
        (addMessages messages updates = pre ++ updates ++ post ↔
          Tame messages post original memoryContent)) ∧
    (∀ w₀ w : World, w₀.messages = messages → w₀.Begins → Runs step Orderly w₀ w → w.Ordered) := by
  constructor
  · intro pre original post currentDate memoryContext memoryContent uuid htarget
    obtain ⟨hmessages, -⟩ := target_spec htarget
    refine ⟨hmessages, _, by rw [inject, htarget, map_some], rfl, ?_⟩
    subst hmessages
    exact addMessages_swap_iff hdistinct
  · intro w₀ w _ hbegins hrun
    have hstart : w₀.Kept :=
      ⟨hbegins.distinct, hbegins.texts.symm, fun day hday => by simp [hbegins.injectedOn] at hday⟩
    exact (hrun.invariant hstart fun _ _ _ h horderly hstep => h.step horderly hstep).ordered

/-! ### A thread that was begun without the middleware -/

def demoDay : ProperText := ⟨"2026-05-08, Friday", by decide⟩

def demoUuid : ProperText := ⟨"u", by decide⟩

def demoQuestion (id text : String) : Message :=
  ⟨id, .human, none, .text text.toList, ⟨false, false, none, []⟩⟩

def demoAnswer (id : String) : Message := ⟨id, .other, none, .text [], ⟨false, false, none, []⟩⟩

/-- A turn begins, and the middleware runs. -/
def demoWorld : World where
  messages := makeReminderAndUserMessages (demoQuestion "a" "hello") demoDay "tea".toList demoUuid
  texts := [.text "hello".toList]
  injectedOn := some demoDay

theorem context_in_order_demo : demoWorld.Ordered ∧ ∃ updates,
    inject [demoQuestion "a" "hello"] demoDay " tea".toList demoUuid = some updates ∧
    (addMessages [demoQuestion "a" "hello"] updates = updates ∧
      updates.map Message.id = ["a", "a__memory", "a__user"]) := by
  have htarget : target [demoQuestion "a" "hello"] demoDay " tea".toList =
      some (([], demoQuestion "a" "hello", []), "tea".toList) := by decide +kernel
  have htame : Tame [demoQuestion "a" "hello"] [] (demoQuestion "a" "hello") "tea".toList :=
    ⟨rfl, by decide, by decide +kernel, fun _ => by decide +kernel⟩
  obtain ⟨-, updates, hinject, hupdates, hiff⟩ := (context_in_order (by decide)).1 _ _ _ demoDay
    " tea".toList _ demoUuid htarget
  have hplace := hiff.2 htame
  have hrun : Runs step Orderly ⟨[], [], none⟩ demoWorld := by
    refine (Runs.refl.tail (l := .turn [demoQuestion "a" "hello"]) trivial rfl).tail
      (l := .run demoDay " tea".toList demoUuid) ?_ ?_
    · intro pre original post memoryContent hchosen
      rw [show addMessages [] [demoQuestion "a" "hello"] = [demoQuestion "a" "hello"] from rfl,
        htarget] at hchosen
      cases hchosen
      exact htame
    · simp only [step, show addMessages [] [demoQuestion "a" "hello"] =
        [demoQuestion "a" "hello"] from rfl, hinject, hupdates]
      rfl
  refine ⟨(@context_in_order [] nodup_nil).2 _ _ rfl ⟨by decide, rfl, rfl⟩ hrun, updates, hinject,
    ?_, ?_⟩
  · simpa using hplace
  · rw [hupdates]
    decide +kernel

/-- **The message is moved behind the answer to it**, and behind the next one. -/
theorem answer_overtakes : ¬∀ messages pre original post currentDate memoryContext memoryContent uuid
    updates, (messages.map Message.id).Nodup →
    target messages currentDate memoryContext = some ((pre, original, post), memoryContent) →
    inject messages currentDate memoryContext uuid = some updates →
    addMessages messages updates = pre ++ updates ++ post := by
  intro hall
  have h := hall [demoQuestion "a" "hello", demoAnswer "b", demoQuestion "c" "thanks"] []
    (demoQuestion "a" "hello") [demoAnswer "b", demoQuestion "c" "thanks"] demoDay [] [] demoUuid _
    (by decide) (by decide +kernel) rfl
  exact absurd (congrArg (List.map Message.id) h) (by decide +kernel)

end AfterFlow.Agents.DynamicContext
