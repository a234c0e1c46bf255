import Mathlib.Data.List.Chain
import Mathlib.Data.List.DropRight

/-!
# Message groups

The page puts the messages of a thread into groups. A message opens a group or goes to the last one,
so the groups are a cut of the list of messages. Two things differ from that. A clarification goes to
the last group too if that is open, and then to one of its own. And a tool result before any group
is dropped.

What a message is for the reader (hidden, with content, with reasoning) is a matter of its text; the
grouping only asks for the answers.

## Main results

* `ownMessages_getMessageGroups` — what is in the groups
* `usage_getMessageGroups` — what the groups account for
* `grouped_once_iff` — all of it, exactly where no tool result comes first
-/

namespace AfterFlow.Chat.Grouping

open List

inductive MessageType where
  | human
  | ai
  | tool
  | system
  deriving DecidableEq

structure ToolCall where
  name : String
  deriving DecidableEq

/-- A message. `C` is what its text, its reasoning and its visibility are read from. -/
structure Message (C : Type) where
  type : MessageType
  id : Option String
  name : Option String
  toolCalls : List ToolCall
  content : C
  deriving DecidableEq

namespace Message

variable {C : Type} (m : Message C)

def hasToolCalls : Bool := m.type = .ai && !m.toolCalls.isEmpty

def hasPresentFiles : Bool := m.type = .ai && m.toolCalls.any (·.name = "present_files")

def hasSubagent : Bool := m.toolCalls.any (·.name = "task")

def isClarificationToolMessage : Bool := m.type = .tool && m.name = some "ask_clarification"

/-- A tool result that is no clarification. -/
def isToolResult : Bool := m.type = .tool && !m.isClarificationToolMessage

end Message

/-- What a message is for the reader. -/
structure View (C : Type) where
  hasContent : Message C → Bool
  hasReasoning : Message C → Bool
  isHiddenFromUIMessage : Message C → Bool

inductive GroupType where
  | human
  | processing
  | assistant
  | presentFiles
  | clarification
  | subagent
  deriving DecidableEq

structure MessageGroup (C : Type) where
  type : GroupType
  id : Option String
  messages : List (Message C)
  deriving DecidableEq

variable {C : Type} (view : View C)

/-- The group can still take tool messages. -/
def MessageGroup.isOpen (g : MessageGroup C) : Bool :=
  g.type ≠ .human && g.type ≠ .assistant && g.type ≠ .clarification

/-- `groups.push`, for a group that begins with the message. -/
def push (groups : List (MessageGroup C)) (type : GroupType) (m : Message C) :
    List (MessageGroup C) :=
  groups ++ [⟨type, m.id, [m]⟩]

/-- `messages.push`, for the last group if there is one. -/
def pushToLast (groups : List (MessageGroup C)) (m : Message C) : List (MessageGroup C) :=
  match groups.getLast? with
  | some g => groups.dropLast ++ [{ g with messages := g.messages ++ [m] }]
  | none => groups

/-- The last group, if it can still take tool messages. -/
def lastOpenGroup (groups : List (MessageGroup C)) : Option (MessageGroup C) :=
  groups.getLast?.filter MessageGroup.isOpen

/-- An AI message in the loop of `getMessageGroups`. -/
def groupAI (groups : List (MessageGroup C)) (m : Message C) : List (MessageGroup C) :=
  let becomesAssistantBubble := view.hasContent m && !m.hasToolCalls
  let groups :=
    if m.hasPresentFiles then push groups .presentFiles m
    else if m.hasSubagent then push groups .subagent m
    else if !becomesAssistantBubble && (view.hasReasoning m || m.hasToolCalls) then
      if groups.getLast?.map MessageGroup.type ≠ some .processing then push groups .processing m
      else pushToLast groups m
    else groups
  if becomesAssistantBubble then push groups .assistant m else groups

/-- The loop of `getMessageGroups`. -/
def groupMessage (groups : List (MessageGroup C)) (m : Message C) : List (MessageGroup C) :=
  if view.isHiddenFromUIMessage m then groups
  else
    match m.type with
    | .human => push groups .human m
    | .tool =>
      if m.isClarificationToolMessage then
        push (if (lastOpenGroup groups).isSome then pushToLast groups m else groups) .clarification m
      -- an open group is the last group, so both branches push to that
      else pushToLast groups m
    | .ai => groupAI view groups m
    | .system => groups

def getMessageGroups (messages : List (Message C)) : List (MessageGroup C) :=
  messages.foldl (groupMessage view) []

/-! ### What is in the groups -/

/-- The message is to be shown. -/
def View.shown (m : Message C) : Bool :=
  !view.isHiddenFromUIMessage m && (m.type = .human || m.type = .tool ||
    m.type = .ai && (view.hasContent m || view.hasReasoning m || m.hasToolCalls))

/-- The messages that have their place in the group: a clarification has it in a group of its own. -/
def MessageGroup.own (g : MessageGroup C) : List (Message C) :=
  if g.type = .clarification then g.messages
  else g.messages.filter fun m => !m.isClarificationToolMessage

def ownMessages (groups : List (MessageGroup C)) : List (Message C) :=
  groups.flatMap MessageGroup.own

variable {view} {groups : List (MessageGroup C)} {g : MessageGroup C} {m : Message C}
  {type : GroupType}

@[simp] theorem ownMessages_append (groups groups' : List (MessageGroup C)) :
    ownMessages (groups ++ groups') = ownMessages groups ++ ownMessages groups' :=
  flatMap_append

theorem ownMessages_push (h : m.isClarificationToolMessage = true → type = .clarification) :
    ownMessages (push groups type m) = ownMessages groups ++ [m] := by
  rw [push, ownMessages_append]
  cases hm : m.isClarificationToolMessage <;>
    simp [ownMessages, MessageGroup.own, hm]
  exact h hm

theorem pushToLast_concat (groups : List (MessageGroup C)) (g : MessageGroup C) (m : Message C) :
    pushToLast (groups ++ [g]) m = groups ++ [{ g with messages := g.messages ++ [m] }] := by
  simp [pushToLast]

theorem ownMessages_pushToLast (hne : groups ≠ []) (h : m.isClarificationToolMessage = false) :
    ownMessages (pushToLast groups m) = ownMessages groups ++ [m] := by
  obtain ⟨groups, g, rfl⟩ := (eq_nil_or_concat' groups).resolve_left hne
  rw [pushToLast_concat, ownMessages_append, ownMessages_append, append_assoc]
  by_cases hg : g.type = .clarification <;> simp [ownMessages, MessageGroup.own, hg, h]

theorem ownMessages_copy (hopen : g.isOpen = true) (h : m.isClarificationToolMessage = true) :
    ownMessages (pushToLast (groups ++ [g]) m) = ownMessages (groups ++ [g]) := by
  have hg : g.type ≠ .clarification := by
    simp only [MessageGroup.isOpen, Bool.and_eq_true, decide_eq_true_eq] at hopen
    exact hopen.2
  simp [pushToLast_concat, ownMessages, MessageGroup.own, hg, h]

/-- **What a message does to the groups.** -/
inductive Grouped (view : View C) (groups : List (MessageGroup C)) (m : Message C) :
    List (MessageGroup C) → Prop
  | hidden : view.shown m = false → Grouped view groups m groups
  | result : view.shown m = true → m.isToolResult = true → Grouped view groups m (pushToLast groups m)
  | clarified : view.shown m = true → m.isClarificationToolMessage = true →
    (∀ g ∈ groups.getLast?, g.isOpen = false) → Grouped view groups m (push groups .clarification m)
  | copied {rest : List (MessageGroup C)} {g : MessageGroup C} : view.shown m = true →
    m.isClarificationToolMessage = true → groups = rest ++ [g] → g.isOpen = true →
    Grouped view groups m (push (pushToLast groups m) .clarification m)
  | opened {type : GroupType} : view.shown m = true → m.type ≠ .tool → type ≠ .clarification →
    (type = .human ↔ m.type = .human) → Grouped view groups m (push groups type m)
  | extended {rest : List (MessageGroup C)} {g : MessageGroup C} : view.shown m = true →
    m.type = .ai → groups = rest ++ [g] → g.type = .processing →
    Grouped view groups m (pushToLast groups m)

theorem not_tool_of_ai (h : m.type = .ai) : m.type ≠ .tool := by
  rw [h]
  decide

/-- An AI message opens a group, or goes to a processing group, if there is anything to show. -/
theorem grouped_groupAI (h : m.type = .ai) (hhidden : view.isHiddenFromUIMessage m = false) :
    Grouped view groups m (groupAI view groups m) := by
  have hshown : view.shown m = (view.hasContent m || view.hasReasoning m || m.hasToolCalls) := by
    simp [View.shown, h, hhidden]
  have hopened (type : GroupType) (hs : view.shown m = true) (ht : type ≠ .clarification)
      (hh : type ≠ .human) : Grouped view groups m (push groups type m) :=
    .opened hs (not_tool_of_ai h) ht ⟨fun heq => absurd heq hh, fun heq => by simp [h] at heq⟩
  by_cases hcalls : m.hasToolCalls = true
  · have hs : view.shown m = true := by simp [hshown, hcalls]
    simp only [groupAI, hcalls, Bool.not_true, Bool.and_false, Bool.not_false, Bool.or_true,
      Bool.and_self, if_true, Bool.false_eq_true, if_false]
    split
    · exact hopened _ hs (by decide) (by decide)
    · split
      · exact hopened _ hs (by decide) (by decide)
      · split
        · exact hopened _ hs (by decide) (by decide)
        · rename_i hlast
          obtain ⟨g, hg, htype⟩ := Option.map_eq_some_iff.1 (not_not.1 hlast)
          obtain ⟨rest, hrest⟩ := getLast?_eq_some_iff.1 hg
          exact .extended hs h hrest htype
  · -- without tool calls nothing is presented or delegated
    have hnil : m.toolCalls = [] := by simpa [Message.hasToolCalls, h] using hcalls
    have hcalls' : m.hasToolCalls = false := by simpa using hcalls
    have hpresent : m.hasPresentFiles = false := by simp [Message.hasPresentFiles, hnil]
    have htask : m.hasSubagent = false := by simp [Message.hasSubagent, hnil]
    by_cases hcontent : view.hasContent m = true
    · have hs : view.shown m = true := by simp [hshown, hcontent]
      simpa [groupAI, hcalls', hpresent, htask, hcontent] using
        hopened .assistant hs (by decide) (by decide)
    · by_cases hreasoning : view.hasReasoning m = true
      · have hs : view.shown m = true := by simp [hshown, hreasoning]
        simp only [groupAI, hcalls', hpresent, htask, hcontent, hreasoning, Bool.not_false,
          Bool.and_true, Bool.or_false, Bool.false_eq_true, if_false, if_true]
        split
        · exact hopened _ hs (by decide) (by decide)
        · rename_i hlast
          obtain ⟨g, hg, htype⟩ := Option.map_eq_some_iff.1 (not_not.1 hlast)
          obtain ⟨rest, hrest⟩ := getLast?_eq_some_iff.1 hg
          exact .extended hs h hrest htype
      · have hs : view.shown m = false := by simp [hshown, hcalls', hcontent, hreasoning]
        simpa [groupAI, hcalls', hpresent, htask, hcontent, hreasoning] using Grouped.hidden hs

variable (view) in
theorem grouped_groupMessage (groups : List (MessageGroup C)) (m : Message C) :
    Grouped view groups m (groupMessage view groups m) := by
  rw [groupMessage]
  split
  · exact .hidden (by simp [View.shown, *])
  rename_i hhidden
  rw [Bool.not_eq_true] at hhidden
  split <;> rename_i htype
  · exact .opened (by simp [View.shown, hhidden, htype]) (by simp [htype]) (by decide) (by simp [htype])
  · have hs : view.shown m = true := by simp [View.shown, hhidden, htype]
    split
    · rename_i hclar
      split
      · rename_i hopen
        obtain ⟨g, hg⟩ := Option.isSome_iff_exists.1 hopen
        obtain ⟨hlast, hg⟩ := Option.filter_eq_some_iff.1 hg
        obtain ⟨rest, hrest⟩ := getLast?_eq_some_iff.1 hlast
        exact .copied hs hclar hrest hg
      · rename_i hclosed
        refine .clarified hs hclar fun g hg => Bool.eq_false_iff.2 fun hopen => hclosed ?_
        exact Option.isSome_iff_exists.2 ⟨g, Option.filter_eq_some_iff.2 ⟨hg, hopen⟩⟩
    · exact .result hs (by simp [Message.isToolResult, *])
  · exact grouped_groupAI htype hhidden
  · exact .hidden (by simp [View.shown, htype])

theorem not_clarification (h : m.type ≠ .tool) : m.isClarificationToolMessage = false := by
  simp [Message.isClarificationToolMessage, h]

theorem not_clarification_of_isToolResult (h : m.isToolResult = true) :
    m.isClarificationToolMessage = false := by
  simpa using (Bool.and_eq_true_iff.1 h).2

theorem not_isToolResult (h : m.type ≠ .tool ∨ m.isClarificationToolMessage = true) :
    m.isToolResult = false := by
  rcases h with h | h <;> simp [Message.isToolResult, h]

/-- The messages that are to be shown, from the first one on that is no tool result. -/
def View.kept (view : View C) (messages : List (Message C)) : List (Message C) :=
  (messages.filter view.shown).dropWhile Message.isToolResult

/-- A message that is shown has its place at the end, if it is no tool result or there is a group. -/
def View.place (view : View C) (own : List (Message C)) (m : Message C) : List (Message C) :=
  if view.shown m = true ∧ (own = [] → m.isToolResult = false) then own ++ [m] else own

theorem Grouped.ownMessages {groups' : List (MessageGroup C)} {own : List (Message C)}
    (h : Grouped view groups m groups') (hown : Grouping.ownMessages groups = own)
    (hnil : groups = [] ↔ own = []) :
    Grouping.ownMessages groups' = view.place own m ∧ (groups' = [] ↔ view.place own m = []) := by
  have hpush {type : GroupType} (hs : view.shown m = true) (hresult : m.isToolResult = false)
      (hm : m.isClarificationToolMessage = true → type = .clarification)
      {groups' : List (MessageGroup C)} (heq : Grouping.ownMessages groups' = own) :
      Grouping.ownMessages (push groups' type m) = view.place own m ∧
        (push groups' type m = [] ↔ view.place own m = []) := by
    rw [View.place, if_pos ⟨hs, fun _ => hresult⟩, ownMessages_push hm, heq]
    exact ⟨rfl, by simp [push]⟩
  have hlast (hs : view.shown m = true) (hm : m.isClarificationToolMessage = false)
      (hne : groups ≠ []) : Grouping.ownMessages (pushToLast groups m) = view.place own m ∧
        (pushToLast groups m = [] ↔ view.place own m = []) := by
    rw [View.place, if_pos ⟨hs, fun h => absurd (hnil.2 h) hne⟩, ownMessages_pushToLast hne hm, hown]
    obtain ⟨rest, g, rfl⟩ := (eq_nil_or_concat' groups).resolve_left hne
    exact ⟨rfl, by simp [pushToLast_concat]⟩
  cases h with
  | hidden hs => simpa [View.place, hs] using ⟨hown, hnil⟩
  | result hs hresult =>
    by_cases hg : groups = []
    · have hempty := hnil.1 hg
      subst hg hempty
      simp [View.place, pushToLast, hresult, Grouping.ownMessages]
    · exact hlast hs (not_clarification_of_isToolResult hresult) hg
  | clarified hs hm => exact hpush hs (not_isToolResult (.inr hm)) (fun _ => rfl) hown
  | copied hs hm hrest hopen =>
    subst hrest
    exact hpush hs (not_isToolResult (.inr hm)) (fun _ => rfl) ((ownMessages_copy hopen hm).trans hown)
  | opened hs htype =>
    exact hpush hs (not_isToolResult (.inl htype)) (fun hm => by simp [not_clarification htype] at hm) hown
  | extended hs hm hrest =>
    exact hlast hs (not_clarification (not_tool_of_ai hm)) (by simp [hrest])

variable (view) in
/-- **Every message that is shown has one place**, in the order of the list, apart from tool results
at its beginning. -/
theorem ownMessages_getMessageGroups (messages : List (Message C)) :
    ownMessages (getMessageGroups view messages) = view.kept messages ∧
      (getMessageGroups view messages = [] ↔ view.kept messages = []) := by
  induction messages using reverseRecOn with
  | nil => exact ⟨rfl, by simp [getMessageGroups, View.kept]⟩
  | append_singleton messages m ih =>
    have hstep := (grouped_groupMessage view (getMessageGroups view messages) m).ownMessages
      ih.1 ih.2
    have hgroups : getMessageGroups view (messages ++ [m]) =
        groupMessage view (getMessageGroups view messages) m := by
      simp [getMessageGroups]
    have hkept : view.kept (messages ++ [m]) = view.place (view.kept messages) m := by
      rw [View.place, View.kept, filter_append, dropWhile_append, ← View.kept]
      cases hs : view.shown m <;> cases hr : m.isToolResult <;> cases hk : view.kept messages <;>
        simp [hs, hr]
    rw [hgroups, hkept]
    exact hstep

/-! ### Copies of clarifications -/

/-- A clarification in a group that is not its own is the last of it, and its own group is next; and
a clarification whose group comes after an open one is the last of that too. -/
def Follows (g next : MessageGroup C) : Prop :=
  (g.type ≠ .clarification → ∀ m ∈ g.messages, m.isClarificationToolMessage = true →
    g.messages.getLast? = some m ∧ next.type = .clarification ∧ next.messages.head? = some m) ∧
  (g.isOpen = true → next.type = .clarification →
    ∃ m, g.messages.getLast? = some m ∧ next.messages.head? = some m)

/-- No copy is in the group. -/
def NoCopy (g : MessageGroup C) : Prop :=
  g.type ≠ .clarification → ∀ m ∈ g.messages, m.isClarificationToolMessage = false

/-- A human group has no AI message. -/
def HumanOnly (g : MessageGroup C) : Prop := g.type = .human → ∀ m ∈ g.messages, m.type ≠ .ai

/-- Where the copies are, and what is in the human groups. -/
structure Sorted (groups : List (MessageGroup C)) : Prop where
  chain : groups.IsChain Follows
  last : ∀ g ∈ groups.getLast?, NoCopy g
  human : ∀ g ∈ groups, HumanOnly g

theorem NoCopy.follows {next : MessageGroup C} (h : NoCopy g)
    (hnext : next.type = .clarification → g.isOpen = false) : Follows g next :=
  ⟨fun hg m hm hclar => by simp [h hg m hm] at hclar, fun hopen ht => by simp [hnext ht] at hopen⟩

theorem Follows.extend {p : MessageGroup C} (h : Follows p g) (m : Message C) :
    Follows p { g with messages := g.messages ++ [m] } := by
  refine ⟨fun hp k hk hclar => ?_, fun hopen ht => ?_⟩
  · obtain ⟨hlast, htype, hhead⟩ := h.1 hp k hk hclar
    exact ⟨hlast, htype, by simp [head?_append, hhead]⟩
  · obtain ⟨k, hlast, hhead⟩ := h.2 hopen ht
    exact ⟨k, hlast, by simp [head?_append, hhead]⟩

theorem NoCopy.extend (h : NoCopy g) (hm : m.isClarificationToolMessage = false) :
    NoCopy { g with messages := g.messages ++ [m] } :=
  fun hg => forall_mem_append.2 ⟨h hg, forall_mem_singleton.2 hm⟩

theorem HumanOnly.extend (h : HumanOnly g) (hm : m.type ≠ .ai) :
    HumanOnly { g with messages := g.messages ++ [m] } :=
  fun hg => forall_mem_append.2 ⟨h hg, forall_mem_singleton.2 hm⟩

theorem sorted_concat : Sorted (groups ++ [g]) ↔ (groups ++ [g]).IsChain Follows ∧ NoCopy g ∧
    (∀ k ∈ groups, HumanOnly k) ∧ HumanOnly g := by
  constructor
  · rintro ⟨hchain, hlast, hhuman⟩
    exact ⟨hchain, hlast g (by simp), fun k hk => hhuman k (mem_append_left _ hk), hhuman g (by simp)⟩
  · rintro ⟨hchain, hlast, hhuman, hg⟩
    exact ⟨hchain, by simpa using hlast, forall_mem_append.2 ⟨hhuman, forall_mem_singleton.2 hg⟩⟩

theorem isChain_concat : (groups ++ [g]).IsChain Follows ↔
    groups.IsChain Follows ∧ ∀ p ∈ groups.getLast?, Follows p g := by
  simp [isChain_append]

theorem Sorted.push (h : Sorted groups) (hm : m.isClarificationToolMessage = true → type = .clarification)
    (hai : type = .human → m.type ≠ .ai)
    (hclosed : type = .clarification → ∀ g ∈ groups.getLast?, g.isOpen = false) :
    Sorted (Grouping.push groups type m) :=
  sorted_concat.2 ⟨isChain_concat.2 ⟨h.chain, fun p hp => (h.last p hp).follows fun ht => hclosed ht p hp⟩,
    fun hg => forall_mem_singleton.2 (Bool.eq_false_iff.2 fun hclar => hg (hm hclar)), h.human,
    fun hg => forall_mem_singleton.2 (hai hg)⟩

theorem Sorted.chain_pushToLast (h : Sorted (groups ++ [g])) (m : Message C) :
    (groups ++ [{ g with messages := g.messages ++ [m] }]).IsChain Follows := by
  obtain ⟨hchain, hlink⟩ := isChain_concat.1 h.chain
  exact isChain_concat.2 ⟨hchain, fun p hp => (hlink p hp).extend m⟩

theorem Sorted.pushToLast (h : Sorted (groups ++ [g])) (hm : m.isClarificationToolMessage = false)
    (hai : g.type = .human → m.type ≠ .ai) : Sorted (Grouping.pushToLast (groups ++ [g]) m) := by
  obtain ⟨-, hcopy, hhuman, hg⟩ := sorted_concat.1 h
  rw [pushToLast_concat]
  exact sorted_concat.2 ⟨h.chain_pushToLast m, hcopy.extend hm, hhuman, fun ht => hg.extend (hai ht) ht⟩

/-- A copy of a clarification goes to the last group, and is followed by its own group. -/
theorem Sorted.copied (h : Sorted (groups ++ [g])) (hm : m.isClarificationToolMessage = true) :
    Sorted (Grouping.push (Grouping.pushToLast (groups ++ [g]) m) .clarification m) := by
  obtain ⟨-, hcopy, hhuman, hg⟩ := sorted_concat.1 h
  have htool : m.type = .tool := of_decide_eq_true (Bool.and_eq_true_iff.1 hm).1
  have hhuman' := forall_mem_append.2 ⟨hhuman, forall_mem_singleton.2
    (hg.extend (m := m) (by simp [htool]))⟩
  rw [pushToLast_concat]
  refine sorted_concat.2 ⟨isChain_concat.2 ⟨h.chain_pushToLast m, fun p hp => ?_⟩, nofun, hhuman', nofun⟩
  rw [getLast?_concat] at hp
  cases hp
  refine ⟨fun ht => forall_mem_append.2 ⟨fun k hk hclar => ?_, forall_mem_singleton.2 fun _ => ?_⟩,
    fun _ _ => ⟨m, by simp, rfl⟩⟩
  · simp [hcopy ht k hk] at hclar
  · exact ⟨by simp, rfl, rfl⟩

theorem Sorted.grouped {groups' : List (MessageGroup C)} (h : Sorted groups)
    (hstep : Grouped view groups m groups') : Sorted groups' := by
  cases hstep with
  | hidden => exact h
  | result hs hresult =>
    by_cases hg : groups = []
    · subst hg
      exact h
    · obtain ⟨rest, g, rfl⟩ := (eq_nil_or_concat' groups).resolve_left hg
      have htool : m.type = .tool := of_decide_eq_true (Bool.and_eq_true_iff.1 hresult).1
      exact h.pushToLast (not_clarification_of_isToolResult hresult) fun _ => by simp [htool]
  | clarified _ _ hclosed => exact h.push (fun _ => rfl) nofun fun _ => hclosed
  | copied hs hm hrest =>
    subst hrest
    exact h.copied hm
  | opened hs htype htype' hhuman =>
    refine h.push (fun hm => by simp [not_clarification htype] at hm) (fun heq => ?_) (absurd · htype')
    simp [hhuman.1 heq]
  | extended hs hm hrest hg =>
    subst hrest
    exact h.pushToLast (not_clarification (not_tool_of_ai hm)) (by simp [hg])

variable (view) in
theorem sorted_getMessageGroups (messages : List (Message C)) :
    Sorted (getMessageGroups view messages) := by
  induction messages using reverseRecOn with
  | nil => exact ⟨.nil, by simp [getMessageGroups], by simp [getMessageGroups]⟩
  | append_singleton messages m ih =>
    rw [getMessageGroups, foldl_append, ← getMessageGroups]
    exact ih.grouped (grouped_groupMessage view _ m)

/-! ### What the groups account for -/

/-- The AI messages of some groups. -/
def aiMessages (groups : List (MessageGroup C)) : List (Message C) :=
  (groups.flatMap MessageGroup.messages).filter (·.type = .ai)

/-- The loop of `getAssistantTurnUsageMessages`, from the group at `index` on. -/
def usageFrom (groups : List (MessageGroup C)) :
    ℕ → Option ℕ → List (MessageGroup C) → List (Option (List (Message C)))
  | _, _, [] => []
  | index, turnStartIndex, group :: rest =>
    if group.type = .human then none :: usageFrom groups (index + 1) none rest
    else
      let start := turnStartIndex.getD index
      if rest.head?.all (·.type = .human) then
        some (aiMessages ((groups.take (index + 1)).drop start)) :: usageFrom groups (index + 1) none rest
      else none :: usageFrom groups (index + 1) (some start) rest

def getAssistantTurnUsageMessages (groups : List (MessageGroup C)) :
    List (Option (List (Message C))) :=
  usageFrom groups 0 none groups

/-- The turn that some groups end with. -/
def lastTurn (groups : List (MessageGroup C)) : List (MessageGroup C) :=
  groups.rtakeWhile (·.type ≠ .human)

/-- The last group of a turn accounts for its AI messages, and no other group for any. -/
structure TurnUsage (groups : List (MessageGroup C)) (usage : List (Option (List (Message C)))) :
    Prop where
  once : usage.flatMap (·.getD []) = aiMessages groups
  atEnd : ∀ i, usage[i]? = groups[i]?.map fun g =>
    if g.type ≠ .human ∧ groups[i + 1]?.all (·.type = .human) = true then
      some (aiMessages (lastTurn (groups.take (i + 1)))) else none

variable {before rest : List (MessageGroup C)} {start : Option ℕ}

/-- The start of the turn is known where the turn goes on. -/
def StartsAt (before rest : List (MessageGroup C)) (start : Option ℕ) : Prop :=
  rest.head?.all (·.type = .human) = false → start.getD before.length ≤ before.length ∧
    before.drop (start.getD before.length) = lastTurn before

theorem lastTurn_human (h : g.type = .human) : lastTurn (before ++ [g]) = [] :=
  rtakeWhile_concat_neg _ _ _ (by simp [h])

theorem lastTurn_concat (h : g.type ≠ .human) : lastTurn (before ++ [g]) = lastTurn before ++ [g] :=
  rtakeWhile_concat_pos _ _ _ (by simp [h])

theorem aiMessages_append (groups groups' : List (MessageGroup C)) :
    aiMessages (groups ++ groups') = aiMessages groups ++ aiMessages groups' := by
  simp [aiMessages]

theorem aiMessages_human (h : HumanOnly g) (hg : g.type = .human) : aiMessages [g] = [] := by
  simpa [aiMessages] using h hg

variable (before start) in
/-- What the loop gives for the groups that are left, with the turn that has begun. -/
theorem usageFrom_spec (hstart : StartsAt before rest start) (hhuman : ∀ g ∈ rest, HumanOnly g) :
    (∀ i, (usageFrom (before ++ rest) before.length start rest)[i]? = rest[i]?.map fun g =>
      if g.type ≠ .human ∧ rest[i + 1]?.all (·.type = .human) = true then
        some (aiMessages (lastTurn (before ++ rest.take (i + 1)))) else none) ∧
    (usageFrom (before ++ rest) before.length start rest).flatMap (·.getD []) =
      (if rest.head?.all (·.type = .human) = true then [] else aiMessages (lastTurn before)) ++
        aiMessages rest := by
  induction rest generalizing before start with
  | nil => simp [usageFrom, aiMessages]
  | cons g rest ih =>
    have hrest : ∀ k ∈ rest, HumanOnly k := fun k hk => hhuman k (mem_cons_of_mem _ hk)
    have hlength : (before ++ [g]).length = before.length + 1 := by simp
    have hcons : aiMessages (g :: rest) = aiMessages [g] ++ aiMessages rest :=
      aiMessages_append [g] rest
    rw [usageFrom]
    by_cases hg : g.type = .human
    · obtain ⟨hat, hflat⟩ := ih (before ++ [g]) none
        (fun _ => ⟨Nat.le_refl _, by rw [lastTurn_human hg]; exact drop_length⟩) hrest
      rw [hlength, append_assoc, singleton_append] at hat hflat
      rw [if_pos hg]
      refine ⟨fun i => ?_, ?_⟩
      · cases i with
        | zero => simp [hg]
        | succ i => simpa using hat i
      · rw [flatMap_cons, hflat, lastTurn_human hg, hcons, aiMessages_human (hhuman g (by simp)) hg]
        simp [hg, aiMessages]
    · obtain ⟨hle, hdrop⟩ := hstart (by simp [hg])
      have hturn : aiMessages (((before ++ g :: rest).take (before.length + 1)).drop
          (start.getD before.length)) = aiMessages (lastTurn (before ++ [g])) := by
        rw [take_append, take_of_length_le (by omega), drop_append_of_le_length hle, hdrop,
          lastTurn_concat hg]
        simp
      rw [if_neg hg]
      by_cases hend : rest.head?.all (·.type = .human) = true
      · obtain ⟨hat, hflat⟩ := ih (before ++ [g]) none
          (fun h => by simp [hend] at h) hrest
        rw [hlength, append_assoc, singleton_append] at hat hflat
        simp only [hend, if_true]
        refine ⟨fun i => ?_, ?_⟩
        · cases i with
          | zero => simp [hg, ← head?_eq_getElem?, hend, hturn]
          | succ i => simpa using hat i
        · rw [flatMap_cons, hflat, hend, Option.getD_some, hturn, lastTurn_concat hg, aiMessages_append,
            hcons]
          simp [hg]
      · obtain ⟨hat, hflat⟩ := ih (before ++ [g]) (some (start.getD before.length))
          (fun _ => ⟨by simp; omega, by
            rw [Option.getD_some, drop_append_of_le_length hle, hdrop, lastTurn_concat hg]⟩) hrest
        rw [hlength, append_assoc, singleton_append] at hat hflat
        have hend' : rest.head?.all (·.type = .human) = false := Bool.eq_false_iff.2 hend
        simp only [hend', Bool.false_eq_true, if_false]
        refine ⟨fun i => ?_, ?_⟩
        · cases i with
          | zero => simp [← head?_eq_getElem?, hend']
          | succ i => simpa using hat i
        · rw [flatMap_cons, hflat, if_neg hend, lastTurn_concat hg, aiMessages_append, hcons]
          simp [hg]

/-- **The usage of a turn is listed once, at its last group.** -/
theorem usage_getMessageGroups (messages : List (Message C)) :
    TurnUsage (getMessageGroups view messages)
      (getAssistantTurnUsageMessages (getMessageGroups view messages)) := by
  obtain ⟨hat, hflat⟩ := usageFrom_spec [] none (fun _ => ⟨Nat.le_refl _, rfl⟩)
    (sorted_getMessageGroups view messages).human
  refine ⟨hflat.trans ?_, hat⟩
  simp [lastTurn, aiMessages]

/-! ### All of it -/

/-- Every message that is shown is in one group, a clarification also at the end of the group before
its own if that is open, all in the order of the list; and every AI message is accounted for once. -/
structure GroupedOnce (view : View C) (messages : List (Message C)) : Prop where
  own : ownMessages (getMessageGroups view messages) = messages.filter view.shown
  copies : (getMessageGroups view messages).IsChain Follows
  notLast : ∀ g ∈ (getMessageGroups view messages).getLast?, NoCopy g
  usage : TurnUsage (getMessageGroups view messages)
    (getAssistantTurnUsageMessages (getMessageGroups view messages))

/-- **Nothing that is shown is dropped, exactly where no tool result is shown first.** -/
theorem grouped_once_iff (messages : List (Message C)) :
    GroupedOnce view messages ↔ ∀ m ∈ (messages.filter view.shown).head?, m.isToolResult = false := by
  have hown := (ownMessages_getMessageGroups view messages).1
  have hkept : view.kept messages = messages.filter view.shown ↔
      ∀ m ∈ (messages.filter view.shown).head?, m.isToolResult = false := by
    rw [View.kept]
    cases messages.filter view.shown with
    | nil => simp
    | cons m shown =>
      cases hm : m.isToolResult with
      | false => simp [hm]
      | true =>
        simp only [dropWhile_cons, hm, if_true, head?_cons, Option.mem_def, Option.some.injEq,
          forall_eq', Bool.true_eq_false, iff_false]
        intro heq
        have hle := (dropWhile_sublist (l := shown) Message.isToolResult).length_le
        rw [heq, length_cons] at hle
        omega
  rw [← hkept, ← hown]
  obtain ⟨hchain, hlast, -⟩ := sorted_getMessageGroups view messages
  exact ⟨fun h => h.own, fun h => ⟨h, hchain, hlast, usage_getMessageGroups messages⟩⟩

/-- A view of messages that are their text, without reasoning. -/
def demoView : View String := ⟨fun m => m.content ≠ "", fun _ => false, fun _ => false⟩

theorem first_result_dropped : ¬∀ messages : List (Message String), GroupedOnce demoView messages := by
  intro h
  exact absurd (h [⟨.tool, some "t", some "bash", [], "done"⟩]).own (by decide)

end AfterFlow.Chat.Grouping
