import AfterFlow.Threads.Regeneration

/-!
# The turn of a question

What a run finds that begins with a question, and what a run finds that begins with it again. The
first may put a date before its question, and gives the question a new id then; the second finds the
question with its old id, and is given it with the new one. The reminder takes the place of the one,
and the question that of the other, so that both are there once, unless there is a memory, which
comes behind them.

## Main results

* `Turn.Ready.opened_again` — a second run finds the messages of the first
* `summarised_same` — and a compaction leaves the same of them
-/

namespace AfterFlow.Threads.Regeneration

open Agents.DynamicContext Transition List Option
open Agents (Summarizer reminderBaseIds isRescued preserveDynamicContextReminders prepareCompaction)

/-! ### The latest of a list -/

section Lists

variable {α : Type} {p : α → Bool} {l l' pre post : List α} {x : α}

theorem splitLast_eq_none (h : ∀ y ∈ l, p y = false) : splitLast p l = none := by
  induction l with
  | nil => rfl
  | cons y l ih =>
    have hl : splitLast p l = none := ih fun z hz => h z (mem_cons_of_mem _ hz)
    rw [splitLast, hl]
    simp [h y mem_cons_self]

theorem splitLast_append (h : ∀ y ∈ l', p y = false) :
    splitLast p (l ++ l') = (splitLast p l).map fun t => (t.1, t.2.1, t.2.2 ++ l') := by
  induction l with
  | nil => simpa [splitLast] using splitLast_eq_none h
  | cons y l ih =>
    rw [cons_append, splitLast, splitLast, ih]
    cases splitLast p l with
    | some t => rfl
    | none => by_cases hy : p y <;> simp [hy]

theorem splitLast_concat (hx : p x = true) : splitLast p (l ++ [x]) = some (l, x, []) := by
  induction l with
  | nil => simp [splitLast, hx]
  | cons y l ih => rw [cons_append, splitLast, ih]

theorem splitLast_cons_append (hx : p x = true) (h : ∀ y ∈ post, p y = false) :
    splitLast p (pre ++ x :: post) = some (pre, x, post) := by
  rw [append_cons, splitLast_append h, splitLast_concat hx]
  rfl

theorem splitFirst_cons_append (hx : p x = true) (h : ∀ y ∈ pre, p y = false) :
    splitFirst p (pre ++ x :: post) = some (pre, x, post) := by
  induction pre with
  | nil => simp [splitFirst, hx]
  | cons y pre ih =>
    rw [cons_append, splitFirst, if_neg (by simp [h y mem_cons_self]),
      ih fun z hz => h z (mem_cons_of_mem _ hz)]
    rfl

theorem map_splitLast (p : α → Bool) (l : List α) :
    (splitLast p l).map (fun t => t.2.1) = l.reverse.find? p := by
  induction l using List.reverseRecOn with
  | nil => rfl
  | append_singleton l x ih =>
    rw [reverse_append, reverse_singleton, singleton_append, find?_cons]
    cases hx : p x with
    | true => rw [splitLast_concat hx, map_some]
    | false =>
      rw [splitLast_append (by simpa using hx), Option.map_map, ← ih]
      rfl

end Lists

variable {s : Summarizer} {R : Reading} {w w' : World} {messages updates kept : List Message}
  {m x : Message} {context first : Context} {files : Option (List Char)}

theorem lastHuman_append {new : List Message} (h : ∀ m ∈ new, isVisibleHumanMessage m = false) :
    lastHuman (messages ++ new) = lastHuman messages := by
  have hnone : new.reverse.find? isVisibleHumanMessage = none :=
    find?_eq_none.mpr fun m hm => by simp [h m (mem_reverse.mp hm)]
  rw [lastHuman, reverse_append, find?_append, hnone, none_or]
  rfl

theorem lastHuman_concat (h : isVisibleHumanMessage m = true) :
    lastHuman (messages ++ [m]) = some m := by
  simp [lastHuman, h]

theorem lastTurn_append {new : List Message} (h : ∀ m ∈ new, R.isVisibleAiMessage m = false) :
    R.lastTurn (messages ++ new) = R.lastTurn messages := by
  rw [Reading.lastTurn, splitLast_append h, Reading.lastTurn]
  cases splitLast R.isVisibleAiMessage messages <;> rfl

theorem lastTurn_concat (h : R.isVisibleAiMessage m = true) :
    R.lastTurn (messages ++ [m]) = (lastHuman messages).map fun question => (m.id, question) := by
  rw [Reading.lastTurn, splitLast_concat h]
  rfl

theorem mem_of_lastTurn {t : String × Message} (h : t ∈ R.lastTurn messages) :
    t.1 ∈ idsOf messages := by
  obtain ⟨⟨pre, answer, post⟩, hsplit, hmap⟩ := bind_eq_some_iff.mp h
  obtain ⟨question, -, rfl⟩ := map_eq_some_iff.mp hmap
  obtain ⟨rfl, -⟩ := splitLast_spec hsplit
  simp [idsOf]

/-- What `prepareRegeneratePayload` finds is the latest turn. -/
theorem lastTurn_of_splitFirst {earlier later : List Message} {target : String}
    (hdistinct : (idsOf messages).Nodup)
    (hsplit : splitFirst (fun m => messageId m = some target) messages = some (earlier, m, later))
    (hlatest : (messages.reverse.find? R.isVisibleAiMessage).bind messageId = some target) :
    R.lastTurn messages = (lastHuman earlier).map fun question => (target, question) := by
  have hid : ∀ m : Message, messageId m = some target → m.id = target := by
    intro m hm
    rw [messageId] at hm
    split at hm
    · cases hm
    · exact some.inj hm
  obtain ⟨hmessages, hm⟩ := splitFirst_spec hsplit
  have hm := hid m (of_decide_eq_true hm)
  obtain ⟨answer, hfind, hanswer⟩ := bind_eq_some_iff.mp hlatest
  rw [← map_splitLast] at hfind
  obtain ⟨⟨pre, answer', post⟩, hlast, rfl⟩ := map_eq_some_iff.mp hfind
  obtain ⟨hmessages', -⟩ := splitLast_spec hlast
  -- ids are distinct, so both are the same message
  have heq : answer' = m := by
    refine inj_on_of_nodup_map hdistinct ?_ ?_ ((hid _ hanswer).trans hm.symm)
    · rw [hmessages']
      simp
    · rw [hmessages]
      simp
  have hnodup : messages.Nodup := List.Nodup.of_map _ hdistinct
  have hboth : earlier ++ m :: later = pre ++ m :: post := by
    rw [← hmessages, hmessages', heq]
  rw [hmessages] at hnodup
  have hpre : earlier = pre := by
    have hnot := nodup_middle.mp hnodup
    rw [nodup_cons, mem_append, not_or] at hnot
    exact ((append_cons_inj_of_notMem hnot.1.1 hnot.1.2).mp hboth).1
  rw [Reading.lastTurn, hlast, hpre, ← hm, heq]
  rfl

/-! ### Uploads -/

@[simp] theorem attach_id : (R.attach files m).id = m.id := by
  cases files <;> rfl

@[simp] theorem attach_kind : (R.attach files m).kind = m.kind := by
  cases files <;> rfl

@[simp] theorem attach_name : (R.attach files m).name = m.name := by
  cases files <;> rfl

@[simp] theorem attach_hideFromUi : (R.attach files m).kwargs.hideFromUi = m.kwargs.hideFromUi := by
  cases files <;> rfl

@[simp] theorem attach_dynamicContextReminder :
    (R.attach files m).kwargs.dynamicContextReminder = m.kwargs.dynamicContextReminder := by
  cases files <;> rfl

@[simp] theorem attach_isReminder : (R.attach files m).isReminder = m.isReminder := by
  simp [Message.isReminder]

@[simp] theorem attach_isTarget : (R.attach files m).isTarget = m.isTarget := by
  simp [Message.isTarget]

@[simp] theorem attach_isUserText : (R.attach files m).isUserText = m.isUserText := by
  simp [Message.isUserText]

@[simp] theorem attach_isVisibleHumanMessage :
    isVisibleHumanMessage (R.attach files m) = isVisibleHumanMessage m := by
  simp [isVisibleHumanMessage, isHiddenOrControlMessage]

theorem getOriginalUserContentText_attach :
    R.getOriginalUserContentText (R.attach files m) = R.getOriginalUserContentText m := by
  cases files with
  | none => rfl
  | some filesMessage =>
    simp only [Reading.getOriginalUserContentText, Reading.attach]
    cases h : m.kwargs.others.lookup originalUserContentKey with
    | some text => simp [h]
    | none => simp [h, lookup_append]

theorem key_ne_of_lookup {l : List (String × String)} {key : String} (h : l.lookup key = none) :
    ∀ k v, (k, v) ∈ l → k ≠ key := by
  intro k v hmem heq
  have hne := lookup_eq_none_iff.mp h _ hmem
  simp [heq] at hne

theorem Plain.filter_name (h : Plain m) : m.name.filter (fun name => name ≠ "") = m.name := by
  have hname := h.name
  cases hm : m.name with
  | none => rfl
  | some name => simpa [filter, hm] using hname

theorem clean_attach (hplain : Plain m) (hvisible : isVisibleHumanMessage m = true) {id : String}
    (hid : id ≠ "") :
    (R.cleanHumanMessageForRegenerate { R.attach files m with id := id }).toMessage =
      { m with id := id } := by
  have hnamed := hplain.filter_name
  obtain ⟨htext, -, horiginal⟩ := hplain
  obtain ⟨_, kind, name, content, hide, reminder, date, others⟩ := m
  simp only [isVisibleHumanMessage, isHiddenOrControlMessage, Bool.and_eq_true, decide_eq_true_eq,
    Bool.not_eq_true', Bool.or_eq_false_iff] at hvisible
  obtain ⟨rfl, -, rfl⟩ := hvisible
  simp only [ne_eq, decide_not] at hnamed
  have hothers := key_ne_of_lookup horiginal
  obtain ⟨text⟩ | ⟨number, repr⟩ := content
  · cases files with
    | none =>
      simpa [Reading.attach, Reading.cleanHumanMessageForRegenerate, HumanInput.toMessage,
        messageId, hid, Reading.getOriginalUserContentText, Reading.contentText, horiginal,
        hnamed] using hothers
    | some filesMessage =>
      simpa [Reading.attach, Reading.cleanHumanMessageForRegenerate, HumanInput.toMessage,
        messageId, hid, Reading.getOriginalUserContentText, Reading.contentText, horiginal,
        hnamed, lookup_append] using hothers
  · cases htext

/-! ### The date -/

/-- The memory that the injection puts there: the first time only. -/
def Context.memoryContent (context : Context) (messages : List Message) : List Char :=
  if lastInjectedDate messages = none then PyStr.stripList PyStr.isSpace context.memoryContext
  else []

theorem memoryContent_of_forgets (h : context.Forgets messages) :
    context.memoryContent messages = [] := by
  rw [Context.memoryContent]
  split
  · exact h ‹_›
  · rfl

section Injection

variable {pre post : List Message} {original : Message}

theorem isReminder_of_isTarget (h : m.isTarget = true) : m.isReminder = false :=
  (isTarget_iff.1 h).2.1

theorem lastInjectedDate_cons_append (horiginal : original.isReminder = false)
    (hpost : ∀ m ∈ post, m.isReminder = false) :
    lastInjectedDate (pre ++ original :: post) = lastInjectedDate pre :=
  lastInjectedDate_append_plain (forall_mem_cons.mpr ⟨horiginal, hpost⟩)

theorem renews_iff : context.renews messages = true ↔
    context.timedOut = false ∧ lastInjectedDate messages ≠ some context.currentDate.1 := by
  simp [Context.renews]

theorem injected_of_not_renews (hrenews : context.renews pre = false)
    (horiginal : original.isReminder = false) (hpost : ∀ m ∈ post, m.isReminder = false) :
    injected context (pre ++ original :: post) = pre ++ original :: post := by
  rw [injected]
  by_cases htime : context.timedOut
  · rw [if_pos htime]
  · rw [if_neg htime]
    have hdate : lastInjectedDate pre = some context.currentDate.1 := by
      by_contra hne
      have hall := renews_iff.mpr ⟨Bool.eq_false_of_not_eq_true htime, hne⟩
      rw [hrenews] at hall
      cases hall
    rw [inject_eq_none ((lastInjectedDate_cons_append horiginal hpost).trans hdate)]

/-- The date goes to the last message that can have one, if no message before it can, or if a date
is there already. -/
theorem injected_of_renews (hrenews : context.renews pre = true)
    (htarget : original.isTarget = true)
    (hfirst : lastInjectedDate pre = none → ∀ m ∈ pre, m.isTarget = false)
    (hpost : ∀ m ∈ post, m.isTarget = false ∧ m.isReminder = false) :
    injected context (pre ++ original :: post) = addMessages (pre ++ original :: post)
      (makeReminderAndUserMessages original context.currentDate (context.memoryContent pre)
        context.uuid) := by
  obtain ⟨htime, hdate⟩ := renews_iff.mp hrenews
  have hlast := @lastInjectedDate_cons_append pre post original (isReminder_of_isTarget htarget)
    fun m hm => (hpost m hm).2
  have hplace : target (pre ++ original :: post) context.currentDate context.memoryContext =
      some ((pre, original, post), context.memoryContent pre) := by
    rw [target, Context.memoryContent]
    rw [hlast]
    cases h : lastInjectedDate pre with
    | none => simp [splitFirst_cons_append htarget (hfirst h)]
    | some date =>
      have hne : date ≠ context.currentDate.1 := fun heq => hdate (heq ▸ h)
      simp [hne, splitLast_cons_append htarget fun m hm => (hpost m hm).1]
  rw [injected, inject]
  rw [if_neg (by simp [htime]), hplace, map_some]

end Injection

/-! ### Turns -/

/-- A question and what was there before it, with the uploads it came with (proof-only). -/
structure Turn where
  before : List Message
  summaryText : Option String
  question : Message
  files : Option (List Char)
  /-- A date was put before the question. -/
  renewed : Bool

namespace Turn

variable (R) (T : Turn)

/-- The question as the middlewares have left it. -/
def asked : Message :=
  { R.attach T.files T.question with
    id := if T.renewed then T.question.id ++ "__user" else T.question.id }

/-- What the question's id was put to. -/
def base : Values where
  messages := T.before ++ if T.renewed then [R.attach T.files T.question] else []
  summaryText := T.summaryText

/-- The messages that a run finds. -/
def opened (context : Context) : List Message :=
  T.before ++ if T.renewed then
    makeReminderAndUserMessages (R.attach T.files T.question) context.currentDate
      (context.memoryContent T.before) context.uuid
  else [R.attach T.files T.question]

/-- The question as it is sent again. -/
def again : Message := { T.question with id := (T.asked R).id }

structure Ready : Prop where
  target : T.question.isTarget = true
  visible : isVisibleHumanMessage T.question = true
  plain : Plain T.question
  id_ne : T.question.id ≠ ""
  distinct : (idsOf (T.before ++ [T.question])).Nodup
  user : T.question.id ++ "__user" ∉ idsOf T.before
  memory : T.question.id ++ "__memory" ∉ idsOf T.before
  first : T.renewed = true → lastInjectedDate T.before = none → ∀ m ∈ T.before, m.isTarget = false

end Turn

variable {T : Turn}

theorem idsOf_append {l l' : List Message} : idsOf (l ++ l') = idsOf l ++ idsOf l' :=
  map_append

@[simp] theorem idsOf_cons {l : List Message} : idsOf (m :: l) = m.id :: idsOf l := rfl

@[simp] theorem idsOf_nil : idsOf [] = [] := rfl

namespace Turn.Ready

theorem kind (h : T.Ready) : T.question.kind = .human := (isTarget_iff.1 h.target).1

theorem not_mem (h : T.Ready) : T.question.id ∉ idsOf T.before := by
  have hdistinct := h.distinct
  rw [idsOf_append, nodup_append] at hdistinct
  exact fun hmem => hdistinct.2.2 _ hmem _ (by simp) rfl

theorem attach_id_ne (h : T.Ready) : (R.attach files T.question).id ≠ "" := by
  rw [attach_id]
  exact h.id_ne

theorem asked_id_ne (h : T.Ready) : (T.asked R).id ≠ "" := by
  rw [Turn.asked]
  dsimp only
  split
  · simp
  · exact h.id_ne

end Turn.Ready

/-! ### The beginning of a run -/

theorem applied_of_new (h : m.id ∉ idsOf messages) : applied messages m = messages ++ [m] :=
  addMessage_fresh h

theorem attached_concat (hdistinct : (idsOf (messages ++ [m])).Nodup) (hkind : m.kind = .human) :
    R.attached files (messages ++ [m]) = messages ++ [R.attach files m] := by
  rw [Reading.attached]
  rw [getLast?_concat]
  dsimp only
  rw [if_pos hkind]
  exact addMessage_swap hdistinct attach_id

theorem addMessages_pair {pre : List Message} {x y x' y' : Message}
    (hdistinct : ((pre ++ [x, y]).map Message.id).Nodup) (hx : x'.id = x.id) (hy : y'.id = y.id) :
    addMessages (pre ++ [x, y]) [x', y'] = pre ++ [x', y'] := by
  have hfirst : addMessage (pre ++ [x, y]) x' = pre ++ [x', y] := addMessage_swap hdistinct hx
  have hdistinct' : (((pre ++ [x']) ++ [y]).map Message.id).Nodup := by
    simpa [hx] using hdistinct
  have hsecond : addMessage ((pre ++ [x']) ++ [y]) y' = (pre ++ [x']) ++ [y'] :=
    addMessage_swap hdistinct' hy
  rw [append_assoc, append_assoc] at hsecond
  rw [addMessages, foldl_cons, foldl_cons, foldl_nil, hfirst]
  exact hsecond

/-- The reminders of an injection. -/
def reminders (original : Message) (currentDate : ProperText) (memoryContent : List Char) :
    List Message :=
  ⟨original.id, .system, none, dateReminder currentDate.1, reminderKwargs (some currentDate.1)⟩ ::
    if memoryContent = [] then []
    else [⟨original.id ++ "__memory", .human, none, .text memoryContent, reminderKwargs none⟩]

theorem makeReminderAndUserMessages_concat {currentDate : ProperText} {memoryContent : List Char}
    {uuid : ProperText} (hid : m.id ≠ "") (hkind : m.kind = .human) :
    makeReminderAndUserMessages m currentDate memoryContent uuid =
      reminders m currentDate memoryContent ++ [{ m with id := m.id ++ "__user" }] := by
  obtain ⟨id, kind, name, content, kwargs⟩ := m
  obtain rfl : kind = .human := hkind
  have hstable : stableId ⟨id, .human, name, content, kwargs⟩ uuid = id := if_neg hid
  simp [makeReminderAndUserMessages, reminders, hstable]

theorem isReminder_of_mem_reminders {original : Message} {currentDate : ProperText}
    {memoryContent : List Char} (h : m ∈ reminders original currentDate memoryContent) :
    m.isReminder = true ∧ isHiddenOrControlMessage m = true := by
  by_cases hempty : memoryContent = []
  · simp only [reminders, hempty, ↓reduceIte, mem_singleton] at h
    subst h
    exact ⟨rfl, rfl⟩
  · simp only [reminders, hempty, ↓reduceIte, mem_cons, not_mem_nil, or_false] at h
    rcases h with rfl | rfl <;> exact ⟨rfl, rfl⟩

namespace Turn.Ready

theorem again_not_mem (h : T.Ready) : (T.again R).id ∉ idsOf (T.base R).messages := by
  rw [Turn.again, Turn.asked, Turn.base]
  cases T.renewed with
  | true => simpa [idsOf_append] using h.user
  | false => simpa using h.not_mem

theorem base_nodup (h : T.Ready) : (idsOf (T.base R).messages).Nodup := by
  have hdistinct := h.distinct
  rw [Turn.base]
  cases T.renewed with
  | true => simpa [idsOf_append] using hdistinct
  | false =>
    rw [idsOf_append] at hdistinct
    simpa using (nodup_append.mp hdistinct).1

theorem again_nodup (h : T.Ready) : (idsOf ((T.base R).messages ++ [T.again R])).Nodup := by
  rw [idsOf_append]
  refine nodup_append.mpr ⟨h.base_nodup, nodup_singleton _, ?_⟩
  rintro a ha b hb rfl
  rw [idsOf_cons, idsOf_nil, mem_singleton] at hb
  exact h.again_not_mem (hb ▸ ha)

/-- The messages that a run finds are the reminders and the question, after what was there. -/
theorem opened_eq (h : T.Ready) : ∃ hidden, T.opened R context = T.before ++ hidden ++ [T.asked R] ∧
    ∀ m ∈ hidden, m.isReminder = true ∧ isHiddenOrControlMessage m = true := by
  have hkind : (R.attach T.files T.question).kind = .human := attach_kind.trans h.kind
  rw [Turn.opened, Turn.asked]
  cases T.renewed with
  | true =>
    refine ⟨reminders (R.attach T.files T.question) context.currentDate
      (context.memoryContent T.before), ?_, fun m hm => isReminder_of_mem_reminders hm⟩
    rw [if_pos rfl, makeReminderAndUserMessages_concat h.attach_id_ne hkind, append_assoc,
      attach_id]
    rfl
  | false =>
    refine ⟨[], ?_, fun m hm => absurd hm not_mem_nil⟩
    rw [append_nil, if_neg Bool.false_ne_true]
    have heta : R.attach T.files T.question =
        { R.attach T.files T.question with id := T.question.id } := by
      rw [← @attach_id R T.question T.files]
    exact congrArg (fun m => T.before ++ [m]) heta

theorem attached_nodup (h : T.Ready) :
    ((T.before ++ [R.attach T.files T.question]).map Message.id).Nodup := by
  simpa [idsOf] using h.distinct

theorem tame (h : T.Ready) (memoryContent : List Char) :
    Tame (T.before ++ [R.attach T.files T.question]) [] (R.attach T.files T.question)
      memoryContent := by
  refine ⟨rfl, h.attach_id_ne, ?_, fun _ => ?_⟩
  · simpa [idsOf] using h.user
  · simpa [idsOf] using h.memory

theorem opened_nodup (h : T.Ready) : (idsOf (T.opened R context)).Nodup := by
  rw [Turn.opened]
  cases T.renewed with
  | true => exact (h.tame _).distinct h.attached_nodup
  | false => exact h.attached_nodup

theorem injected_first (h : T.Ready) (hrenews : context.renews T.before = T.renewed) :
    injected context (T.before ++ [R.attach T.files T.question]) = T.opened R context := by
  rw [Turn.opened]
  have htarget : (R.attach T.files T.question).isTarget = true := attach_isTarget.trans h.target
  have hnone : ∀ m ∈ ([] : List Message), m.isTarget = false ∧ m.isReminder = false :=
    fun m hm => absurd hm not_mem_nil
  cases hrenewed : T.renewed with
  | false =>
    exact injected_of_not_renews (hrenews.trans hrenewed) (isReminder_of_isTarget htarget)
      fun m hm => (hnone m hm).2
  | true =>
    rw [injected_of_renews (hrenews.trans hrenewed) htarget (h.first hrenewed) hnone, if_pos rfl]
    rw [(addMessages_swap_iff h.attached_nodup).mpr (h.tame _), append_nil]

/-- A run that asks the question again: the reminder takes the place of the question, and the
question that of the one that is asked again. -/
theorem injected_again (h : T.Ready) (hrenewed : T.renewed = true)
    (hrenews : context.renews T.before = true) (hforgets : context.Forgets T.before) :
    injected context ((T.base R).messages ++ [R.attach files (T.again R)]) =
      T.opened R context := by
  have htarget : (R.attach T.files T.question).isTarget = true := attach_isTarget.trans h.target
  have hkind : (R.attach T.files T.question).kind = .human := attach_kind.trans h.kind
  have hid : (T.again R).id = T.question.id ++ "__user" := by
    simp [Turn.again, Turn.asked, hrenewed]
  have hagain : ∀ m ∈ [R.attach files (T.again R)], m.isTarget = false ∧ m.isReminder = false := by
    intro m hm
    obtain rfl := mem_singleton.mp hm
    have hsuffix : "__user".toList.isSuffixOf (T.again R).id.toList = true := by
      rw [hid, String.toList_append]
      exact isSuffixOf_iff_suffix.mpr (suffix_append _ _)
    constructor
    · rw [attach_isTarget, Message.isTarget, hsuffix, Bool.not_true, Bool.and_false]
    · rw [attach_isReminder]
      show T.question.isReminder = false
      exact isReminder_of_isTarget h.target
  have hempty := memoryContent_of_forgets hforgets
  have hdistinct := h.again_nodup (R := R)
  have hbase : (T.base R).messages = T.before ++ [R.attach T.files T.question] := by
    simp [Turn.base, hrenewed]
  rw [hbase, append_assoc, singleton_append] at hdistinct ⊢
  have hdistinct' : ((T.before ++ R.attach T.files T.question ::
      [R.attach files (T.again R)]).map Message.id).Nodup := by
    simpa [idsOf] using hdistinct
  rw [injected_of_renews hrenews htarget (h.first hrenewed) hagain, hempty]
  rw [Turn.opened]
  rw [if_pos hrenewed, hempty, makeReminderAndUserMessages_concat h.attach_id_ne hkind, reminders,
    if_pos rfl]
  -- the reminder takes the first place, the question the second
  refine addMessages_pair hdistinct' rfl ?_
  dsimp only
  rw [attach_id, attach_id, hid]

theorem injected_rerun (h : T.Ready) (hrenews : context.renews T.before = T.renewed)
    (hforgets : T.renewed = true → context.Forgets T.before)
    (hfiles : T.renewed = false → context.files = T.files) :
    injected context ((T.base R).messages ++ [R.attach context.files (T.again R)]) =
      T.opened R context := by
  cases hrenewed : T.renewed with
  | true => exact h.injected_again hrenewed (hrenews.trans hrenewed) (hforgets hrenewed)
  | false =>
    have hbase : (T.base R).messages = T.before := by simp [Turn.base, hrenewed]
    have hagain : T.again R = T.question := by simp [Turn.again, Turn.asked, hrenewed]
    rw [hbase, hagain, hfiles hrenewed]
    exact h.injected_first hrenews

/-- **A second run finds the messages of the first.** -/
theorem opened_again (h : T.Ready) (hrenews : context.renews T.before = T.renewed)
    (hforgets : T.renewed = true → context.Forgets T.before)
    (hfiles : T.renewed = false → context.files = T.files) :
    R.opened (T.base R).messages (T.again R) context = T.opened R context := by
  rw [Reading.opened]
  rw [applied_of_new h.again_not_mem, attached_concat h.again_nodup h.kind]
  exact h.injected_rerun hrenews hforgets hfiles

theorem asked_visible (h : T.Ready) : isVisibleHumanMessage (T.asked R) = true :=
  (@attach_isVisibleHumanMessage R T.question T.files).trans h.visible

theorem lastHuman_opened (h : T.Ready) : lastHuman (T.opened R context) = some (T.asked R) := by
  obtain ⟨hidden, hopened, -⟩ := @Turn.Ready.opened_eq R context T h
  rw [hopened, lastHuman_concat h.asked_visible]

theorem lastTurn_opened (h : T.Ready) : R.lastTurn (T.opened R context) = R.lastTurn T.before := by
  obtain ⟨hidden, hopened, hhidden⟩ := @Turn.Ready.opened_eq R context T h
  rw [hopened, append_assoc]
  refine lastTurn_append fun m hm => ?_
  rcases mem_append.mp hm with hm | hm
  · simp [Reading.isVisibleAiMessage, (hhidden m hm).2]
  · obtain rfl := mem_singleton.mp hm
    have hkind : (T.asked R).kind = .human := attach_kind.trans h.kind
    simp [Reading.isVisibleAiMessage, hkind]

end Turn.Ready

/-! ### The same messages -/

namespace SameMessage

theorem refl (m : Message) : SameMessage m m := .inl rfl

theorem isReminder (h : SameMessage m x) : m.isReminder = x.isReminder := by
  rcases h with rfl | ⟨hm, hx, -⟩
  · rfl
  · exact hm.trans hx.symm

theorem id (h : SameMessage m x) : m.id = x.id := by
  rcases h with rfl | ⟨-, -, hid, -⟩
  · rfl
  · exact hid

end SameMessage

variable {l l' : List Message}

theorem sameMessages_refl (l : List Message) : List.Forall₂ SameMessage l l :=
  forall₂_same.mpr fun m _ => .refl m

theorem map_filter_same {β : Type} {p : Message → Bool} {f : Message → β}
    (h : List.Forall₂ SameMessage l l')
    (hp : ∀ m m', SameMessage m m' → p m = p m' ∧ (p m = true → f m = f m')) :
    (l.filter p).map f = (l'.filter p).map f := by
  induction h with
  | nil => rfl
  | cons hm _ ih =>
    obtain ⟨hboth, heq⟩ := hp _ _ hm
    rw [filter_cons, filter_cons, ← hboth]
    split
    · rw [map_cons, map_cons, ih, heq ‹_›]
    · exact ih

theorem any_isReminder_same (h : List.Forall₂ SameMessage l l') :
    l.any Message.isReminder = l'.any Message.isReminder := by
  induction h with
  | nil => rfl
  | cons hm _ ih => rw [any_cons, any_cons, hm.isReminder, ih]

theorem reminderBaseIds_same (h : List.Forall₂ SameMessage l l') :
    reminderBaseIds l = reminderBaseIds l' := by
  simp only [reminderBaseIds]
  rw [map_filter_same h fun m m' hm => ⟨by rw [hm.isReminder, hm.id], fun _ => hm.id⟩]

theorem isRescued_same (bases : List (List Char)) (h : SameMessage m x) :
    isRescued bases m = isRescued bases x := by
  simp only [isRescued]
  rw [h.isReminder, h.id]

theorem filter_same {p : Message → Bool} (hp : ∀ m m', SameMessage m m' → p m = p m')
    (h : List.Forall₂ SameMessage l l') : List.Forall₂ SameMessage (l.filter p) (l'.filter p) := by
  refine rel_filter (fun m m' hm => ?_) h
  show p m = true ↔ p m' = true
  rw [hp m m' hm]

theorem preserve_same {k k' : List Message} (hl : List.Forall₂ SameMessage l l')
    (hk : List.Forall₂ SameMessage k k') :
    List.Forall₂ SameMessage (preserveDynamicContextReminders l k).1
        (preserveDynamicContextReminders l' k').1 ∧
      List.Forall₂ SameMessage (preserveDynamicContextReminders l k).2
        (preserveDynamicContextReminders l' k').2 := by
  simp only [preserveDynamicContextReminders]
  rw [any_isReminder_same hl, reminderBaseIds_same hl]
  split
  · refine ⟨filter_same (fun m m' hm => ?_) hl, rel_append (filter_same ?_ hl) hk⟩
    · rw [isRescued_same _ hm]
    · exact fun m m' hm => isRescued_same _ hm
  · exact ⟨hl, hk⟩

/-- There is a compaction of the one list if there is one of the other. -/
theorem prepareCompaction_same {force : Bool} {summaryText : Option String}
    (h : List.Forall₂ SameMessage l l') (hagrees : Agrees s summaryText l l') :
    (prepareCompaction s force l summaryText = none ∧
        prepareCompaction s force l' summaryText = none) ∨
      ∃ parts parts', prepareCompaction s force l summaryText = some parts ∧
        prepareCompaction s force l' summaryText = some parts' ∧
        List.Forall₂ SameMessage parts.2 parts'.2 := by
  obtain ⟨hshould, hcutoff⟩ := hagrees
  obtain ⟨hfirst, hsecond⟩ := preserve_same
    (forall₂_take (s.determineCutoffIndex l') h)
    (forall₂_drop (s.determineCutoffIndex l') h)
  unfold prepareCompaction
  rw [hshould, hcutoff]
  split
  · exact .inl ⟨rfl, rfl⟩
  · dsimp only
    split
    · exact .inl ⟨rfl, rfl⟩
    · split
      · rename_i hnil
        rw [hnil, forall₂_nil_left_iff] at hfirst
        rw [if_pos hfirst]
        exact .inl ⟨rfl, rfl⟩
      · rename_i hnil
        rw [if_neg fun hnil' => hnil (forall₂_nil_right_iff.mp (hnil' ▸ hfirst))]
        exact .inr ⟨_, _, rfl, rfl, hsecond⟩

/-- **A compaction of the same messages leaves the same messages.** -/
theorem summarised_same {summaryText summary summary' : Option String}
    (h : List.Forall₂ SameMessage l l') (hagrees : Agrees s summaryText l l')
    (hsummary : summary.isSome = summary'.isSome) :
    List.Forall₂ SameMessage (summarised s false summary ⟨l, summaryText⟩).messages
      (summarised s false summary' ⟨l', summaryText⟩).messages := by
  simp only [summarised]
  rcases @prepareCompaction_same s l l' false summaryText h hagrees with
    ⟨hl, hl'⟩ | ⟨parts, parts', hl, hl', hparts⟩
  · simpa only [hl, hl'] using h
  · simp only [hl, hl']
    cases summary with
    | none =>
      cases summary' with
      | none => exact h
      | some text => cases hsummary
    | some text =>
      cases summary' with
      | none => cases hsummary
      | some text' => exact hparts

/-- What a run finds is the same but for the text of the reminder, where it finds no memory. -/
theorem Turn.Ready.opened_same (h : T.Ready)
    (hcontext : T.renewed = true → context.Forgets T.before)
    (hfirst : T.renewed = true → first.Forgets T.before) :
    List.Forall₂ SameMessage (T.opened R context) (T.opened R first) := by
  rw [Turn.opened]
  refine rel_append (sameMessages_refl _) ?_
  cases hrenewed : T.renewed with
  | false => exact sameMessages_refl _
  | true =>
    have hkind : (R.attach T.files T.question).kind = .human := attach_kind.trans h.kind
    rw [if_pos rfl, if_pos rfl, memoryContent_of_forgets (hcontext hrenewed),
      memoryContent_of_forgets (hfirst hrenewed),
      makeReminderAndUserMessages_concat h.attach_id_ne hkind,
      makeReminderAndUserMessages_concat h.attach_id_ne hkind]
    exact .cons (.inr ⟨rfl, rfl, rfl, rfl, rfl⟩) (sameMessages_refl _)

end AfterFlow.Threads.Regeneration
