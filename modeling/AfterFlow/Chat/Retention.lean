import AfterFlow.Chat.Merging
import Mathlib.Data.List.Pairwise

/-!
# No message vanishes from the chat

What a summarization takes is in the history or in the buffer, in the order in which it was live,
and every render puts it between the history that was loaded and the live list. That is all if the
live list loses messages only at its front, and if the cached list, off which they are read, has
them there as the live list has.

What the merge does is told by what the chat shows of lists: removing duplicates leaves the last
face under each identity, whatever the hidden messages among them are.

## Main results

* `faces_dedupeMessagesByIdentity`, `faces_mergeMessages` — what duplicates and the merge show
* `Archived.take`, `Archived.commit`, `Archived.prune`, `Archived.resolve` — the rescue
* `World.Sound.step` — the step lemma
* `no_message_vanishes` — runs of orderly steps
* `message_vanishes` — an answer that the second summarization takes away
-/

namespace AfterFlow.Chat

open Keyed Transition List Option

variable {l all messages messages' : List Message} {m : Message} {x : String}
  {p : String × String}

/-! ### What the chat shows of lists -/

theorem faces_append : faces (messages ++ messages') = faces messages ++ faces messages' :=
  filterMap_append

theorem identities_append :
    identities (messages ++ messages') = identities messages ++ identities messages' :=
  filterMap_append

theorem face_eq_some :
    m.face = some p ↔
      isHiddenFromUIMessage m = false ∧ messageIdentity m = some p.1 ∧ m.content = p.2 := by
  rw [Message.face]
  cases isHiddenFromUIMessage m with
  | true => simp
  | false =>
    rw [if_neg (by simp), map_eq_some_iff]
    constructor
    · rintro ⟨y, hy, rfl⟩
      exact ⟨rfl, hy, rfl⟩
    · rintro ⟨-, hy, hcontent⟩
      exact ⟨p.1, hy, by rw [hcontent]⟩

theorem mem_faces (h : p ∈ faces messages) :
    ∃ m ∈ messages, isHiddenFromUIMessage m = false ∧ messageIdentity m = some p.1 ∧
      m.content = p.2 := by
  obtain ⟨m, hm, hface⟩ := mem_filterMap.1 h
  exact ⟨m, hm, face_eq_some.1 hface⟩

theorem keys_faces_sublist : (keys (faces messages)).Sublist (identities messages) := by
  induction messages with
  | nil => exact .slnil
  | cons m messages ih =>
    rw [faces, identities]
    cases hface : m.face with
    | none =>
      rw [filterMap_cons_none hface]
      cases hid : messageIdentity m with
      | none =>
        rw [filterMap_cons_none hid]
        exact ih
      | some y =>
        rw [filterMap_cons_some hid]
        exact ih.cons y
    | some p =>
      rw [filterMap_cons_some hface, filterMap_cons_some (face_eq_some.1 hface).2.1]
      exact ih.cons_cons p.1

theorem mem_identities_of_keys (h : x ∈ keys (faces messages)) : x ∈ identities messages :=
  keys_faces_sublist.subset h

@[simp] theorem face_withDuration {durations : String → Option ℕ} :
    (m.withDuration durations).face = m.face := rfl

@[simp] theorem messageIdentity_withDuration {durations : String → Option ℕ} :
    messageIdentity (m.withDuration durations) = messageIdentity m := rfl

@[simp] theorem faces_withDuration {durations : String → Option ℕ} :
    faces (messages.map (Message.withDuration durations)) = faces messages := by
  rw [faces]
  rw [filterMap_map]
  exact filterMap_congr fun m _ => face_withDuration

@[simp] theorem identities_withDuration {durations : String → Option ℕ} :
    identities (messages.map (Message.withDuration durations)) = identities messages := by
  rw [identities]
  rw [filterMap_map]
  exact filterMap_congr fun m _ => messageIdentity_withDuration

/-- Of the messages that stay the chat shows the last face under each identity. -/
theorem faces_keptOf (hl : ∀ p ∈ faces l, p ∈ faces all) :
    faces (keptOf all l) = latest (faces l) := by
  induction l with
  | nil => rfl
  | cons m after ih =>
    rw [keptOf]
    cases hface : m.face with
    | none =>
      have hcons : faces (m :: after) = faces after := filterMap_cons_none hface
      rw [hcons] at hl ⊢
      rw [← ih hl]
      split
      · exact filterMap_cons_none hface
      · rfl
    | some p =>
      obtain ⟨hvisible, hid, -⟩ := face_eq_some.1 hface
      have hcons : faces (m :: after) = p :: faces after := filterMap_cons_some hface
      rw [hcons] at hl ⊢
      have hall : p.1 ∈ keys (faces all) := mem_map_of_mem (hl p mem_cons_self)
      have hkept : isKept all m after = decide (p.1 ∉ keys (faces after)) := by
        rw [isKept]
        rw [hid]
        simp only [if_pos hall, hvisible, Bool.not_false, Bool.true_and]
      have ih' := ih fun q hq => hl q (mem_cons_of_mem _ hq)
      by_cases hlater : p.1 ∈ keys (faces after)
      · rw [latest_cons_of_mem hlater, if_neg (by simpa [hkept] using hlater), ih']
      · rw [latest_cons_of_not_mem hlater, if_pos (by simpa [hkept] using hlater), ← ih']
        exact filterMap_cons_some hface

/-- **Removing duplicates leaves the last face under each identity.** -/
theorem faces_dedupeMessagesByIdentity :
    faces (dedupeMessagesByIdentity messages) = latest (faces messages) := by
  rw [dedupeMessagesByIdentity]
  rw [faces_withDuration, faces_keptOf fun _ h => h]

theorem keptOf_sublist : (keptOf all l).Sublist l := by
  induction l with
  | nil => exact .slnil
  | cons m after ih =>
    rw [keptOf]
    split
    · exact ih.cons_cons m
    · exact ih.cons m

theorem identities_dedupeMessagesByIdentity :
    identities (dedupeMessagesByIdentity messages) ⊆ identities messages := by
  rw [dedupeMessagesByIdentity]
  rw [identities_withDuration]
  exact (keptOf_sublist.filterMap _).subset

/-- **What the merge shows**: history, the live list and the optimistic messages, the last face
under each identity. -/
theorem faces_mergeMessages {history optimistic : List Message} :
    faces (mergeMessages history messages optimistic) =
      latest (faces history ++ faces messages ++ faces optimistic) := by
  have hparts : history.rdropWhile (isLive messages) ++ history.rtakeWhile (isLive messages) =
      history := rdropWhile_append_rtakeWhile
  -- what is cut off comes again in the live list
  have hcut : ∀ x ∈ keys (faces (history.rtakeWhile (isLive messages))),
      x ∈ keys (faces messages) := by
    intro x hx
    obtain ⟨p, hp, rfl⟩ := mem_map.1 hx
    obtain ⟨m, hm, -, hid, -⟩ := mem_faces hp
    have hlive := mem_rtakeWhile_imp hm
    simpa [isLive, hid] using hlive
  have hagain : ∀ x ∈ keys (faces (history.rtakeWhile (isLive messages))),
      x ∈ keys (faces messages ++ faces optimistic) := by
    intro x hx
    rw [Keyed.keys, map_append]
    exact mem_append_left _ (hcut x hx)
  calc faces (mergeMessages history messages optimistic)
      = latest (faces (history.rdropWhile (isLive messages)) ++
          (faces messages ++ faces optimistic)) := by
        unfold mergeMessages
        dsimp only
        rw [faces_withDuration, faces_dedupeMessagesByIdentity, faces_append, faces_append,
          append_assoc]
    _ = latest (faces history ++ faces messages ++ faces optimistic) := by
        rw [← latest_displaced hagain, ← faces_append, hparts, append_assoc]

theorem face_key (h : m.face = some p) : messageIdentity m = some p.1 := (face_eq_some.1 h).2.1

/-- What is chosen by the identity shows the faces chosen by their keys. -/
theorem faces_filter {P : String → Bool} {Q : Message → Bool}
    (hQ : ∀ m ∈ messages, ∀ x ∈ messageIdentity m, Q m = P x) :
    faces (messages.filter Q) = (faces messages).filter fun p => P p.1 := by
  induction messages with
  | nil => rfl
  | cons m messages ih =>
    have ih' := ih fun m' hm' => hQ m' (mem_cons_of_mem _ hm')
    cases hface : m.face with
    | none =>
      have hcons : faces (m :: messages) = faces messages := filterMap_cons_none hface
      rw [hcons, ← ih', filter_cons]
      split
      · exact filterMap_cons_none hface
      · rfl
    | some p =>
      have hcons : faces (m :: messages) = p :: faces messages := filterMap_cons_some hface
      rw [hcons, filter_cons, filter_cons, hQ m mem_cons_self p.1 (face_key hface),
        ← ih']
      split
      · exact filterMap_cons_some hface
      · rfl

theorem faces_missingFrom {history : List Message} :
    faces (missingFrom history messages) =
      (faces messages).filter fun p => decide (p.1 ∉ identities history) :=
  faces_filter (P := fun x => decide (x ∉ identities history)) fun m _ x hx => by
    rw [mem_def.1 hx, any_some]

theorem faces_pruneConfirmedArchivedMessages {history : List Message} :
    faces (pruneConfirmedArchivedMessages messages history) =
      (faces messages).filter fun p => decide (p.1 ∉ identities history) :=
  faces_filter (P := fun x => decide (x ∉ identities history)) fun m _ x hx => by
    rw [mem_def.1 hx, all_some]

/-! ### The archive, the queue and the buffer -/

/-- What is true of the archive, the queue and the buffer: together the first two show `taken`, and
the buffer has what is still in the queue. `old` are the identities of the loaded history. -/
structure Archived (old : List String) (taken : List (String × String)) (appended : List Message)
    (queue : List (List Message)) (pending : List Message) : Prop where
  seen : faces appended ++ faces queue.flatten = taken
  nodup : (keys taken).Nodup
  older : ∀ x ∈ keys taken, x ∉ old
  /-- What is visible in the queue has not been taken before, hidden or not. -/
  batches : queue.Pairwise fun q q' => ∀ x ∈ keys (faces q'), x ∉ identities q
  fresh : ∀ q ∈ queue, ∀ x ∈ keys (faces q), x ∉ old ∧ x ∉ identities appended
  pending : ∃ settled, faces pending = settled ++ faces queue.flatten ∧
    (keys settled).Nodup ∧ ∀ x ∈ keys settled, x ∈ keys (faces appended)

variable {old : List String} {taken moved : List (String × String)}
  {appended pending q : List Message} {queue : List (List Message)}

theorem Archived.not_mem_appended (h : Archived old taken appended queue pending)
    (hx : x ∈ keys (faces queue.flatten)) : x ∉ old ∧ x ∉ identities appended := by
  obtain ⟨p, hp, rfl⟩ := mem_map.1 hx
  obtain ⟨m, hm, hvisible, hid, hcontent⟩ := mem_faces hp
  obtain ⟨q, hq, hmq⟩ := mem_flatten.1 hm
  refine h.fresh q hq p.1 (mem_map_of_mem ?_)
  exact mem_filterMap.2 ⟨m, hmq, face_eq_some.2 ⟨hvisible, hid, hcontent⟩⟩

theorem Archived.nodup_pending (h : Archived old taken appended queue pending) :
    (keys (faces pending)).Nodup := by
  obtain ⟨settled, hpending, hnodup, hsettled⟩ := h.pending
  have htaken := h.nodup
  rw [← h.seen, Keyed.keys, map_append, nodup_append] at htaken
  rw [hpending, Keyed.keys, map_append, nodup_append]
  exact ⟨hnodup, htaken.2.1, fun x hx y hy => htaken.2.2 x (hsettled x hx) y hy⟩

theorem Archived.pending_taken (h : Archived old taken appended queue pending) :
    keys (faces pending) ⊆ keys taken := by
  obtain ⟨settled, hpending, -, hsettled⟩ := h.pending
  rw [hpending, ← h.seen, Keyed.keys, map_append, Keyed.keys, map_append]
  exact append_subset.2 ⟨fun x hx => mem_append_left _ (hsettled x hx),
    fun x hx => mem_append_right _ hx⟩

/-- **React applies the first queued update.** -/
theorem Archived.commit (h : Archived old taken appended (q :: queue) pending) :
    Archived old taken (dedupeMessagesByIdentity (appended ++ q)) queue pending := by
  have hfaces := h.seen
  rw [flatten_cons, faces_append, ← append_assoc] at hfaces
  have hnodup := h.nodup
  rw [← hfaces, Keyed.keys, map_append, nodup_append] at hnodup
  have happended :
      faces (dedupeMessagesByIdentity (appended ++ q)) = faces appended ++ faces q := by
    rw [faces_dedupeMessagesByIdentity, faces_append, latest_of_nodup hnodup.1]
  obtain ⟨hq, hqueue⟩ := pairwise_cons.1 h.batches
  obtain ⟨settled, hpending, hsettled, hknown⟩ := h.pending
  refine
    { seen := by rw [happended, hfaces]
      nodup := h.nodup
      older := h.older
      batches := hqueue
      fresh := fun q' hq' x hx => ?_
      pending := ⟨settled ++ faces q, ?_, ?_, fun x hx => ?_⟩ }
  · obtain ⟨hold, hnew⟩ := h.fresh q' (mem_cons_of_mem _ hq') x hx
    refine ⟨hold, fun hmem => ?_⟩
    have hmem' := identities_dedupeMessagesByIdentity hmem
    rw [identities_append] at hmem'
    exact (mem_append.1 hmem').elim hnew (hq q' hq' x hx)
  · rw [hpending, flatten_cons, faces_append, append_assoc]
  · have hall := h.nodup_pending
    rw [hpending, flatten_cons, faces_append, ← append_assoc, Keyed.keys, map_append,
      nodup_append] at hall
    exact hall.1
  · rw [happended, Keyed.keys, map_append]
    rw [Keyed.keys, map_append] at hx
    exact mem_append.2 ((mem_append.1 hx).imp_left (hknown x))

theorem Archived.commits (h : Archived old taken appended queue pending) (n : ℕ) :
    Archived old taken
      ((queue.take n).foldl (fun a q => dedupeMessagesByIdentity (a ++ q)) appended)
      (queue.drop n) pending := by
  induction n generalizing appended queue with
  | zero => exact h
  | succ n ih =>
    cases queue with
    | nil => exact h
    | cons q queue => exact ih h.commit

/-- **A summarization takes messages.** -/
theorem Archived.take (h : Archived old taken appended queue pending)
    (hnodup : (keys (taken ++ faces q)).Nodup) (hold : ∀ x ∈ keys (faces q), x ∉ old)
    (hnew : ∀ x ∈ keys (faces q), x ∉ identities (appended ++ queue.flatten)) :
    Archived old (taken ++ faces q) appended (queue ++ [q])
      (dedupeMessagesByIdentity (pending ++ q)) := by
  have hqueue : faces (queue ++ [q]).flatten = faces queue.flatten ++ faces q := by
    rw [flatten_append, faces_append, flatten_singleton]
  obtain ⟨settled, hpending, hsettled, hknown⟩ := h.pending
  refine
    { seen := by rw [hqueue, ← append_assoc, h.seen]
      nodup := hnodup
      older := fun x hx => ?_
      batches := pairwise_append.2 ⟨h.batches, pairwise_singleton _ _, ?_⟩
      fresh := fun q' hq' x hx => ?_
      pending := ⟨settled, ?_, hsettled, hknown⟩ }
  · rw [Keyed.keys, map_append] at hx
    exact (mem_append.1 hx).elim (h.older x) (hold x)
  · intro q₁ hq₁ q₂ hq₂ x hx hmem
    rw [mem_singleton.1 hq₂] at hx
    refine hnew x hx ?_
    rw [identities_append]
    obtain ⟨m, hm, hid⟩ := mem_filterMap.1 hmem
    exact mem_append_right _
      (mem_filterMap.2 ⟨m, mem_flatten.2 ⟨q₁, hq₁, hm⟩, hid⟩)
  · rcases mem_append.1 hq' with hq' | hq'
    · exact h.fresh q' hq' x hx
    · rw [mem_singleton.1 hq'] at hx
      refine ⟨hold x hx, fun hmem => hnew x hx ?_⟩
      rw [identities_append]
      exact mem_append_left _ hmem
  · have hall : (keys (faces pending ++ faces q)).Nodup := by
      rw [Keyed.keys, map_append, nodup_append] at hnodup ⊢
      exact ⟨h.nodup_pending, hnodup.2.1, fun x hx => hnodup.2.2 x (h.pending_taken hx)⟩
    rw [faces_dedupeMessagesByIdentity, faces_append, latest_of_nodup hall, hqueue, hpending,
      append_assoc]

theorem Archived.prune (h : Archived old taken appended queue pending) {history : List Message}
    (hhistory : ∀ x ∈ identities history, x ∈ old ∨ x ∈ identities appended) :
    Archived old taken appended queue (pruneConfirmedArchivedMessages pending history) := by
  obtain ⟨settled, hpending, hsettled, hknown⟩ := h.pending
  refine { h with
    pending := ⟨settled.filter fun p => decide (p.1 ∉ identities history), ?_, ?_, ?_⟩ }
  · rw [faces_pruneConfirmedArchivedMessages, hpending, filter_append]
    refine congrArg _ (filter_eq_self.2 fun p hp => ?_)
    obtain ⟨hold, hnew⟩ := h.not_mem_appended (mem_map_of_mem hp)
    exact decide_eq_true fun hmem => (hhistory _ hmem).elim hold hnew
  · exact hsettled.sublist (filter_sublist.map _)
  · exact fun x hx => hknown x ((filter_sublist.map _).subset hx)

/-- **The buffer brings what the history has not yet.** -/
theorem Archived.resolve (h : Archived old taken appended queue pending) {history : List Message}
    {older : List (String × String)} (hseen : faces history = older ++ faces appended)
    (hhistory : ∀ x ∈ identities history, x ∈ old ∨ x ∈ identities appended) :
    faces (resolvePreservedHistory history pending) = older ++ taken := by
  obtain ⟨settled, hpending, -, hknown⟩ := h.pending
  have hsettled : settled.filter (fun p => decide (p.1 ∉ identities history)) = [] := by
    refine filter_eq_nil_iff.2 fun p hp => ?_
    have hin : p.1 ∈ identities history := by
      refine mem_identities_of_keys ?_
      rw [hseen, Keyed.keys, map_append]
      exact mem_append_right _ (hknown _ (mem_map_of_mem hp))
    simpa using hin
  have hwaiting : (faces queue.flatten).filter (fun p => decide (p.1 ∉ identities history)) =
      faces queue.flatten := by
    refine filter_eq_self.2 fun p hp => ?_
    obtain ⟨hold, hnew⟩ := h.not_mem_appended (mem_map_of_mem hp)
    exact decide_eq_true fun hmem => (hhistory _ hmem).elim hold hnew
  rw [resolvePreservedHistory]
  rw [faces_append, faces_missingFrom, hpending, filter_append, hsettled, hwaiting,
    nil_append, hseen, append_assoc, h.seen]

/-! ### The live list -/

variable {w w' : World} {rows : List RunMessage} {superseded : List String} {e : Entry}

/-- Whether a render has shown the live message of the identity. -/
def World.isShown (w : World) (x : String) : Bool :=
  w.live.any fun e => e.identity = some x && e.shown

/-- What is true of the live list. -/
structure Lively (live : List Entry) : Prop where
  named : ∀ e ∈ live, e.identity.isSome = true
  nodup : (live.map Entry.identity).Nodup
  versions : ∀ e ∈ live, isHiddenFromUIMessage e.message = false →
    e.lastVisible = some e.message.content
  shown : ∀ e ∈ live, e.shown = true → isHiddenFromUIMessage e.message = false

theorem owed_eq (hversion : isHiddenFromUIMessage e.message = false →
      e.lastVisible = some e.message.content)
    (hshown : e.shown = true → isHiddenFromUIMessage e.message = false) :
    e.owed = if e.shown then e.message.face else none := by
  rw [Entry.owed]
  split
  · rename_i hs
    have hvisible := hshown hs
    rw [hversion hvisible, Message.face, if_neg (by simp [hvisible])]
    rw [Entry.identity]
    cases messageIdentity e.message <;> rfl
  · rfl

theorem Lively.eq_of_identity {live : List Entry} (h : Lively live) {e' : Entry} (he : e ∈ live)
    (he' : e' ∈ live) (hid : e.identity = e'.identity) : e = e' :=
  inj_on_of_nodup_map h.nodup he he' hid

theorem map_messageIdentity (h : ∀ m ∈ messages, (messageIdentity m).isSome = true) :
    messages.map messageIdentity = (identities messages).map some := by
  induction messages with
  | nil => rfl
  | cons m messages ih =>
    obtain ⟨x, hx⟩ := isSome_iff_exists.1 (h m mem_cons_self)
    have hcons : identities (m :: messages) = x :: identities messages :=
      filterMap_cons_some hx
    rw [map_cons, ih fun m' hm' => h m' (mem_cons_of_mem _ hm'), hcons, map_cons, hx]

theorem World.map_identity (h : ∀ e ∈ w.live, e.identity.isSome = true) :
    w.live.map Entry.identity = (identities w.messages).map some := by
  have hnamed : ∀ m ∈ w.messages, (messageIdentity m).isSome = true := by
    intro m hm
    obtain ⟨e, he, rfl⟩ := List.mem_map.1 hm
    exact h e he
  rw [← map_messageIdentity hnamed, World.messages, List.map_map]
  rfl

theorem Lively.nodup_identities (h : Lively w.live) : (identities w.messages).Nodup := by
  have hnodup := h.nodup
  rw [World.map_identity h.named] at hnodup
  exact hnodup.of_map

theorem Lively.nodup_faces (h : Lively w.live) : (keys (faces w.messages)).Nodup :=
  h.nodup_identities.sublist keys_faces_sublist

/-- **What is owed of the live list**: what the chat shows of it, as far as it has been shown. -/
theorem World.owed_live (h : Lively w.live) :
    w.live.filterMap Entry.owed = (faces w.messages).filter fun p => w.isShown p.1 := by
  rw [faces, World.messages]
  rw [filterMap_map, filter_filterMap]
  refine filterMap_congr fun e he => ?_
  rw [owed_eq (h.versions e he) (h.shown e he), Function.comp_apply]
  cases hface : e.message.face with
  | none => rw [filter_none, ite_self]
  | some p =>
    have hid : e.identity = some p.1 := face_key hface
    have hshown : w.isShown p.1 = e.shown := by
      refine Bool.eq_iff_iff.2 ⟨fun hany => ?_, fun hs => ?_⟩
      · obtain ⟨e', he', hboth⟩ := any_eq_true.1 hany
        obtain ⟨hid', hs⟩ := (Bool.and_eq_true _ _).mp hboth
        rwa [h.eq_of_identity he he' (hid.trans (of_decide_eq_true hid').symm)]
      · exact any_eq_true.2 ⟨e, he, by simp [hid, hs]⟩
    rw [filter_some, hshown]

theorem World.owed_eq (h : Lively w.live) :
    w.owed = w.gone ++ (faces w.messages).filter fun p => w.isShown p.1 := by
  rw [World.owed, World.owed_live h]

/-! ### The invariant -/

/-- What a summarization takes off the live list when its values come. -/
def World.leaving (w : World) : List (String × String) :=
  match w.arriving with
  | none => []
  | some messages => faces (before (firstRetainedVisibleIdentity messages) w.messages)

/-- What is true of a summarization whose values are still to come. -/
structure World.Window (w : World) (messages : List Message) : Prop where
  tail : faces (before (firstRetainedVisibleIdentity messages) w.messages) ++
    faces (retained messages) = faces w.messages
  shown : ∀ x ∈ keys (faces (before (firstRetainedVisibleIdentity messages) w.messages)),
    w.isShown x = true
  named : ∀ m ∈ retained messages, (messageIdentity m).isSome = true
  nodup : (identities (retained messages)).Nodup

structure World.Sound (rows : List RunMessage) (superseded : List String) (w : World) : Prop where
  live : Lively w.live
  archived : Archived (identities (loaded rows superseded)) (w.gone ++ w.leaving) w.appended w.queue
    w.pending
  /-- A message that the chat shows is live, or it has gone. -/
  apart : ∀ x ∈ keys (faces w.messages),
    x ∉ keys w.gone ∧ x ∉ identities (loaded rows superseded)
  fresh : ∀ x ∈ keys (faces w.messages), x ∉ keys w.leaving → x ∉ identities w.archive
  cached : keys (faces w.cached) ⊆ keys w.owed
  history : ∀ x ∈ identities w.history,
    x ∈ identities (loaded rows superseded) ∨ x ∈ identities w.appended
  window : ∀ messages, w.arriving = some messages → w.Window messages
  whole : w.Whole
  owed : ∀ r ∈ w.renders, (keys r.owed).Sublist (keys w.owed)

theorem buildVisibleHistoryMessages_eq :
    buildVisibleHistoryMessages rows superseded appended =
      dedupeMessagesByIdentity (loaded rows superseded ++ appended) := rfl

theorem identities_buildVisibleHistoryMessages :
    ∀ x ∈ identities (buildVisibleHistoryMessages rows superseded appended),
      x ∈ identities (loaded rows superseded) ∨ x ∈ identities appended := by
  intro x hx
  rw [buildVisibleHistoryMessages_eq] at hx
  have hmem := identities_dedupeMessagesByIdentity hx
  rwa [identities_append, mem_append] at hmem

theorem World.Begins.sound (h : w.Begins rows superseded) : w.Sound rows superseded := by
  have howed : w.live.filterMap Entry.owed = [] := by
    refine filterMap_eq_nil_iff.2 fun e he => ?_
    rw [h.live e he]
    rfl
  have hleaving : w.leaving = [] := by
    rw [World.leaving]
    rw [h.arriving]
  refine
    { live := ⟨h.named, ?_, fun e he hvisible => ?_, fun e he hs => ?_⟩
      archived := ?_
      apart := fun x hx => ?_
      fresh := fun x _ _ hmem => ?_
      cached := ?_
      history := fun x hx => ?_
      window := fun messages hm => by cases h.arriving.symm.trans hm
      whole := by constructor <;> simp [h.renders]
      owed := by simp [h.renders] }
  · rw [World.map_identity h.named]
    exact h.nodup.map fun _ _ hx => some.inj hx
  · have hversion := congrArg Entry.lastVisible (h.live e he)
    rwa [Entry.ofMessage, if_neg (by simp [hvisible])] at hversion
  · rw [h.live e he] at hs
    cases hs
  · rw [h.gone, hleaving, h.appended, h.queue, h.pending]
    exact ⟨rfl, nodup_nil, by simp, .nil, by simp, [], rfl, nodup_nil, by simp⟩
  · rw [h.gone]
    exact ⟨not_mem_nil, h.older x (mem_identities_of_keys hx)⟩
  · rw [World.archive, h.appended, h.queue] at hmem
    cases hmem
  · rw [h.cached]
    exact nil_subset _
  · rw [h.history] at hx
    rw [h.appended]
    exact identities_buildVisibleHistoryMessages x hx

/-! ### Updates -/

/-- The identity, if a render has shown the message. -/
def Entry.key (e : Entry) : Option String := if e.shown then e.identity else none

theorem Lively.keys_owed {live : List Entry} (h : Lively live) :
    keys (live.filterMap Entry.owed) = live.filterMap Entry.key := by
  rw [Keyed.keys, map_filterMap]
  refine filterMap_congr fun e he => ?_
  rw [Chat.owed_eq (h.versions e he) (h.shown e he), Entry.key]
  split
  · rename_i hs
    rw [Message.face, if_neg (by simp [h.shown e he hs])]
    rw [Entry.identity]
    cases messageIdentity e.message <;> rfl
  · rfl

theorem World.keys_owed (h : Lively w.live) :
    keys w.owed = keys w.gone ++ w.live.filterMap Entry.key := by
  rw [← h.keys_owed, World.owed, Keyed.keys, map_append]

/-- The entry after an update. -/
def Entry.updated (m : Message) (e : Entry) : Entry :=
  if e.identity = messageIdentity m then e.replace m else e

theorem Entry.identity_updated : (e.updated m).identity = e.identity := by
  rw [Entry.updated]
  split
  · rename_i hid
    exact hid.symm
  · rfl

theorem Entry.shown_updated : (e.updated m).shown = e.shown := by
  rw [Entry.updated]
  split <;> rfl

theorem Entry.key_updated : (e.updated m).key = e.key := by
  simp only [Entry.key]
  rw [Entry.identity_updated, Entry.shown_updated]

theorem World.update_cases (w : World) (m : Message) :
    messageIdentity m ∈ w.live.map Entry.identity ∧
      w.update m = { w with live := w.live.map (Entry.updated m) } ∨
    messageIdentity m ∉ w.live.map Entry.identity ∧
      w.update m = { w with live := w.live ++ [Entry.ofMessage m] } := by
  rw [World.update]
  split
  · exact .inl ⟨‹_›, rfl⟩
  · exact .inr ⟨‹_›, rfl⟩

theorem Lively.updated {live : List Entry} (h : Lively live)
    (hhide : isHiddenFromUIMessage m = true → ∀ e ∈ live, e.identity = messageIdentity m →
      e.shown = false) : Lively (live.map (Entry.updated m)) := by
  refine ⟨?_, ?_, ?_, ?_⟩
  · intro e he
    obtain ⟨e₀, he₀, rfl⟩ := mem_map.1 he
    rw [Entry.identity_updated]
    exact h.named e₀ he₀
  · have hsame : (live.map (Entry.updated m)).map Entry.identity = live.map Entry.identity := by
      rw [List.map_map]
      exact List.map_congr_left fun e _ => Entry.identity_updated
    rw [hsame]
    exact h.nodup
  · intro e he
    obtain ⟨e₀, he₀, rfl⟩ := mem_map.1 he
    rw [Entry.updated]
    split
    · intro hvisible
      exact if_neg (by simpa [Entry.replace] using hvisible)
    · exact h.versions e₀ he₀
  · intro e he
    obtain ⟨e₀, he₀, rfl⟩ := mem_map.1 he
    rw [Entry.updated]
    split
    · rename_i hid
      intro hs
      refine Bool.eq_false_iff.2 fun hhidden => ?_
      exact absurd hs (by simpa [Entry.replace] using hhide hhidden e₀ he₀ hid)
    · exact h.shown e₀ he₀

theorem Lively.append {live : List Entry} (h : Lively live)
    (hsome : (messageIdentity m).isSome = true)
    (hnew : messageIdentity m ∉ live.map Entry.identity) :
    Lively (live ++ [Entry.ofMessage m]) := by
  refine ⟨?_, ?_, ?_, ?_⟩
  · intro e he
    rcases mem_append.1 he with he | he
    · exact h.named e he
    · rw [mem_singleton.1 he]
      exact hsome
  · rw [map_append, nodup_append]
    refine ⟨h.nodup, nodup_singleton _, fun x hx y hy hxy => hnew ?_⟩
    rw [map_singleton, mem_singleton] at hy
    rw [hxy, hy] at hx
    exact hx
  · intro e he hvisible
    rcases mem_append.1 he with he | he
    · exact h.versions e he hvisible
    · rw [mem_singleton.1 he] at hvisible ⊢
      exact if_neg (by simpa [Entry.ofMessage] using hvisible)
  · intro e he hs
    rcases mem_append.1 he with he | he
    · exact h.shown e he hs
    · rw [mem_singleton.1 he] at hs
      cases hs

theorem World.keys_faces_update (hx : x ∈ keys (faces (w.update m).messages)) :
    x ∈ keys (faces w.messages) ∨ messageIdentity m = some x := by
  obtain ⟨p, hp, rfl⟩ := mem_map.1 hx
  obtain ⟨m', hm', hvisible, hid, hcontent⟩ := mem_faces hp
  obtain ⟨e, he, rfl⟩ := mem_map.1 hm'
  have hold : e ∈ w.live → p.1 ∈ keys (faces w.messages) := fun he => by
    refine mem_map_of_mem (mem_filterMap.2 ⟨e.message, mem_map_of_mem he, ?_⟩)
    exact face_eq_some.2 ⟨hvisible, hid, hcontent⟩
  obtain ⟨-, hupdate⟩ | ⟨-, hupdate⟩ := w.update_cases m
  · rw [hupdate] at he
    obtain ⟨e₀, he₀, rfl⟩ := mem_map.1 he
    rw [Entry.updated] at hid hold
    split at hid
    · exact .inr hid
    · rename_i hne
      rw [if_neg hne] at hold
      exact .inl (hold he₀)
  · rw [hupdate] at he
    rcases mem_append.1 he with he | he
    · exact .inl (hold he)
    · rw [mem_singleton.1 he] at hid
      exact .inr hid

/-- A live update keeps the messages whole. -/
theorem World.Sound.update (h : w.Sound rows superseded)
    (hsome : (messageIdentity m).isSome = true)
    (horderly : Orderly rows superseded w (.update m)) :
    (w.update m).Sound rows superseded := by
  obtain ⟨harriving, hnew, hhide⟩ := horderly
  have hlively : Lively (w.update m).live := by
    obtain ⟨hmem, hupdate⟩ | ⟨hmem, hupdate⟩ := w.update_cases m
    · rw [hupdate]
      exact h.live.updated hhide
    · rw [hupdate]
      exact h.live.append hsome hmem
  have hrest : ∃ live, w.update m = { w with live := live } := by
    obtain ⟨-, hupdate⟩ | ⟨-, hupdate⟩ := w.update_cases m <;> exact ⟨_, hupdate⟩
  have howed : keys (w.update m).owed = keys w.owed := by
    rw [World.keys_owed hlively, World.keys_owed h.live]
    obtain ⟨-, hupdate⟩ | ⟨-, hupdate⟩ := w.update_cases m
    · rw [hupdate, filterMap_map]
      exact congrArg _ (filterMap_congr fun e _ => Entry.key_updated)
    · rw [hupdate, filterMap_append]
      exact congrArg _ (append_nil _)
  have hgone : ∀ x ∈ keys w.gone, x ∈ identities w.archive := by
    intro x hx
    have hseen := h.archived.seen
    rw [World.leaving, harriving, append_nil, ← faces_append] at hseen
    rw [← hseen] at hx
    exact mem_identities_of_keys hx
  have hown : ∀ x, messageIdentity m = some x → x ∉ identities (loaded rows superseded) ∧
      x ∉ identities w.archive := by
    intro x hx
    have hnot := hnew x hx
    rw [identities_append, mem_append] at hnot
    exact ⟨fun hmem => hnot (.inl hmem), fun hmem => hnot (.inr hmem)⟩
  have hleaving : w.leaving = [] := by
    rw [World.leaving]
    rw [harriving]
  have hkeys : ∀ x ∈ keys (faces (w.update m).messages),
      x ∈ keys (faces w.messages) ∨ messageIdentity m = some x := fun x => World.keys_faces_update
  obtain ⟨live, hlive⟩ := hrest
  rw [hlive] at hlively howed hkeys ⊢
  have hleaving' : World.leaving { w with live := live } = [] := by
    rw [World.leaving]
    dsimp only
    rw [harriving]
  refine
    { live := hlively
      archived := ?_
      apart := fun x hx => ?_
      fresh := fun x hx _ => ?_
      cached := ?_
      history := h.history
      window := fun messages hm => by cases harriving.symm.trans hm
      whole := ⟨h.whole.live, h.whole.later, h.whole.merged⟩
      owed := ?_ }
  · have harchived := h.archived
    rw [hleaving] at harchived
    rw [hleaving']
    exact harchived
  · rcases hkeys x hx with hx | hx
    · exact h.apart x hx
    · exact ⟨fun hmem => (hown x hx).2 (hgone x hmem), (hown x hx).1⟩
  · rcases hkeys x hx with hx | hx
    · exact h.fresh x hx (by simp [hleaving])
    · exact (hown x hx).2
  · rw [howed]
    exact h.cached
  · rw [howed]
    exact h.owed

/-! ### Summarizations -/

theorem before_sublist {first : Option String} : (before first messages).Sublist messages :=
  takeWhile_sublist _

theorem eq_of_messageIdentity (hnodup : (identities messages).Nodup) {m' : Message}
    (hm : m ∈ messages) (hm' : m' ∈ messages) (hid : messageIdentity m = some x)
    (hid' : messageIdentity m' = some x) : m = m' := by
  by_contra hne
  have hpair := pairwise_filterMap.1 hnodup
  have : Std.Symm fun a a' : Message => ∀ y, messageIdentity a = some y →
      ∀ z, messageIdentity a' = some z → y ≠ z :=
    ⟨fun _ _ h y hy z hz hyz => h z hz y hy hyz.symm⟩
  exact hpair.forall hm hm' hne x hid x hid' rfl

theorem mem_faces_before (hnodup : (identities messages).Nodup) {first : Option String}
    (hp : p ∈ faces messages) (hx : p.1 ∈ identities (before first messages)) :
    p ∈ faces (before first messages) := by
  obtain ⟨m, hm, hvisible, hid, hcontent⟩ := mem_faces hp
  obtain ⟨m', hm', hid'⟩ := mem_filterMap.1 hx
  have heq := eq_of_messageIdentity hnodup hm (before_sublist.subset hm') hid hid'
  exact mem_filterMap.2 ⟨m, heq ▸ hm', face_eq_some.2 ⟨hvisible, hid, hcontent⟩⟩

theorem World.mem_keys_owed (h : Lively w.live) (hx : x ∈ keys w.owed) :
    x ∈ keys w.gone ∨ w.isShown x = true := by
  rw [World.owed_eq h, Keyed.keys, map_append] at hx
  refine (mem_append.1 hx).imp_right fun hx => ?_
  obtain ⟨p, hp, rfl⟩ := mem_map.1 hx
  exact (mem_filter.1 hp).2

/-- A summarization moves messages away. -/
theorem World.Sound.summarize (h : w.Sound rows superseded) (hnone : w.arriving = none)
    (hfits : w.Fits messages) : (w.summarize messages).Sound rows superseded := by
  have hleaving : w.leaving = [] := by
    rw [World.leaving]
    rw [hnone]
  have hkeys : keys (faces (w.moved messages)) ⊆ keys (faces w.messages) := by
    rw [hfits.cached]
    exact ((before_sublist.filterMap _).map _).subset
  rw [World.summarize]
  rw [if_pos hfits.two]
  refine
    { live := h.live
      archived := ?_
      apart := h.apart
      fresh := fun x hx hleft => ?_
      cached := nil_subset _
      history := h.history
      window := fun messages' hm => ?_
      whole := ⟨h.whole.live, h.whole.later, h.whole.merged⟩
      owed := h.owed }
  · have harchived := h.archived
    rw [hleaving, append_nil] at harchived
    have htaken : (keys (w.gone ++ faces (w.moved messages))).Nodup := by
      rw [Keyed.keys, map_append, nodup_append]
      refine ⟨harchived.nodup, ?_, fun x hx y hy hxy => (h.apart y (hkeys hy)).1 (hxy ▸ hx)⟩
      rw [hfits.cached]
      exact h.live.nodup_faces.sublist ((before_sublist.filterMap _).map _)
    have htake := harchived.take htaken (fun x hx => (h.apart x (hkeys hx)).2)
      fun x hx => h.fresh x (hkeys hx) (by simp [hleaving])
    rw [hfits.cached] at htake
    exact htake
  · have hleft' : x ∉ keys (faces (before (firstRetainedVisibleIdentity messages) w.messages)) :=
      hleft
    show x ∉ identities (w.appended ++ (w.queue ++ [w.moved messages]).flatten)
    rw [flatten_append, flatten_singleton, ← append_assoc, identities_append,
      mem_append, not_or]
    refine ⟨h.fresh x hx (by simp [hleaving]), fun hmem => hleft' ?_⟩
    obtain ⟨p, hp, rfl⟩ := mem_map.1 hx
    exact mem_map_of_mem
      (mem_faces_before h.live.nodup_identities hp (hfits.known p.1 hmem))
  · cases hm
    refine ⟨hfits.tail, fun x hx => ?_, hfits.named, hfits.nodup⟩
    have hmoved : x ∈ keys (faces (w.moved messages)) := by
      rw [hfits.cached]
      exact hx
    have hcached : x ∈ keys (faces w.cached) := by
      have hsublist : (w.moved messages).Sublist w.cached :=
        filter_sublist.trans before_sublist
      exact ((hsublist.filterMap _).map _).subset hmoved
    exact (World.mem_keys_owed h.live (h.cached hcached)).resolve_left (h.apart x (hkeys hmoved)).1

/-! ### Values -/

theorem World.messages_values : (w.values messages).messages = retained messages := by
  show ((retained messages).map w.carry).map (·.message) = retained messages
  rw [List.map_map]
  exact List.map_id _

theorem World.Window.lively (h : w.Window messages) : Lively (w.values messages).live := by
  refine ⟨fun e he => ?_, ?_, fun e he hvisible => ?_, fun e he hs => ?_⟩
  · obtain ⟨m, hm, rfl⟩ := mem_map.1 he
    exact h.named m hm
  · have hsame : (w.values messages).live.map Entry.identity =
        (retained messages).map messageIdentity := by
      show ((retained messages).map w.carry).map Entry.identity = _
      rw [List.map_map]
      rfl
    rw [hsame, map_messageIdentity h.named]
    exact h.nodup.map fun _ _ hx => Option.some.inj hx
  · obtain ⟨m, hm, rfl⟩ := mem_map.1 he
    exact if_neg (by simpa [World.carry, Entry.ofMessage] using hvisible)
  · obtain ⟨m, hm, rfl⟩ := mem_map.1 he
    obtain ⟨hvisible, -⟩ := (Bool.and_eq_true _ _).mp hs
    exact (Bool.not_eq_true' _).mp hvisible

theorem World.isShown_values (hp : p ∈ faces (retained messages)) :
    (w.values messages).isShown p.1 = w.isShown p.1 := by
  obtain ⟨m, hm, hvisible, hid, -⟩ := mem_faces hp
  refine Bool.eq_iff_iff.2 ⟨fun h => ?_, fun h => ?_⟩
  · obtain ⟨e, he, hboth⟩ := any_eq_true.1 h
    obtain ⟨m', -, rfl⟩ := mem_map.1 he
    obtain ⟨hid', hs⟩ := (Bool.and_eq_true _ _).mp hboth
    obtain ⟨-, hlive⟩ := (Bool.and_eq_true _ _).mp hs
    have hsame : messageIdentity m' = some p.1 := of_decide_eq_true hid'
    rwa [hsame] at hlive
  · refine any_eq_true.2 ⟨w.carry m, mem_map_of_mem hm, ?_⟩
    refine (Bool.and_eq_true _ _).mpr ⟨decide_eq_true hid, ?_⟩
    refine (Bool.and_eq_true _ _).mpr ⟨by simp [hvisible], ?_⟩
    rw [hid]
    exact h

/-- The shrunken list arrives. -/
theorem World.Sound.values (h : w.Sound rows superseded) (harriving : w.arriving = some messages) :
    (w.values messages).Sound rows superseded := by
  have hwindow := h.window messages harriving
  have hleaving :
      w.leaving = faces (before (firstRetainedVisibleIdentity messages) w.messages) := by
    rw [World.leaving]
    rw [harriving]
  have htail : w.leaving ++ faces (retained messages) = faces w.messages := by
    rw [hleaving]
    exact hwindow.tail
  have hnodup := h.live.nodup_faces
  rw [← htail, Keyed.keys, map_append, nodup_append] at hnodup
  have hmessages : (w.values messages).messages = retained messages := World.messages_values
  have hshown : w.leaving.filter (fun p => w.isShown p.1) = w.leaving := by
    refine filter_eq_self.2 fun p hp => ?_
    rw [hleaving] at hp
    exact hwindow.shown p.1 (mem_map_of_mem hp)
  have hgone : (w.values messages).gone = w.gone ++ w.leaving := by
    show w.gone ++ (w.live.filterMap Entry.owed).filter _ = _
    rw [World.owed_live h.live, ← htail, filter_append, hshown, filter_append]
    have hleft : w.leaving.filter (fun p => p.1 ∉ keys (faces (retained messages))) = w.leaving :=
      filter_eq_self.2 fun p hp => decide_eq_true fun hmem =>
        hnodup.2.2 p.1 (mem_map_of_mem hp) p.1 hmem rfl
    have hkept : ((faces (retained messages)).filter (fun p => w.isShown p.1)).filter
        (fun p => p.1 ∉ keys (faces (retained messages))) = [] :=
      filter_eq_nil_iff.2 fun p hp => by
        simpa using mem_map_of_mem (f := Prod.fst) (mem_of_mem_filter hp)
    rw [hleft, hkept, append_nil]
  have howed : (w.values messages).owed = w.owed := by
    rw [World.owed_eq hwindow.lively, hgone, hmessages, World.owed_eq h.live, ← htail,
      filter_append, hshown, append_assoc]
    refine congrArg _ (congrArg _ (filter_congr fun p hp => ?_))
    exact World.isShown_values hp
  have hleaving' : (w.values messages).leaving = [] := rfl
  have hkeys : ∀ x ∈ keys (faces (retained messages)), x ∈ keys (faces w.messages) ∧
      x ∉ keys w.leaving := by
    intro x hx
    refine ⟨?_, fun hmem => hnodup.2.2 x hmem x hx rfl⟩
    rw [← htail, Keyed.keys, map_append]
    exact mem_append_right _ hx
  refine
    { live := hwindow.lively
      archived := ?_
      apart := fun x hx => ?_
      fresh := fun x hx _ => ?_
      cached := ?_
      history := h.history
      window := fun messages' hm => by cases hm
      whole := ⟨h.whole.live, h.whole.later, h.whole.merged⟩
      owed := ?_ }
  · rw [hgone, hleaving', append_nil]
    exact h.archived
  · rw [hmessages] at hx
    obtain ⟨hlive, hleft⟩ := hkeys x hx
    obtain ⟨hnot, hold⟩ := h.apart x hlive
    rw [hgone, Keyed.keys, map_append]
    exact ⟨fun hmem => (mem_append.1 hmem).elim hnot hleft, hold⟩
  · rw [hmessages] at hx
    exact h.fresh x (hkeys x hx).1 (hkeys x hx).2
  · rw [howed]
    exact h.cached
  · rw [howed]
    exact h.owed

/-! ### Renders -/

theorem mem_identities_foldl {qs : List (List Message)} {appended : List Message}
    (hx : x ∈ identities (qs.foldl (fun a q => dedupeMessagesByIdentity (a ++ q)) appended)) :
    x ∈ identities (appended ++ qs.flatten) := by
  induction qs generalizing appended with
  | nil => rwa [flatten_nil, append_nil]
  | cons q qs ih =>
    have hmem := ih hx
    rw [identities_append] at hmem
    rw [flatten_cons, ← append_assoc, identities_append]
    exact mem_append.2 ((mem_append.1 hmem).imp_left fun h =>
      identities_dedupeMessagesByIdentity h)

theorem World.Sound.commit (h : w.Sound rows superseded) (n : ℕ) :
    (w.commit rows superseded n).Sound rows superseded := by
  have harchive : ∀ x ∈ identities (w.commit rows superseded n).archive,
      x ∈ identities w.archive := by
    intro x hx
    rw [World.archive, World.commit] at hx
    dsimp only at hx
    rw [identities_append, mem_append] at hx
    rw [World.archive, ← take_append_drop n w.queue, flatten_append, ← append_assoc,
      identities_append, mem_append]
    exact hx.imp_left mem_identities_foldl
  exact
    { live := h.live
      archived := h.archived.commits n
      apart := h.apart
      fresh := fun x hx hleft hmem => h.fresh x hx hleft (harchive x hmem)
      cached := h.cached
      history := identities_buildVisibleHistoryMessages
      window := fun messages hm =>
        ⟨(h.window messages hm).tail, (h.window messages hm).shown, (h.window messages hm).named,
          (h.window messages hm).nodup⟩
      whole := ⟨h.whole.live, h.whole.later, h.whole.merged⟩
      owed := h.owed }

theorem Lively.mark {live : List Entry} (h : Lively live) : Lively (live.map Entry.mark) := by
  refine ⟨fun e he => ?_, ?_, fun e he => ?_, fun e he hs => ?_⟩
  · obtain ⟨e₀, he₀, rfl⟩ := mem_map.1 he
    exact h.named e₀ he₀
  · rw [List.map_map]
    exact h.nodup
  · obtain ⟨e₀, he₀, rfl⟩ := List.mem_map.1 he
    exact h.versions e₀ he₀
  · obtain ⟨e₀, he₀, rfl⟩ := mem_map.1 he
    rcases (Bool.or_eq_true _ _).mp hs with hs | hvisible
    · exact h.shown e₀ he₀ hs
    · exact (Bool.not_eq_true' _).mp hvisible

theorem World.messages_paint {optimistic : List Message} :
    (w.paint optimistic).messages = w.messages := by
  show (w.live.map Entry.mark).map (·.message) = w.live.map (·.message)
  rw [List.map_map]
  rfl

theorem World.isShown_paint {optimistic : List Message} (hx : w.isShown x = true) :
    (w.paint optimistic).isShown x = true := by
  obtain ⟨e, he, hboth⟩ := any_eq_true.1 hx
  obtain ⟨hid, hs⟩ := (Bool.and_eq_true _ _).mp hboth
  refine any_eq_true.2 ⟨e.mark, mem_map_of_mem he, ?_⟩
  exact (Bool.and_eq_true _ _).mpr ⟨hid, (Bool.or_eq_true _ _).mpr (.inl hs)⟩

theorem World.owed_paint (h : Lively w.live) (optimistic : List Message) :
    (w.paint optimistic).owed = w.gone ++ faces w.messages := by
  have hlively : Lively (w.paint optimistic).live := h.mark
  rw [World.owed_eq hlively, World.messages_paint]
  refine congrArg (w.gone ++ ·) (filter_eq_self.2 fun p hp => ?_)
  obtain ⟨m, hm, hvisible, hid, -⟩ := mem_faces hp
  obtain ⟨e, he, rfl⟩ := mem_map.1 hm
  refine any_eq_true.2 ⟨e.mark, mem_map_of_mem he, ?_⟩
  refine (Bool.and_eq_true _ _).mpr ⟨decide_eq_true hid, (Bool.or_eq_true _ _).mpr (.inr ?_)⟩
  exact (Bool.not_eq_true' _).mpr hvisible

theorem World.leaving_subset : keys w.leaving ⊆ keys (faces w.messages) := by
  rw [World.leaving]
  split
  · exact nil_subset _
  · exact ((before_sublist.filterMap _).map _).subset

theorem World.Sound.nodup (h : w.Sound rows superseded) :
    (keys (w.gone ++ faces w.messages)).Nodup := by
  have harchived := h.archived.nodup
  rw [Keyed.keys, map_append, nodup_append] at harchived ⊢
  exact ⟨harchived.1, h.live.nodup_faces, fun x hx y hy hxy => (h.apart y hy).1 (hxy ▸ hx)⟩

/-- **What a render shows** of what it owes is what it owes. -/
theorem World.Sound.merged (h : w.Sound rows superseded) {optimistic : List Message}
    (hhistory : w.history = buildVisibleHistoryMessages rows superseded w.appended)
    (hown : ∀ x ∈ identities optimistic, x ∉ keys w.gone ∧ x ∉ identities w.messages) :
    (faces (mergeMessages (resolvePreservedHistory w.history w.pending) w.messages
      optimistic)).filter (fun p => p.1 ∈ keys (w.gone ++ faces w.messages)) =
        w.gone ++ faces w.messages := by
  have hseen : faces w.history = latest (faces (loaded rows superseded)) ++ faces w.appended := by
    have happended := h.archived.nodup
    rw [← h.archived.seen, Keyed.keys, map_append, nodup_append] at happended
    rw [hhistory, buildVisibleHistoryMessages_eq, faces_dedupeMessagesByIdentity, faces_append,
      latest_append fun x hx hmem => ?_, latest_of_nodup happended.1]
    refine h.archived.older x ?_ (mem_identities_of_keys hx)
    rw [← h.archived.seen, Keyed.keys, map_append]
    exact mem_append_left _ hmem
  have hresolve := h.archived.resolve hseen h.history
  -- neither the loaded history nor an optimistic message is owed
  have hloaded : (latest (faces (loaded rows superseded))).filter
      (fun p => p.1 ∈ keys (w.gone ++ faces w.messages)) = [] := by
    refine filter_eq_nil_iff.2 fun p hp => ?_
    have hold := mem_identities_of_keys (mem_keys_latest.1 (mem_map_of_mem hp))
    rw [decide_eq_true_eq, Keyed.keys, map_append, mem_append, not_or]
    refine ⟨fun hmem => h.archived.older p.1 ?_ hold, fun hmem => (h.apart p.1 hmem).2 hold⟩
    rw [Keyed.keys, map_append]
    exact mem_append_left _ hmem
  have hoptimistic : (faces optimistic).filter
      (fun p => p.1 ∈ keys (w.gone ++ faces w.messages)) = [] := by
    refine filter_eq_nil_iff.2 fun p hp => ?_
    obtain ⟨hgone, hlive⟩ := hown p.1 (mem_identities_of_keys (mem_map_of_mem hp))
    rw [decide_eq_true_eq, Keyed.keys, map_append, mem_append, not_or]
    exact ⟨hgone, fun hmem => hlive (mem_identities_of_keys hmem)⟩
  have hrest : (w.gone ++ w.leaving ++ faces w.messages).filter
      (fun p => p.1 ∈ keys (w.gone ++ faces w.messages)) =
        w.gone ++ w.leaving ++ faces w.messages := by
    refine filter_eq_self.2 fun p hp => decide_eq_true ?_
    rw [Keyed.keys, map_append, mem_append]
    rcases mem_append.1 hp with hp | hp
    · rcases mem_append.1 hp with hp | hp
      · exact .inl (mem_map_of_mem hp)
      · exact .inr (World.leaving_subset (mem_map_of_mem hp))
    · exact .inr (mem_map_of_mem hp)
  rw [faces_mergeMessages, hresolve, latest_filter (fun x => decide (x ∈ keys (w.gone ++
    faces w.messages))), filter_append, hoptimistic, append_nil, append_assoc,
    filter_append, hloaded, nil_append, hrest,
    latest_displaced fun x hx => World.leaving_subset hx, latest_of_nodup h.nodup]

/-- **A render shows what it owes.** -/
theorem World.Sound.paint (h : w.Sound rows superseded) {optimistic : List Message}
    (hhistory : w.history = buildVisibleHistoryMessages rows superseded w.appended)
    (hown : ∀ x ∈ identities optimistic, x ∉ keys w.gone ∧ x ∉ identities w.messages) :
    (w.paint optimistic).Sound rows superseded := by
  have hmessages : (w.paint optimistic).messages = w.messages := World.messages_paint
  have hleaving : (w.paint optimistic).leaving = w.leaving := by
    rw [World.leaving]
    rw [hmessages]
    rfl
  have howed := World.owed_paint h.live optimistic
  have hgrows : (keys w.owed).Sublist (keys (w.paint optimistic).owed) := by
    rw [howed, World.owed_eq h.live]
    exact (filter_sublist.append_left _).map _
  have hrender : (w.paint optimistic).renders = w.renders ++ [⟨w.messages, mergeMessages
      (resolvePreservedHistory w.history w.pending) w.messages optimistic,
      (w.paint optimistic).owed⟩] := rfl
  refine
    { live := h.live.mark
      archived := ?_
      apart := ?_
      fresh := ?_
      cached := ?_
      history := h.history
      window := fun messages hm => ?_
      whole := ⟨?_, ?_, ?_⟩
      owed := ?_ }
  · rw [hleaving]
    exact h.archived
  · rw [hmessages]
    exact h.apart
  · rw [hmessages, hleaving]
    exact h.fresh
  · show keys (faces (if _ then w.messages else w.cached)) ⊆ _
    split
    · rw [howed]
      exact map_subset _ (subset_append_right _ _)
    · exact List.Subset.trans h.cached hgrows.subset
  · have hwindow := h.window messages hm
    refine ⟨?_, fun x hx => ?_, hwindow.named, hwindow.nodup⟩
    · rw [hmessages]
      exact hwindow.tail
    · rw [hmessages] at hx
      exact World.isShown_paint (hwindow.shown x hx)
  · intro r hr
    rw [hrender] at hr
    rcases mem_append.1 hr with hr | hr
    · exact h.whole.live r hr
    · rw [mem_singleton.1 hr]
      show faces w.messages ⊆ (w.paint optimistic).owed
      rw [howed]
      exact subset_append_right _ _
  · rw [hrender]
    refine pairwise_append.2 ⟨h.whole.later, pairwise_singleton _ _, ?_⟩
    intro r hr r' hr'
    rw [mem_singleton.1 hr']
    exact (h.owed r hr).trans hgrows
  · intro r hr
    rw [hrender] at hr
    rcases mem_append.1 hr with hr | hr
    · exact h.whole.merged r hr
    · rw [mem_singleton.1 hr]
      dsimp only
      rw [howed]
      exact ⟨h.nodup, h.merged hhistory hown⟩
  · intro r hr
    rw [hrender] at hr
    rcases mem_append.1 hr with hr | hr
    · exact (h.owed r hr).trans hgrows
    · rw [mem_singleton.1 hr]

/-! ### Steps -/

/-- **Every orderly step keeps the invariant.** -/
theorem World.Sound.step {a : Act} (h : w.Sound rows superseded)
    (horderly : Orderly rows superseded w a) (hstep : step rows superseded w a = some w') :
    w'.Sound rows superseded := by
  cases a with
  | update m =>
    unfold Chat.step at hstep
    dsimp only at hstep
    split at hstep <;> cases hstep
    exact h.update ‹_› horderly
  | summarize messages =>
    unfold Chat.step at hstep
    dsimp only at hstep
    split at hstep <;> cases hstep
    exact h.summarize (isNone_iff_eq_none.1 ‹_›) horderly
  | values =>
    obtain ⟨messages, harriving, rfl⟩ := map_eq_some_iff.1 hstep
    exact h.values harriving
  | render n optimistic =>
    cases hstep
    exact (h.commit n).paint rfl horderly
  | prune =>
    cases hstep
    exact
      { live := h.live
        archived := h.archived.prune h.history
        apart := h.apart
        fresh := h.fresh
        cached := h.cached
        history := h.history
        window := fun messages hm =>
          ⟨(h.window messages hm).tail, (h.window messages hm).shown, (h.window messages hm).named,
            (h.window messages hm).nodup⟩
        whole := ⟨h.whole.live, h.whole.later, h.whole.merged⟩
        owed := h.owed }

/-- **No message that was shown vanishes**, if every step meets the condition. -/
theorem no_message_vanishes {w₀ : World} (hbegins : w₀.Begins rows superseded)
    (hruns : Runs (step rows superseded) (Orderly rows superseded) w₀ w) : w.Whole :=
  (hruns.invariant hbegins.sound fun _ _ _ h horderly hstep => h.step horderly hstep).whole

/-! ### An answer that the second summarization takes away -/

instance (w : World) (messages : List Message) : Decidable (w.Fits messages) :=
  decidable_of_iff
    (2 ≤ messages.length ∧
      (faces (before (firstRetainedVisibleIdentity messages) w.messages) ++
        faces (retained messages) = faces w.messages ∧
      faces (w.moved messages) =
        faces (before (firstRetainedVisibleIdentity messages) w.messages)) ∧
      (∀ x ∈ identities (w.moved messages),
        x ∈ identities (before (firstRetainedVisibleIdentity messages) w.messages)) ∧
      (∀ m ∈ retained messages, (messageIdentity m).isSome = true) ∧
      (identities (retained messages)).Nodup)
    ⟨fun h => ⟨h.1, h.2.1.1, h.2.1.2, h.2.2.1, h.2.2.2.1, h.2.2.2.2⟩,
      fun h => ⟨h.two, ⟨h.tail, h.cached⟩, h.known, h.named, h.nodup⟩⟩

instance (w : World) (a : Act) : Decidable (Orderly rows superseded w a) := by
  cases a <;> unfold Orderly <;> infer_instance

def demoMessage (type : MessageType) (id : String) : Message :=
  ⟨type, some id, none, none, false, false, id, none, none⟩

def demoEntries : List Message :=
  [demoMessage .human "h0", demoMessage .ai "a0", demoMessage .ai "a1", demoMessage .human "h2"]

/-- A thread of which four messages are live. -/
def demoWorld : World where
  live := demoEntries.map Entry.ofMessage
  cached := []
  summarized := []
  pending := []
  appended := []
  queue := []
  history := []
  arriving := none
  gone := []
  renders := []

theorem demoWorld_begins : demoWorld.Begins [] [] where
  named := by decide +kernel
  nodup := by decide +kernel
  older _ _ hx := by cases hx
  live := by decide +kernel
  cached := rfl
  pending := rfl
  appended := rfl
  queue := rfl
  history := rfl
  arriving := rfl
  gone := rfl
  renders := rfl

/-- The update of a summarization that retains one message. -/
def demoSummary (m : Message) : Act := .summarize [demoMessage .remove "all", m]

/-- The first summarization, with a render between its two events or without. -/
def demoFirst (between : List Act) : List Act :=
  [.render 0 [], demoSummary (demoMessage .human "h2")] ++ between ++ [.values, .render 0 []]

/-- An answer, a question and the second summarization. -/
def demoSecond : List Act :=
  [.update (demoMessage .ai "a2"), .update (demoMessage .human "h3"), .render 1 [], .prune,
    demoSummary (demoMessage .human "h3"), .values, .render 0 []]

theorem no_message_vanishes_demo : ∃ w, runWith (step [] []) (Orderly [] []) demoWorld
    (demoFirst [] ++ demoSecond) = some w ∧ w.Whole := by
  obtain ⟨w, hw⟩ : ∃ w, runWith (step [] []) (Orderly [] []) demoWorld
      (demoFirst [] ++ demoSecond) = some w := isSome_iff_exists.mp (by decide +kernel)
  exact ⟨w, hw, no_message_vanishes demoWorld_begins (runs_of_runWith hw)⟩

/-- **An answer vanishes**: a render between the two events of the first summarization caches the
list as it was before, and no render replaces it by a shorter one. -/
theorem message_vanishes : ¬∀ w, Runs (step [] []) (fun _ _ => True) demoWorld w → w.Whole := by
  intro h
  have hlast : ((runWith (step [] []) (fun _ _ => True) demoWorld
      (demoFirst [.render 0 []] ++ demoSecond)).any fun w => w.renders.any fun r =>
        ("message:a2", "a2") ∈ r.owed ∧ ("message:a2", "a2") ∉ faces r.merged) = true := by
    decide +kernel
  obtain ⟨w, hw, hany⟩ := (any_eq_true _ _).mp hlast
  obtain ⟨r, hr, hboth⟩ := any_eq_true.1 hany
  obtain ⟨howed, hmissing⟩ := of_decide_eq_true hboth
  have hmerged := ((h w (runs_of_runWith hw)).merged r hr).2
  rw [← hmerged] at howed
  exact hmissing (mem_of_mem_filter howed)

/-- A first question that is retained with the tail ends the search for what is taken. -/
example : ((runWith (step [] []) (fun _ _ => True) demoWorld
    [.render 0 [], .summarize [demoMessage .remove "all", demoMessage .human "h0",
      demoMessage .human "h2"], .values, .render 1 []]).any fun w => w.renders.any fun r =>
        ("message:a1", "a1") ∈ r.owed ∧ ("message:a1", "a1") ∉ faces r.merged) = true := by
  decide +kernel

end AfterFlow.Chat
