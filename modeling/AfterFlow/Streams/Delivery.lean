import AfterFlow.Streams.MemoryBridge

/-!
# Delivery

Whatever is cancelled and evicted, the buffer is a window on the list of all events that were ever
appended, and a subscriber's position is a position in that list. So a subscriber gets events in
order and without repeats, and it passes over events only where they have been evicted.

Resuming is different: the position of an id is computed from its sequence number. It is the right
one as long as every number that was taken belongs to an event that was appended or still waits to
be. A publisher that is cancelled while it waits for the condition has taken a number for nothing.
From then on the number of every event is above its position, a client that resumes with the id of
a retained event is not recognized, and it gets the whole buffer again.

## Main results

* `Sound.step`, `Numbered.step` — what a step keeps
* `delivers_without_gap` — every subscriber gets its due in every state reached
-/

namespace AfterFlow.Streams

open Transition List Option

variable {δ : Type} {py : PyInt} {maxsize : ℕ} {s s' : Bridge δ} {published : List (StreamEvent δ)}
  {stream : RunStream δ} {sub : Subscriber δ} {i : ℕ}

/-! ### What a subscriber is owed -/

/-- The items take a subscriber from a start to a position in the published events. It gets the
event at its position; it passes over events only if they have been evicted; and it gets END when
everything published is behind it. -/
inductive Follows (published : List (StreamEvent δ)) (evicted start : ℕ) :
    List (Item δ) → ℕ → Prop
  | nil : Follows published evicted start [] start
  | event {items n e} : Follows published evicted start items n → published[n]? = some e →
      Follows published evicted start (items ++ [.event e]) (n + 1)
  | behind {items n b} : Follows published evicted start items n → n < b → b ≤ evicted →
      Follows published evicted start (items ++ [.behind b]) b
  | heartbeat {items n} : Follows published evicted start items n →
      Follows published evicted start (items ++ [.heartbeat]) n
  | finish {items n} : Follows published evicted start items n →
      Follows published evicted start (items ++ [.finish n]) n

/-- The event of an item. -/
def Item.entry : Item δ → Option (StreamEvent δ)
  | .event entry => some entry
  | _ => none

/-- A subscriber that has found its place follows from a start, so that the events it gets are
published ones in order and without repeats. The start is the earliest event that was retained, or
the one after the event whose id it has, if that was retained. -/
def Delivered (s : Bridge δ) (sub : Subscriber δ) : Prop :=
  (sub.found = none → sub.received = []) ∧
    ∀ found, sub.found = some found → ∃ start,
      Follows s.published s.stream.startOffset start sub.received sub.nextOffset ∧
        (sub.received.filterMap Item.entry).Sublist (s.published.drop start) ∧
        (sub.lastEventId = none → start = found.startOffset) ∧
        ∀ o e, s.published[o]? = some e → found.startOffset ≤ o →
          o < found.startOffset + found.events.length → sub.lastEventId = some e.id →
          start = o + 1

/-- The event of a publisher. -/
def Waiter.entry : Waiter δ → List (StreamEvent δ)
  | .publisher entry => [entry]
  | _ => []

/-- No publisher is cancelled while it waits. -/
def Uncancelled (s : Bridge δ) : Label δ → Prop
  | .cancel j => ∀ w ∈ s.waiting[j]?, w.entry.length = 0
  | _ => True

instance (s : Bridge δ) (l : Label δ) : Decidable (Uncancelled s l) := by
  cases l <;> unfold Uncancelled <;> infer_instance

/-! ### The window -/

/-- The buffer holds the published events from the start offset on. -/
def Window (published : List (StreamEvent δ)) (stream : RunStream δ) : Prop :=
  stream.events = published.drop stream.startOffset ∧ stream.startOffset ≤ published.length

theorem Window.append (h : Window published stream) (maxsize : ℕ) (entry : StreamEvent δ) :
    Window (published ++ [entry]) (stream.append maxsize entry) := by
  obtain ⟨hevents, hoffset⟩ := h
  have hsplit : stream.events ++ [entry] = (published ++ [entry]).drop stream.startOffset := by
    rw [hevents, drop_append_of_le_length hoffset]
  have hlength : (stream.events ++ [entry]).length =
      published.length + 1 - stream.startOffset := by
    rw [hsplit, length_drop, length_append, length_singleton]
  constructor
  · show (stream.events ++ [entry]).drop _ = (published ++ [entry]).drop (_ + _)
    rw [← drop_drop, ← hsplit]
  · show stream.startOffset + ((stream.events ++ [entry]).length - maxsize) ≤ _
    rw [hlength, length_append, length_singleton]
    omega

theorem append_startOffset (maxsize : ℕ) (entry : StreamEvent δ) :
    stream.startOffset ≤ (stream.append maxsize entry).startOffset := Nat.le_add_right ..

theorem Window.getElem? (h : Window published stream) (j : ℕ) :
    stream.events[j]? = published[stream.startOffset + j]? := by
  rw [h.1, getElem?_drop]

theorem Window.length (h : Window published stream) :
    stream.startOffset + stream.events.length = published.length := by
  rw [h.1, length_drop]
  exact Nat.add_sub_cancel' h.2

theorem Window.resolve_le (h : Window published stream) (lastEventId : Option String) :
    stream.resolveStartOffset py lastEventId ≤ published.length := by
  unfold RunStream.resolveStartOffset
  have hlength := h.length
  split
  · exact h.2
  · split
    · exact h.2
    · dsimp only
      split
      · omega
      · exact h.2

theorem IsPrefix.getElem?_eq_some {α : Type} {l l' : List α} {n : ℕ} {a : α} (h : l <+: l')
    (hn : l[n]? = some a) : l'[n]? = some a := by
  obtain ⟨rest, rfl⟩ := h
  rw [List.getElem?_append_left (List.getElem?_eq_some_iff.1 hn).1, hn]

/-! ### Subscribers -/

theorem Follows.mono {published' : List (StreamEvent δ)} {evicted evicted' start n : ℕ}
    {items : List (Item δ)} (h : Follows published evicted start items n)
    (hp : published <+: published') (he : evicted ≤ evicted') :
    Follows published' evicted' start items n := by
  induction h with
  | nil => exact .nil
  | event _ hn ih => exact .event ih (IsPrefix.getElem?_eq_some hp hn)
  | behind _ hn hb ih => exact .behind ih hn (hb.trans he)
  | heartbeat _ ih => exact .heartbeat ih
  | finish _ ih => exact .finish ih

theorem Follows.start_le {evicted start n : ℕ} {items : List (Item δ)}
    (h : Follows published evicted start items n) : start ≤ n := by
  induction h with
  | nil => exact le_rfl
  | event _ _ ih => exact ih.trans (Nat.le_succ _)
  | behind _ hn _ ih => exact ih.trans hn.le
  | heartbeat _ ih => exact ih
  | finish _ ih => exact ih

/-- The events are published ones between the start and the position, in order. -/
theorem Follows.sublist {evicted start n : ℕ} {items : List (Item δ)}
    (h : Follows published evicted start items n) :
    (items.filterMap Item.entry).Sublist ((published.take n).drop start) := by
  have hskip : ∀ (items : List (Item δ)) {item}, Item.entry item = none →
      (items ++ [item]).filterMap Item.entry = items.filterMap Item.entry := by
    intro items item h
    rw [filterMap_append, filterMap_cons_none h, filterMap_nil, append_nil]
  have hle : ∀ {m n : ℕ}, m ≤ n →
      ((published.take m).drop start).Sublist ((published.take n).drop start) := fun hmn =>
    (take_sublist_take_left hmn).drop start
  induction h with
  | nil => simp
  | @event items n e hfollows hn ih =>
    obtain ⟨hlt, rfl⟩ := List.getElem?_eq_some_iff.1 hn
    have hstart : start ≤ (published.take n).length := by
      rw [List.length_take_of_le hlt.le]
      exact hfollows.start_le
    rw [filterMap_append, take_succ_eq_append_getElem hlt,
      drop_append_of_le_length hstart]
    exact ih.append (List.Sublist.refl _)
  | behind _ hn _ ih =>
    rw [hskip _ rfl]
    exact ih.trans (hle hn.le)
  | heartbeat | finish => rwa [hskip _ rfl]

/-- A subscriber has not found its place yet, or it has found it in a window and follows. -/
inductive Good (py : PyInt) (published : List (StreamEvent δ)) (evicted : ℕ) (sub : Subscriber δ) :
    Prop
  | fresh : sub.found = none → sub.received = [] → sub.phase = .entering ∨ sub.phase = .done →
      Good py published evicted sub
  | placed {found p} : sub.found = some found → p <+: published → Window p found →
      Follows published evicted (found.resolveStartOffset py sub.lastEventId) sub.received
        sub.nextOffset →
      sub.nextOffset ≤ published.length → sub.phase ≠ .entering → Good py published evicted sub

theorem Good.mono {published' : List (StreamEvent δ)} {evicted evicted' : ℕ}
    (h : Good py published evicted sub) (hp : published <+: published') (he : evicted ≤ evicted') :
    Good py published' evicted' sub := by
  cases h with
  | fresh hfound hreceived hphase => exact .fresh hfound hreceived hphase
  | placed hfound hearlier hwindow hfollows hnext hphase =>
    exact .placed hfound (hearlier.trans hp) hwindow (hfollows.mono hp he)
      (hnext.trans hp.length_le) hphase

theorem Good.phase {evicted : ℕ} {p : Phase} (h : Good py published evicted sub)
    (hp : p = .done ∨ p ≠ .entering ∧ sub.phase ≠ .entering ∧ sub.phase ≠ .done) :
    Good py published evicted { sub with phase := p } := by
  cases h with
  | fresh hfound hreceived hphase =>
    refine .fresh hfound hreceived (.inr ?_)
    rcases hp with rfl | ⟨-, hnew, hdone⟩
    · rfl
    · exact absurd hphase (by simp [hnew, hdone])
  | placed hfound hearlier hwindow hfollows hnext _ =>
    refine .placed hfound hearlier hwindow hfollows hnext ?_
    rcases hp with rfl | ⟨hp, -⟩
    · exact Phase.noConfusion
    · exact hp

/-- The window and the subscribers are right. -/
structure Sound (py : PyInt) (s : Bridge δ) : Prop where
  window : Window s.published s.stream
  subs : ∀ sub ∈ s.subscribers, Good py s.published s.stream.startOffset sub

theorem Sound.new : Sound py (Bridge.new : Bridge δ) := ⟨⟨rfl, le_rfl⟩, by simp [Bridge.new]⟩

theorem Sound.set (h : Sound py s) (hsub : Good py s.published s.stream.startOffset sub)
    {counter : ℕ} {holder : Option ℕ} {waiting : List (Waiter δ)} :
    Sound py ⟨s.stream, counter, s.subscribers.set i sub, holder, waiting, s.published⟩ :=
  ⟨h.window, fun sub' hsub' => by
    rcases mem_or_eq_of_mem_set hsub' with hmem | rfl
    · exact h.subs sub' hmem
    · exact hsub⟩

theorem Sound.join (h : Sound py s) (hsub : Good py s.published s.stream.startOffset sub) :
    Sound py { s with subscribers := s.subscribers ++ [sub] } :=
  ⟨h.window, fun sub' hsub' => by
    rcases mem_append.1 hsub' with hmem | hmem
    · exact h.subs sub' hmem
    · obtain rfl := mem_singleton.1 hmem
      exact hsub⟩

theorem Sound.frame (h : Sound py s) {counter : ℕ} {holder : Option ℕ} {waiting : List (Waiter δ)} :
    Sound py ⟨s.stream, counter, s.subscribers, holder, waiting, s.published⟩ :=
  ⟨h.window, h.subs⟩

theorem Good.get {evicted start n : ℕ} {p : Phase} {items : List (Item δ)}
    {found : RunStream δ} {p₀ : List (StreamEvent δ)} (hfound : sub.found = some found)
    (hearlier : p₀ <+: published) (hwindow : Window p₀ found)
    (hstart : start = found.resolveStartOffset py sub.lastEventId)
    (hfollows : Follows published evicted start items n) (hn : n ≤ published.length)
    (hp : p ≠ .entering) :
    Good py published evicted { sub with nextOffset := n, received := items, phase := p } :=
  .placed hfound hearlier hwindow (hstart ▸ hfollows) hn hp

/-- A subscriber that has found its place reads on. -/
theorem Sound.read (h : Sound py s) {found : RunStream δ} {p : List (StreamEvent δ)}
    (hfound : sub.found = some found) (hearlier : p <+: s.published) (hwindow : Window p found)
    (hfollows : Follows s.published s.stream.startOffset
      (found.resolveStartOffset py sub.lastEventId) sub.received sub.nextOffset)
    (hnext : sub.nextOffset ≤ s.published.length) : Sound py (s.read i sub) := by
  rw [Bridge.read]
  generalize hcaught : (if sub.nextOffset < s.stream.startOffset then
      { sub with
        nextOffset := s.stream.startOffset
        received := sub.received ++ [.behind s.stream.startOffset] }
    else sub) = caught
  have hcaught' : caught.found = some found ∧ caught.lastEventId = sub.lastEventId ∧
      Follows s.published s.stream.startOffset (found.resolveStartOffset py sub.lastEventId)
        caught.received caught.nextOffset ∧
      s.stream.startOffset ≤ caught.nextOffset ∧ caught.nextOffset ≤ s.published.length := by
    subst hcaught
    split
    · exact ⟨hfound, rfl, .behind hfollows ‹_› le_rfl, le_rfl, h.window.2⟩
    · exact ⟨hfound, rfl, hfollows, by omega, hnext⟩
  obtain ⟨hfound, hid, hfollows, hbase, hnext⟩ := hcaught'
  have hstart : found.resolveStartOffset py sub.lastEventId =
      found.resolveStartOffset py caught.lastEventId := by rw [hid]
  have hget := h.window.getElem? (caught.nextOffset - s.stream.startOffset)
  rw [Nat.add_sub_cancel' hbase] at hget
  rw [hget]
  cases hentry : s.published[caught.nextOffset]? with
  | some entry =>
    have hlt : caught.nextOffset < s.published.length := (List.getElem?_eq_some_iff.1 hentry).1
    exact h.set (.get hfound hearlier hwindow hstart (.event hfollows hentry) hlt Phase.noConfusion)
  | none =>
    have hlast : caught.nextOffset = s.published.length :=
      le_antisymm hnext (getElem?_eq_none_iff.1 hentry)
    dsimp only
    split
    · refine h.set (.get hfound hearlier hwindow hstart ?_ hnext Phase.noConfusion)
      rw [← hlast]
      exact .finish hfollows
    · split
      · exact h.set (.get hfound hearlier hwindow hstart hfollows hnext Phase.noConfusion)
      · exact h.set (.get hfound hearlier hwindow hstart hfollows hnext Phase.noConfusion)

theorem Sound.readAgain (h : Sound py s) {found : RunStream δ} {p : List (StreamEvent δ)}
    (hfound : sub.found = some found) (hearlier : p <+: s.published) (hwindow : Window p found)
    (hfollows : Follows s.published s.stream.startOffset
      (found.resolveStartOffset py sub.lastEventId) sub.received sub.nextOffset)
    (hnext : sub.nextOffset ≤ s.published.length) : Sound py (s.readAgain i sub) := by
  rw [Bridge.readAgain]
  split
  · exact h.read hfound hearlier hwindow hfollows hnext
  · exact h.set (.get hfound hearlier hwindow rfl hfollows hnext Phase.noConfusion)

/-- What a call does with the condition keeps the window and the subscribers right. -/
theorem Sound.enter (h : Sound py s) (w : Waiter δ) : Sound py (s.enter py maxsize w) := by
  cases w with
  | publisher entry =>
    exact ⟨h.window.append maxsize entry, fun sub hsub =>
      (h.subs sub hsub).mono (prefix_append ..) (append_startOffset maxsize entry)⟩
  | ender => exact ⟨h.window, h.subs⟩
  | subscriber i =>
    rw [Bridge.enter]
    split
    · exact h
    · rename_i sub hget
      have hgood := h.subs sub (mem_of_getElem? hget)
      cases hgood with
      | fresh hfound hreceived hphase =>
        rcases hphase with hphase | hphase
        · simp only [hphase]
          refine h.readAgain rfl (prefix_refl _) h.window ?_ (h.window.resolve_le _)
          show Follows _ _ _ sub.received _
          rw [hreceived]
          exact .nil
        · simp only [hphase]
          exact h
      | placed hfound hearlier hwindow hfollows hnext hphase =>
        split
        · exact absurd ‹_› hphase
        · exact h.readAgain hfound hearlier hwindow hfollows hnext
        · exact h.set (.get hfound hearlier hwindow rfl (.heartbeat hfollows) hnext
            Phase.noConfusion)
        · exact h.read hfound hearlier hwindow hfollows hnext
        · exact h

theorem Sound.acquire (h : Sound py s) (w : Waiter δ) : Sound py (s.acquire py maxsize w) := by
  rw [Bridge.acquire]
  split
  · exact h.enter w
  · exact h.frame

theorem Sound.move (h : Sound py s) {p p' : Phase}
    (hp : p ≠ .entering ∧ p ≠ .done ∧ p' ≠ .entering)
    (hs : s.move py maxsize i p p' = some s') : Sound py s' := by
  obtain ⟨sub, hget, hmove⟩ := bind_eq_some_iff.1 hs
  split at hmove
  · rename_i hphase
    subst hphase
    obtain rfl := some.inj hmove
    have hgood := h.subs sub (mem_of_getElem? hget)
    exact (h.set (hgood.phase (.inr ⟨hp.2.2, hp.1, hp.2.1⟩))).acquire _
  · cases hmove

/-- **Every step keeps the window and the subscribers right.** -/
theorem Sound.step {l : Label δ} (h : Sound py s) (hs : step py maxsize s l = some s') :
    Sound py s' := by
  cases l with
  | publish ts event data =>
    obtain rfl := some.inj hs
    exact h.frame.acquire _
  | publishEnd =>
    obtain rfl := some.inj hs
    exact h.acquire _
  | subscribe lastEventId patient =>
    obtain rfl := some.inj hs
    exact (h.join (.fresh rfl rfl (.inl rfl))).acquire _
  | next | wake => exact h.move (by decide) hs
  | timeout i =>
    obtain ⟨sub, hget, hs⟩ := bind_eq_some_iff.1 hs
    split at hs
    · rename_i hphase
      obtain rfl := some.inj hs
      cases h.subs sub (mem_of_getElem? hget) with
      | fresh _ _ hnew => simp [hphase] at hnew
      | placed hfound hearlier hwindow hfollows hnext _ =>
        exact h.set (.get hfound hearlier hwindow rfl (.heartbeat hfollows) hnext Phase.noConfusion)
    · exact h.move (by decide) hs
  | leave i =>
    obtain ⟨sub, hget, hs⟩ := bind_eq_some_iff.1 hs
    split at hs
    · obtain rfl := some.inj hs
      exact h.set ((h.subs sub (mem_of_getElem? hget)).phase (.inl rfl))
    · cases hs
  | grant =>
    rw [Streams.step] at hs
    split at hs
    · obtain rfl := some.inj hs
      exact h.frame.enter _
    · cases hs
  | cancel j =>
    obtain ⟨w, -, hs⟩ := bind_eq_some_iff.1 hs
    cases w with
    | subscriber i =>
      obtain ⟨sub, hget, hs⟩ := bind_eq_some_iff.1 hs
      obtain rfl := some.inj hs
      exact h.set ((h.subs sub (mem_of_getElem? hget)).phase (.inl rfl))
    | publisher entry =>
      obtain rfl := some.inj hs
      exact h.frame
    | ender =>
      obtain rfl := some.inj hs
      exact h.frame

/-! ### The numbers -/

namespace Bridge

/-- The events of the publishers that wait. -/
def pending (s : Bridge δ) : List (StreamEvent δ) := s.waiting.flatMap Waiter.entry

/-- Every event that has a number and is not lost. -/
def log (s : Bridge δ) : List (StreamEvent δ) := s.published ++ s.pending

@[simp] theorem read_published (sub : Subscriber δ) : (s.read i sub).published = s.published := by
  unfold read
  dsimp only
  repeat' split
  all_goals rfl

@[simp] theorem read_counter (sub : Subscriber δ) : (s.read i sub).counter = s.counter := by
  unfold read
  dsimp only
  repeat' split
  all_goals rfl

@[simp] theorem read_waiting (sub : Subscriber δ) : (s.read i sub).waiting = s.waiting := by
  unfold read
  dsimp only
  repeat' split
  all_goals rfl

attribute [local simp] Waiter.entry

theorem readAgain_log (sub : Subscriber δ) :
    (s.readAgain i sub).log = s.log ∧ (s.readAgain i sub).counter = s.counter := by
  rw [readAgain]
  split
  · simp [log, pending]
  · simp [log, pending]

variable (py maxsize) in
theorem enter_log (w : Waiter δ) : (s.enter py maxsize w).log = s.published ++ w.entry ++ s.pending ∧
    (s.enter py maxsize w).counter = s.counter := by
  cases w with
  | publisher entry => simp [enter, log, pending]
  | ender => simp [enter, log, pending]
  | subscriber i =>
    rw [enter]
    split
    · simp [log]
    · split
      · simpa [log, pending] using readAgain_log (s := s) (i := i) _
      · simpa [log, pending] using readAgain_log (s := s) (i := i) _
      · simp [log, pending]
      · simp [log, pending]
      · simp [log, pending]

variable (py maxsize) in
theorem acquire_log (w : Waiter δ) : (s.acquire py maxsize w).log = s.log ++ w.entry ∧
    (s.acquire py maxsize w).counter = s.counter := by
  rw [acquire]
  split
  · rename_i hfree
    have hpending : s.pending = [] := by rw [pending, hfree.2]; rfl
    simpa [log, hpending] using enter_log py maxsize (s := s) w
  · simp [log, pending]

theorem move_log {p p' : Phase} (hs : s.move py maxsize i p p' = some s') :
    s'.log = s.log ∧ s'.counter = s.counter := by
  obtain ⟨sub, -, hs⟩ := bind_eq_some_iff.1 hs
  split at hs
  · obtain rfl := some.inj hs
    obtain ⟨hlog, hcounter⟩ := acquire_log py maxsize
      (s := { s with subscribers := s.subscribers.set i { sub with phase := p' } }) (.subscriber i)
    exact ⟨hlog.trans (append_nil _), hcounter⟩
  · cases hs

end Bridge

/-- The number of every event is its position, and the next number is the next position. -/
structure Numbered (s : Bridge δ) : Prop where
  ids : ∀ (o : ℕ) e, s.log[o]? = some e → ∃ ts, e.id = eventId ts o
  counter : s.counter = s.log.length

theorem Numbered.new : Numbered (Bridge.new : Bridge δ) := by
  refine ⟨fun o e he => ?_, rfl⟩
  cases he

theorem Numbered.congr (h : Numbered s) (hs : s'.log = s.log ∧ s'.counter = s.counter) :
    Numbered s' :=
  ⟨fun o e he => h.ids o e (hs.1 ▸ he), by rw [hs.1, hs.2, h.counter]⟩

theorem Numbered.publish (h : Numbered s) (ts : ℕ) (event : String) (data : δ) :
    Numbered ({ s with counter := s.counter + 1 }.acquire py maxsize
      (.publisher ⟨eventId ts s.counter, event, data⟩)) := by
  obtain ⟨hlog, hcounter⟩ := Bridge.acquire_log py maxsize
    (s := { s with counter := s.counter + 1 }) (.publisher ⟨eventId ts s.counter, event, data⟩)
  have hlog' : Bridge.log _ = s.log ++ [⟨eventId ts s.counter, event, data⟩] := hlog
  refine ⟨fun o e he => ?_, ?_⟩
  · rw [hlog'] at he
    by_cases ho : o < s.log.length
    · rw [getElem?_append_left ho] at he
      exact h.ids o e he
    · rw [getElem?_append_right (Nat.le_of_not_lt ho)] at he
      obtain ⟨hlt, rfl⟩ := List.getElem?_eq_some_iff.1 he
      have hcount := h.counter
      have ho' : o = s.counter := by
        rw [List.length_singleton] at hlt
        omega
      exact ⟨ts, by simp [ho']⟩
  · rw [hcounter, hlog', length_append, h.counter]
    rfl

theorem flatMap_eraseIdx {α β : Type} {f : α → List β} {l : List α} {j : ℕ} {a : α}
    (hj : l[j]? = some a) (ha : f a = []) : (l.eraseIdx j).flatMap f = l.flatMap f := by
  obtain ⟨hlt, rfl⟩ := List.getElem?_eq_some_iff.1 hj
  rw [List.eraseIdx_eq_take_drop_succ, List.flatMap_append]
  conv_rhs => rw [← List.take_append_drop j l, List.flatMap_append, List.drop_eq_getElem_cons hlt,
    List.flatMap_cons, ha, List.nil_append]

/-- **Every step keeps the numbers right, unless it cancels a publisher that waits.** -/
theorem Numbered.step {l : Label δ} (h : Numbered s) (hl : Uncancelled s l)
    (hs : step py maxsize s l = some s') : Numbered s' := by
  have hacquire : ∀ {s₁ : Bridge δ} {w : Waiter δ}, s₁.log = s.log → s₁.counter = s.counter →
      w.entry = [] → Numbered (s₁.acquire py maxsize w) := by
    intro s₁ w hlog hcounter hw
    refine h.congr ?_
    obtain ⟨hlog', hcounter'⟩ := Bridge.acquire_log py maxsize (s := s₁) w
    exact ⟨by rw [hlog', hw, append_nil, hlog], hcounter'.trans hcounter⟩
  cases l with
  | publish ts event data =>
    obtain rfl := some.inj hs
    exact h.publish ts event data
  | publishEnd =>
    obtain rfl := some.inj hs
    exact hacquire rfl rfl rfl
  | subscribe lastEventId patient =>
    obtain rfl := some.inj hs
    exact hacquire rfl rfl rfl
  | next | wake => exact h.congr (Bridge.move_log hs)
  | timeout i =>
    obtain ⟨sub, hget, htimeout⟩ := bind_eq_some_iff.1 hs
    split at htimeout
    · obtain rfl := some.inj htimeout
      exact h.congr ⟨rfl, rfl⟩
    · exact h.congr (Bridge.move_log htimeout)
  | leave i =>
    obtain ⟨sub, hget, hleave⟩ := bind_eq_some_iff.1 hs
    split at hleave
    · obtain rfl := some.inj hleave
      exact h.congr ⟨rfl, rfl⟩
    · cases hleave
  | grant =>
    rw [Streams.step] at hs
    split at hs
    · rename_i w rest _ hwaiting
      obtain rfl := some.inj hs
      obtain ⟨hlog, hcounter⟩ := Bridge.enter_log py maxsize
        (s := { s with waiting := rest }) w
      refine h.congr ⟨?_, hcounter⟩
      rw [hlog, Bridge.log, Bridge.pending, Bridge.pending, hwaiting, flatMap_cons,
        append_assoc]
    · cases hs
  | cancel j =>
    obtain ⟨w, hw, hcancel⟩ := bind_eq_some_iff.1 hs
    have hentry : w.entry = [] := eq_nil_of_length_eq_zero (hl w hw)
    have hpending : (s.waiting.eraseIdx j).flatMap Waiter.entry = s.pending :=
      flatMap_eraseIdx hw hentry
    cases w with
    | subscriber i =>
      obtain ⟨sub, -, hdone⟩ := bind_eq_some_iff.1 hcancel
      obtain rfl := some.inj hdone
      exact h.congr ⟨congrArg (s.published ++ ·) hpending, rfl⟩
    | publisher entry => cases hentry
    | ender =>
      obtain rfl := some.inj hcancel
      exact h.congr ⟨congrArg (s.published ++ ·) hpending, rfl⟩

/-! ### Resuming -/

theorem dash_not_mem_toString (n : ℕ) : '-' ∉ (toString n).toList := by
  intro h
  have hdigit := Nat.isDigit_of_mem_toDigits (b := 10) (n := n) (by decide) (by decide) (c := '-')
    (by simpa [Nat.repr] using h)
  exact absurd hdigit (by decide)

theorem parseEventSeq_eventId (ts seq : ℕ) : parseEventSeq py (eventId ts seq) = some (seq : ℤ) := by
  have hlist : (eventId ts seq).toList = (toString ts).toList ++ '-' :: (toString seq).toList := by
    simp [eventId]
  have hdash : afterLastDash (eventId ts seq) = some (toString seq) := by
    have htake : ((toString ts).toList ++ '-' :: (toString seq).toList).rtakeWhile
        (fun c => c ≠ '-') = (toString seq).toList := by
      rw [List.rtakeWhile, reverse_append, reverse_cons, append_assoc,
        takeWhile_append_of_pos]
      · simp
      · intro c hc
        have : c ≠ '-' := fun h => dash_not_mem_toString seq (h ▸ mem_reverse.1 hc)
        simpa using this
    rw [afterLastDash, if_pos (by rw [hlist]; simp), hlist, htake, String.ofList_toList]
  rw [parseEventSeq, hdash, bind_some, py.int_toString]

theorem Window.resolve_eq {ts o : ℕ} {e : StreamEvent δ} (h : Window published stream)
    (he : published[o]? = some e) (hid : e.id = eventId ts o) (hle : stream.startOffset ≤ o) :
    stream.resolveStartOffset py (some e.id) = o + 1 := by
  have hevent := h.getElem? (o - stream.startOffset)
  rw [Nat.add_sub_cancel' hle, he] at hevent
  have hlt := (List.getElem?_eq_some_iff.1 hevent).1
  have hindex : ((o : ℤ) - stream.startOffset) = ((o - stream.startOffset : ℕ) : ℤ) := by omega
  rw [RunStream.resolveStartOffset]
  simp only [hid, parseEventSeq_eventId, hindex, Int.toNat_natCast, hevent]
  rw [if_pos ⟨by omega, by omega, by simp [hid]⟩]
  omega

theorem delivered (h : Sound py s) (hn : Numbered s) (hsub : sub ∈ s.subscribers) :
    Delivered s sub := by
  cases h.subs sub hsub with
  | fresh hfound hreceived _ =>
    refine ⟨fun _ => hreceived, fun found hfound' => ?_⟩
    rw [hfound] at hfound'
    cases hfound'
  | @placed found p hfound hearlier hwindow hfollows _ _ =>
    constructor
    · intro hnone
      rw [hfound] at hnone
      cases hnone
    · intro found' hfound'
      obtain rfl := some.inj (hfound.symm.trans hfound')
      refine ⟨_, hfollows, hfollows.sublist.trans ((take_sublist _ _).drop _),
        fun hid => by rw [hid]; rfl, fun o e he hle hlt hid => ?_⟩
      obtain ⟨ts, hts⟩ := hn.ids o e (IsPrefix.getElem?_eq_some (prefix_append ..) he)
      have hp : p[o]? = some e := by
        obtain ⟨rest, hrest⟩ := hearlier
        rw [hwindow.length] at hlt
        rwa [← hrest, getElem?_append_left hlt] at he
      rw [hid]
      exact hwindow.resolve_eq hp hts hle

/-- **Delivery without gap or repeat.** However publishers, subscribers and evictions follow on each
other, and whatever is cancelled, every subscriber gets its due in every state reached, as long as
no publisher is cancelled between taking its number and appending its event. -/
theorem delivers_without_gap (py : PyInt) (maxsize : ℕ) {s : Bridge δ}
    (h : Runs (step py maxsize) Uncancelled Bridge.new s) :
    ∀ sub ∈ s.subscribers, Delivered s sub := by
  have hinv : Sound py s ∧ Numbered s :=
    h.invariant (I := fun s => Sound py s ∧ Numbered s) ⟨.new, .new⟩
      fun s₁ l s₂ h hl hs => ⟨h.1.step hs, h.2.step hl hs⟩
  exact fun sub hsub => delivered hinv.1 hinv.2 hsub

/-- `int` on texts of digits. -/
def demoInt : PyInt where
  int s :=
    if s ≠ "" ∧ s.toList.all Char.isDigit then some (Nat.ofDigitChars 10 s.toList 0) else none
  int_toString n := by
    have hdigits : (toString n).toList = Nat.toDigits 10 n := Nat.toList_repr
    have hall : (Nat.toDigits 10 n).all Char.isDigit = true :=
      all_eq_true.2 fun c hc => Nat.isDigit_of_mem_toDigits (by decide) (by decide) hc
    have hne : toString n ≠ "" := fun h => Nat.toDigits_ne_nil (hdigits.symm.trans (h ▸ rfl))
    rw [if_pos ⟨hne, hdigits ▸ hall⟩, hdigits, Nat.ofDigitChars_ten_toDigits]

/-- An event that is published at time 7. -/
def demoEvent (seq : ℕ) (event : String) : StreamEvent Unit := ⟨eventId 7 seq, event, ()⟩

/-- A client that resumes after the second of four events, of which two are kept. -/
def resumed : Bridge Unit where
  stream := ⟨[demoEvent 2 "c", demoEvent 3 "d"], false, 2⟩
  counter := 4
  subscribers := [⟨some "7-1", true, .yielded, 3, [.event (demoEvent 2 "c")],
    some ⟨[demoEvent 1 "b", demoEvent 2 "c"], false, 1⟩⟩]
  holder := none
  waiting := []
  published := [demoEvent 0 "a", demoEvent 1 "b", demoEvent 2 "c", demoEvent 3 "d"]

theorem delivers_without_gap_demo :
    Delivered resumed (resumed.subscribers.get ⟨0, by decide⟩) := by
  have h : runWith (step demoInt 2) Uncancelled Bridge.new [.publish 7 "a" (), .publish 7 "b" (),
      .publish 7 "c" (), .subscribe (some "7-1") true, .publish 7 "d" ()] = some resumed := by
    decide
  exact delivers_without_gap demoInt 2 (runs_of_runWith h) _ (get_mem _ _)

/-- A subscriber without patience holds the condition while the second of three publishers comes.
That publisher is cancelled. A client with the id of the third event gets the first one again. -/
def afterGap : Bridge Unit where
  stream := ⟨[demoEvent 0 "a", demoEvent 2 "c"], false, 0⟩
  counter := 3
  subscribers := [
    ⟨none, false, .yielded, 1, [.event (demoEvent 0 "a"), .heartbeat],
      some ⟨[demoEvent 0 "a"], false, 0⟩⟩,
    ⟨some "7-2", true, .yielded, 1, [.event (demoEvent 0 "a")],
      some ⟨[demoEvent 0 "a", demoEvent 2 "c"], false, 0⟩⟩]
  holder := none
  waiting := []
  published := [demoEvent 0 "a", demoEvent 2 "c"]

/-- A cancelled publisher leaves a gap in the numbers, and resuming starts over. -/
theorem resumes_from_start :
    Runs (step demoInt 256) (fun _ _ => True) Bridge.new afterGap ∧
      ∃ sub ∈ afterGap.subscribers, ¬Delivered afterGap sub := by
  have h : runWith (step demoInt 256) (fun _ _ => True) Bridge.new [.publish 7 "a" (),
      .subscribe none false, .next 0, .publish 7 "b" (), .cancel 0, .timeout 0,
      .publish 7 "c" (), .subscribe (some "7-2") true] = some afterGap := by
    decide
  refine ⟨runs_of_runWith h, _, mem_cons_of_mem _ mem_cons_self, ?_⟩
  rintro ⟨-, hdelivered⟩
  obtain ⟨start, hfollows, -, -, hresume⟩ := hdelivered _ rfl
  obtain rfl : start = 2 := hresume 1 (demoEvent 2 "c") rfl (by decide) (by decide) rfl
  exact absurd hfollows.start_le (by decide)

end AfterFlow.Streams
