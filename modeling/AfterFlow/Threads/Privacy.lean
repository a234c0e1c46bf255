import AfterFlow.Threads.Access

/-!
# Threads stay private

What a thread holds has been written for the user who owns its row, and a request that has been let
in finds the row to be its user's, or none. The check lets a request in where there is no row; that
does no harm as long as no other user's row comes in its place before the request is over.

## Main results

* `World.Told.check` — the check finds out whose row it is
* `World.Told.step` — the step lemma
* `threads_private` — runs of orderly steps
* `thread_taken_over` — an internal caller that reads another user's thread
-/

namespace AfterFlow.Threads.Access

open Transition List Function Option

variable {I : Type} {digest : String → String} {requests : I → Request}
  {w w' : World I} {i j : I} {request : Request} {row : Option ThreadMetaRow} {stage stage' : Stage}

/-- What a request carries from a read to a put. -/
@[grind =] def Stage.carried : Stage → List Item
  | .putting c | .running c | .writing c => c.items
  | _ => []

/-- The row, if there is one, is the acting user's. -/
def Mine (request : Request) (row : Option ThreadMetaRow) : Prop :=
  ∀ r ∈ row, r.userId = some request.caller.actsFor

/-- What is true of a request, given the row of its thread. -/
structure Sound (request : Request) (row : Option ThreadMetaRow) (stage : Stage) : Prop where
  held : stage.holds request.call = true → Mine request row
  listed : stage.writes request.call = true → row.isSome = true
  carried : ∀ item ∈ stage.carried, item.author = request.caller.actsFor

theorem Sound.idle (hholds : stage.holds request.call = false)
    (hwrites : stage.writes request.call = false) (hcarried : stage.carried = []) :
    Sound request row stage where
  held h := by simp [hholds] at h
  listed h := by simp [hwrites] at h
  carried item hitem := by simp [hcarried] at hitem

theorem Sound.of_mine (hmine : Mine request row) (hwrites : stage.writes request.call = false)
    (hcarried : stage.carried = []) : Sound request row stage where
  held _ := hmine
  listed h := by simp [hwrites] at h
  carried item hitem := by simp [hcarried] at hitem

theorem Sound.of_own (hmine : Mine request row) (hsome : row.isSome = true)
    (hcarried : ∀ item ∈ stage.carried, item.author = request.caller.actsFor) :
    Sound request row stage :=
  ⟨fun _ => hmine, fun _ => hsome, hcarried⟩

theorem mine_of_getOwned (h : (getOwned row request.caller.actsFor).isSome = true) :
    Mine request row ∧ row.isSome = true := by
  cases row with
  | none => cases h
  | some r =>
    refine ⟨fun r' hr' => ?_, rfl⟩
    cases hr'
    simpa [getOwned, filter] using h

theorem eq_of_mine (hmine : Mine request row) (hsome : row.isSome = true) :
    row = some ⟨some request.caller.actsFor⟩ := by
  cases row with
  | none => cases hsome
  | some r =>
    obtain ⟨userId⟩ := r
    exact congrArg (fun u => some (ThreadMetaRow.mk u)) (hmine _ rfl)

/-! Where a request goes on, it is told all that it needs there. -/

theorem Sound.granted (hmine : Mine request row) : Sound request row request.call.granted := by
  obtain ⟨caller, threadId, call⟩ := request
  cases call with
  | startRun | deleteThreadData | setThreadGoal => exact .idle rfl rfl rfl
  | _ => exact .of_mine hmine rfl rfl

theorem Sound.found (hmine : Mine request row) (hsome : row.isSome = true) :
    Sound request row request.call.found := by
  refine .of_own hmine hsome fun item hitem => ?_
  cases hcall : request.call <;> simp [hcall, Call.found, Stage.carried] at hitem

theorem Sound.created (hmine : Mine request row) (hsome : row.isSome = true) :
    Sound request row request.call.created := by
  refine .of_own hmine hsome fun item hitem => ?_
  cases hcall : request.call <;> simp [hcall, Call.created, Stage.carried] at hitem

theorem Sound.unnoted (hmine : request.call.startsRun = true → Mine request row) :
    Sound request row request.call.unnoted := by
  rw [Call.unnoted]
  split
  · rename_i hstarts
    refine .of_mine (hmine hstarts) ?_ rfl
    cases hcall : request.call with
    | startRun => rfl
    | _ => simp [hcall, Call.startsRun] at hstarts
  · exact .idle rfl rfl rfl

theorem Sound.rooted {again : Bool} (hmine : request.call ≠ .createThread → Mine request row)
    (hsome : request.call ≠ .createThread → row.isSome = true) :
    Sound request row (request.call.rooted again) := by
  by_cases hcall : request.call = .createThread
  · rw [hcall]
    exact .idle rfl rfl rfl
  · refine .of_own (hmine hcall) (hsome hcall) fun item hitem => ?_
    cases hkind : request.call <;> cases again <;>
      simp [hkind, Call.rooted, Stage.carried] at hitem

/-- The invariant. -/
structure World.Told (requests : I → Request) (w : World I) : Prop where
  rows : ∀ threadId, ∀ r ∈ w.rows threadId, ∃ j, r.userId = some (requests j).caller.actsFor
  content : ∀ threadId, ∀ item ∈ w.content threadId, w.rows threadId = some ⟨some item.author⟩
  sound : ∀ i, Sound (requests i) (w.row requests i) (w.stage i)
  privacy : w.Private requests

theorem World.Begins.told (h : w.Begins requests) : w.Told requests where
  rows := h.rows
  content := h.content
  sound i := by
    rw [h.stage]
    refine .idle ?_ ?_ ?_
    all_goals
      cases (requests i).call with
      | startRun underThread wait => cases underThread <;> rfl
      | _ => rfl
  privacy := ⟨by simp [h.responses], by simp [h.moves]⟩

theorem World.Told.mine (h : w.Told requests) (hmine : Mine (requests i) (w.row requests i)) :
    ∀ item ∈ w.content (requests i).threadId, item.author = (requests i).caller.actsFor :=
  fun item hitem => some.inj (hmine _ (h.content _ item hitem))

/-- **The check finds out whose row it is.** -/
theorem World.Told.check (h : w.Told requests) (hapart : Apart digest requests)
    {second requireExisting : Bool}
    (hcheck : w.check digest requests i second requireExisting = true) :
    Mine (requests i) (w.row requests i) := by
  intro r hr
  obtain ⟨j, hj⟩ := h.rows _ r hr
  have hasked : r.userId = some (if second then (requests i).caller.actsFor
      else (requests i).caller.userId digest) := by
    rw [World.check, mem_def.1 hr] at hcheck
    have heither := of_decide_eq_true hcheck
    exact heither.resolve_left (by simp [hj])
  cases second with
  | true => exact hasked
  | false =>
    have hid : (requests i).caller.userId digest = (requests j).caller.actsFor :=
      some.inj (hasked.symm.trans hj)
    rw [hj, hapart i j hid]

variable [DecidableEq I]

theorem World.Told.goTo (h : w.Told requests)
    (hsound : Sound (requests i) (w.row requests i) stage) :
    (w.goTo i stage).Told requests where
  rows := h.rows
  content := h.content
  sound j := by
    by_cases hj : j = i
    · subst hj
      show Sound _ (w.row requests j) (update w.stage j stage j)
      rwa [update_self]
    · show Sound _ (w.row requests j) (update w.stage i stage j)
      rw [update_of_ne hj]
      exact h.sound j
  privacy := ⟨h.privacy.responses, h.privacy.moves⟩

section

omit [DecidableEq I]

theorem World.Told.respond (h : w.Told requests) {items : List Item}
    (hitems : ∀ item ∈ items, item.author = (requests i).caller.actsFor) :
    (w.respond i items).Told requests where
  rows := h.rows
  content := h.content
  sound := h.sound
  privacy := by
    refine ⟨fun p hp => ?_, h.privacy.moves⟩
    rcases mem_append.1 hp with hp | hp
    · exact h.privacy.responses p hp
    · rw [mem_singleton.1 hp]
      exact hitems

theorem World.Told.setSaved (h : w.Told requests) {saved : List Checkpoint}
    (hsaved : ∀ item ∈ saved.flatMap Checkpoint.items,
      w.row requests i = some ⟨some item.author⟩) :
    (w.setSaved requests i saved).Told requests where
  rows := h.rows
  content threadId item hitem := by
    by_cases hid : threadId = (requests i).threadId
    · subst hid
      refine hsaved item ?_
      simpa [World.content, World.setSaved] using hitem
    · refine h.content threadId item ?_
      simpa [World.content, World.setSaved, update_of_ne hid] using hitem
  sound := h.sound
  privacy := ⟨h.privacy.responses, h.privacy.moves⟩

theorem World.Told.put (h : w.Told requests) {c : Checkpoint}
    (hitems : ∀ item ∈ c.items, w.row requests i = some ⟨some item.author⟩) :
    (w.put requests i c).Told requests := by
  refine h.setSaved fun item hitem => ?_
  rw [flatMap_cons] at hitem
  rcases mem_append.1 hitem with hitem | hitem
  · exact hitems item hitem
  · exact h.content _ item hitem

/-- A request writes what its own user has written. -/
theorem World.Told.putOwn {c : Checkpoint} (h : w.Told requests)
    (hmine : Mine (requests i) (w.row requests i)) (hlisted : (w.row requests i).isSome = true)
    (hown : ∀ item ∈ c.items, item.author = (requests i).caller.actsFor) :
    (w.put requests i c).Told requests := by
  refine h.put fun item hitem => ?_
  rw [hown item hitem]
  exact eq_of_mine hmine hlisted

theorem World.row_setRow (w : World I) : (w.setRow requests i row).row requests i = row :=
  update_self ..

/-- The row of a thread changes. -/
theorem World.Told.setRow (h : w.Told requests) (hrow : ∀ r ∈ row, ∃ j,
      r.userId = some (requests j).caller.actsFor)
    (hcontent : ∀ item ∈ w.content (requests i).threadId, row = some ⟨some item.author⟩)
    (hsound : ∀ j, (requests j).threadId = (requests i).threadId →
      Sound (requests j) row (w.stage j)) :
    (w.setRow requests i row).Told requests where
  rows threadId r hr := by
    by_cases hid : threadId = (requests i).threadId
    · subst hid
      refine hrow r ?_
      simpa [World.setRow] using hr
    · refine h.rows threadId r ?_
      simpa [World.setRow, update_of_ne hid] using hr
  content threadId item hitem := by
    by_cases hid : threadId = (requests i).threadId
    · subst hid
      show update w.rows _ row _ = _
      rw [update_self]
      exact hcontent item hitem
    · show update w.rows _ row _ = _
      rw [update_of_ne hid]
      exact h.content threadId item hitem
  sound j := by
    by_cases hid : (requests j).threadId = (requests i).threadId
    · have hj := hsound j hid
      show Sound _ (update w.rows _ row _) _
      rwa [hid, update_self]
    · show Sound _ (update w.rows _ row _) _
      rw [update_of_ne hid]
      exact h.sound j
  privacy := ⟨h.privacy.responses, h.privacy.moves⟩

theorem World.Told.move (h : w.Told requests) {r : ThreadMetaRow} (hrow : w.row requests i = some r)
    (hmine : r.userId = some (requests i).caller.actsFor) :
    ({ w with moves := w.moves ++ [(i, r)] }.setRow requests i
      (some { r with userId := some (requests i).caller.actsFor })).Told requests := by
  have hnoted : World.Told requests { w with moves := w.moves ++ [(i, r)] } := by
    refine ⟨h.rows, h.content, h.sound, h.privacy.responses, fun p hp => ?_⟩
    rcases mem_append.1 hp with hp | hp
    · exact h.privacy.moves p hp
    · rw [mem_singleton.1 hp]
      exact hmine
  have hsame : some { r with userId := some (requests i).caller.actsFor } = w.row requests i := by
    rw [hrow, ← hmine]
  rw [hsame]
  refine hnoted.setRow (h.rows _) (h.content _) fun j hj => ?_
  have hsound := h.sound j
  rw [World.row, hj] at hsound
  exact hsound

end

/-! ### What a read gives -/

theorem messages_subset {c : Checkpoint} : c.messages ⊆ c.items := fun _ h =>
  mem_append_left _ (mem_append_left _ h)

theorem title_subset {c : Checkpoint} : c.title.toList ⊆ c.items := fun _ h =>
  mem_append_left _ (mem_append_right _ h)

theorem goal_subset {c : Checkpoint} : c.goal.toList ⊆ c.items := fun _ h =>
  mem_append_right _ h

theorem latest_subset {cs : List Checkpoint} :
    (cs.head?.getD emptyCheckpoint).items ⊆ cs.flatMap Checkpoint.items := by
  cases cs with
  | nil => exact fun _ h => h
  | cons c cs => exact fun _ h => mem_append_left _ h

theorem historyItems_subset (cs : List Checkpoint) :
    historyItems cs ⊆ cs.flatMap Checkpoint.items := by
  cases cs with
  | nil => exact fun _ h => h
  | cons c cs =>
    intro item h
    rcases mem_append.1 h with h | h
    · exact mem_append_left _ (messages_subset h)
    · obtain ⟨c', hc', hitem⟩ := mem_flatMap.1 h
      exact mem_flatMap.2 ⟨c', hc', title_subset hitem⟩

theorem flatMap_page_subset (cs : List Checkpoint) (skip limit : ℕ) :
    ((cs.drop skip).take limit).flatMap Checkpoint.items ⊆ cs.flatMap Checkpoint.items := by
  intro item h
  obtain ⟨c, hc, hitem⟩ := mem_flatMap.1 h
  exact mem_flatMap.2 ⟨c, mem_of_mem_drop (mem_of_mem_take hc), hitem⟩

/-- A request that has been let in reads what was written for its user. -/
theorem World.Told.read (h : w.Told requests) (hstage : w.stage i = .reading)
    (hlisted : (requests i).call.startsRun = true → (w.row requests i).isSome = true) :
    (w.read requests i).Told requests := by
  have hsound := h.sound i
  rw [hstage] at hsound
  have hmine : Mine (requests i) (w.row requests i) := hsound.held rfl
  have hall := h.mine hmine
  have hlatest := fun item hitem => hall item (latest_subset hitem)
  have hover : ∀ w' : World I, Sound (requests i) (w'.row requests i) .over := fun _ =>
    .idle rfl rfl rfl
  unfold World.read
  dsimp only
  cases hcall : (requests i).call with
  | startRun underThread wait =>
    exact h.goTo (.of_own hmine (hlisted (by rw [hcall]; rfl)) hlatest)
  | setThreadGoal objective =>
    dsimp only
    split
    · exact h.goTo (hover _)
    · refine h.goTo (.of_own hmine (hsound.listed (by rw [hcall]; rfl)) fun item hitem => ?_)
      rcases mem_append.1 hitem with hitem | hitem
      · exact hlatest item (mem_append_left _ hitem)
      · rw [mem_singleton.1 hitem]
  | getThreadGoal =>
    exact (h.respond fun item hitem => hlatest item (goal_subset hitem)).goTo (hover _)
  | getThreadHistory skip limit =>
    refine (h.respond fun item hitem => ?_).goTo (hover _)
    exact hall item (flatMap_page_subset _ skip limit (historyItems_subset _ hitem))
  | _ => exact (h.respond hlatest).goTo (hover _)

/-! ### Steps -/

/-- A request creates the row of a thread into which only its own user's requests have been let. -/
theorem World.Told.insert (h : w.Told requests) (hnone : w.row requests i = none)
    (hcreate : ∀ j, (requests j).threadId = (requests i).threadId →
      (w.stage j).holds (requests j).call = true →
      (requests j).caller.actsFor = (requests i).caller.actsFor) :
    ((w.setRow requests i (some ⟨some (requests i).caller.actsFor⟩)).goTo i
      (requests i).call.created).Told requests := by
  have hmine : Mine (requests i) (some ⟨some (requests i).caller.actsFor⟩) := fun r hr => by
    cases hr
    rfl
  refine (h.setRow (fun r hr => ⟨i, hmine r hr⟩) (fun item hitem => ?_) fun j hj => ?_).goTo ?_
  · -- a thread without a row holds nothing
    have hrow := h.content _ item hitem
    exact absurd (hrow.symm.trans hnone) (some_ne_none _)
  · refine ⟨fun hholds r hr => ?_, fun _ => rfl, (h.sound j).carried⟩
    cases hr
    rw [hcreate j hj hholds]
  · rw [World.row_setRow]
    exact .created hmine rfl

/-- A request removes the row of a thread that holds nothing and to which no one writes. -/
theorem World.Told.remove (h : w.Told requests) (hempty : w.content (requests i).threadId = [])
    (hwriters : ∀ j, (requests j).threadId = (requests i).threadId →
      (w.stage j).writes (requests j).call = false) :
    ((w.setRow requests i none).goTo i .over).Told requests := by
  refine (h.setRow (fun r hr => by cases hr) (fun item hitem => ?_) fun j hj => ?_).goTo
    (.idle rfl rfl rfl)
  · rw [hempty] at hitem
    cases hitem
  · refine ⟨fun _ r hr => ?_, fun hwrites => ?_, (h.sound j).carried⟩
    · cases hr
    · simp [hwriters j hj] at hwrites

/-- What comes back of what a request awaits. -/
theorem World.Told.next (h : w.Told requests) (hapart : Apart digest requests)
    (hfits : w.Fits digest requests i) (hnext : w.next digest requests i = some w') :
    w'.Told requests := by
  obtain ⟨hmove, hremove, hcreate, hbegin⟩ := hfits
  have hsound := h.sound i
  unfold World.next at hnext
  dsimp only at hnext
  split at hnext
  · rename_i second hstage
    split at hnext
    · rename_i hcheck
      cases hnext
      exact h.goTo (.granted (h.check hapart hcheck))
    · split at hnext <;> cases hnext <;> exact h.goTo (.idle rfl rfl rfl)
  · rename_i second hstage
    split at hnext
    · rename_i hcheck
      cases hnext
      exact h.goTo (.of_mine (h.check hapart hcheck) rfl rfl)
    · split at hnext <;> cases hnext <;> exact h.goTo (.idle rfl rfl rfl)
  · rename_i hstage
    cases hnext
    rw [hstage] at hsound
    exact h.goTo (.of_mine (hsound.held rfl) rfl rfl)
  · rename_i hstage
    rw [hstage] at hsound
    split at hnext <;> cases hnext
    · rename_i hsome
      exact h.goTo (.found (mine_of_getOwned hsome).1 (mine_of_getOwned hsome).2)
    · refine h.goTo ?_
      split <;> exact ⟨hsound.held, hsound.listed, hsound.carried⟩
  · rename_i hstage
    rw [hstage] at hsound
    split at hnext <;> cases hnext
    · exact h.goTo ⟨hsound.held, hsound.listed, hsound.carried⟩
    · refine h.goTo ?_
      split <;> exact ⟨hsound.held, hsound.listed, hsound.carried⟩
  · rename_i hstage
    rw [hstage] at hsound
    split at hnext <;> cases hnext
    · exact h.goTo ⟨hsound.held, hsound.listed, hsound.carried⟩
    · rename_i row hrow
      have hown : row.userId = some (requests i).caller.actsFor := by
        by_cases hstarts : (requests i).call.startsRun = true
        · exact hsound.held hstarts row hrow
        · exact hmove hstage (eq_false_of_ne_true hstarts) row hrow
      refine (h.move hrow hown).goTo (.of_mine (fun r hr => ?_) rfl rfl)
      change r ∈ World.row requests (World.setRow requests _ i _) i at hr
      rw [World.row_setRow] at hr
      cases hr
      rfl
  · rename_i hstage
    rw [hstage] at hsound
    split at hnext <;> cases hnext
    · rename_i hsome
      exact h.goTo (.found (mine_of_getOwned hsome).1 (mine_of_getOwned hsome).2)
    · exact h.goTo ⟨hsound.held, hsound.listed, hsound.carried⟩
  · rename_i hstage
    rw [hstage] at hsound
    split at hnext <;> cases hnext
    · exact h.goTo (.unnoted hsound.held)
    · rename_i hsome
      have hnone : w.row requests i = none := not_isSome_iff_eq_none.1 hsome
      exact h.insert hnone (hcreate hstage hnone)
  · rename_i again hstage
    rw [hstage] at hsound
    have hmine := fun hcall => hsound.held (by simpa [Stage.holds] using hcall)
    have hsome := fun hcall => hsound.listed (by simpa [Stage.writes] using hcall)
    split at hnext <;> cases hnext
    · exact h.goTo ⟨hsound.held, hsound.listed, hsound.carried⟩
    · exact h.goTo (.rooted hmine hsome)
  · rename_i again hstage
    rw [hstage] at hsound
    have hmine := fun hcall => hsound.held (by simpa [Stage.holds] using hcall)
    have hsome := fun hcall => hsound.listed (by simpa [Stage.writes] using hcall)
    cases hnext
    exact (h.put fun item hitem => by cases hitem).goTo (.rooted hmine hsome)
  · rename_i hstage
    cases hnext
    exact h.read hstage (hbegin hstage)
  · rename_i c hstage
    rw [hstage] at hsound
    cases hnext
    exact ((h.putOwn (hsound.held rfl) (hsound.listed rfl) hsound.carried).respond fun item hitem =>
      hsound.carried item (goal_subset hitem)).goTo (.idle rfl rfl rfl)
  · cases hnext
  · rename_i c hstage
    rw [hstage] at hsound
    cases hnext
    exact (h.putOwn (hsound.held rfl) (hsound.listed rfl) hsound.carried).goTo
      ⟨hsound.held, hsound.listed, hsound.carried⟩
  · rename_i hstage
    rw [hstage] at hsound
    cases hnext
    exact (h.respond fun item hitem => h.mine (hsound.held rfl) item (latest_subset hitem)).goTo
      (.idle rfl rfl rfl)
  · cases hnext
    exact (h.setSaved fun item hitem => by cases hitem).goTo (.idle rfl rfl rfl)
  · rename_i hstage
    split at hnext <;> cases hnext
    · rename_i hsome
      obtain ⟨hempty, hwriters⟩ := hremove hstage hsome
      exact h.remove hempty hwriters
    · exact h.goTo (.idle rfl rfl rfl)
  · cases hnext

theorem World.Told.fail (h : w.Told requests) (hfail : w.fail requests i = some w') :
    w'.Told requests := by
  have hunnoted (hholds : (w.stage i).holds (requests i).call = (requests i).call.startsRun) :
      (w.goTo i (requests i).call.unnoted).Told requests :=
    h.goTo (.unnoted fun hstarts => (h.sound i).held (hholds.trans hstarts))
  rw [World.fail] at hfail
  split at hfail
  · cases hfail
  · cases hfail
    exact h.goTo (.idle rfl rfl rfl)
  · rename_i hstage
    cases hfail
    exact hunnoted (by rw [hstage]; rfl)
  · rename_i hstage
    cases hfail
    exact hunnoted (by rw [hstage]; rfl)
  · rename_i hstage
    cases hfail
    exact hunnoted (by rw [hstage]; rfl)
  · rename_i hstage
    cases hfail
    exact hunnoted (by rw [hstage]; rfl)
  · rename_i hstage
    cases hfail
    exact hunnoted (by rw [hstage]; rfl)
  · cases hfail
    exact h.goTo (.idle rfl rfl rfl)

/-- **A step keeps the invariant.** -/
theorem World.Told.step (h : w.Told requests) (hapart : Apart digest requests) {a : Act I}
    (horderly : Orderly digest requests w a) (hstep : step digest requests w a = some w') :
    w'.Told requests := by
  cases a with
  | next i => exact h.next hapart horderly hstep
  | advance i c =>
    have hsound := h.sound i
    simp only [Access.step] at hstep
    split at hstep
    · rename_i read hstage
      rw [hstage] at hsound
      split at hstep <;> cases hstep
      rename_i hguard
      have hitems : ∀ item ∈ c.items, item.author = (requests i).caller.actsFor :=
        fun item hitem => (hguard item hitem).elim (hsound.carried item) id
      exact (h.respond hitems).goTo ⟨hsound.held, hsound.listed, hitems⟩
    · cases hstep
  | resume i =>
    have hsound := h.sound i
    simp only [Access.step] at hstep
    split at hstep
    · rename_i c hstage
      rw [hstage] at hsound
      cases hstep
      exact h.goTo (.of_own (hsound.held rfl) (hsound.listed rfl) fun item hitem => by cases hitem)
    · cases hstep
  | finish i =>
    have hsound := h.sound i
    simp only [Access.step] at hstep
    split at hstep
    · rename_i c underThread wait hstage hcall
      rw [hstage] at hsound
      cases hstep
      refine h.goTo ?_
      split
      · exact .of_mine (hsound.held rfl) rfl rfl
      · exact .idle rfl rfl rfl
    · cases hstep
  | fail i => exact h.fail hstep

/-- **A thread stays private to its owner**, where no request that starts no run moves a row from
another user, no row is removed while something is left or about to be written, none is created for
one user after another was let in, and no run begins on a thread without a row. -/
theorem threads_private {w₀ : World I} (hapart : Apart digest requests)
    (hbegins : w₀.Begins requests)
    (hrun : Runs (step digest requests) (Orderly digest requests) w₀ w) : w.Private requests :=
  (hrun.invariant hbegins.told fun _ _ _ h horderly hstep => h.step hapart horderly hstep).privacy

/-! ### A thread that is taken over -/

instance [Fintype I] (w : World I) (i : I) : Decidable (w.Fits digest requests i) :=
  inferInstanceAs (Decidable (_ ∧ _))

instance [Fintype I] (w : World I) (a : Act I) : Decidable (Orderly digest requests w a) := by
  cases a <;> unfold Orderly <;> infer_instance

/-- Two users, and a caller that acts for the second of them. -/
def demoRequests : Fin 5 → Request
  | 0 => ⟨.user "ann", "t", .createThread⟩
  | 1 => ⟨.user "ann", "t", .startRun true true⟩
  | 2 => ⟨.internal "bob", "t", .createThread⟩
  | 3 => ⟨.user "bob", "t", .getThreadState⟩
  | 4 => ⟨.user "ann", "t", .deleteThreadData⟩

def demoDigest (_ : String) : String := "0123456789abcdef"

/-- No thread is there. -/
def demoWorld : World (Fin 5) where
  rows _ := none
  checkpoints _ := []
  stage i := (demoRequests i).call.entry
  responses := []
  moves := []

theorem demoWorld_begins : demoWorld.Begins demoRequests where
  rows _ r hr := by cases hr
  content _ item hitem := by cases hitem
  stage _ := rfl
  responses := rfl
  moves := rfl

/-- What the run of the first user writes. -/
def demoAnswer : Checkpoint := ⟨[⟨"ann", "a cup of tea"⟩], none, none⟩

/-- The first user creates the thread and runs it to its first checkpoint. -/
def demoStart : List (Act (Fin 5)) :=
  [.next 0, .next 0, .next 0, .next 1, .next 1, .next 1, .next 1, .next 1, .advance 1 demoAnswer,
    .next 1]

/-- The second user is refused, the first deletes the thread, and the second creates it anew. -/
def demoRest : List (Act (Fin 5)) :=
  [.finish 1, .next 3, .next 1, .next 4, .next 4, .next 4, .next 2, .next 2, .next 2, .next 2]

theorem threads_private_demo : ∃ w, runWith (step demoDigest demoRequests)
    (Orderly demoDigest demoRequests) demoWorld (demoStart ++ demoRest) = some w ∧
      w.Private demoRequests := by
  obtain ⟨w, hw⟩ : ∃ w, runWith (step demoDigest demoRequests) (Orderly demoDigest demoRequests)
      demoWorld (demoStart ++ demoRest) = some w := isSome_iff_exists.mp (by decide +kernel)
  exact ⟨w, hw, threads_private (by unfold Apart; decide +kernel) demoWorld_begins
    (runs_of_runWith hw)⟩

/-- **Another user's answer is read**: an internal caller creates a thread that is there, which
moves its row. -/
theorem thread_taken_over : ¬∀ w : World (Fin 5),
    Runs (step demoDigest demoRequests) (fun _ _ => True) demoWorld w → w.Private demoRequests := by
  intro h
  have hlast : ((runWith (step demoDigest demoRequests) (fun _ _ => True) demoWorld
      (demoStart ++ [.next 2, .next 2, .next 2, .next 2, .next 3, .next 3])).any fun w =>
      (3, demoAnswer.items) ∈ w.responses) = true := by
    decide +kernel
  obtain ⟨w, hw, hresponse⟩ := (any_eq_true _ _).mp hlast
  have hauthor := (h w (runs_of_runWith hw)).responses _ (of_decide_eq_true hresponse)
    ⟨"ann", "a cup of tea"⟩ mem_cons_self
  exact absurd hauthor (by decide)

/-- The checkpoints are not deleted, and the row is: whoever asks is let in. -/
example : ((runWith (step demoDigest demoRequests) (fun _ _ => True) demoWorld
    (demoStart ++ [.finish 1, .next 1, .next 4, .fail 4, .next 4, .next 3, .next 3])).any fun w =>
      (3, demoAnswer.items) ∈ w.responses) = true := by
  decide +kernel

end AfterFlow.Threads.Access
