import AfterFlow.Recollection

/-!
# Triples of the operations

The operations as triples of the logic `keeping`, once for every invariant. What the saves and case
updates have to give is `Writable`; each triple adds what its own moves of money, inserts and
captures have to give.

## Main results

* `Triple.continueIntakeCase`, `Triple.createCaseAction`, `Triple.releaseExpiredReservations`
* `Triple.approve`, `Triple.reject`, `Triple.execute`
-/

namespace AfterFlow

open Coop Coop.Logic List

variable {I : World → Prop} {A : Guard} {D : Goal} {r : Request} {G : Context Unit → Prop}
  {cfg : Config}

theorem Triple.given {α : Type} {φ : Prop} {p : Proc α} {Q : α → Context Unit → Prop}
    (h : φ → Triple I A D r G p Q) : Triple I A D r (fun c => G c ∧ φ) p Q :=
  fun c hc => h hc.facts.2 c (hc.imp And.left)

/-- Saves and case updates keep the invariant, and it does not look at audit events, the uuid
counter, signatures and origins. -/
structure Writable (I : World → Prop) (A : Guard) (r : Request) : Prop extends Unnoticed I where
  records : ∀ w signatures origins, I w →
    I { w with history := { w.history with signatures, origins } }
  save : ∀ {copy a : ActionRequest} {u : Option String} {h : History} (c : Context Unit) (s : World),
    I s → Seen copy s → Transition h copy a →
    A r c.close (some (.updateAction a u copy.version)) .ok s →
    (s.db.updateAction a u copy.version).1 = .ok 1 →
    I { s with db := (s.db.updateAction a u copy.version).2 }
  update : ∀ {id : Uuid} {u : String} {values : CaseValues} {case : ServiceCase} (c : Context Unit)
    (s : World), I s → A r c.close (some (.updateCase id u case.version values)) .ok s →
    s.db.getCase id (some u) = some case →
    I { s with db := { s.db with cases := s.db.cases.put (values.apply case (case.version + 1)) } }

theorem Triple.writeAction (hI : Writable I A r) (copy : ActionRequest) {a : ActionRequest}
    {u : Option String} {v : ℕ} {h : History} (hv : copy.version = v) (ht : Transition h copy a) :
    Triple I A D r (Known (Seen copy)) (AfterFlow.saveAction a u v)
      fun saved c => Known (Seen saved) c ∧ a.Evolves saved := by
  subst hv
  exact (Triple.saveAction (G := fun _ => True) hI.toUnnoticed copy rfl ht
    fun c s _ hi hs ha hok => hI.save c s hi hs ht ha hok).pre fun _ hc => ⟨trivial, hc⟩

theorem Triple.writeCase (hI : Writable I A r) {id : Uuid} {u : String} {v : ℕ} {values : CaseValues} :
    Triple I A D r G (AfterFlow.updateCase id u v values) fun _ _ => True :=
  .updateCase hI.toUnnoticed fun c s case _ hi ha hcase hv => by
    subst hv
    exact hI.update c s hi ha hcase

/-! ### Reads -/

theorem Triple.orNotFound {α : Type} {what : String} {x : Option α} {Q : α → Context Unit → Prop}
    (h : ∀ a, x = some a → ∀ c, G c → Q a c) : Triple I A D r G (AfterFlow.orNotFound what x) Q := by
  cases x with
  | some a => exact .pure (h a rfl)
  | none => exact .raise

theorem Triple.appendEvent (hI : Unnoticed I) (e : NewEvent) :
    Triple I A D r (fun _ => True) (AfterFlow.appendEvent cfg.rt e) fun _ _ => True :=
  .quiet hI .true (appendEvent_quiet cfg.rt e)

theorem Triple.raiseActionError {α : Type} {Q : α → Context Unit → Prop} (e : Exn) :
    Triple I A D r G (AfterFlow.raiseActionError e) Q := by
  cases e <;> exact .raise

/-- In some finished step an operation replied that, and would reply it again. -/
def Told (I : World → Prop) (op : Op) (reply : op.Reply) (c : Context Unit) : Prop :=
  ∃ e ∈ c.trace, e.answer = some ⟨op, .ok reply⟩ ∧ I e.after ∧ (op.perform e.after).1 = .ok reply

theorem Told.known {op : Op} {reply : op.Reply} {c : Context Unit} (h : Told I op reply c) :
    Known (fun w => I w ∧ (op.perform w).1 = .ok reply) c := by
  obtain ⟨e, he, -, hw⟩ := h
  exact ⟨e, he, hw⟩

/-- The first answers of a call. -/
def Headed (answers : List (Answer Op Op.Reply Exn)) (c : Context Unit) : Prop :=
  answers <+: answersOf c.trace

theorem Headed.lasting (answers : List (Answer Op Op.Reply Exn)) : Lasting (Headed answers) :=
  fun _ _ hc h => h.trans (hc.filterMap _)

theorem Triple.firstCase (hI : Unnoticed I) (id : Uuid) (u : Option String) :
    Triple I A D r (fun c => c.answers = []) (AfterFlow.getCase id u) fun found c =>
      c.answers = [⟨.getCase id u, .ok found⟩, ⟨.close, .ok ()⟩] ∧
      Headed [⟨.getCase id u, .ok found⟩] c ∧ Known (fun w => w.db.getCase id u = found) c := by
  intro c hc
  refine Kept.read hI Lasting.true.survives (.getCase id u) trivial trivial (hc.imp fun _ => trivial)
    (fun found c' hc' hk hret => ⟨hc', fun _ ha => ?_⟩) fun _ _ hc' => ⟨hc', fun _ ha => by cases ha⟩
  cases ha
  have hnil : c.answers = [] := hc.facts
  have hanswers := hret.answers
  rw [hnil, nil_append] at hanswers
  refine ⟨?_, ?_, hk.imp fun w hw => Except.ok.inj hw.2⟩
  · rw [Ctx.answers, hanswers, hret.answer]
    rfl
  · simp only [Headed, hanswers, prefix_refl]

/-- What is known when `_admin_action` has returned. -/
structure Admitted (I : World → Prop) (A : Guard) (r : Request) (caller : Caller) (actionId : Uuid)
    (actor : Actor) (a : ActionRequest) (case : ServiceCase) (c : Context Unit) : Prop where
  admin : requireAdmin caller = .ok actor
  actionRead : Told I (.getAction actionId none) (some a) c
  caseRead : Told I (.getCase a.caseId none) (some case) c
  answers : answersOf c.trace = [⟨.getAction actionId none, .ok (some a)⟩, ⟨.close, .ok ()⟩,
    ⟨.getCase a.caseId none, .ok (some case)⟩]
  guard : A r c.trace (some .close) .ok c.start
  now : c.now = c.start
  /-- When the case was read. -/
  between : ∃ (c₁ : Context Unit) (s : World), I s ∧ (∀ e ∈ c₁.close, Becomes e.after s) ∧
    c₁.answers = [⟨.getAction actionId none, .ok (some a)⟩, ⟨.close, .ok ()⟩] ∧
    Told I (.getAction actionId none) (some a) c₁ ∧
    A r c₁.close (some (.getCase a.caseId none)) .ok s ∧ s.db.getCase a.caseId none = some case

theorem Admitted.seen {caller : Caller} {actionId : Uuid} {actor : Actor} {a : ActionRequest}
    {case : ServiceCase} {c : Context Unit} (h : Admitted I A r caller actionId actor a case c) :
    Known (Seen a) c :=
  h.actionRead.known.imp fun _ hw =>
    .of_mem (Keyed.Table.mem_of_find? (getAction_some (Except.ok.inj hw.2)).1)

theorem Triple.adminAction (hI : Unnoticed I) (caller : Caller) (actionId : Uuid) :
    Triple I A D r (fun c => c.answers = []) (AfterFlow.adminAction caller actionId) fun x =>
      Admitted I A r caller actionId x.1 x.2.1 x.2.2 := by
  intro c hc
  have hrest : Rest (keeping I A D) r Op.IsQuiet () (Kept I fun _ => True) :=
    Kept.rest hI Lasting.true.survives
  have htold : ∀ {op : Op} {reply : op.Reply} {c' : Context Unit},
      Obs (Kept I fun _ => True) op reply c' → Told I op reply c' :=
    fun ⟨c₀, hK₀, ha, _, hrep, hpre⟩ => ⟨⟨c₀.answer, c₀.start, c₀.now⟩,
      hpre.subset (mem_append_right _ (mem_singleton_self _)), ha, hK₀.inv, hrep⟩
  refine hrest.adminAction ⟨trivial, fun _ => trivial⟩ (hc.imp fun _ => trivial)
    (fun e c' hc' => ⟨hc', fun _ ha => by cases ha⟩) ?_
  intro actor a case c' hadmin hc' hread
  refine ⟨hc', fun x hx => ?_⟩
  cases hx
  obtain ⟨c₁, hc₁, hobs, hret⟩ := hread.between
  obtain ⟨s, _, _, hi, ⟨hs, ha⟩, hrep⟩ := hret.asked
  have hnil : c.answers = [] := hc.facts
  have hanswers := hread.answers
  rw [hnil, nil_append] at hanswers
  have hmid : c₁.answers = [⟨.getAction actionId none, .ok (some a)⟩, ⟨.close, .ok ()⟩] :=
    (append_inj' (hret.answers.symm.trans hanswers :
      c₁.answers ++ [_] = [⟨.getAction actionId none, .ok (some a)⟩, ⟨.close, .ok ()⟩] ++ [_]) rfl).1
  exact ⟨hadmin, htold hread.actionRead, htold hread.caseRead, hanswers, hread.allowed.2, hread.now,
    c₁, s, hi, hs, hmid, htold hobs, ha, Except.ok.inj hrep⟩

/-! ### Captures -/

/-- `execute_approved_action` and `execute_approved_resend` complete an approved action. -/
theorem Triple.performAction (a : ActionRequest) (orderId : OrderId) (payload : Json)
    (expectedVersion : ℕ) (hresend : ∀ w reverse, I w → I { w with reverse })
    (hrefund : ∀ c, Kept I G c → a.actionType = .refund →
      I { c.now with refunds := (executeApprovedAction cfg.rt a payload expectedVersion
        (c.now.refunds.reservedOf orderId) c.now.refunds c.now.now).2 }) :
    Triple I A D r G (AfterFlow.performAction cfg a orderId payload expectedVersion)
      fun updated _ => a.version = expectedVersion ∧ ∀ h, Transition h a updated := by
  rw [AfterFlow.performAction]
  split
  · refine .bind (Q := fun result _ => ∃ e e' now,
      (result, e') = executeApprovedResend cfg.rt a payload expectedVersion e now)
      (.update fun c hc => ⟨hresend _ _ hc.inv, c.now.reverse, _, c.now.now, rfl⟩) fun result =>
        .ofExcept fun updated hok c hc => ?_
    obtain ⟨e, e', now, heq⟩ := hc
    rw [hok] at heq
    obtain ⟨hs, hv, -, reference, rfl⟩ := executeApprovedResend_ok heq.symm
    exact ⟨hv, fun h => executed_transition hs a.reserved⟩
  · rename_i htype
    refine .bind (Q := fun result _ => ∃ balance e e' now,
      (result, e') = executeApprovedAction cfg.rt a payload expectedVersion balance e now)
      (.update fun c hc => ⟨hrefund c hc htype, _, c.now.refunds, _, c.now.now, rfl⟩) fun result => ?_
    refine .bind (Q := fun updated _ => a.version = expectedVersion ∧
      ∀ h, Transition h a { updated with reserved := false }) (.ofExcept fun updated hok c hc => ?_)
      fun updated => .pure fun _ hc => hc
    obtain ⟨balance, e, e', now, heq⟩ := hc
    rw [hok] at heq
    obtain ⟨_, _, reference, hcheck, -, rfl⟩ := executeApprovedAction_ok heq.symm
    obtain ⟨hs, hv, -⟩ := checkExecution_ok hcheck
    exact ⟨hv, fun h => executed_transition hs false⟩

/-! ### Supplements -/

/-- What `invalidate_active_actions` saves. -/
def invalidated (a : ActionRequest) (reason : String) : ActionRequest :=
  { a with status := .rejected, comment := some reason, version := a.version + 1 }

theorem invalidated_transition {a : ActionRequest} (reason : String) (h : a.isActive)
    (h' : History) : Transition h' a (invalidated a reason) :=
  .reject a.approvedBy a.approvedAt (some reason) a.reserved (.inl h)

theorem released_transition {a : ActionRequest} (hrej : a.status = .rejected) (h : History) :
    Transition h a { a with reserved := false, version := a.version + 1 } := by
  have ht : Transition h a _ := .reject a.approvedBy a.approvedAt a.comment false (.inr hrej)
  rw [← hrej] at ht
  exact ht

/-- A later state of an action that was invalidated. -/
structure Invalid (actions : List ActionRequest) (a : ActionRequest) : Prop where
  status : a.status = .rejected
  from_active : ∃ copy ∈ actions, copy.isActive ∧ copy.Evolves a

theorem Triple.invalidateLoop (hI : Writable I A r) (userId reason : String)
    (actions : List ActionRequest) :
    Triple I A D r (fun c => ∀ a ∈ actions, Known (Seen a) c)
      (AfterFlow.invalidateLoop userId reason actions)
      fun rejected c => ∀ a ∈ rejected, Known (Seen a) c ∧ Invalid actions a := by
  have hlasting : ∀ l : List ActionRequest, Lasting fun c => ∀ a ∈ l, Known (Seen a) c :=
    fun l c c' hc h a ha => Known.lasting c c' hc (h a ha)
  induction actions with
  | nil => exact .pure fun _ _ _ h => (not_mem_nil h).elim
  | cons a actions ih =>
    have hcons : ∀ b c, Known (Seen b) c ∧ Invalid actions b →
        Known (Seen b) c ∧ Invalid (a :: actions) b := by
      rintro b c ⟨hk, hst, copy, hcopy, hev⟩
      exact ⟨hk, hst, copy, mem_cons_of_mem _ hcopy, hev⟩
    rw [AfterFlow.invalidateLoop]
    split
    · rename_i hact
      have ht := invalidated_transition reason hact ⟨[], [], []⟩
      have hsave : Triple I A D r (fun c => ∀ b ∈ a :: actions, Known (Seen b) c)
          (AfterFlow.saveAction (invalidated a reason) (some userId) a.version)
          fun saved c => (∀ b ∈ actions, Known (Seen b) c) ∧
            Known (Seen saved) c ∧ Invalid (a :: actions) saved :=
        (((Triple.writeAction hI a rfl ht).frame (hlasting actions)).post fun saved c h =>
          ⟨h.2, h.1.1, h.1.2.final rfl, a, mem_cons_self, hact,
            (ht.evolves (.refl a) rfl).trans h.1.2⟩).pre fun c h =>
              ⟨h a mem_cons_self, fun b hb => h b (mem_cons_of_mem _ hb)⟩
      refine .bind hsave fun saved => .bind (ih.frame (F := fun c => Known (Seen saved) c ∧
        Invalid (a :: actions) saved) (Known.lasting.and fun _ _ _ h => h)) fun rejected =>
          .pure fun c h b hb => ?_
      rcases mem_cons.mp hb with rfl | hb
      · exact h.2
      · exact hcons b c (h.1 b hb)
    · exact (ih.post fun rejected c h b hb => hcons b c (h b hb)).pre fun c h b hb =>
        h b (mem_cons_of_mem _ hb)

theorem Triple.releaseInvalidated (hI : Writable I A r) (orderId : OrderId) (actorId : String)
    (a : ActionRequest) (hrej : a.status = .rejected)
    (hrelease : ∀ w amount, I w → a.payload.amount = .ok amount → I (w.release a orderId amount)) :
    Triple I A D r (Known (Seen a)) (AfterFlow.releaseInvalidated orderId actorId a)
      fun _ _ => True := by
  rw [AfterFlow.releaseInvalidated]
  split
  · refine .bind (Q := fun amount c => Known (Seen a) c ∧ a.payload.amount = .ok amount)
      (.ofExcept fun amount ha c hc => ⟨hc, ha⟩) fun amount => ?_
    refine .bind (Q := fun _ => Known (Seen a)) (.write (H := Known (Seen a)) (fun c hc =>
      ⟨hrelease _ amount hc.inv hc.facts.2, hc.facts.1⟩) (.pure fun _ h => h)) fun _ => ?_
    exact .bind (Triple.writeAction hI a rfl (released_transition hrej ⟨[], [], []⟩)) fun _ =>
      .pure fun _ _ => trivial
  · exact .pure fun _ _ => trivial

/-- A supplement, begun with the read of its case. `N` is what its list of actions gives for the
active ones. -/
theorem Triple.continueIntakeCase (hI : Writable I A r) {id : Uuid} {u : Option String}
    (s : Supplement) (case : ServiceCase) {N : ActionRequest → Prop}
    (hlisted : ∀ actions w, Triple.Asked I A r
      (fun c => c.answers = [⟨.getCase id u, .ok (some case)⟩, ⟨.close, .ok ()⟩])
      (.listCaseActions case.id s.actorId) actions w → ∀ a ∈ actions, a.isActive → N a)
    (hrelease : ∀ w copy a amount, I w → N copy → ActionRequest.Evolves copy a →
      a.payload.amount = .ok amount → I (w.release a case.orderId amount)) :
    Triple I A D r (fun c => c.answers = [⟨.getCase id u, .ok (some case)⟩, ⟨.close, .ok ()⟩])
      (AfterFlow.continueIntakeCase cfg s case) fun _ _ => True := by
  refine .bind (Q := fun _ c => c.answers = [⟨.getCase id u, .ok (some case)⟩, ⟨.close, .ok ()⟩])
    (.read fun _ => .pure fun _ h => h.1) fun now => .bind (Q := fun _ c =>
      c.answers = [⟨.getCase id u, .ok (some case)⟩, ⟨.close, .ok ()⟩]) (.ofExcept fun _ _ _ h => h)
      fun evaluated => ?_
  refine .bind (Q := fun rejected c => (∀ a ∈ rejected, Known (Seen a) c) ∧
    ∀ a ∈ rejected, a.status = .rejected ∧ ∃ copy, N copy ∧ ActionRequest.Evolves copy a) ?_
    fun rejected => .bind (Q := fun _ _ => True) (.given fun hrejected => ?_) fun _ =>
      .bind (Triple.writeCase hI) fun case' => .bind (Triple.appendEvent hI.toUnnoticed _) fun _ =>
        .bind (Triple.appendEvent hI.toUnnoticed _) fun _ => .pure fun _ h => h
  · refine .bind (Triple.queryAt hI.toUnnoticed (.listCaseActions case.id s.actorId) trivial)
      fun actions c hc => ?_
    obtain ⟨⟨w, hasked⟩, hknown⟩ := hc.facts
    have hN := hlisted actions w hasked
    refine (Triple.invalidateLoop hI s.actorId _ actions).post (fun rejected c h =>
      (⟨fun a ha => (h a ha).1, fun a ha => ⟨(h a ha).2.status, ?_⟩⟩ : _ ∧ _)) c
        (hc.imp fun _ a ha => hknown.imp fun w hw => ?_)
    · have hlist : w.db.caseActions case.id s.actorId = actions := Except.ok.inj hw.2
      exact .of_mem (mem_caseActions (hlist ▸ ha)).1
    · obtain ⟨copy, hcopy, hact, hev⟩ := (h a ha).2.from_active
      exact ⟨copy, hN copy hcopy hact, hev⟩
  · have hlasting : Lasting fun c => ∀ a ∈ rejected, Known (Seen a) c :=
      fun c c' hc h a ha => Known.lasting c c' hc (h a ha)
    refine (Triple.forEach fun a ha => ?_).post fun _ _ _ => trivial
    obtain ⟨hrej, copy, hN, hev⟩ := hrejected a ha
    exact (((Triple.releaseInvalidated hI case.orderId s.actorId a hrej fun w amount hi hamount =>
      hrelease w copy a amount hi hN hev hamount).frame hlasting).post fun _ _ h => h.2).pre
        fun c hc => ⟨hc a ha, hc⟩

theorem Triple.fromCase {α : Type} (hI : Unnoticed I) {id : Uuid} {u : Option String}
    {f : ServiceCase → Proc α} {Q : α → Context Unit → Prop}
    (hf : ∀ case, Triple I A D r (fun c =>
      c.answers = [⟨.getCase id u, .ok (some case)⟩, ⟨.close, .ok ()⟩] ∧
      Headed [⟨.getCase id u, .ok (some case)⟩] c ∧
      Known (fun w => w.db.getCase id u = some case) c) (f case) Q) :
    Triple I A D r (fun c => c.answers = [])
      ((AfterFlow.getCase id u).bind fun found => (AfterFlow.orNotFound "Case" found).bind f) Q :=
  .bind (Triple.firstCase hI id u) fun _ => .bind (Q := fun case c =>
    c.answers = [⟨.getCase id u, .ok (some case)⟩, ⟨.close, .ok ()⟩] ∧
      Headed [⟨.getCase id u, .ok (some case)⟩] c ∧
      Known (fun w => w.db.getCase id u = some case) c)
    (.orNotFound fun _ hcase _ hc => hcase ▸ hc) hf

/-! ### The reaper -/

/-- An entry of `list_expired_reserved_actions`. -/
structure Expired (w : World) (p : ActionRequest × OrderId) : Prop where
  mem : p.1 ∈ w.db.actions.rows
  reserved : p.1.reserved
  active : p.1.isActive
  case : ∃ case, w.db.getCase p.1.caseId none = some case ∧ p.2 = case.orderId

theorem mem_expiredReserved {w : World} {now : Instant} {p : ActionRequest × OrderId}
    (h : p ∈ w.db.expiredReserved now) : Expired w p ∧ p.1.expiresAt < now := by
  rw [Database.expiredReserved, mem_filterMap] at h
  obtain ⟨a, ha, hp⟩ := h
  split at hp
  · rename_i hcond
    obtain ⟨case, hcase, rfl⟩ := Option.map_eq_some_iff.mp hp
    exact ⟨⟨ha, hcond.1, hcond.2.1, case, hcase, rfl⟩, hcond.2.2⟩
  · cases hp

theorem Triple.releaseExpiredReservations (hI : Writable I A r)
    (hrelease : ∀ (w₀ w : World) p amount, I w₀ → Expired w₀ p → I w →
      p.1.payload.amount = .ok amount → I (w.release p.1 p.2 amount)) :
    Triple I A D r (fun _ => True) AfterFlow.releaseExpiredReservations fun _ _ => True := by
  refine .bind (Q := fun _ _ => True) (.read fun w => .pure fun _ _ => trivial) fun now => ?_
  let G : List (ActionRequest × OrderId) → Context Unit → Prop := fun l c =>
    ∀ p ∈ l, Known (fun w => I w ∧ Expired w p) c
  have hG : ∀ l, Lasting (G l) := fun l c c' hc h p hp => Known.lasting c c' hc (h p hp)
  have hread : Triple I A D r (fun _ => True) (listExpiredReservedActions now) G :=
    (Triple.query hI.toUnnoticed (.listExpiredReservedActions now) trivial).post
      fun expired c hk p hp => hk.imp fun w hw => by
        have hlist : w.db.expiredReserved now = expired := Except.ok.inj hw.2
        exact ⟨hw.1, (mem_expiredReserved (hlist ▸ hp)).1⟩
  refine .bind hread fun expired => .bind ((Triple.forEach fun p hp => ?_).post
    fun _ _ _ => trivial) fun _ => .pure fun _ h => h
  refine .bind (Q := fun amount c => G expired c ∧ p.1.payload.amount = .ok amount)
    (.ofExcept fun amount ha c hc => ⟨hc, ha⟩) fun amount => ?_
  refine .bind (Q := fun _ => G expired) (.write (H := G expired) (fun c hc => ?_)
    (.pure fun _ h => h)) fun _ => ?_
  · obtain ⟨e, -, hi, hex⟩ := hc.facts.1 p hp
    exact ⟨hrelease _ _ p amount hi hex hc.inv hc.facts.2, hc.facts.1⟩
  · exact .bind (Q := fun _ => G expired) ((((Triple.writeAction hI p.1 rfl
      (.reap (h := ⟨[], [], []⟩))).frame (hG expired)).post fun _ _ h => h.2).pre fun c hc =>
        ⟨(hc p hp).imp fun _ hw => .of_mem hw.2.mem, hc⟩) fun _ => .pure fun _ h => h

/-! ### Creation -/

/-- `create_case_action`, begun with the read of its case. -/
theorem Triple.createCaseAction (hI : Writable I A r) {id : Uuid} {u : Option String}
    (case : ServiceCase) (actorId : String)
    (hreserve : ∀ w (a : ActionRequest) amount, I w → a.payload.orderId = case.orderId →
      I (w.reserve a case.orderId amount).2)
    (hrelease : ∀ w (a : ActionRequest) amount, I w → a.payload.orderId = case.orderId →
      I (w.release a case.orderId amount))
    (hinsert : ∀ (c : Context Unit) (s : World) (a : ActionRequest),
      Headed [⟨.getCase id u, .ok (some case)⟩] c → I s → a.caseId = case.id →
      a.payload.orderId = case.orderId → A r c.close (some (.insertAction a)) .ok s →
      (s.db.insertAction a).1 = .ok () → I { s with db := (s.db.insertAction a).2 }) :
    Triple I A D r (Headed [⟨.getCase id u, .ok (some case)⟩])
      (AfterFlow.createCaseAction cfg case actorId) fun _ _ => True := by
  let G : Context Unit → Prop := Headed [⟨.getCase id u, .ok (some case)⟩]
  have hG : Lasting G := Headed.lasting _
  refine .bind (Q := fun _ => G) (.update fun c hc => ⟨hI.uuids _ _ hc.inv, hc.facts⟩)
    fun id => .bind (Q := fun _ => G) (.read fun _ => .pure fun _ h => h.1) fun now => ?_
  refine .bind (Q := fun a c => G c ∧ BuiltFrom cfg case actorId id a)
    (.ofExcept fun a ha c hc => ⟨hc, buildCaseAction_ok ha⟩) fun a => .given fun hbuilt => ?_
  refine .bind (Q := fun _ => G) (.write (H := G) (fun c hc =>
    ⟨hI.records _ _ _ hc.inv, hc.facts⟩) (.pure fun _ h => h)) fun _ => ?_
  refine .bind (Q := fun a' c => G c ∧ ∃ flag, a' = { a with reserved := flag }) ?_ fun a' =>
    .given ?_
  · rw [fundAction]
    split
    · refine .bind (Q := fun _ => G) (.ofExcept fun _ _ _ h => h) fun amount => ?_
      refine .bind (Q := fun _ => G) (.update fun c hc =>
        ⟨hreserve _ a amount hc.inv hbuilt.orderId, hc.facts⟩) fun reserved => ?_
      split
      · exact .pure fun _ h => ⟨h, true, rfl⟩
      · exact .raise
    · exact .pure fun _ h => ⟨h, a.reserved, rfl⟩
  rintro ⟨flag, rfl⟩
  refine .bind (Q := fun _ _ => True) (.tryCatch (.createAction hI.toUnnoticed hG
    fun c s hc hi hs ha hok => hinsert c s _ hc.facts hi hbuilt.caseId hbuilt.orderId ha hok)
    fun e => ?_) fun saved => .bind (Triple.writeCase hI) fun _ => .pure fun _ h => h
  dsimp only
  split
  · exact .bind (Q := fun _ _ => True) (.ofExcept fun _ _ _ h => h) fun amount =>
      .bind (Q := fun _ _ => True) (.write (H := fun _ => True) (fun c hc =>
        ⟨hrelease _ _ amount hc.inv hbuilt.orderId, trivial⟩) (.pure fun _ h => h)) fun _ => .raise
  · exact .raise

/-! ### Decisions -/

section Decisions

variable {caller : Caller} {actionId : Uuid} {N : ActionRequest → ServiceCase → Prop}

theorem Triple.report (hI : Writable I A r) (e : NewEvent) {id : Uuid} {u : String} {v : ℕ}
    {values : CaseValues} {response : Response} :
    Triple I A D r (fun _ => True) (do
      let _ ← AfterFlow.appendEvent cfg.rt e
      let _ ← AfterFlow.updateCase id u v values
      return response) fun _ _ => True :=
  .bind (.appendEvent hI.toUnnoticed e) fun _ => .bind (.writeCase hI) fun _ => .pure fun _ h => h

/-- `approve`. `N` is what its two reads give for a pending refund. -/
theorem Triple.approve (hI : Writable I A r) (body : ApprovalRequest)
    (hN : ∀ actor a case c, Admitted I A r caller actionId actor a case c →
      a.status = .pendingApproval → a.actionType = .refund → N a case)
    (hreserve : ∀ w (a b : ActionRequest) case amount, I w → N a case → b.payload = a.payload →
      I (w.reserve b case.orderId amount).2)
    (hrelease : ∀ w (a b : ActionRequest) case amount, I w → N a case → b.payload = a.payload →
      I (w.release b case.orderId amount)) :
    Triple I A D r (fun c => c.answers = []) (AfterFlow.approve cfg caller actionId body)
      fun _ _ => True := by
  refine .bind ((Triple.adminAction hI.toUnnoticed caller actionId).post fun x c h =>
    (⟨h.seen, hN x.1 x.2.1 x.2.2 c h⟩ : Known (Seen x.2.1) c ∧ (x.2.1.status = .pendingApproval →
      x.2.1.actionType = .refund → N x.2.1 x.2.2))) ?_
  rintro ⟨actor, a, case⟩
  refine .given fun hpend => .bind (Q := fun _ _ => True) (.tryCatch ?_ fun e =>
    .raiseActionError e) fun updated => .report hI _
  refine .bind (Q := fun _ => Known (Seen a)) ?_ fun _ => .bind (Q := fun _ => Known (Seen a))
    (.read fun _ => .pure fun _ h => h.1) fun now => ?_
  · rw [checkFunds]
    split
    · exact .bind (Q := fun _ => Known (Seen a)) (.ofExcept fun _ _ _ h => h) fun amount =>
        .read fun w => .bind (Q := fun _ => Known (Seen a)) (.pure fun _ h => h.1) fun _ =>
          .ofExcept fun _ _ _ h => h
    · exact .pure fun _ h => h
  refine .bind (Q := fun updated c => Known (Seen a) c ∧
    approveAction a actor.id [actor.role] body.expectedVersion now body.comment = .ok updated)
    (.ofExcept fun updated hok c hc => ⟨hc, hok⟩) fun updated => .given fun hok => ?_
  obtain ⟨hpending, hv, htime, hrole, hmaker, hnew, rfl⟩ := approveAction_ok hok
  refine .bind (Q := fun _ => Known (Seen a)) (.write (H := Known (Seen a))
    (fun c hc => ⟨hI.records _ _ _ hc.inv, hc.facts⟩) (.pure fun _ h => h)) fun _ => ?_
  let updated : Bool → ActionRequest := fun flag => { a with
    status := if (a.approverIds ++ [actor.id]).length ≥ a.approversRequired then .approved
      else .pendingApproval
    approvedBy := some actor.id, approvedAt := some now, comment := body.comment
    approverIds := a.approverIds ++ [actor.id], version := a.version + 1, reserved := flag }
  refine .bind (Q := fun a' c => Known (Seen a) c ∧ ∃ flag, a' = updated flag) ?_ fun a' => .given ?_
  · rw [authorize]
    split
    · rename_i hcond
      refine .bind (Q := fun _ => Known (Seen a)) (.ofExcept fun _ _ _ h => h) fun amount => ?_
      refine .bind (Q := fun _ => Known (Seen a)) (.update fun c hc =>
        ⟨hreserve _ a _ case amount hc.inv (hpend hpending hcond.1) rfl, hc.facts⟩) fun reserved => ?_
      split
      · exact .pure fun _ h => ⟨h, true, rfl⟩
      · exact .raise
    · exact .pure fun _ h => ⟨h, a.reserved, rfl⟩
  rintro ⟨flag, rfl⟩
  refine .tryCatch ((Triple.writeAction hI a hv (Transition.sign (h := ⟨[], [_], []⟩) actor.id now
    body.comment flag hpending hnew hmaker htime (mem_singleton.mpr rfl))).post
      fun _ _ _ => trivial) fun e => ?_
  dsimp only
  split
  · rename_i hcond
    exact .bind (Q := fun _ _ => True) (.ofExcept fun _ _ _ h => h) fun amount =>
      .bind (Q := fun _ _ => True) (.write (H := fun _ => True) (fun c hc =>
        ⟨hrelease _ a _ case amount hc.inv (hpend hpending hcond.1) rfl, trivial⟩)
          (.pure fun _ h => h)) fun _ => .raise
  · exact .raise

/-- `reject`. -/
theorem Triple.reject (hI : Writable I A r) (body : RejectionRequest)
    (hN : ∀ actor a case c, Admitted I A r caller actionId actor a case c →
      a.status = .pendingApproval → a.actionType = .refund → N a case)
    (hrelease : ∀ w (a b : ActionRequest) case amount, I w → N a case → b.payload = a.payload →
      I (w.release b case.orderId amount)) :
    Triple I A D r (fun c => c.answers = []) (AfterFlow.reject cfg caller actionId body)
      fun _ _ => True := by
  refine .bind ((Triple.adminAction hI.toUnnoticed caller actionId).post fun x c h =>
    (⟨h.seen, hN x.1 x.2.1 x.2.2 c h⟩ : Known (Seen x.2.1) c ∧ (x.2.1.status = .pendingApproval →
      x.2.1.actionType = .refund → N x.2.1 x.2.2))) ?_
  rintro ⟨actor, a, case⟩
  refine .given fun hpend => .bind (Q := fun _ _ => True) (.tryCatch ?_ fun e =>
    .raiseActionError e) fun updated => .report hI _
  refine .bind (Q := fun _ => Known (Seen a)) (.read fun _ => .pure fun _ h => h.1) fun now =>
    .bind (Q := fun updated c => Known (Seen a) c ∧ rejectAction cfg.rt a actor.id [actor.role]
      body.expectedVersion body.comment now = .ok updated)
      (.ofExcept fun updated hok c hc => ⟨hc, hok⟩) fun updated => .given fun hok => ?_
  obtain ⟨hpending, hv, -, rfl⟩ := rejectAction_ok hok
  have hact : a.isActive := by simp [ActionRequest.isActive, hpending, ActionStatus.isActive]
  let updated : Bool → ActionRequest := fun flag => { a with
    status := .rejected, approvedBy := some actor.id, approvedAt := some now
    comment := some (cfg.rt.strip body.comment), version := a.version + 1, reserved := flag }
  refine .bind (Q := fun a' c => Known (Seen a) c ∧ ∃ flag, a' = updated flag) ?_ fun a' => .given ?_
  · rw [unauthorize]
    split
    · rename_i hcond
      exact .bind (Q := fun _ => Known (Seen a)) (.ofExcept fun _ _ _ h => h) fun amount =>
        .bind (Q := fun _ => Known (Seen a)) (.write (H := Known (Seen a)) (fun c hc =>
          ⟨hrelease _ a _ case amount hc.inv (hpend hpending hcond.1) rfl, hc.facts⟩)
            (.pure fun _ h => h)) fun _ => .pure fun _ h => ⟨h, false, rfl⟩
    · exact .pure fun _ h => ⟨h, a.reserved, rfl⟩
  rintro ⟨flag, rfl⟩
  exact (Triple.writeAction hI a hv (.reject (h := ⟨[], [], []⟩) _ _ _ flag (.inl hact))).post
    fun _ _ _ => trivial

theorem Triple.execute (hI : Writable I A r) (body : ExecutionRequest)
    (hresend : ∀ w reverse, I w → I { w with reverse })
    (hrefund : ∀ actor a case c, Kept I (Admitted I A r caller actionId actor a case) c →
      a.actionType = .refund → I { c.now with refunds := (executeApprovedAction cfg.rt a body.payload
        body.expectedVersion (c.now.refunds.reservedOf case.orderId) c.now.refunds c.now.now).2 }) :
    Triple I A D r (fun c => c.answers = []) (AfterFlow.execute cfg caller actionId body)
      fun _ _ => True := by
  refine .bind (Triple.adminAction hI.toUnnoticed caller actionId) ?_
  rintro ⟨actor, a, case⟩
  refine .bind (Q := fun _ _ => True) (.tryCatch ?_ fun e => .raiseActionError e) fun updated =>
    .bind (.appendEvent hI.toUnnoticed _) fun _ => .pure fun _ h => h
  have hperform : Triple I A D r (Admitted I A r caller actionId actor a case)
      (AfterFlow.performAction cfg a case.orderId body.payload body.expectedVersion)
      fun updated _ => a.version = body.expectedVersion ∧ ∀ h, Transition h a updated :=
    .performAction a case.orderId body.payload body.expectedVersion hresend
      fun c hc hr => hrefund actor a case c hc hr
  refine .bind ((hperform.frame (Known.lasting (P := Seen a))).pre fun c hc => ⟨hc, hc.seen⟩)
    fun updated c hc => ?_
  obtain ⟨⟨hv, ht⟩, hk⟩ := hc.facts
  exact (Triple.bind (Triple.writeAction hI a hv (ht ⟨[], [], []⟩)) fun saved =>
    .bind (Triple.writeCase hI) fun _ => .pure fun _ _ => trivial) c (hc.imp fun _ => hk)

end Decisions

end AfterFlow
