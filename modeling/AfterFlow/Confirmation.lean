import AfterFlow.Openings

/-!
# Where a human confirmation comes from

A claim about a damaged or wrong item is decided only once a human has confirmed the pictures, and
only the form of the case can say so: the agent's tools have no such argument. The confirmation is
kept in the evidence document and carried from revision to revision, together with the damage level
and the serial check. The supplement that carries it may give the case another order or another
issue, and then the confirmation of one parcel decides the claim about another.

A history here is a sequence of calls, each run to its end before the next begins.

## Main results

* `supplement_effect`, `intake_effect` — what a call does to the table of cases
* `confirmation_not_transplanted` — the facts a decided case rests on were given for its claim
* `confirmation_transplanted` — a confirmation that decides another claim
-/

namespace AfterFlow

open Coop List Option

/-! ### Coroutines that leave the cases alone -/

/-- Run alone, the coroutine leaves the table of cases as it is. -/
def SparesCases {α : Type} (p : Proc α) : Prop :=
  ∀ w, (runAlone database p w).2.db.cases = w.db.cases

namespace SparesCases

variable {α β : Type} {p : Proc α}

theorem bind {f : α → Proc β} (hp : SparesCases p) (hf : ∀ a, SparesCases (f a)) :
    SparesCases (p.bind f) := by
  intro w
  refine runAlone_bind_after database (Q := fun w' => w'.db.cases = w.db.cases) (fun e w' h => ?_)
    fun a w' h => ?_
  · exact (congrArg (fun r => r.2.db.cases) h).symm.trans (hp w)
  · exact (hf a w').trans ((congrArg (fun r => r.2.db.cases) h).symm.trans (hp w))

theorem session (hp : SparesCases p) : SparesCases (AfterFlow.session p) := by
  intro w
  rw [runAlone_session]
  exact hp w

theorem andThen {f : α → Proc β} {w : World}
    {Q : Keyed.Table Uuid ServiceCase ServiceCase.id → Prop} (hp : SparesCases p)
    (hf : ∀ a w', w'.db.cases = w.db.cases → Q (runAlone database (f a) w').2.db.cases)
    (hw : Q w.db.cases) : Q (runAlone database (p.bind f) w).2.db.cases := by
  have hcases := hp w
  refine runAlone_bind_after database (Q := fun w' => Q w'.db.cases) (fun e w' h => ?_) fun a w' h => ?_
  · rw [h] at hcases
    exact hcases ▸ hw
  · rw [h] at hcases
    exact hf a w' hcases

theorem after {f : α → Proc β} (hf : ∀ a, SparesCases (f a)) (w : World) :
    (runAlone database (p.bind f) w).2.db.cases = (runAlone database p w).2.db.cases := by
  refine runAlone_bind_after database (Q := fun w' => w'.db.cases = _) (fun e w' h => ?_) fun a w' h => ?_
  · rw [h]
  · rw [h]
    exact hf a w'

theorem ofExcept (x : Except Exn α) : SparesCases (Coro.ofExcept x) := by
  intro w
  rw [runAlone_ofExcept]

theorem of_quiet (h : ∀ w, IsQuiet p w) : SparesCases p := by
  intro w
  refine runAlone_quiet database (Q := fun w' => w'.db.cases = w.db.cases) (fun op s hop hs => ?_)
    (fun s s' hw hs => ?_) (h w) rfl
  · obtain ⟨events, he⟩ := quiet_answer hop .ok s
    exact (congrArg (fun w' => w'.db.cases) he).trans hs
  · rw [hw]
    exact hs

theorem forEach {l : List β} {body : β → Proc Unit} (h : ∀ a, SparesCases (body a)) :
    SparesCases (Coro.forEach l body) := by
  induction l with
  | nil => exact fun _ => rfl
  | cons a l ih => exact (h a).bind fun _ => ih

end SparesCases

theorem getCase_alone (id : Uuid) (u : Option String) (w : World) :
    runAlone database (getCase id u) w = (.ok (w.db.getCase id u), w) := by
  rw [getCase, runAlone_session, runAlone_call]
  rfl

theorem saveAction_spares (a : ActionRequest) (u : Option String) (v : ℕ) :
    SparesCases (saveAction a u v) := by
  have hupdate : SparesCases (await (.updateAction a u v)) := by
    intro w
    rw [runAlone_call, perform_database, Op.perform, World.exec]
    dsimp only
    rw [Database.updateAction]
    split
    · rfl
    · split
      · rfl
      · split <;> rfl
  have hget : SparesCases (getAction a.id u) := by
    intro w
    rw [getAction, runAlone_session, runAlone_call]
    rfl
  refine SparesCases.bind (SparesCases.session (hupdate.bind fun n => ?_)) fun _ => hget.bind fun r => ?_
  · split <;> exact fun _ => rfl
  · cases r <;> exact fun _ => rfl

theorem invalidateActiveActions_spares (id : Uuid) (u reason : String) :
    SparesCases (invalidateActiveActions id u reason) := by
  have hlist : SparesCases (listCaseActions id u) := by
    intro w
    rw [listCaseActions, runAlone_session, runAlone_call]
    rfl
  refine hlist.bind fun actions => ?_
  induction actions with
  | nil => exact fun _ => rfl
  | cons a actions ih =>
    rw [invalidateLoop]
    split
    · exact (saveAction_spares _ _ _).bind fun _ => ih.bind fun _ _ => rfl
    · exact ih

theorem releaseInvalidated_spares (orderId : OrderId) (u : String) (a : ActionRequest) :
    SparesCases (releaseInvalidated orderId u a) := by
  rw [releaseInvalidated]
  split
  · refine (SparesCases.ofExcept _).bind fun amount => ?_
    have hrelease : SparesCases (release a orderId amount) := fun _ => rfl
    exact hrelease.bind fun _ => (saveAction_spares _ _ _).bind fun _ _ => rfl
  · exact fun _ => rfl

/-! ### What a call does to the cases -/

theorem updateCase_effect {w : World} {case : ServiceCase} {u : String} (values : CaseValues)
    (h : w.db.getCase case.id (some u) = some case) :
    (runAlone database (updateCase case.id u case.version values) w).2.db.cases =
      w.db.cases.put (values.apply case (case.version + 1)) := by
  have hupdate : w.db.updateCase case.id u case.version values =
      (.ok 1, { w.db with cases := w.db.cases.put (values.apply case (case.version + 1)) }) := by
    simp [Database.updateCase, h]
  have hput : (runAlone database (session do
      let rowcount ← await (.updateCase case.id u case.version values)
      if rowcount ≠ 1 then .raise (.concurrentAction "case version conflict")) w) =
      (.ok (), { w with db := { w.db with
        cases := w.db.cases.put (values.apply case (case.version + 1)) } }) := by
    simp [Op.perform, World.exec, hupdate]
  rw [updateCase]
  simp only [Coro.bind_def, runAlone_bind]
  erw [hput]
  rw [thenAlone_ok, runAlone_bind, getCase_alone, thenAlone_ok]
  split <;> rfl

/-- A supplement either leaves the cases alone, or replaces the case it read by its evaluation. -/
theorem supplement_effect (cfg : Config) (s : Supplement) {case : ServiceCase} {w : World}
    (hcase : w.db.getCase case.id (some s.actorId) = some case) :
    (runAlone database (continueIntakeCase cfg s case) w).2.db.cases = w.db.cases ∨
    ∃ evaluated, evaluateIntake cfg.rt cfg.providers w.now (s.input case) = .ok evaluated ∧
      (runAlone database (continueIntakeCase cfg s case) w).2.db.cases = w.db.cases.put
        ((supplementValues (s.input case) evaluated).apply case (case.version + 1)) := by
  rw [continueIntakeCase]
  simp only [Coro.bind_def, runAlone_bind, utcNow, runAlone_read, runAlone_pure, thenAlone_ok,
    runAlone_ofExcept]
  cases heval : evaluateIntake cfg.rt cfg.providers w.now (s.input case) with
  | error e => exact .inl rfl
  | ok evaluated =>
    rw [thenAlone_ok]
    refine (invalidateActiveActions_spares _ _ _).andThen
      (Q := fun cases => cases = w.db.cases ∨ ∃ evaluated', Except.ok evaluated = .ok evaluated' ∧
        cases = w.db.cases.put
          ((supplementValues (s.input case) evaluated').apply case (case.version + 1)))
      (fun invalidated w₁ h₁ => ?_) (.inl rfl)
    refine (SparesCases.forEach (releaseInvalidated_spares _ _)).andThen
      (Q := fun cases => cases = w.db.cases ∨ ∃ evaluated', Except.ok evaluated = .ok evaluated' ∧
        cases = w.db.cases.put
          ((supplementValues (s.input case) evaluated').apply case (case.version + 1)))
      (fun _ w₂ h₂ => ?_) (.inl h₁)
    have hcases : w₂.db.cases = w.db.cases := h₂.trans h₁
    have hread : w₂.db.getCase case.id (some s.actorId) = some case := by
      rwa [Database.getCase, hcases]
    right
    refine ⟨evaluated, rfl, ?_⟩
    rw [← hcases, ← updateCase_effect (supplementValues (s.input case) evaluated) hread]
    exact SparesCases.after (fun case => (SparesCases.of_quiet (appendEvent_quiet _ _)).bind fun _ =>
      (SparesCases.of_quiet (appendEvent_quiet _ _)).bind fun _ _ => rfl) w₂

theorem createCase_effect (row : Uuid → ServiceCase) (w : World) :
    (runAlone database (createCase row) w).2.db.cases = w.db.cases ∨
    ∃ h, (runAlone database (createCase row) w).2.db.cases = w.db.cases.insert (row w.uuids) h := by
  simp only [createCase, Coro.bind_def, runAlone_bind, uuid4, runAlone_update, thenAlone_ok,
    runAlone_session, runAlone_call, perform_database, Op.perform, World.exec]
  rw [Database.insertCase]
  split
  · rename_i hid
    refine .inr ⟨hid, ?_⟩
    rw [thenAlone_ok, runAlone_call]
    rfl
  · exact .inl rfl

/-- What the intake passes to the evaluation. -/
def NewIntake.input (cfg : Config) (n : NewIntake) : IntakeInput :=
  let fields := n.resolve cfg.rt
  { complaintText := n.complaintText
    orderId := fields.orderId
    issueType := fields.issueType
    customerExpectation := fields.customerExpectation
    operatorRefundLimit := resolveOperatorRefundLimit n.userRole }

/-- The row an intake inserts. -/
structure TakenIn (cfg : Config) (n : NewIntake) (evaluated : Evaluation) (row : ServiceCase) : Prop where
  status : row.status = evaluated.status
  decision : row.decisionJson = evaluated.decision
  issueType : row.issueType = (n.input cfg).issueType
  context : row.evidenceJson.context = evaluated.evidence.context
  intake : row.evidenceJson.intake = evaluated.evidence.intake.map fun i =>
    { i with structuredSource := some n.structuredSource.value }

/-- An intake leaves the cases alone or inserts its evaluation. -/
theorem intake_effect (cfg : Config) (n : NewIntake) (w : World) :
    (runAlone database (createIntakeCase cfg n) w).2.db.cases = w.db.cases ∨
    ∃ evaluated row h, evaluateIntake cfg.rt cfg.providers w.now (n.input cfg) = .ok evaluated ∧
      TakenIn cfg n evaluated row ∧
      (runAlone database (createIntakeCase cfg n) w).2.db.cases = w.db.cases.insert row h := by
  rw [createIntakeCase]
  simp only [Coro.bind_def, runAlone_bind, utcNow, runAlone_read, runAlone_pure, thenAlone_ok,
    runAlone_ofExcept]
  cases heval : evaluateIntake cfg.rt cfg.providers w.now (n.input cfg) with
  | error e =>
    left
    erw [heval]
    rfl
  | ok evaluated =>
    erw [heval]
    rw [thenAlone_ok]
    have hcreate := createCase_effect (fun id =>
      { id
        userId := n.userId
        threadId := n.threadId
        orderId := (n.input cfg).orderId
        issueType := (n.input cfg).issueType
        status := evaluated.status
        complaintText := n.complaintText
        customerExpectation := (n.input cfg).customerExpectation
        nextStep := evaluated.nextStep
        replyDraft := evaluated.replyDraft
        evidenceJson := { evaluated.evidence with
          intake := evaluated.evidence.intake.map fun i =>
            { i with structuredSource := some n.structuredSource.value } }
        decisionJson := evaluated.decision }) w
    erw [SparesCases.after]
    · obtain hsame | ⟨h, hc⟩ := hcreate
      · exact .inl hsame
      · exact .inr ⟨evaluated, _, h, rfl, ⟨rfl, rfl, rfl, rfl, rfl⟩, hc⟩
    · refine fun case => (SparesCases.of_quiet (appendEvent_quiet _ _)).bind fun _ => ?_
      split
      · exact (SparesCases.of_quiet (appendEvent_quiet _ _)).bind fun _ _ => rfl
      · exact fun _ => rfl

/-! ### What an evaluation asks for -/

/-- The claim is one that pictures have to confirm: it went the reverse route, or it is about a
damaged or wrong item and policy covers it. -/
@[grind =] def needsPicture (issueType : Option String) (context : Option ProviderContext)
    (decision : CaseDecision) : Bool :=
  match decision with
  | .empty => false
  | .reverse _ => true
  | .refund _ => context.any fun raw => [IssueType.damagedItem, .wrongItem].any fun issue =>
      issueType = some issue.value ∧ issue ∈ raw.policy.coveredIssues

/-- The issue is one that pictures may have to confirm. -/
def isReverseIssue (issueType : Option String) : Bool :=
  reverseIssues.any fun issue => issueType = some issue.value

theorem parseIssueType_ok {s : String} {issue : IssueType} (h : parseIssueType s = .ok issue) :
    issue.value = s := by
  rw [parseIssueType] at h
  split at h
  · rename_i found hfound
    cases h
    simpa using find?_some hfound
  · cases h

theorem buildContext_ok {providers : Providers} {state : CaseEvalInput} {case : DecisionInput}
    {raw : ProviderContext} (h : buildContext providers state = .ok (.inr (case, raw))) :
    case.issueType.value = state.issueType ∧ raw.policy = case.policy ∧
      case.visualEvidenceConfirmed = state.visualEvidenceConfirmed := by
  rw [buildContext] at h
  split at h
  · cases h
  · cases h
  · split at h
    · cases h
    · cases hissue : parseIssueType state.issueType with
      | error e => simp [hissue, bind, Except.bind] at h
      | ok issue =>
        simp only [hissue, bind, Except.bind, Except.ok.injEq, Sum.inr.injEq, Prod.mk.injEq] at h
        obtain ⟨rfl, rfl⟩ := h
        exact ⟨parseIssueType_ok hissue, rfl, rfl⟩

theorem refund_of_run {rt : Runtime} {providers : Providers} {state : CaseEvalInput}
    {raw : ProviderContext} {d : DecisionResult}
    (h : runCaseEvaluation rt providers state = .ok (.refund raw d)) :
    ∃ case, buildContext providers state = .ok (.inr (case, raw)) ∧ d = decideResolution case := by
  rw [runCaseEvaluation] at h
  cases hb : buildContext providers state with
  | error => cases hb ▸ h
  | ok found =>
    rw [hb] at h
    obtain _ | ⟨case, evidence⟩ := found
    · cases h
    simp only [bind, Except.bind] at h
    split at h
    · split at h
      · rw [decideReverse] at h
        split at h <;> cases h
      · cases h
        exact ⟨case, rfl, rfl⟩
    · cases h
      exact ⟨case, rfl, rfl⟩

theorem reverse_of_run {rt : Runtime} {providers : Providers} {state : CaseEvalInput}
    {raw : ProviderContext} {r : ReverseDecision}
    (h : runCaseEvaluation rt providers state = .ok (.reverse raw r)) :
    ∃ case input, buildContext providers state = .ok (.inr (case, raw)) ∧
      r = decideReverseFulfillment rt input ∧ input.issueType = case.issueType ∧
      case.issueType ∈ reverseIssues ∧
      input.visualEvidence.map VisualEvidence.humanConfirmed =
        some (state.humanConfirmed.getD false) := by
  rw [runCaseEvaluation] at h
  cases hb : buildContext providers state with
  | error => cases hb ▸ h
  | ok found =>
    rw [hb] at h
    obtain _ | ⟨case, evidence⟩ := found
    · cases h
    simp only [bind, Except.bind] at h
    split at h
    · split at h
      · rename_i hissue
        rw [decideReverse] at h
        split at h
        · cases h
          exact ⟨case, _, rfl, rfl, rfl, hissue, rfl⟩
        · cases h
      · cases h
    · cases h

theorem reverse_missing {rt : Runtime} {input : ReverseInput}
    (hissue : input.issueType ∈ reverseIssues)
    (hv : input.visualEvidence.map VisualEvidence.humanConfirmed = some false) :
    (decideReverseFulfillment rt input).missingEvidence ≠ [] := by
  obtain ⟨v, hvis, hconf⟩ := map_eq_some_iff.mp hv
  have hissue' : input.issueType ∈ [IssueType.damagedItem, .wrongItem, .qualityIssue] := hissue
  simp [decideReverseFulfillment, hissue', hvis, hconf]

theorem refund_missing {case : DecisionInput} (hissue : case.issueType ∈ [IssueType.damagedItem, .wrongItem])
    (hcov : case.issueType ∈ case.policy.coveredIssues) (hv : case.visualEvidenceConfirmed = false) :
    (decideResolution case).missingEvidence ≠ [] := by
  have hne : case.issueType ≠ .deliveryNotReceived := by
    rintro h
    rw [h] at hissue
    simp at hissue
  have hmissing : missingEvidence case = ["visual_evidence"] := by
    simp [missingEvidence, hne, hissue, hv]
  simp [decideResolution, hcov, hmissing, manualDecision]

/-- What the graph was asked, and what the evaluation made of its answer. -/
structure Evaluates (rt : Runtime) (providers : Providers) (i : IntakeInput) (evaluated : Evaluation)
    (raw : ProviderContext) (result : CaseEvaluation) (missing : List String) : Prop where
  run : ∃ state, runCaseEvaluation rt providers state = .ok result ∧
    some state.issueType = i.issueType ∧ state.visualEvidenceConfirmed = i.visualEvidenceConfirmed ∧
    state.humanConfirmed = some i.visualEvidenceConfirmed
  context : evaluated.evidence.context = some raw
  complete : evaluated.status = .decided → missing = []

/-- An evaluation keeps its input in the intake record, and is a clarification, a reverse decision
or a refund decision. -/
theorem evaluateIntake_cases {rt : Runtime} {providers : Providers} {now : Instant} {i : IntakeInput}
    {evaluated : Evaluation} (h : evaluateIntake rt providers now i = .ok evaluated) :
    evaluated.evidence.intake = some i.record ∧
    (evaluated.decision = .empty ∨
    (∃ raw r, evaluated.decision = .reverse r ∧
      Evaluates rt providers i evaluated raw (.reverse raw r) r.missingEvidence) ∨
    ∃ raw d, evaluated.decision = .refund d ∧
      Evaluates rt providers i evaluated raw (.refund raw d) d.missingEvidence) := by
  rw [evaluateIntake] at h
  dsimp only at h
  split at h
  · cases h
    exact ⟨rfl, .inl rfl⟩
  · rename_i hmissing
    obtain ⟨issueType, hissue⟩ : ∃ s, i.issueType = some s := by
      cases hi : i.issueType with
      | some s => exact ⟨s, rfl⟩
      | none => simp [hi, truthy] at hmissing
    simp only [bind, Except.bind] at h
    split at h
    · cases h
    · rename_i state hrun
      rw [hissue, getD_some] at hrun h
      split at h
      · cases h
        exact ⟨rfl, .inl rfl⟩
      · rename_i raw r
        split at h
        · cases h
        · cases h
          refine ⟨rfl, .inr (.inl ⟨raw, r, rfl, ⟨_, hrun, hissue.symm, rfl, rfl⟩, rfl, fun hst => ?_⟩)⟩
          by_contra hne
          simp [hne] at hst
      · rename_i raw d
        split at h
        · cases h
        · cases h
          refine ⟨rfl, .inr (.inr ⟨raw, d, rfl, ⟨_, hrun, hissue.symm, rfl, rfl⟩, rfl, fun hst => ?_⟩)⟩
          by_contra hne
          simp [hne] at hst

/-- A claim that pictures have to confirm is decided on a confirmation only, and is about one of the
issues of the reverse route. -/
theorem decided_confirmed {rt : Runtime} {providers : Providers} {now : Instant} {i : IntakeInput}
    {evaluated : Evaluation} (h : evaluateIntake rt providers now i = .ok evaluated)
    (hst : evaluated.status = .decided)
    (hneeds : needsPicture i.issueType evaluated.evidence.context evaluated.decision = true) :
    i.visualEvidenceConfirmed = true ∧ isReverseIssue i.issueType = true := by
  rcases (evaluateIntake_cases h).2 with hd | ⟨raw, r, hd, hE⟩ | ⟨raw, d, hd, hE⟩
  · rw [hd] at hneeds
    cases hneeds
  · obtain ⟨state, hrun, hi, -, hconf⟩ := hE.run
    obtain ⟨case, input, hcase, rfl, hissue, hmem, hvis⟩ := reverse_of_run hrun
    rw [hconf, getD_some] at hvis
    have hval := (buildContext_ok hcase).1
    constructor
    · by_contra hv
      rw [Bool.not_eq_true] at hv
      exact reverse_missing (hissue ▸ hmem) (hv ▸ hvis) (hE.complete hst)
    · rw [isReverseIssue, List.any_eq_true]
      exact ⟨case.issueType, hmem, by rw [← hi, hval, decide_eq_true_eq]⟩
  · obtain ⟨state, hrun, hi, hconf, -⟩ := hE.run
    obtain ⟨case, hcase, rfl⟩ := refund_of_run hrun
    obtain ⟨hval, hpolicy, hvis⟩ := buildContext_ok hcase
    rw [hd, hE.context, needsPicture, Option.any_some, List.any_eq_true] at hneeds
    obtain ⟨issue, hmem, hneeds⟩ := hneeds
    rw [decide_eq_true_eq, ← hi, Option.some.injEq, ← hval, value_inj, hpolicy] at hneeds
    obtain ⟨rfl, hcov⟩ := hneeds
    constructor
    · by_contra hv
      rw [Bool.not_eq_true, ← hconf, ← hvis] at hv
      exact refund_missing hmem hcov hv (hE.complete hst)
    · rw [isReverseIssue, List.any_eq_true]
      refine ⟨case.issueType, ?_, by rw [← hi, hval, decide_eq_true_eq]⟩
      simp only [List.mem_cons, List.not_mem_nil, or_false] at hmem
      rcases hmem with h | h <;> simp [reverseIssues, h]

/-! ### Histories -/

/-- The arguments of the agent's `update_after_sales_case`. -/
structure AgentUpdate where
  userId : String
  userRole : Option SystemRole
  note : String
  complaintText : Option String := none
  orderId : Option String := none
  issueType : Option String := none
  customerExpectation : Option String := none
  runId : Option String := none
  traceId : Option String := none

def AgentUpdate.supplement (u : AgentUpdate) : Supplement :=
  { actorId := u.userId
    userRole := u.userRole
    note := u.note
    complaintText := u.complaintText
    orderId := u.orderId
    issueType := u.issueType
    customerExpectation := u.customerExpectation
    runId := u.runId
    traceId := u.traceId }

/-- The calls of a history: intake and supplement from the form, `create_after_sales_case` and
`update_after_sales_case` from the agent. -/
inductive CaseCall where
  | intake (caller : Caller) (body : CaseIntakeRequest)
  | supplement (caller : Caller) (caseId : Uuid) (body : CaseSupplementRequest)
  | agentCreate (n : NewIntake)
  | agentUpdate (caseId : Uuid) (u : AgentUpdate)

namespace CaseCall

@[grind =] def request : CaseCall → Request
  | intake caller body => .intakeCase caller body
  | supplement caller caseId body => .supplementCase caller caseId body
  | agentCreate n => .createIntakeCase { n with structuredSource := .model }
  | agentUpdate caseId u => .continueIntakeCase caseId u.supplement

/-- The world after the call. -/
def play (cfg : Config) (call : CaseCall) (w : World) : World :=
  (runAlone database (handler cfg call.request) w).2

/-- The case the call supplements, and with what. -/
@[grind =] def supplements : CaseCall → Option (Uuid × Supplement)
  | supplement caller caseId body =>
    caller.user.map fun actor => (caseId, body.supplement actor caller)
  | agentUpdate caseId u => some (caseId, u.supplement)
  | _ => none

end CaseCall

/-- A finished call, and the world around it. -/
structure Entry where
  call : CaseCall
  before : World
  after : World

/-- The histories from a world, and the worlds they lead to. -/
inductive Played (cfg : Config) (w₀ : World) : List Entry → World → Prop
  | nil : Played cfg w₀ [] w₀
  | snoc {log : List Entry} {w : World} (h : Played cfg w₀ log w) (call : CaseCall) :
    Played cfg w₀ (log ++ [⟨call, w, call.play cfg w⟩]) (call.play cfg w)
  | wait {log : List Entry} {w : World} (h : Played cfg w₀ log w) (microseconds : ℕ) :
    Played cfg w₀ log { w with now := w.now + microseconds }

/-! ### The facts of a case -/

/-- The facts a case carries from revision to revision. -/
def ServiceCase.confirmed (c : ServiceCase) : Bool :=
  (c.evidenceJson.intake.map IntakeRecord.visualEvidenceConfirmed).getD false

def ServiceCase.damageLevel (c : ServiceCase) : Option DamageLevel :=
  c.evidenceJson.intake.bind IntakeRecord.damageLevel

def ServiceCase.serialMatches (c : ServiceCase) : Option Bool :=
  c.evidenceJson.intake.bind IntakeRecord.serialMatches

/-- The case is decided on a claim that pictures have to confirm. -/
def ServiceCase.DecidedOnPictures (c : ServiceCase) : Prop :=
  c.status = .decided ∧ needsPicture c.issueType c.evidenceJson.context c.decisionJson = true

/-- The call revised the case. -/
def Entry.Revises (e : Entry) (id : Uuid) (c c' : ServiceCase) : Prop :=
  e.before.db.cases.find? id = some c ∧ e.after.db.cases.find? id = some c' ∧
    c'.version = c.version + 1

/-- A supplement from the form that meets `P` revised the case to `c`. -/
def Entry.Supplies (e : Entry) (P : CaseSupplementRequest → Prop) (c' : ServiceCase) : Prop :=
  ∃ caller body c, e.call = .supplement caller c'.id body ∧ P body ∧ e.Revises c'.id c c'

/-- A supplement from the form confirmed the pictures of the case while it was about this order and
issue, and no later one withdrew that. -/
def ClaimConfirmed (log : List Entry) (id : Uuid) (orderId : OrderId) (issueType : Option String) :
    Prop :=
  ∃ l₁ e l₂, log = l₁ ++ e :: l₂ ∧
    (∃ c, c.id = id ∧ c.orderId = orderId ∧ c.issueType = issueType ∧
      e.Supplies (fun body => body.visualEvidenceConfirmed = some true) c) ∧
    ∀ e' ∈ l₂, ∀ c, c.id = id →
      ¬ e'.Supplies (fun body => body.visualEvidenceConfirmed = some false) c

/-- A supplement from the form that meets `P` was given while the case was about this order. -/
def GivenFor (log : List Entry) (id : Uuid) (orderId : OrderId) (P : CaseSupplementRequest → Prop) :
    Prop :=
  ∃ e ∈ log, ∃ c, c.id = id ∧ c.orderId = orderId ∧ e.Supplies P c

/-- The facts of the case were given for its claim. -/
structure Founded (log : List Entry) (c : ServiceCase) : Prop where
  confirmed : c.confirmed = true → isReverseIssue c.issueType = true →
    ClaimConfirmed log c.id c.orderId c.issueType
  damageLevel : ∀ level, c.damageLevel = some level →
    GivenFor log c.id c.orderId fun body => body.damageLevel = some level
  serialMatches : ∀ value, c.serialMatches = some value →
    GivenFor log c.id c.orderId fun body => body.serialMatches = some value

/-- A supplement does not carry a confirmation to another order or issue that pictures may have to
confirm, nor a damage level or a serial check to another order. -/
def Entry.KeepsToClaim (e : Entry) : Prop :=
  ∀ p ∈ e.call.supplements, ∀ c ∈ e.before.db.cases.find? p.1,
    ((p.2.input c).orderId ≠ c.orderId ∨ (p.2.input c).issueType ≠ c.issueType →
      isReverseIssue (p.2.input c).issueType = true → p.2.visualEvidenceConfirmed = none →
      c.confirmed = false) ∧
    ((p.2.input c).orderId ≠ c.orderId →
      (p.2.damageLevel = none → c.damageLevel = none) ∧
      (p.2.serialMatches = none → c.serialMatches = none))

instance (e : Entry) : Decidable e.KeepsToClaim :=
  inferInstanceAs (Decidable (∀ p ∈ e.call.supplements, ∀ c ∈ e.before.db.cases.find? p.1, _))

instance (c : ServiceCase) : Decidable c.DecidedOnPictures :=
  inferInstanceAs (Decidable (_ ∧ _))

/-! ### One call -/

/-- Read a case, supplement it, and go on without touching a case. -/
theorem readThenSupplement_effect {α : Type} (cfg : Config) (s : Supplement) (caseId : Uuid)
    {f : ServiceCase → Proc α} (hf : ∀ c, SparesCases (f c)) (w : World) :
    let w' := (runAlone database (do
      let case ← orNotFound "Case" (← getCase caseId (some s.actorId))
      let case ← continueIntakeCase cfg s case
      f case) w).2
    w'.db.cases = w.db.cases ∨ ∃ c evaluated, w.db.cases.find? caseId = some c ∧
      evaluateIntake cfg.rt cfg.providers w.now (s.input c) = .ok evaluated ∧
      w'.db.cases = w.db.cases.put
        ((supplementValues (s.input c) evaluated).apply c (c.version + 1)) := by
  intro w'
  have hw' : w' = (thenAlone database (fun found => (orNotFound "Case" found).bind fun case =>
      (continueIntakeCase cfg s case).bind f) (.ok (w.db.getCase caseId (some s.actorId)), w)).2 := by
    rw [← getCase_alone, ← runAlone_bind]
    rfl
  rw [thenAlone_ok] at hw'
  cases hread : w.db.getCase caseId (some s.actorId) with
  | none =>
    rw [hw', hread]
    exact .inl rfl
  | some c =>
    have hfind := (getCase_some hread).1
    have hid : c.id = caseId := Keyed.Table.key_of_find? hfind
    subst hid
    rw [hread] at hw'
    have hcases : w'.db.cases = (runAlone database (continueIntakeCase cfg s c) w).2.db.cases := by
      rw [hw']
      exact SparesCases.after hf w
    rw [hcases]
    exact (supplement_effect cfg s hread).imp id fun ⟨evaluated, h⟩ => ⟨c, evaluated, hfind, h⟩

/-- What a call does to the cases: nothing, insert an unconfirmed one, or supplement one. -/
theorem play_effect (cfg : Config) (call : CaseCall) (w : World) :
    (call.play cfg w).db.cases = w.db.cases ∨
    (∃ n evaluated row h, evaluateIntake cfg.rt cfg.providers w.now (NewIntake.input cfg n) =
        .ok evaluated ∧ TakenIn cfg n evaluated row ∧
        (call.play cfg w).db.cases = w.db.cases.insert row h) ∨
    ∃ id s c evaluated, call.supplements = some (id, s) ∧ w.db.cases.find? id = some c ∧
      evaluateIntake cfg.rt cfg.providers w.now (s.input c) = .ok evaluated ∧
      (call.play cfg w).db.cases = w.db.cases.put
        ((supplementValues (s.input c) evaluated).apply c (c.version + 1)) := by
  cases call with
  | intake caller body =>
    cases hu : caller.user with
    | none =>
      left
      simp only [CaseCall.play, CaseCall.request, handler, intakeCase, actorOf, hu, Coro.bind_def,
        runAlone_bind, runAlone_ofExcept, thenAlone_error]
    | some actor =>
      simp only [CaseCall.play, CaseCall.request, handler, intakeCase, actorOf, hu, Coro.bind_def,
        runAlone_bind, runAlone_ofExcept, thenAlone_ok]
      rw [← runAlone_bind, SparesCases.after fun _ _ => rfl]
      refine (intake_effect cfg _ w).imp id fun htaken => ?_
      obtain ⟨evaluated, row, h, he⟩ := htaken
      exact .inl ⟨_, evaluated, row, h, he⟩
  | agentCreate n =>
    simp only [CaseCall.play, CaseCall.request, handler, Coro.bind_def]
    rw [SparesCases.after fun _ _ => rfl]
    refine (intake_effect cfg _ w).imp id fun htaken => ?_
    obtain ⟨evaluated, row, h, he⟩ := htaken
    exact .inl ⟨_, evaluated, row, h, he⟩
  | supplement caller caseId body =>
    cases hu : caller.user with
    | none =>
      left
      simp only [CaseCall.play, CaseCall.request, handler, supplementCase, actorOf, hu, Coro.bind_def,
        runAlone_bind, runAlone_ofExcept, thenAlone_error]
    | some actor =>
      have heffect := readThenSupplement_effect cfg (body.supplement actor caller) caseId
        (fun c => SparesCases.of_quiet (aggregateCase_quiet c actor.id)) w
      have hplay : CaseCall.play cfg (.supplement caller caseId body) w = (runAlone database (do
          let case ← orNotFound "Case"
            (← getCase caseId (some (body.supplement actor caller).actorId))
          let case ← continueIntakeCase cfg (body.supplement actor caller) case
          aggregateCase case actor.id) w).2 := by
        simp only [CaseCall.play, CaseCall.request, handler, supplementCase, actorOf, hu, Coro.bind_def,
          runAlone_bind, runAlone_ofExcept, thenAlone_ok]
        rfl
      rw [hplay]
      obtain hsame | ⟨c, evaluated, h⟩ := heffect
      · exact .inl hsame
      · exact .inr (.inr ⟨caseId, body.supplement actor caller, c, evaluated,
          by simp [CaseCall.supplements, hu], h⟩)
  | agentUpdate caseId u =>
    refine (readThenSupplement_effect cfg u.supplement caseId (fun _ _ => rfl) w).imp id
      fun hmade => ?_
    obtain ⟨c, evaluated, h⟩ := hmade
    exact .inr ⟨caseId, u.supplement, c, evaluated, by simp [CaseCall.supplements], h⟩

/-! ### The step lemma -/

theorem CaseCall.supplements_cases {call : CaseCall} {id : Uuid} {s : Supplement}
    (h : call.supplements = some (id, s)) :
    (∃ caller actor body, call = .supplement caller id body ∧ s = body.supplement actor caller) ∨
    ∃ u : AgentUpdate, call = .agentUpdate id u ∧ s = u.supplement := by
  cases call with
  | intake | agentCreate => cases h
  | supplement caller caseId body =>
    obtain ⟨actor, -, hs⟩ := map_eq_some_iff.mp h
    cases hs
    exact .inl ⟨caller, actor, body, rfl, rfl⟩
  | agentUpdate caseId u =>
    cases h
    exact .inr ⟨u, rfl, rfl⟩

/-- The case a supplement makes of a case. -/
abbrev revised (s : Supplement) (c : ServiceCase) (evaluated : Evaluation) : ServiceCase :=
  (supplementValues (s.input c) evaluated).apply c (c.version + 1)

section Revised

variable {s : Supplement} {c : ServiceCase} {evaluated : Evaluation}
  (h : evaluated.evidence.intake = some (s.input c).record)
include h

theorem revised_confirmed : (revised s c evaluated).confirmed =
    s.visualEvidenceConfirmed.getD c.confirmed := by
  simp [revised, supplementValues, CaseValues.apply, ServiceCase.confirmed, h, IntakeInput.record,
    Supplement.input]

theorem revised_damageLevel : (revised s c evaluated).damageLevel =
    s.damageLevel.orElse fun _ => c.damageLevel := by
  simp [revised, supplementValues, CaseValues.apply, ServiceCase.damageLevel, h, IntakeInput.record,
    Supplement.input]

theorem revised_serialMatches : (revised s c evaluated).serialMatches =
    s.serialMatches.orElse fun _ => c.serialMatches := by
  simp [revised, supplementValues, CaseValues.apply, ServiceCase.serialMatches, h, IntakeInput.record,
    Supplement.input]

end Revised

section Snoc

variable {log : List Entry} {e : Entry} {id : Uuid} {orderId : OrderId} {issueType : Option String}

theorem ClaimConfirmed.snoc (h : ClaimConfirmed log id orderId issueType)
    (he : ∀ c, c.id = id → ¬ e.Supplies (fun body => body.visualEvidenceConfirmed = some false) c) :
    ClaimConfirmed (log ++ [e]) id orderId issueType := by
  obtain ⟨l₁, e₁, l₂, rfl, hset, hkept⟩ := h
  refine ⟨l₁, e₁, l₂ ++ [e], by simp, hset, fun e' he' => ?_⟩
  rcases mem_append.mp he' with he' | he'
  · exact hkept e' he'
  · rw [mem_singleton.mp he']
    exact he

theorem GivenFor.snoc {P : CaseSupplementRequest → Prop} (h : GivenFor log id orderId P) :
    GivenFor (log ++ [e]) id orderId P := by
  obtain ⟨e', he', hc⟩ := h
  exact ⟨e', mem_append_left _ he', hc⟩

theorem Entry.not_supplies {c c' : ServiceCase} {P : CaseSupplementRequest → Prop}
    (hb : e.before.db.cases.find? c.id = some c) (ha : e.after.db.cases.find? c.id = some c)
    (hid : c'.id = c.id) : ¬ e.Supplies P c' := by
  rintro ⟨caller, body, c₀, -, -, hb', ha', hv⟩
  rw [hid, hb, some.injEq] at hb'
  rw [hid, ha, some.injEq] at ha'
  subst hb' ha'
  omega

theorem Founded.untouched {c : ServiceCase} (h : Founded log c)
    (hb : e.before.db.cases.find? c.id = some c) (ha : e.after.db.cases.find? c.id = some c) :
    Founded (log ++ [e]) c where
  confirmed hc hi := (h.confirmed hc hi).snoc fun _ hid => Entry.not_supplies hb ha hid
  damageLevel level hl := (h.damageLevel level hl).snoc
  serialMatches value hv := (h.serialMatches value hv).snoc

/-- A supplement that keeps to the claim leaves a founded case. -/
theorem Founded.revise {call : CaseCall} {w w' : World} {s : Supplement} {c : ServiceCase}
    {evaluated : Evaluation} (h : Founded log c)
    (hrecord : evaluated.evidence.intake = some (s.input c).record)
    (hs : call.supplements = some (c.id, s)) (hb : w.db.cases.find? c.id = some c)
    (ha : w'.db.cases.find? c.id = some (revised s c evaluated))
    (hkeep : Entry.KeepsToClaim ⟨call, w, w'⟩) :
    Founded (log ++ [⟨call, w, w'⟩]) (revised s c evaluated) := by
  obtain ⟨hclaim, horder⟩ := hkeep (c.id, s) hs c hb
  -- what the form says here was said while the case was about its new order
  have hsupplies : ∀ P : CaseSupplementRequest → Prop,
      (∀ caller actor body, s = body.supplement actor caller → P body) →
      (∀ u : AgentUpdate, s ≠ u.supplement) →
      Entry.Supplies ⟨call, w, w'⟩ P (revised s c evaluated) := by
    intro P hP hagent
    rcases CaseCall.supplements_cases hs with ⟨caller, actor, body, hcall, hbody⟩ | ⟨u, -, hu⟩
    · exact ⟨caller, body, c, hcall, hP caller actor body hbody, hb, ha, rfl⟩
    · exact absurd hu (hagent u)
  -- a fact of the order is said here, or carried while the order stays
  have hgiven : ∀ {α : Type} {new old : Option α} {P : α → CaseSupplementRequest → Prop},
      (∀ caller actor body value, s = body.supplement actor caller → new = some value →
        P value body) →
      (∀ u : AgentUpdate, s = u.supplement → new = none) →
      ((s.input c).orderId ≠ c.orderId → new = none → old = none) →
      (∀ value, old = some value → GivenFor log c.id c.orderId (P value)) →
      ∀ value, (new.orElse fun _ => old) = some value → GivenFor (log ++ [⟨call, w, w'⟩])
        (revised s c evaluated).id (revised s c evaluated).orderId (P value) := by
    intro α new old P hform hagent hcarry hold value hvalue
    cases new with
    | some v =>
      cases hvalue
      exact ⟨_, mem_append_right _ mem_cons_self, _, rfl, rfl,
        hsupplies _ (fun caller actor body hbody => hform caller actor body _ hbody rfl)
          fun u hu => by cases hagent u hu⟩
    | none =>
      have hsame : (s.input c).orderId = c.orderId := by
        by_contra hne
        rw [hcarry hne rfl] at hvalue
        cases hvalue
      rw [show (revised s c evaluated).orderId = c.orderId from hsame]
      exact (hold value hvalue).snoc
  constructor
  · intro hc hi
    rw [revised_confirmed hrecord] at hc
    cases hv : s.visualEvidenceConfirmed with
    | some value =>
      rw [hv, getD_some] at hc
      subst hc
      refine ⟨log, _, [], rfl, ⟨_, rfl, rfl, rfl, hsupplies _ (fun caller actor body hbody => ?_)
        fun u hu => ?_⟩, fun e he => absurd he not_mem_nil⟩
      · rwa [hbody] at hv
      · rw [hu] at hv
        cases hv
    | none =>
      rw [hv, getD_none] at hc
      have hsame : (s.input c).orderId = c.orderId ∧ (s.input c).issueType = c.issueType := by
        by_contra hne
        rw [not_and_or] at hne
        rw [hclaim hne hi hv] at hc
        cases hc
      have hconf := h.confirmed hc (hsame.2 ▸ hi)
      rw [← hsame.1, ← hsame.2] at hconf
      refine hconf.snoc fun c₀ hid => ?_
      rintro ⟨caller, body, c₁, hcall, hbody, -⟩
      rw [hid] at hcall
      rcases CaseCall.supplements_cases hs with ⟨caller', actor, body', hcall', hs'⟩ | ⟨u, hcall', -⟩
      · cases hcall.symm.trans hcall'
        rw [hs'] at hv
        cases hbody.symm.trans hv
      · cases hcall.symm.trans hcall'
  · rw [revised_damageLevel hrecord]
    exact hgiven (fun _ _ _ _ hbody hv => by rwa [hbody] at hv) (fun _ hu => by rw [hu]; rfl)
      (fun hne => (horder hne).1) h.damageLevel
  · rw [revised_serialMatches hrecord]
    exact hgiven (fun _ _ _ _ hbody hv => by rwa [hbody] at hv) (fun _ hu => by rw [hu]; rfl)
      (fun hne => (horder hne).2) h.serialMatches

end Snoc

/-! ### All histories -/

/-- What holds of every case whatever the calls are: it is decided on pictures only when confirmed,
and confirmed only after a supplement from the form. -/
structure Vetted (log : List Entry) (c : ServiceCase) : Prop where
  decided : c.DecidedOnPictures → c.confirmed = true ∧ isReverseIssue c.issueType = true
  form : c.confirmed = true → ∃ e ∈ log, ∃ caller body, e.call = .supplement caller c.id body

theorem Vetted.mono {log : List Entry} {c : ServiceCase} (h : Vetted log c) (e : Entry) :
    Vetted (log ++ [e]) c where
  decided := h.decided
  form hc :=
    have ⟨e', he', hcall⟩ := h.form hc
    ⟨e', mem_append_left _ he', hcall⟩

/-- A new case is unconfirmed. -/
theorem TakenIn.fresh {cfg : Config} {n : NewIntake} {evaluated : Evaluation} {row : ServiceCase}
    {now : Instant} (h : TakenIn cfg n evaluated row)
    (heval : evaluateIntake cfg.rt cfg.providers now (n.input cfg) = .ok evaluated) (log : List Entry) :
    Vetted log row ∧ Founded log row := by
  have hrecord := (evaluateIntake_cases heval).1
  have hconf : row.confirmed = false := by
    rw [ServiceCase.confirmed, h.intake, hrecord]
    rfl
  have hdamage : row.damageLevel = none := by
    rw [ServiceCase.damageLevel, h.intake, hrecord]
    rfl
  have hserial : row.serialMatches = none := by
    rw [ServiceCase.serialMatches, h.intake, hrecord]
    rfl
  refine ⟨⟨fun hd => ?_, fun hc => ?_⟩, ⟨fun hc => ?_, fun level hl => ?_, fun value hv => ?_⟩⟩
  · obtain ⟨hst, hneeds⟩ := hd
    rw [h.status] at hst
    rw [h.issueType, h.context, h.decision] at hneeds
    cases (decided_confirmed heval hst hneeds).1
  · rw [hconf] at hc
    cases hc
  · rw [hconf] at hc
    cases hc
  · rw [hdamage] at hl
    cases hl
  · rw [hserial] at hv
    cases hv

theorem Vetted.revise {cfg : Config} {log : List Entry} {call : CaseCall} {w w' : World}
    {s : Supplement} {c : ServiceCase} {evaluated : Evaluation} {now : Instant} (h : Vetted log c)
    (heval : evaluateIntake cfg.rt cfg.providers now (s.input c) = .ok evaluated)
    (hs : call.supplements = some (c.id, s)) :
    Vetted (log ++ [⟨call, w, w'⟩]) (revised s c evaluated) where
  decided hd := by
    obtain ⟨hconf, hissue⟩ := decided_confirmed heval hd.1 hd.2
    refine ⟨?_, hissue⟩
    rw [revised_confirmed (evaluateIntake_cases heval).1]
    exact hconf
  form hc := by
    rw [revised_confirmed (evaluateIntake_cases heval).1] at hc
    rcases CaseCall.supplements_cases hs with ⟨caller, actor, body, hcall, -⟩ | ⟨u, -, hu⟩
    · exact ⟨_, mem_append_right _ mem_cons_self, caller, body, hcall⟩
    · rw [hu] at hc
      exact (h.mono _).form hc

/-- **The run lemma.** -/
theorem played_cases {cfg : Config} (w₀ : World) {w : World} {log : List Entry}
    (hempty : w₀.db.cases.rows = []) (h : Played cfg w₀ log w) :
    ∀ c ∈ w.db.cases.rows, Vetted log c ∧ ((∀ e ∈ log, e.KeepsToClaim) → Founded log c) := by
  induction h with
  | nil =>
    rw [hempty]
    exact fun c hc => absurd hc not_mem_nil
  | wait h d ih => exact ih
  | @snoc log w h call ih =>
    -- a case the call leaves alone
    have hkept : ∀ c ∈ w.db.cases.rows, (call.play cfg w).db.cases.find? c.id = some c →
        Vetted (log ++ [⟨call, w, call.play cfg w⟩]) c ∧
          ((∀ e ∈ log ++ [⟨call, w, call.play cfg w⟩], e.KeepsToClaim) →
            Founded (log ++ [⟨call, w, call.play cfg w⟩]) c) := by
      intro c hc ha
      obtain ⟨hv, hf⟩ := ih c hc
      exact ⟨hv.mono _, fun hkeep => (hf fun e he => hkeep e (mem_append_left _ he)).untouched
        (Keyed.Table.mem_iff_find?.mp hc) ha⟩
    intro c hc
    rcases play_effect cfg call w with hsame | ⟨n, evaluated, row, hid, heval, htaken, hinsert⟩ |
      ⟨id, s, c₀, evaluated, hs, hfind, heval, hput⟩
    · rw [hsame] at hc
      exact hkept c hc (by rw [hsame]; exact Keyed.Table.mem_iff_find?.mp hc)
    · rw [hinsert] at hc
      rcases Keyed.Table.mem_insert.mp hc with hold | rfl
      · refine hkept c hold ?_
        rw [hinsert]
        exact Keyed.Table.mem_iff_find?.mp hc
      · obtain ⟨hv, hf⟩ := htaken.fresh heval (log ++ [⟨call, w, call.play cfg w⟩])
        exact ⟨hv, fun _ => hf⟩
    · obtain rfl : c₀.id = id := Keyed.Table.key_of_find? hfind
      have hafter : (call.play cfg w).db.cases.find? c₀.id = some (revised s c₀ evaluated) := by
        rw [hput]
        exact Keyed.Table.find?_put_self (r := revised s c₀ evaluated) hfind
      rw [hput] at hc
      rcases Keyed.Table.mem_put.mp hc with ⟨hold, hne⟩ | ⟨rfl, -⟩
      · refine hkept c hold ?_
        rw [hput, Keyed.Table.find?_put_of_ne hne]
        exact Keyed.Table.mem_iff_find?.mp hold
      · obtain ⟨hv, hf⟩ := ih c₀ (Keyed.Table.mem_of_find? hfind)
        refine ⟨hv.revise heval hs, fun hkeep => ?_⟩
        exact (hf fun e he => hkeep e (mem_append_left _ he)).revise
          (evaluateIntake_cases heval).1 hs hfind hafter
          (hkeep _ (mem_append_right _ mem_cons_self))

/-- **The facts a decided case rests on were given for its claim**, if no supplement carries them to
another one; and the agent alone decides no such case. -/
theorem confirmation_not_transplanted (cfg : Config) (balances : OrderId → ℕ)
    (inventory : Option (String → ℕ)) (now : Instant) (log : List Entry) (w : World)
    (h : Played cfg (World.init balances inventory now) log w) (c : ServiceCase)
    (hc : c ∈ w.db.cases.rows) (hd : c.DecidedOnPictures) :
    ((∀ e ∈ log, e.KeepsToClaim) →
      ClaimConfirmed log c.id c.orderId c.issueType ∧
      (∀ level, c.damageLevel = some level →
        GivenFor log c.id c.orderId fun body => body.damageLevel = some level) ∧
      ∀ value, c.serialMatches = some value →
        GivenFor log c.id c.orderId fun body => body.serialMatches = some value) ∧
    ∃ e ∈ log, ∃ caller body, e.call = .supplement caller c.id body := by
  obtain ⟨hv, hf⟩ := played_cases (World.init balances inventory now) rfl h c hc
  obtain ⟨hconf, hissue⟩ := hv.decided hd
  refine ⟨fun hkeep => ?_, hv.form hconf⟩
  have hfounded := hf hkeep
  exact ⟨hfounded.confirmed hconf hissue, hfounded.damageLevel, hfounded.serialMatches⟩

/-! ### The demo -/

/-- The agent opens a case about a damaged kettle. -/
def openKettle : CaseCall := .agentCreate
  { userId := "customer", userRole := some .user, complaintText := "ORDER-1003 arrived damaged" }

/-- A human has looked at the pictures of the kettle. -/
def confirmKettle : CaseCall := .supplement customer 0
  { visualEvidenceConfirmed := some true, damageLevel := some .major, note := "pictures checked" }

/-- The agent gives the case another order, a laptop. -/
def moveToLaptop : CaseCall := .agentUpdate 0
  { userId := "customer", userRole := some .user, note := "other order"
    orderId := some "ORDER-1004" }

def kettleOpened : World := openKettle.play demo demoWorld

def kettleConfirmed : World := confirmKettle.play demo kettleOpened

def laptopDecided : World := moveToLaptop.play demo kettleConfirmed

def kettleLog : List Entry :=
  [⟨openKettle, demoWorld, kettleOpened⟩, ⟨confirmKettle, kettleOpened, kettleConfirmed⟩]

def laptopLog : List Entry := kettleLog ++ [⟨moveToLaptop, kettleConfirmed, laptopDecided⟩]

theorem kettleLog_played : Played demo demoWorld kettleLog kettleConfirmed :=
  ((Played.nil : Played demo demoWorld [] demoWorld).snoc openKettle).snoc confirmKettle

def kettleCase : ServiceCase := (kettleConfirmed.db.cases.find? 0).get (by decide +kernel)

def laptopCase : ServiceCase := (laptopDecided.db.cases.find? 0).get (by decide +kernel)

/-- The kettle is decided on its own pictures. -/
theorem confirmation_not_transplanted_demo : kettleCase.DecidedOnPictures ∧
    ClaimConfirmed kettleLog 0 (some "ORDER-1003") (some IssueType.damagedItem.value) := by
  obtain ⟨hd, hid, horder, hissue⟩ : kettleCase.DecidedOnPictures ∧ kettleCase.id = 0 ∧
      kettleCase.orderId = some "ORDER-1003" ∧
      kettleCase.issueType = some IssueType.damagedItem.value := by decide +kernel
  have hmem : kettleCase ∈ kettleConfirmed.db.cases.rows :=
    Keyed.Table.mem_of_find? (some_get _).symm
  have hkeep : ∀ e ∈ kettleLog, e.KeepsToClaim := by decide +kernel
  have hclaim := ((confirmation_not_transplanted demo _ _ _ kettleLog kettleConfirmed kettleLog_played
    kettleCase hmem hd).1 hkeep).1
  rw [hid, horder, hissue] at hclaim
  exact ⟨hd, hclaim⟩

/-- The pictures of the kettle decide the refund of the laptop. -/
theorem confirmation_transplanted :
    Played demo demoWorld laptopLog laptopDecided ∧ laptopCase ∈ laptopDecided.db.cases.rows ∧
    laptopCase.DecidedOnPictures ∧ laptopCase.orderId = some "ORDER-1004" ∧
    ¬ ClaimConfirmed laptopLog laptopCase.id laptopCase.orderId laptopCase.issueType := by
  obtain ⟨hd, hid, horder⟩ : laptopCase.DecidedOnPictures ∧ laptopCase.id = 0 ∧
      laptopCase.orderId = some "ORDER-1004" := by decide +kernel
  refine ⟨kettleLog_played.snoc moveToLaptop, Keyed.Table.mem_of_find? (some_get _).symm,
    hd, horder, ?_⟩
  rintro ⟨l₁, e, l₂, hlog, ⟨c, hc, ho, -, caller, body, c₀, hcall, -, -, hafter, -⟩, -⟩
  have hmem : e ∈ laptopLog := hlog ▸ mem_append_right _ mem_cons_self
  simp only [laptopLog, kettleLog, cons_append, nil_append, mem_cons,
    not_mem_nil, or_false] at hmem
  rcases hmem with rfl | rfl | rfl
  · cases hcall
  · have hkettle : (kettleConfirmed.db.cases.find? 0).map ServiceCase.orderId =
        some (some "ORDER-1003") := by decide +kernel
    rw [hc, hid] at hafter
    rw [hafter, map_some, ho, horder] at hkettle
    simp at hkettle
  · cases hcall

end AfterFlow
