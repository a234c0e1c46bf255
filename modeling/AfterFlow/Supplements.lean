import AfterFlow.ExactlyOnce
import AfterFlow.JsonText
import AfterFlow.Openings

/-!
# Supplements under an idempotency key

`POST /cases/{case_id}/supplements`. What the request does depends on which fields were sent: a
field that is null clears the case's, and one that is left out keeps it. The fingerprint is taken of
the dumped values, where both are null.

## Main results

* `replay_faithful_iff` — faithful unless one body leaves out what the other clears
-/

namespace AfterFlow

open Coop Idempotency

def DamageLevel.value : DamageLevel → String
  | none => "none"
  | minor => "minor"
  | major => "major"
  | destroyed => "destroyed"

namespace CaseSupplementRequest

open Json

variable {caseId : Uuid} {body body' : CaseSupplementRequest} {actor : Actor} {caller : Caller}

/-! ### What the fingerprint is taken of -/

/-- A value that may be null. -/
def nullable {α : Type} (f : α → Scalar) : Option α → Scalar
  | none => .null
  | some a => f a

/-- `{"case_id": case_id, **body.model_dump()}`. -/
def dumpFields (caseId : Uuid) (body : CaseSupplementRequest) : List (String × Scalar) :=
  [("case_id", .str (toString caseId)),
    ("complaint_text", nullable .str body.complaintText),
    ("order_id", nullable .str body.orderId.join),
    ("issue_type", nullable (.str ∘ IssueType.value) body.issueType.join),
    ("customer_expectation",
      nullable (.str ∘ CustomerPreference.value) body.customerExpectation.join),
    ("visual_evidence_confirmed", nullable .bool body.visualEvidenceConfirmed),
    ("damage_level", nullable (.str ∘ DamageLevel.value) body.damageLevel),
    ("serial_matches", nullable .bool body.serialMatches),
    ("note", .str body.note)]

def dump (caseId : Uuid) (body : CaseSupplementRequest) : Json := ofScalars (dumpFields caseId body)

/-- The body with null for every field that was left out. -/
def explicit (body : CaseSupplementRequest) : CaseSupplementRequest :=
  { body with
    orderId := some body.orderId.join
    issueType := some body.issueType.join
    customerExpectation := some body.customerExpectation.join }

theorem nullable_injective {α : Type} {f : α → Scalar} (hf : Function.Injective f)
    (hnull : ∀ a, f a ≠ .null) : Function.Injective (nullable f) := by
  intro x y h
  cases x with
  | none =>
    cases y with
    | none => rfl
    | some b => exact absurd h.symm (hnull b)
  | some a =>
    cases y with
    | none => exact absurd h (hnull a)
    | some b => exact congrArg some (hf h)

theorem nullable_text {α : Type} {f : α → String} (hf : Function.Injective f) :
    Function.Injective (nullable (.str ∘ f)) :=
  nullable_injective (fun _ _ h => hf (Scalar.str.inj h)) fun _ => Scalar.noConfusion

theorem nullable_bool : Function.Injective (nullable .bool) :=
  nullable_injective (fun _ _ h => Scalar.bool.inj h) fun _ => Scalar.noConfusion

theorem preference_injective : Function.Injective CustomerPreference.value := by
  intro a b h
  cases a <;> cases b <;> first | rfl | exact absurd h (by decide)

theorem damageLevel_injective : Function.Injective DamageLevel.value := by
  intro a b h
  cases a <;> cases b <;> first | rfl | exact absurd h (by decide)

theorem dumpFields_explicit (caseId : Uuid) (body : CaseSupplementRequest) :
    dumpFields caseId body.explicit = dumpFields caseId body := rfl

theorem dumpFields_inj (caseId : Uuid) : dumpFields caseId body = dumpFields caseId body' ↔
    body.explicit = body'.explicit := by
  constructor
  · intro h
    simp only [dumpFields, List.cons.injEq, Prod.mk.injEq, true_and, and_true] at h
    obtain ⟨hcomplaint, horder, hissue, hpref, hvisual, hdamage, hserial, hnote⟩ := h
    simp only [explicit, mk.injEq, Option.some.injEq]
    exact ⟨nullable_text Function.injective_id hcomplaint,
      nullable_text Function.injective_id horder, nullable_text (fun _ _ => value_inj.mp) hissue,
      nullable_text preference_injective hpref, nullable_bool hvisual,
      nullable_text damageLevel_injective hdamage, nullable_bool hserial, Scalar.str.inj hnote⟩
  · intro h
    rw [← dumpFields_explicit, h, dumpFields_explicit]

/-- **The dumps agree if the bodies do, up to fields that were left out.** -/
theorem dump_eq_iff (caseId : Uuid) :
    (body.dump caseId).dumps = (body'.dump caseId).dumps ↔ body.explicit = body'.explicit := by
  rw [← dumpFields_inj caseId]
  refine ⟨fun h => dumps_scalars_inj rfl ?_ h, fun h => congrArg (fun d => (ofScalars d).dumps) h⟩
  show ["case_id", "complaint_text", "order_id", "issue_type", "customer_expectation",
    "visual_evidence_confirmed", "damage_level", "serial_matches", "note"].Nodup
  decide

/-! ### What the request asks for -/

theorem eq_of_join {α : Type} {x y : Option (Option α)} (h : x.join = y.join)
    (hclear : x = some none ↔ y = some none) : x = y := by
  rcases x with _ | _ | a <;> rcases y with _ | _ | b <;> simp_all

theorem orderId_mem_clearFields : .orderId ∈ body.clearFields ↔ body.orderId = some none := by
  rw [clearFields]
  split_ifs <;> simp_all

theorem issueType_mem_clearFields : .issueType ∈ body.clearFields ↔ body.issueType = some none := by
  rw [clearFields]
  split_ifs <;> simp_all

theorem customerExpectation_mem_clearFields :
    .customerExpectation ∈ body.clearFields ↔ body.customerExpectation = some none := by
  rw [clearFields]
  split_ifs <;> simp_all

theorem supplement_inj (h : body.supplement actor caller = body'.supplement actor caller) :
    body = body' := by
  have hclear : body.clearFields = body'.clearFields := congrArg Supplement.clearFields h
  have horder : body.orderId = body'.orderId := by
    refine eq_of_join (congrArg Supplement.orderId h) ?_
    rw [← orderId_mem_clearFields, ← orderId_mem_clearFields, hclear]
  have hissue : body.issueType = body'.issueType := by
    refine eq_of_join (Option.map_injective (fun _ _ => value_inj.mp)
      (congrArg Supplement.issueType h)) ?_
    rw [← issueType_mem_clearFields, ← issueType_mem_clearFields, hclear]
  have hpref : body.customerExpectation = body'.customerExpectation := by
    refine eq_of_join (Option.map_injective preference_injective
      (congrArg Supplement.customerExpectation h)) ?_
    rw [← customerExpectation_mem_clearFields, ← customerExpectation_mem_clearFields, hclear]
  cases body
  cases body'
  simp only [supplement, Supplement.mk.injEq] at h
  simp_all

end CaseSupplementRequest

/-! ### Under the key -/

/-- The after-sales endpoints behind a store of idempotency keys. -/
def Config.idem (cfg : Config) (kind : StoreKind) (ttl : ℕ) (quote : String → String) :
    IdemConfig World Op Op.Reply Exn Response Request where
  kind := kind
  ttl := ttl
  fingerprint := fun body => cfg.rt.sha256 body.dumps
  quote := quote
  backend := database
  work := handler cfg
  tick := fun d w => { w with now := w.now + d }

/-- `POST /cases/{case_id}/supplements` under a key. -/
def supplementRequest (user : UserId × SystemRole) (key : Option String) (traceId : Option String)
    (caseId : Uuid) (body : CaseSupplementRequest) : IdemRequest Request where
  user := some user
  endpoint := "/api/after-sales/cases/" ++ toString caseId ++ "/supplements"
  key := key
  body := body.dump caseId
  work := .supplementCase ⟨some ⟨user.1.text, user.2⟩, traceId⟩ caseId body

/-- A replayed supplement of the case is the same supplement. -/
structure ReplayFaithful (cfg : Config) (caseId : Uuid) (body body' : CaseSupplementRequest) :
    Prop where
  /-- Equal fingerprints mean equal arguments. -/
  same (actor : Actor) (caller : Caller)
    (h : cfg.rt.sha256 (body.dump caseId).dumps = cfg.rt.sha256 (body'.dump caseId).dumps) :
    body.supplement actor caller = body'.supplement actor caller
  /-- If the arguments differ and the first was answered, the second is refused with 422, or it ran
  before there was a response to replay, and raised. -/
  refused {kind : StoreKind} {ttl : ℕ} {quote : String → String} {w₀ : IdemWorld World Response}
    (hheld : ∀ k, w₀.held k = false) (hnew : ∀ k, w₀.completions k = []) {i : Identity}
    {s : IdemState World Op Op.Reply Exn Response Request}
    (hs : Steps (cfg.idem kind ttl quote).program (Healthy i.scope) ⟨w₀, []⟩ s)
    {actor : Actor} {caller : Caller}
    (hne : body.supplement actor caller ≠ body'.supplement actor caller) :
    ∀ t ∈ s.tasks, ∀ t' ∈ s.tasks, t.req.identity = some i → t'.req.identity = some i →
      ∀ user key trace trace', t.req = supplementRequest user key trace caseId body →
        t'.req = supplementRequest user key trace' caseId body' →
        ∀ response res, t.result = some (.ok response) → t'.result = some res →
        ∃ first, firstWorld t'.trace = some first ∧ ((∃ detail, res = .error (.http 422 detail)) ∨
          first.records i.scope = none ∧ ∃ e, res = .error (.run e))

/-- **Replays are faithful unless one body leaves out what the other clears.** -/
theorem replay_faithful_iff (cfg : Config) (caseId : Uuid) (body body' : CaseSupplementRequest)
    (hsha : cfg.rt.sha256 (body.dump caseId).dumps = cfg.rt.sha256 (body'.dump caseId).dumps →
      (body.dump caseId).dumps = (body'.dump caseId).dumps) :
    ReplayFaithful cfg caseId body body' ↔ (body.explicit = body'.explicit → body = body') := by
  constructor
  · intro h hexplicit
    have htext := congrArg cfg.rt.sha256
      ((CaseSupplementRequest.dump_eq_iff caseId).mpr hexplicit)
    exact CaseSupplementRequest.supplement_inj (h.same ⟨"", .user⟩ ⟨none, none⟩ htext)
  · intro h
    refine ⟨fun actor caller hfp => ?_, ?_⟩
    · rw [h ((CaseSupplementRequest.dump_eq_iff _).mp (hsha hfp))]
    · intro kind ttl quote w₀ hheld hnew i s hs actor caller hne t ht t' ht' hi hi' user key trace
        trace' hreq hreq' response res hres hres'
      obtain ⟨⟨g, hsound⟩, hending⟩ := endings (cfg.idem kind ttl quote) hheld hnew hs
      obtain ⟨first, -, hend⟩ := hending t ht hi _ hres
      obtain ⟨first', hfirst', hend'⟩ := hending t' ht' hi' res hres'
      have hother : (cfg.idem kind ttl quote).fingerprint t.req.body ≠
          (cfg.idem kind ttl quote).fingerprint t'.req.body := by
        rw [hreq, hreq']
        intro hfp
        exact hne (by rw [h ((CaseSupplementRequest.dump_eq_iff _).mp (hsha hfp))])
      have hrefused : ∀ response', res ≠ .ok response' := by
        rintro response' rfl
        exact hother (hsound.fingerprint_eq hend hend')
      refine ⟨first', hfirst', ?_⟩
      cases hend' with
      | completed response' _ _ => exact absurd rfl (hrefused response')
      | raised e hf => exact .inr ⟨hf.2, e, rfl⟩
      | replayed row _ _ _ => exact absurd rfl (hrefused row.response)
      | conflict row detail _ _ _ => exact .inl ⟨detail, rfl⟩

/-- A note, and the same note that also clears the order. -/
def plainNote : CaseSupplementRequest := { note := "see the picture" }

def clearingNote : CaseSupplementRequest := { plainNote with orderId := some none }

/-- The second clears the order, and would be answered with the response of the first. -/
theorem clearing_replayed : ¬ ReplayFaithful demo 0 plainNote clearingNote := by
  intro h
  have hclear := congrArg Supplement.clearFields (h.same ⟨"customer", .user⟩ customer rfl)
  exact absurd hclear (by decide)

/-- A note about the whole order, and another one. -/
theorem replay_faithful_notes :
    ReplayFaithful demo 0 plainNote { plainNote with note := "see the invoice" } :=
  (replay_faithful_iff demo 0 plainNote _ fun h => h).mpr fun h =>
    absurd (congrArg CaseSupplementRequest.note h) (by decide)

end AfterFlow
