import AfterFlow.Memory.Updates
import AfterFlow.Transition.Runs

/-!
# Edits of a memory document

A fact is created, edited or deleted by a call that loads the document, works the change in and
saves the whole document. A conversation update does the same, with the model's answer in between.
Nothing stops one call from saving between the load and the save of another, which then puts the old
facts back.

A call that saves the document it finds keeps every fact but the one it is about, and a conversation
update keeps every fact but those that the answer of the model names, those that have no place among
the `max_facts` and those that are about an upload.

## Main results

* `edits_stand` — edits stand as long as no call saves over another and every edited fact has its
  place
* `created_lost` — they do not in every run
-/

namespace AfterFlow.Memory.Edits

open Transition List Function Option

/-! ### One call -/

/-- `category.strip() or "context"`. -/
def normalizedCategory (category : String) : String :=
  if PyStr.strip category = "" then "context" else PyStr.strip category

/-- `_validate_confidence`. -/
def validConfidence (confidence : ℚ) : Bool := 0 ≤ confidence && confidence ≤ 1

/-- `create_memory_fact` on the document that it has loaded, if it does not raise. -/
def createMemoryFact (m : Moment) (content category : String) (confidence : ℚ) (d : MemoryData) :
    Option MemoryData :=
  if PyStr.strip content = "" then none
  else if validConfidence confidence then
    some { d with facts := d.facts ++ [
      { id := some (m.uuid 0), content := PyStr.strip content, category := normalizedCategory category
        confidence := confidence, createdAt := m.iso, source := "manual", sourceError := none
        consolidated := none }] }
  else none

/-- `delete_memory_fact`. -/
def deleteMemoryFact (factId : String) (d : MemoryData) : Option MemoryData :=
  let updatedFacts := d.facts.filter fun f => f.id ≠ some factId
  if updatedFacts.length = d.facts.length then none else some { d with facts := updatedFacts }

/-- The checks of `update_memory_fact`, which it makes at the first fact with the id. -/
def validEdit (content : Option String) (confidence : Option ℚ) : Bool :=
  (content.all fun c => PyStr.strip c ≠ "") && confidence.all validConfidence

/-- A fact with the changes of `update_memory_fact`. -/
def editFact (content category : Option String) (confidence : Option ℚ) (f : Fact) : Fact :=
  { f with
    content := (content.map PyStr.strip).getD f.content
    category := (category.map normalizedCategory).getD f.category
    confidence := confidence.getD f.confidence }

/-- `update_memory_fact`. -/
def updateMemoryFact (factId : String) (content category : Option String) (confidence : Option ℚ)
    (d : MemoryData) : Option MemoryData :=
  if (d.facts.any fun f => f.id = some factId) && validEdit content confidence then
    some { d with facts := d.facts.map fun f =>
      if f.id = some factId then editFact content category confidence f else f }
  else none

inductive Call where
  | create (content category : String) (confidence : ℚ)
  | update (factId : String) (content category : Option String) (confidence : Option ℚ)
  | delete (factId : String)
  /-- A conversation update, with the answer of the model if it can be parsed. -/
  | converse (threadId : String) (answer : Option UpdateData)

variable (rt : Runtime) (cfg : MemoryConfig)

/-- The document that a call saves, if it does not raise. -/
@[grind =] def Call.result (m : Moment) (d : MemoryData) : Call → Option MemoryData
  | .create content category confidence => createMemoryFact m content category confidence d
  | .update factId content category confidence =>
    updateMemoryFact factId content category confidence d
  | .delete factId => deleteMemoryFact factId d
  | .converse threadId answer =>
    answer.bind fun u => (applyUpdates rt cfg m threadId u d).map (stripUploadMentions rt)

/-- The ids that a call may give. -/
def Call.newIds (m : Moment) : Call → List String
  | .create _ _ _ => [m.uuid 0]
  | .converse _ (some u) => (List.range u.idCount).map m.uuid
  | _ => []

/-! ### Calls that take turns -/

/-- What is promised of the facts with an id. -/
inductive Fate where
  | open
  /-- They were created or edited, and this is how they were left. -/
  | kept (facts : List Fact)
  | deleted
  deriving DecidableEq

def Fate.isKept : Fate → Bool
  | .kept _ => true
  | _ => false

/-- The ids of the facts. -/
def idsOf (d : MemoryData) : List String := d.facts.filterMap Fact.id

/-- The facts with the id. -/
def withId (d : MemoryData) (id : String) : List Fact := d.facts.filter fun f => f.id = some id

/-- The promises after a call has saved `d'`. A conversation update takes a promise back if it removes
the facts and its answer says so. -/
@[grind =] def Call.fate (m : Moment) (d' : MemoryData) (fate : String → Fate) : Call → String → Fate
  | .create _ _ _ => Function.update fate (m.uuid 0) (.kept (withId d' (m.uuid 0)))
  | .update factId _ _ _ => Function.update fate factId (.kept (withId d' factId))
  | .delete factId => Function.update fate factId .deleted
  | .converse _ answer => fun id =>
    match fate id, answer with
    | .kept facts, some u => if ∃ f ∈ facts, f ∉ d'.facts ∧ Named u f then .open else .kept facts
    | other, _ => other

inductive Stage where
  | called
  | loaded (d : MemoryData)
  | done (ok : Bool)

structure World (I : Type) where
  doc : MemoryData
  stage : I → Stage
  /-- The ids that facts have had. -/
  used : List String
  fate : String → Fate

inductive Act (I : Type) where
  | load (i : I)
  | save (i : I) (m : Moment)
  /-- The call fails before it saves. -/
  | fail (i : I)

variable {I : Type} [DecidableEq I] (calls : I → Call)

def World.goTo (w : World I) (i : I) (stage : Stage) : World I :=
  { w with stage := update w.stage i stage }

/-- One act of a call, if it is the call's turn to do it. The ids that it gives are new. -/
@[grind =] def step (w : World I) : Act I → Option (World I)
  | .load i =>
    match w.stage i with
    | .called => some (w.goTo i (.loaded w.doc))
    | _ => none
  | .save i m =>
    match w.stage i with
    | .loaded d =>
      match (calls i).result rt cfg m d with
      | none => some (w.goTo i (.done false))
      | some d' =>
        if ∀ id ∈ (calls i).newIds m, id ∉ w.used then
          some ({ w with
            doc := d'.touched m.iso
            used := w.used ++ idsOf d ++ idsOf d'
            fate := (calls i).fate m d' w.fate }.goTo i (.done true))
        else none
    | _ => none
  | .fail i =>
    match w.stage i with
    | .loaded _ => some (w.goTo i (.done false))
    | _ => none

/-- Nothing has been promised yet. -/
structure World.Begins (w : World I) : Prop where
  used : ∀ id ∈ idsOf w.doc, id ∈ w.used
  fate : ∀ id, w.fate id = .open

/-- The facts that were created or edited and that the answer of a conversation update does not name
have a place in the document. -/
def Spares (m : Moment) (w : World I) : Call → Prop
  | .converse threadId (some u) => ∀ f ∈ w.doc.facts, ∀ id, f.id = some id →
      (w.fate id).isKept = true → Named u f ∨ Spared rt cfg m threadId u w.doc.facts f
  | _ => True

/-- No call saves a document in the place of another than the one that it has loaded, and a
conversation update has a place for every fact that was created or edited. -/
def Orderly (w : World I) : Act I → Prop
  | .save i m => ∀ d, w.stage i = .loaded d → ((calls i).result rt cfg m d).isSome = true →
      d = w.doc ∧ Spares rt cfg m w (calls i)
  | _ => True

/-- The facts are as the calls left them, and what was deleted is gone. -/
structure World.Kept (w : World I) : Prop where
  kept : ∀ id facts, w.fate id = .kept facts → ∀ f, f ∈ w.doc.facts ∧ f.id = some id ↔ f ∈ facts
  deleted : ∀ id, w.fate id = .deleted → ∀ f ∈ w.doc.facts, f.id ≠ some id

/-! ### What each call keeps -/

variable {rt cfg calls} {w w' w₀ : World I} {i : I} {m : Moment} {d d' : MemoryData} {call : Call}
  {id factId content category : String} {f g : Fact}

/-- The facts with the id are the same. -/
def SameFacts (id : String) (d d' : MemoryData) : Prop :=
  ∀ f, f.id = some id → (f ∈ d'.facts ↔ f ∈ d.facts)

theorem mem_withId : f ∈ withId d id ↔ f ∈ d.facts ∧ f.id = some id := by
  simp [withId]

theorem createMemoryFact_same {confidence : ℚ}
    (h : createMemoryFact m content category confidence d = some d') (hid : id ≠ m.uuid 0) :
    SameFacts id d d' := by
  simp only [createMemoryFact] at h
  split at h
  · cases h
  split at h
  · cases h
    intro f hf
    constructor
    · intro hmem
      rcases mem_append.1 hmem with hmem | hmem
      · exact hmem
      · rw [mem_singleton.1 hmem] at hf
        exact absurd (some.inj hf).symm hid
    · exact fun hmem => mem_append_left _ hmem
  · cases h

theorem deleteMemoryFact_facts (h : deleteMemoryFact factId d = some d') :
    d'.facts = d.facts.filter fun f => f.id ≠ some factId := by
  simp only [deleteMemoryFact] at h
  split at h
  · cases h
  · cases h
    rfl

theorem updateMemoryFact_same {content category : Option String} {confidence : Option ℚ}
    (h : updateMemoryFact factId content category confidence d = some d') (hid : id ≠ factId) :
    SameFacts id d d' := by
  simp only [updateMemoryFact] at h
  split at h
  · cases h
    intro f hf
    have hother : f.id ≠ some factId := fun hfact => hid (some.inj (hf.symm.trans hfact))
    constructor
    · intro hmem
      obtain ⟨g, hg, heq⟩ := mem_map.1 hmem
      by_cases hgid : g.id = some factId
      · rw [if_pos hgid] at heq
        rw [← heq] at hother
        exact absurd hgid hother
      · rw [if_neg hgid] at heq
        exact heq ▸ hg
    · exact fun hmem => mem_map.2 ⟨f, hmem, if_neg hother⟩
  · cases h

theorem converse_same {threadId : String} {u : UpdateData}
    (h : applyUpdates rt cfg m threadId u d = some d') (hnew : ∀ n < u.idCount, id ≠ m.uuid n)
    (hkeep : ∀ f ∈ d.facts, f.id = some id → f ∈ (stripUploadMentions rt d').facts) :
    SameFacts id d (stripUploadMentions rt d') := by
  intro f hf
  constructor
  · intro hmem
    rcases of_mem_applyUpdates h hmem with hmem | ⟨n, hn, hid⟩
    · exact hmem
    · exact absurd (some.inj (hf.symm.trans hid)) (hnew n hn)
  · exact fun hmem => hkeep f hmem hf

/-! ### What each step keeps -/

/-- The promises are kept, and ids that were given are not given again. -/
structure World.Told (w : World I) : Prop where
  promises : w.Kept
  used : ∀ id ∈ idsOf w.doc, id ∈ w.used
  known : ∀ id, w.fate id ≠ .open → id ∈ w.used

omit [DecidableEq I] in
theorem World.Begins.told (h : w.Begins) : w.Told where
  promises := by
    constructor
    · intro id facts hid
      rw [h.fate id] at hid
      cases hid
    · intro id hid
      rw [h.fate id] at hid
      cases hid
  used := h.used
  known id hid := absurd (h.fate id) hid

theorem mem_idsOf : id ∈ idsOf d ↔ ∃ f ∈ d.facts, f.id = some id := by
  simp [idsOf]

theorem SameFacts.keeps {fate : Fate} (h : SameFacts id d d')
    (hkept : ∀ facts, fate = .kept facts → ∀ f, f ∈ d.facts ∧ f.id = some id ↔ f ∈ facts)
    (hdeleted : fate = .deleted → ∀ f ∈ d.facts, f.id ≠ some id) :
    (∀ facts, fate = .kept facts → ∀ f, f ∈ d'.facts ∧ f.id = some id ↔ f ∈ facts) ∧
    (fate = .deleted → ∀ f ∈ d'.facts, f.id ≠ some id) := by
  constructor
  · intro facts hfate f
    rw [← hkept facts hfate f]
    exact and_congr_left fun hf => h f hf
  · intro hfate f hf hid
    exact hdeleted hfate f ((h f hid).1 hf) hid

section

omit [DecidableEq I]

/-- The promises that a call leaves are true of the document that it saves. -/
theorem World.Told.result (h : w.Told) (hresult : call.result rt cfg m w.doc = some d')
    (hnew : ∀ id ∈ call.newIds m, id ∉ w.used) (hspares : Spares rt cfg m w call) (id : String) :
    (∀ facts, call.fate m d' w.fate id = .kept facts →
      ∀ f, f ∈ d'.facts ∧ f.id = some id ↔ f ∈ facts) ∧
    (call.fate m d' w.fate id = .deleted → ∀ f ∈ d'.facts, f.id ≠ some id) := by
  have hkeeps : SameFacts id w.doc d' →
      (∀ facts, w.fate id = .kept facts → ∀ f, f ∈ d'.facts ∧ f.id = some id ↔ f ∈ facts) ∧
      (w.fate id = .deleted → ∀ f ∈ d'.facts, f.id ≠ some id) := fun hsame =>
    hsame.keeps (h.promises.kept id) (h.promises.deleted id)
  have hmine : ∀ facts, (Fate.kept (withId d' id)) = .kept facts →
      ∀ f, f ∈ d'.facts ∧ f.id = some id ↔ f ∈ facts := by
    intro facts hfacts f
    cases hfacts
    exact mem_withId.symm
  cases call with
  | create content category confidence =>
    by_cases hid : id = m.uuid 0
    · subst hid
      simp only [Call.fate, update_self]
      exact ⟨hmine, fun hdeleted => by cases hdeleted⟩
    · simp only [Call.fate, update_of_ne hid]
      exact hkeeps (createMemoryFact_same hresult hid)
  | update factId content category confidence =>
    by_cases hid : id = factId
    · subst hid
      simp only [Call.fate, update_self]
      exact ⟨hmine, fun hdeleted => by cases hdeleted⟩
    · simp only [Call.fate, update_of_ne hid]
      exact hkeeps (updateMemoryFact_same hresult hid)
  | delete factId =>
    have hfacts := deleteMemoryFact_facts hresult
    by_cases hid : id = factId
    · subst hid
      simp only [Call.fate, update_self, hfacts]
      exact ⟨fun _ hkept => by simp at hkept, fun _ f hf => by simpa using (List.mem_filter.1 hf).2⟩
    · simp only [Call.fate, Function.update_of_ne hid]
      refine hkeeps fun f hf => ?_
      have hother : f.id ≠ some factId := fun hfact => hid (Option.some.inj (hf.symm.trans hfact))
      simp [hfacts, hother]
  | converse threadId answer =>
    cases answer with
    | none => cases hresult
    | some u =>
      obtain ⟨d'', happly, rfl⟩ := map_eq_some_iff.1 hresult
      have hfresh : w.fate id ≠ .open → ∀ n < u.idCount, id ≠ m.uuid n := by
        rintro hfate n hn rfl
        exact hnew _ (mem_map.2 ⟨n, mem_range.2 hn, rfl⟩) (h.known _ hfate)
      simp only [Call.fate]
      cases hfate : w.fate id with
      | «open» => simp
      | kept facts =>
        by_cases hremove : ∃ f ∈ facts, f ∉ (stripUploadMentions rt d'').facts ∧ Named u f
        · simp [hremove]
        · have hstays : ∀ f ∈ w.doc.facts, f.id = some id → f ∈ (stripUploadMentions rt d'').facts := by
            intro f hf hid
            by_contra hgone
            have hunnamed : ¬Named u f := fun hnamed =>
              hremove ⟨f, (h.promises.kept id facts hfate f).1 ⟨hf, hid⟩, hgone, hnamed⟩
            have hspared := (hspares f hf id hid (by rw [hfate]; rfl)).resolve_left hunnamed
            exact hgone (mem_applyUpdates happly hf hunnamed hspared)
          have hsame := converse_same happly (hfresh (by rw [hfate]; simp)) hstays
          simp only [if_neg hremove]
          rw [hfate] at hkeeps
          exact hkeeps hsame
      | deleted =>
        have hsame := converse_same happly (hfresh (by rw [hfate]; simp)) fun f hf hid =>
          absurd hid (h.promises.deleted id hfate f hf)
        rw [hfate] at hkeeps
        exact hkeeps hsame

/-- A call that saves makes promises of facts that it has loaded or saves. -/
theorem fate_open_of_unused (h : ∀ id, w.fate id ≠ .open → id ∈ w.used)
    (hresult : call.result rt cfg m d = some d')
    (hid : call.fate m d' w.fate id ≠ .open) : id ∈ w.used ++ idsOf d ++ idsOf d' := by
  have hold : w.fate id ≠ .open → id ∈ w.used ++ idsOf d ++ idsOf d' := fun hfate => by
    simp [h id hfate]
  cases call with
  | create content category confidence =>
    by_cases hnew : id = m.uuid 0
    · subst hnew
      simp only [Call.result, createMemoryFact] at hresult
      split at hresult
      · cases hresult
      split at hresult <;> cases hresult
      simp [idsOf]
    · rw [Call.fate, update_of_ne hnew] at hid
      exact hold hid
  | update factId content category confidence =>
    by_cases hfact : id = factId
    · subst hfact
      simp only [Call.result, updateMemoryFact] at hresult
      split at hresult
      · rename_i hany
        simp only [Bool.and_eq_true, List.any_eq_true, decide_eq_true_eq] at hany
        simp [mem_idsOf.2 hany.1]
      · cases hresult
    · rw [Call.fate, Function.update_of_ne hfact] at hid
      exact hold hid
  | delete factId =>
    by_cases hfact : id = factId
    · subst hfact
      have hmem : ∃ f ∈ d.facts, f.id = some id := by
        by_contra hnone
        have hall : (d.facts.filter fun f => f.id ≠ some id) = d.facts :=
          filter_eq_self.2 fun f hf => by simpa using fun hfid => hnone ⟨f, hf, hfid⟩
        simp only [Call.result, deleteMemoryFact, hall, if_true] at hresult
        cases hresult
      simp [mem_idsOf.2 hmem]
    · rw [Call.fate, update_of_ne hfact] at hid
      exact hold hid
  | converse threadId answer =>
    refine hold fun hopen => hid ?_
    simp only [Call.fate, hopen]

end

/-- **Every act keeps the promises.** -/
theorem World.Told.step {a : Act I} (h : w.Told) (horderly : Orderly rt cfg calls w a)
    (hstep : step rt cfg calls w a = some w') : w'.Told := by
  have hgoTo : ∀ i stage, (w.goTo i stage).Told := fun i stage =>
    ⟨⟨h.promises.kept, h.promises.deleted⟩, h.used, h.known⟩
  cases a with
  | load i =>
    simp only [Edits.step] at hstep
    split at hstep <;> cases hstep
    exact hgoTo _ _
  | fail i =>
    simp only [Edits.step] at hstep
    split at hstep <;> cases hstep
    exact hgoTo _ _
  | save i m =>
    simp only [Edits.step] at hstep
    split at hstep
    · rename_i d hloaded
      split at hstep
      · cases hstep
        exact hgoTo _ _
      · rename_i d' hresult
        split at hstep
        · rename_i hnew
          cases hstep
          obtain ⟨rfl, hspares⟩ := horderly d hloaded (by rw [hresult]; rfl)
          refine ⟨⟨fun id => ?_, fun id => ?_⟩, fun id hid => ?_, fun id hid => ?_⟩
          · exact (h.result hresult hnew hspares id).1
          · exact (h.result hresult hnew hspares id).2
          · exact mem_append_right _ hid
          · exact fate_open_of_unused h.known hresult hid
        · cases hstep
    · cases hstep

/-- **Edits stand**, where no call saves between the load and the save of another and conversation
updates have a place for what was edited: a fact that was created or edited stays as it was left until
the answer of a conversation update removes or merges it, and a fact that was deleted stays away. -/
theorem edits_stand {rt : Runtime} {cfg : MemoryConfig} {calls : I → Call} {w₀ w : World I}
    (hbegins : w₀.Begins) (hrun : Runs (step rt cfg calls) (Orderly rt cfg calls) w₀ w) : w.Kept :=
  (hrun.invariant hbegins.told fun _ _ _ h horderly hstep => h.step horderly hstep).promises

/-! ### A fact that is lost -/

/-- A runtime that takes texts as they are. -/
def demoRuntime : Runtime where
  casefold s := s
  parseFactDatetime _ := none
  isoformat _ := ""
  mentionsUpload _ := false
  withoutUploads s := s

/-- The settings that are there by default. -/
def demoConfig : MemoryConfig where
  factConfidenceThreshold := 7 / 10
  maxFacts := 100
  stalenessAgeDays := 90
  stalenessProtectedCategories := ["correction"]
  stalenessMaxRemovalsPerCycle := 10
  consolidationEnabled := false
  consolidationMinFacts := 8
  consolidationMaxGroupsPerCycle := 3
  consolidationMaxSources := 8

/-- An answer that changes nothing. -/
def noUpdates : UpdateData := ⟨fun _ => none, [], [], [], []⟩

/-- One call creates a fact, the other is a conversation update. -/
def demoCalls : Bool → Call
  | false => .create "likes tea" "preference" (9 / 10)
  | true => .converse "thread" (some noUpdates)

def demoMoment (id : String) : Moment := ⟨0, "2026-10-01", fun _ => id⟩

/-- The fact that the first call creates. -/
def demoFact : Fact :=
  ⟨some "fact_1", "likes tea", "preference", 9 / 10, "2026-10-01", "manual", none, none⟩

def demoWorld : World Bool := ⟨createEmptyMemory "2026-09-30", fun _ => .called, [], fun _ => .open⟩

theorem demoWorld_begins : demoWorld.Begins :=
  ⟨by simp [demoWorld, createEmptyMemory, idsOf], fun _ => rfl⟩

instance (w : World I) (call : Call) : Decidable (Spares rt cfg m w call) :=
  match call with
  | .converse threadId (some u) => decidable_of_iff
      (∀ f ∈ w.doc.facts, (f.id.all fun id => (w.fate id).isKept →
        Named u f ∨ Spared rt cfg m threadId u w.doc.facts f) = true) <| by
    refine forall₂_congr fun f _ => ?_
    cases f.id with
    | none => simp
    | some id => cases hkept : (w.fate id).isKept <;> simp [hkept]
  | .converse _ none | .create _ _ _ | .update _ _ _ _ | .delete _ => isTrue trivial

instance (w : World I) (a : Act I) : Decidable (Orderly rt cfg calls w a) :=
  match a with
  | .save i m =>
    match h : w.stage i with
    | .loaded d =>
      decidable_of_iff (((calls i).result rt cfg m d).isSome = true →
          d = w.doc ∧ Spares rt cfg m w (calls i)) <| by
        simp [Orderly, h]
    | .called => isTrue fun d hd => by simp [h] at hd
    | .done _ => isTrue fun d hd => by simp [h] at hd
  | .load _ => isTrue trivial
  | .fail _ => isTrue trivial

theorem edits_stand_demo : ∃ w : World Bool,
    runWith (step demoRuntime demoConfig demoCalls) (Orderly demoRuntime demoConfig demoCalls) demoWorld
      [.load false, .save false (demoMoment "fact_1"), .load true, .save true (demoMoment "fact_2")] =
        some w ∧ w.Kept := by
  obtain ⟨w, hw⟩ : ∃ w, runWith (step demoRuntime demoConfig demoCalls)
      (Orderly demoRuntime demoConfig demoCalls) demoWorld
      [.load false, .save false (demoMoment "fact_1"), .load true,
        .save true (demoMoment "fact_2")] = some w := isSome_iff_exists.1 (by decide +kernel)
  exact ⟨w, hw, edits_stand demoWorld_begins (runs_of_runWith hw)⟩

/-- **A new fact is lost** when a conversation update has loaded the document before. -/
theorem created_lost : ¬∀ w : World Bool,
    Runs (step demoRuntime demoConfig demoCalls) (fun _ _ => True) demoWorld w → w.Kept := by
  intro h
  have hlast : ((runWith (step demoRuntime demoConfig demoCalls) (fun _ _ => True) demoWorld
      [.load true, .load false, .save false (demoMoment "fact_1"),
        .save true (demoMoment "fact_2")]).any fun w =>
      w.fate "fact_1" = .kept [demoFact] ∧ w.doc.facts = []) = true := by decide +kernel
  obtain ⟨w, hw, hend⟩ := (Option.any_eq_true _ _).1 hlast
  obtain ⟨hfate, hfacts⟩ := of_decide_eq_true hend
  have hlost := ((h w (runs_of_runWith hw)).kept _ _ hfate demoFact).2 List.mem_cons_self
  rw [hfacts] at hlost
  cases hlost.1

end AfterFlow.Memory.Edits
