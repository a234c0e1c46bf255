import AfterFlow.Memory.Document
import AfterFlow.PyStr
import Mathlib.Algebra.Order.Ring.Rat
import Mathlib.Data.List.Dedup
import Mathlib.Data.List.Sort

/-!
# What a conversation update makes of a document

The model's answer lists summaries, new facts, facts to remove, stale facts to remove and groups of
facts to merge. `_apply_updates` works it into the document it is given, and cuts the facts to
`max_facts`; `_strip_upload_mentions_from_memory` takes out what is about uploads.

Facts are taken out, added and merged, never changed. The answer of the model names facts that it
removes or merges. A fact that it does not name is in the new document as it was, if it has a place
among the `max_facts` and is not about an upload; and what is new has a new id.
-/

namespace AfterFlow.Memory

open List Option

/-! ### The answer of the model -/

structure NewFact where
  content : String
  category : String
  confidence : ℚ
  sourceError : Option String

/-- One of `factsToConsolidate`. -/
structure Merge where
  sourceIds : List String
  content : String
  category : String
  confidence : ℚ

inductive SectionName where
  | workContext
  | personalContext
  | topOfMind
  | recentMonths
  | earlierContext
  | longTermBackground

/-- What `_normalize_memory_update_data` makes of an answer. -/
structure UpdateData where
  /-- The summaries with `shouldUpdate`. -/
  summaries : SectionName → Option String
  newFacts : List NewFact
  factsToRemove : List String
  /-- The ids of `staleFactsToRemove`. -/
  staleFactsToRemove : List String
  factsToConsolidate : List Merge

structure MemoryConfig where
  factConfidenceThreshold : ℚ
  maxFacts : ℕ
  stalenessAgeDays : ℕ
  stalenessProtectedCategories : List String
  stalenessMaxRemovalsPerCycle : ℕ
  consolidationEnabled : Bool
  consolidationMinFacts : ℕ
  consolidationMaxGroupsPerCycle : ℕ
  consolidationMaxSources : ℕ

/-- Texts and times of the runtime. -/
structure Runtime where
  casefold : String → String
  /-- `_parse_fact_datetime`, in seconds. -/
  parseFactDatetime : String → Option ℤ
  isoformat : ℤ → String
  /-- `_UPLOAD_SENTENCE_RE.search`. -/
  mentionsUpload : String → Bool
  /-- A summary without its sentences on uploads. -/
  withoutUploads : String → String

/-- The time of an update, and the ids that it gives. -/
structure Moment where
  time : ℤ
  iso : String
  uuid : ℕ → String

variable (rt : Runtime) (cfg : MemoryConfig) (m : Moment) (threadId : String) (u : UpdateData)

/-! ### Removing facts -/

/-- Without the facts that have one of the ids. -/
def withoutIds (ids : List String) (facts : List Fact) : List Fact :=
  facts.filter fun f => !f.id.any fun id => id ∈ ids

/-- `_select_stale_candidates`. -/
def selectStaleCandidates (facts : List Fact) : List Fact :=
  facts.filter fun f => f.category ∉ cfg.stalenessProtectedCategories &&
    (rt.parseFactDatetime f.createdAt).any fun t => t < m.time - 86400 * cfg.stalenessAgeDays

/-- The ids of stale facts that are removed: candidates only, and not too many. -/
def staleIdsToRemove (facts : List Fact) : List String :=
  let candidateIds := (selectStaleCandidates rt cfg m facts).filterMap Fact.id
  let ids := (u.staleFactsToRemove.filter fun id => id ∈ candidateIds).dedup
  if cfg.stalenessMaxRemovalsPerCycle < ids.length then
    let staleFacts := facts.filter fun f => f.id.any fun id => id ∈ ids
    let sorted := staleFacts.insertionSort fun f g => f.confidence ≤ g.confidence
    (sorted.take cfg.stalenessMaxRemovalsPerCycle).filterMap Fact.id
  else ids

/-! ### Adding facts -/

/-- `_fact_content_key`. -/
def factContentKey (content : String) : Option String :=
  if PyStr.strip content = "" then none else some (rt.casefold (PyStr.strip content))

/-- `source_error`, if there is anything in it. -/
def nonBlank (text : Option String) : Option String :=
  (text.map PyStr.strip).filter fun text => text ≠ ""

/-- The loop over the new facts. `keys` is `existing_fact_keys`. -/
@[grind =] def addNewFacts : List (NewFact × ℕ) → List String → List Fact → List Fact
  | [], _, facts => facts
  | (new, n) :: rest, keys, facts =>
    if cfg.factConfidenceThreshold ≤ new.confidence then
      match factContentKey rt (PyStr.strip new.content) with
      | none => addNewFacts rest keys facts
      | some key =>
        if key ∈ keys then addNewFacts rest keys facts
        else
          let fact : Fact :=
            { id := some (m.uuid (2 * n)), content := PyStr.strip new.content
              category := new.category, confidence := new.confidence, createdAt := m.iso
              source := if threadId = "" then "unknown" else threadId
              sourceError := nonBlank new.sourceError, consolidated := none }
          addNewFacts rest (key :: keys) (facts ++ [fact])
    else addNewFacts rest keys facts

/-- The facts after the first three passes: listed, stale, new. -/
def revisedFacts (facts : List Fact) : List Fact :=
  let facts := withoutIds u.factsToRemove facts
  let facts := withoutIds (staleIdsToRemove rt cfg m u facts) facts
  addNewFacts rt cfg m threadId u.newFacts.zipIdx
    (facts.filterMap fun f => factContentKey rt f.content) facts

/-- At most `max_facts`, those with the greatest confidence. -/
def cutFacts (facts : List Fact) : List Fact :=
  if cfg.maxFacts < facts.length then
    (facts.insertionSort fun f g => g.confidence ≤ f.confidence).take cfg.maxFacts
  else facts

/-! ### Merging facts -/

/-- Whether the fact is in one of the groups of `_select_consolidation_candidates`. -/
def isConsolidationCandidate (facts : List Fact) (f : Fact) : Bool :=
  let category := PyStr.strip f.category
  category ≠ "" && category ∉ cfg.stalenessProtectedCategories &&
    cfg.consolidationMinFacts ≤ facts.countP fun g => PyStr.strip g.category = category

/-- `_coerce_source_confidence`. -/
def coerceSourceConfidence (f : Fact) : ℚ := max 0 (min f.confidence 1)

/-- `fact_index[sid]`: the last fact with the id. -/
def factIndex (facts : List Fact) (sid : String) : Option Fact :=
  facts.reverse.find? fun f => f.id = some sid

/-- The fact that a merge makes of its sources. -/
def mergedFact (d : Merge) (n : ℕ) (sources : List Fact) : Fact :=
  let maxSourceConf := (sources.map coerceSourceConfidence).foldl max 0
  let times := sources.map fun f => (rt.parseFactDatetime f.createdAt).getD m.time
  let errors := ((sources.filterMap Fact.sourceError).filter fun e => PyStr.strip e ≠ "").eraseDups
  { id := some (m.uuid (2 * n + 1)), content := PyStr.strip d.content, category := d.category
    confidence := min (max 0 (min d.confidence 1)) maxSourceConf
    createdAt := rt.isoformat (times.foldl max (times.headD m.time))
    source := "consolidation"
    sourceError := if errors = [] then none else some ("\n".intercalate errors)
    consolidated := some (m.iso, d.sourceIds) }

/-- The loop over the merges: the ids that are used up, and the facts that are made of them. -/
def mergeFacts (facts : List Fact) : List (Merge × ℕ) → List String × List Fact →
    List String × List Fact
  | [], st => st
  | (d, n) :: rest, (consumed, made) =>
    let fact := mergedFact rt m d n (d.sourceIds.filterMap (factIndex facts))
    if cfg.consolidationMaxGroupsPerCycle ≤ made.length then (consumed, made)
    else if d.sourceIds.any fun sid => sid ∈ consumed ∨
        !facts.any fun f => f.id = some sid && isConsolidationCandidate cfg facts f then
      mergeFacts facts rest (consumed, made)
    else if d.sourceIds.length < 2 ∨ cfg.consolidationMaxSources < d.sourceIds.length then
      mergeFacts facts rest (consumed, made)
    else if PyStr.strip d.content = "" then mergeFacts facts rest (consumed, made)
    else if fact.confidence < cfg.factConfidenceThreshold then
      mergeFacts facts rest (consumed, made)
    else mergeFacts facts rest (consumed ++ d.sourceIds, made ++ [fact])

/-- Consolidation. It raises where a fact of a group has no id. -/
def consolidateFacts (facts : List Fact) : Option (List Fact) :=
  if !cfg.consolidationEnabled || u.factsToConsolidate.isEmpty then some facts
  else if facts.any fun f => isConsolidationCandidate cfg facts f && f.id.isNone then none
  else
    let (consumed, made) := mergeFacts rt cfg m facts u.factsToConsolidate.zipIdx ([], [])
    if consumed = [] then some facts else some (withoutIds consumed facts ++ made)

/-! ### The document -/

def MemoryData.updateSummaries (d : MemoryData) (now : String) (new : SectionName → Option String) :
    MemoryData :=
  let pick (name : SectionName) (old : Section) : Section :=
    match new name with
    | some summary => if summary = "" then old else ⟨summary, now⟩
    | none => old
  { d with
    workContext := pick .workContext d.workContext
    personalContext := pick .personalContext d.personalContext
    topOfMind := pick .topOfMind d.topOfMind
    recentMonths := pick .recentMonths d.recentMonths
    earlierContext := pick .earlierContext d.earlierContext
    longTermBackground := pick .longTermBackground d.longTermBackground }

/-- `_apply_updates`, if it does not raise. -/
def applyUpdates (d : MemoryData) : Option MemoryData :=
  (consolidateFacts rt cfg m u (cutFacts cfg (revisedFacts rt cfg m threadId u d.facts))).map
    fun facts => { d.updateSummaries m.iso u.summaries with facts := facts }

/-- `_strip_upload_mentions_from_memory`. -/
def stripUploadMentions (d : MemoryData) : MemoryData :=
  let clean (s : Section) : Section := ⟨rt.withoutUploads s.summary, s.updatedAt⟩
  { d with
    workContext := clean d.workContext
    personalContext := clean d.personalContext
    topOfMind := clean d.topOfMind
    recentMonths := clean d.recentMonths
    earlierContext := clean d.earlierContext
    longTermBackground := clean d.longTermBackground
    facts := d.facts.filter fun f => !rt.mentionsUpload f.content }

/-- How many ids an update may give. -/
def UpdateData.idCount : ℕ := 2 * max u.newFacts.length u.factsToConsolidate.length

/-- The answer removes the fact, as wrong or as out of date, or merges it with others. -/
inductive Named (f : Fact) : Prop
  | listed (id : String) : f.id = some id → id ∈ u.factsToRemove → Named f
  | stale (id : String) : f.id = some id → id ∈ u.staleFactsToRemove → Named f
  | merged (id : String) (d : Merge) : f.id = some id → d ∈ u.factsToConsolidate →
      id ∈ d.sourceIds → Named f

/-- The fact has a place among the `max_facts`, and it is not about an upload. -/
structure Spared (facts : List Fact) (f : Fact) : Prop where
  room : (revisedFacts rt cfg m threadId u facts).countP (fun g => f.confidence ≤ g.confidence) ≤
    cfg.maxFacts
  upload : rt.mentionsUpload f.content = false

instance (f : Fact) : Decidable (Named u f) :=
  decidable_of_iff
    ((f.id.any fun id => id ∈ u.factsToRemove ∨ id ∈ u.staleFactsToRemove ∨
        ∃ d ∈ u.factsToConsolidate, id ∈ d.sourceIds) = true) <| by
    constructor
    · intro hid
      obtain ⟨id, hid, h⟩ := (any_eq_true _ _).1 hid
      rcases of_decide_eq_true h with h | h | ⟨d, hd, h⟩
      · exact .listed id hid h
      · exact .stale id hid h
      · exact .merged id d hid hd h
    · rintro (⟨id, hid, h⟩ | ⟨id, hid, h⟩ | ⟨id, d, hid, hd, h⟩)
      · simp [hid, h]
      · simp [hid, h]
      · simp only [hid, any_some, decide_eq_true_eq]
        exact .inr (.inr ⟨d, hd, h⟩)

instance (facts : List Fact) (f : Fact) : Decidable (Spared rt cfg m threadId u facts f) :=
  decidable_of_iff (_ ∧ _) ⟨fun h => ⟨h.1, h.2⟩, fun h => ⟨h.room, h.upload⟩⟩

/-! ### What stays and what comes -/

variable {rt cfg m threadId u} {facts facts' : List Fact} {f : Fact} {ids keys : List String}
  {id : String}

theorem mem_withoutIds :
    f ∈ withoutIds ids facts ↔ f ∈ facts ∧ ∀ id, f.id = some id → id ∉ ids := by
  cases hid : f.id with
  | none | some => simp [withoutIds, hid]

theorem staleIdsToRemove_subset (h : id ∈ staleIdsToRemove rt cfg m u facts) :
    id ∈ u.staleFactsToRemove := by
  simp only [staleIdsToRemove] at h
  split at h
  · obtain ⟨f, hf, hid⟩ := mem_filterMap.1 h
    have hmem := (mem_insertionSort _).1 (mem_of_mem_take hf)
    have hlisted := (mem_filter.1 hmem).2
    simp [hid] at hlisted
    exact hlisted.1
  · simp at h
    exact h.1

/-- New facts come behind the others, and they have new ids. -/
theorem addNewFacts_spec (new : List (NewFact × ℕ)) (keys : List String) (facts : List Fact) :
    ∃ added, addNewFacts rt cfg m threadId new keys facts = facts ++ added ∧
      ∀ f ∈ added, ∃ p ∈ new, f.id = some (m.uuid (2 * p.2)) := by
  induction new generalizing keys facts with
  | nil => exact ⟨[], by simp [addNewFacts], by simp⟩
  | cons p new ih =>
    obtain ⟨p, n⟩ := p
    have hskip : ∃ added, addNewFacts rt cfg m threadId new keys facts = facts ++ added ∧
        ∀ f ∈ added, ∃ q ∈ (p, n) :: new, f.id = some (m.uuid (2 * q.2)) := by
      obtain ⟨added, heq, hnew⟩ := ih keys facts
      refine ⟨added, heq, fun f hf => ?_⟩
      obtain ⟨q, hq, hid⟩ := hnew f hf
      exact ⟨q, mem_cons_of_mem _ hq, hid⟩
    rw [addNewFacts]
    split
    · split
      · exact hskip
      · split
        · exact hskip
        · obtain ⟨added, heq, hnew⟩ := ih _ (facts ++ [_])
          refine ⟨_ :: added, by rw [heq, append_assoc]; rfl, ?_⟩
          intro f hf
          rcases mem_cons.1 hf with rfl | hf
          · exact ⟨(p, n), mem_cons_self, rfl⟩
          · obtain ⟨q, hq, hid⟩ := hnew f hf
            exact ⟨q, mem_cons_of_mem _ hq, hid⟩
    · exact hskip

theorem mem_revisedFacts (h : f ∈ facts) (hkeep : ¬Named u f) :
    f ∈ revisedFacts rt cfg m threadId u facts := by
  obtain ⟨added, heq, -⟩ := @addNewFacts_spec rt cfg m threadId u.newFacts.zipIdx _ _
  rw [revisedFacts, heq]
  refine mem_append_left _ (mem_withoutIds.2 ⟨mem_withoutIds.2 ⟨h, ?_⟩, ?_⟩)
  · intro id hid hlisted
    exact hkeep (.listed id hid hlisted)
  · intro id hid hstale
    exact hkeep (.stale id hid (staleIdsToRemove_subset hstale))

theorem of_mem_revisedFacts (h : f ∈ revisedFacts rt cfg m threadId u facts) :
    f ∈ facts ∨ ∃ n < u.idCount, f.id = some (m.uuid n) := by
  obtain ⟨added, heq, hnew⟩ := @addNewFacts_spec rt cfg m threadId u.newFacts.zipIdx _ _
  rw [revisedFacts, heq] at h
  rcases mem_append.1 h with h | h
  · exact .inl (mem_withoutIds.1 (mem_withoutIds.1 h).1).1
  · obtain ⟨p, hp, hid⟩ := hnew f h
    have hlt := snd_lt_of_mem_zipIdx hp
    exact .inr ⟨_, by simp only [UpdateData.idCount]; omega, hid⟩

/-- A fact stays if no more facts than may stay are as certain as it is. -/
theorem mem_cutFacts (h : f ∈ facts)
    (hroom : facts.countP (fun g => f.confidence ≤ g.confidence) ≤ cfg.maxFacts) :
    f ∈ cutFacts cfg facts := by
  rw [cutFacts]
  split
  · rename_i hmany
    have : IsTrans Fact fun f g => g.confidence ≤ f.confidence := ⟨fun _ _ _ h h' => le_trans h' h⟩
    have : Std.Total fun f g : Fact => g.confidence ≤ f.confidence := ⟨fun _ _ => le_total _ _⟩
    have hsorted := pairwise_insertionSort (fun f g : Fact => g.confidence ≤ f.confidence) facts
    have hperm := perm_insertionSort (fun f g : Fact => g.confidence ≤ f.confidence) facts
    by_contra hcut
    have hmem := hperm.mem_iff.2 h
    rw [← take_append_drop cfg.maxFacts (insertionSort _ facts)] at hmem hsorted hperm
    have hdrop := (mem_append.1 hmem).resolve_left hcut
    have htake : ∀ g ∈ take cfg.maxFacts (insertionSort (fun f g => g.confidence ≤ f.confidence) facts),
        f.confidence ≤ g.confidence := fun g hg => (pairwise_append.1 hsorted).2.2 g hg f hdrop
    have hlength : (take cfg.maxFacts
        (insertionSort (fun f g => g.confidence ≤ f.confidence) facts)).length = cfg.maxFacts := by
      rw [length_take, length_insertionSort, Nat.min_eq_left (Nat.le_of_lt hmany)]
    rw [← hperm.countP_eq, countP_append, countP_eq_length.2 fun g hg => by simpa using htake g hg,
      hlength] at hroom
    have hpos : 0 < countP (fun g => decide (f.confidence ≤ g.confidence)) (drop cfg.maxFacts
        (insertionSort (fun f g => g.confidence ≤ f.confidence) facts)) :=
      countP_pos_iff.2 ⟨f, hdrop, by simp⟩
    omega
  · exact h

theorem of_mem_cutFacts (h : f ∈ cutFacts cfg facts) : f ∈ facts := by
  rw [cutFacts] at h
  split at h
  · exact (mem_insertionSort _).1 (mem_of_mem_take h)
  · exact h

/-- A merge uses up facts that the answer merges, and what it makes has a new id. -/
theorem mergeFacts_spec (merges : List (Merge × ℕ)) (st : List String × List Fact) :
    (∀ id ∈ (mergeFacts rt cfg m facts merges st).1,
      id ∈ st.1 ∨ ∃ d ∈ merges.map Prod.fst, id ∈ d.sourceIds) ∧
    ∀ f ∈ (mergeFacts rt cfg m facts merges st).2,
      f ∈ st.2 ∨ ∃ p ∈ merges, f.id = some (m.uuid (2 * p.2 + 1)) := by
  induction merges generalizing st with
  | nil => exact ⟨fun id h => .inl h, fun f h => .inl h⟩
  | cons p merges ih =>
    obtain ⟨d, n⟩ := p
    obtain ⟨consumed, made⟩ := st
    have hskip : (∀ id ∈ (mergeFacts rt cfg m facts merges (consumed, made)).1,
        id ∈ consumed ∨ ∃ d' ∈ ((d, n) :: merges).map Prod.fst, id ∈ d'.sourceIds) ∧
        ∀ f ∈ (mergeFacts rt cfg m facts merges (consumed, made)).2,
          f ∈ made ∨ ∃ p ∈ (d, n) :: merges, f.id = some (m.uuid (2 * p.2 + 1)) := by
      constructor
      · intro id h
        rcases (ih (consumed, made)).1 id h with h | ⟨d', hd', h⟩
        · exact .inl h
        · exact .inr ⟨d', mem_cons_of_mem _ hd', h⟩
      · intro f h
        rcases (ih (consumed, made)).2 f h with h | ⟨p, hp, h⟩
        · exact .inl h
        · exact .inr ⟨p, mem_cons_of_mem _ hp, h⟩
    simp only [mergeFacts]
    split
    · exact ⟨fun id h => .inl h, fun f h => .inl h⟩
    split
    · exact hskip
    split
    · exact hskip
    split
    · exact hskip
    split
    · exact hskip
    obtain ⟨hconsumed, hmade⟩ := ih (consumed ++ d.sourceIds, made ++
      [mergedFact rt m d n (d.sourceIds.filterMap (factIndex facts))])
    constructor
    · intro id h
      rcases hconsumed id h with h | ⟨d', hd', h⟩
      · rcases mem_append.1 h with h | h
        · exact .inl h
        · exact .inr ⟨d, mem_cons_self, h⟩
      · exact .inr ⟨d', mem_cons_of_mem _ hd', h⟩
    · intro f h
      rcases hmade f h with h | ⟨p, hp, h⟩
      · rcases mem_append.1 h with h | h
        · exact .inl h
        · exact .inr ⟨(d, n), mem_cons_self, by rw [mem_singleton.1 h]; rfl⟩
      · exact .inr ⟨p, mem_cons_of_mem _ hp, h⟩

theorem consolidateFacts_spec (h : consolidateFacts rt cfg m u facts = some facts') :
    (∀ f ∈ facts, (∀ id d, f.id = some id → d ∈ u.factsToConsolidate → id ∉ d.sourceIds) →
      f ∈ facts') ∧
    ∀ f ∈ facts', f ∈ facts ∨ ∃ n < u.idCount, f.id = some (m.uuid n) := by
  have hsame : facts = facts' → (∀ f ∈ facts, (∀ id d, f.id = some id → d ∈ u.factsToConsolidate →
      id ∉ d.sourceIds) → f ∈ facts') ∧
      ∀ f ∈ facts', f ∈ facts ∨ ∃ n < u.idCount, f.id = some (m.uuid n) := by
    rintro rfl
    exact ⟨fun f hf _ => hf, fun f hf => .inl hf⟩
  simp only [consolidateFacts] at h
  split at h
  · exact hsame (some.inj h)
  split at h
  · cases h
  split at h
  · exact hsame (some.inj h)
  cases h
  obtain ⟨hconsumed, hmade⟩ := @mergeFacts_spec rt cfg m facts u.factsToConsolidate.zipIdx ([], [])
  constructor
  · intro f hf hkeep
    refine mem_append_left _ (mem_withoutIds.2 ⟨hf, fun id hid hmem => ?_⟩)
    rcases hconsumed id hmem with h | ⟨d, hd, h⟩
    · cases h
    · rw [zipIdx_map_fst] at hd
      exact hkeep id d hid hd h
  · intro f hf
    rcases mem_append.1 hf with hf | hf
    · exact .inl (mem_withoutIds.1 hf).1
    · rcases hmade f hf with h | ⟨p, hp, hid⟩
      · cases h
      · have hlt := snd_lt_of_mem_zipIdx hp
        exact .inr ⟨_, by simp only [UpdateData.idCount]; omega, hid⟩

variable {d d' : MemoryData}

/-- **A fact that the answer does not name stays as it is.** -/
theorem mem_applyUpdates (h : applyUpdates rt cfg m threadId u d = some d') (hf : f ∈ d.facts)
    (hkeep : ¬Named u f) (hspared : Spared rt cfg m threadId u d.facts f) :
    f ∈ (stripUploadMentions rt d').facts := by
  obtain ⟨facts, hfacts, rfl⟩ := map_eq_some_iff.1 h
  have hcut : f ∈ cutFacts cfg (revisedFacts rt cfg m threadId u d.facts) :=
    mem_cutFacts (mem_revisedFacts hf hkeep) hspared.room
  have hmem := (consolidateFacts_spec hfacts).1 f hcut fun id d hid hd hs =>
    hkeep (.merged id d hid hd hs)
  exact mem_filter.2 ⟨hmem, by rw [hspared.upload, Bool.not_false]⟩

/-- **What is new has a new id.** -/
theorem of_mem_applyUpdates (h : applyUpdates rt cfg m threadId u d = some d')
    (hf : f ∈ (stripUploadMentions rt d').facts) :
    f ∈ d.facts ∨ ∃ n < u.idCount, f.id = some (m.uuid n) := by
  obtain ⟨facts, hfacts, rfl⟩ := map_eq_some_iff.1 h
  rcases (consolidateFacts_spec hfacts).2 f (mem_filter.1 hf).1 with hf | hf
  · exact of_mem_revisedFacts (of_mem_cutFacts hf)
  · exact .inr hf

end AfterFlow.Memory
