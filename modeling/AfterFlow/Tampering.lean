import AfterFlow.Audit

/-!
# What the audit chain is evidence of

A row is rewritten in the table and its stored hashes are left alone, or rows are deleted. A deleted
row is noticed unless it was at the end. A rewritten row is noticed if the text its hash is taken of
has changed. That text joins the fields with colons, while the fields may contain colons of their
own and a missing run or trace id is written like an empty one. So it is not the fields the chain
covers, but the pieces between their colons.

## Main results

* `tampering_noticed_iff` — which rewrites and deletions are noticed
-/

namespace AfterFlow

open Coop Chain List

/-! ### Joined texts -/

section Joined

variable {α : Type} [DecidableEq α] {x : α} {ls ls' : List (List α)}

theorem splitOn_intercalate_pieces (h : ls ≠ []) :
    ([x].intercalate ls).splitOn x = ls.flatMap (List.splitOn x) := by
  induction ls with
  | nil => exact absurd rfl h
  | cons l ls ih =>
    cases ls with
    | nil => simp
    | cons l' ls =>
      rw [intercalate_cons_cons, flatMap_cons, ← ih (cons_ne_nil _ _),
        append_assoc]
      exact splitOn_append_cons_self _ _

theorem intercalate_eq_iff (h : ls ≠ []) (h' : ls' ≠ []) :
    [x].intercalate ls = [x].intercalate ls' ↔
      ls.flatMap (List.splitOn x) = ls'.flatMap (List.splitOn x) := by
  rw [← splitOn_intercalate_pieces h, ← splitOn_intercalate_pieces h']
  refine ⟨fun heq => by rw [heq], fun heq => ?_⟩
  have hback := congrArg [x].intercalate heq
  rwa [intercalate_splitOn, intercalate_splitOn] at hback

end Joined

/-! ### What a hash covers -/

/-- The fields of an event its hash is taken of, besides the case. -/
def CaseEvent.fields (row : CaseEvent) : List String :=
  [row.eventType, row.actor, row.runId.getD "", row.traceId.getD "", row.metadata.dumps]

/-- The texts between the colons of the fields. -/
def CaseEvent.pieces (row : CaseEvent) : List (List Char) :=
  (row.fields.map String.toList).flatMap (List.splitOn ':')

/-- What is known of hexadecimal SHA-256 digests. -/
structure Digests (rt : Runtime) : Prop where
  injective : Function.Injective rt.sha256
  noColon : ∀ text, ':' ∉ (rt.sha256 text).toList
  nonempty : ∀ text, rt.sha256 text ≠ ""

variable {rt : Runtime} {row row' : CaseEvent} {prev prev' : String}

theorem CaseEvent.toList_hashed (row : CaseEvent) (prev : String) :
    (row.hashed prev).toList = prev.toList ++ ':' :: ((toString row.caseId).toList ++
      ':' :: [':'].intercalate (row.fields.map String.toList)) := by
  simp [CaseEvent.hashed, CaseEvent.fields, String.toList_append]

theorem CaseEvent.hashed_eq_iff (hcase : row.caseId = row'.caseId) :
    row.hashed prev = row'.hashed prev ↔ row.pieces = row'.pieces := by
  rw [← String.toList_inj, CaseEvent.toList_hashed, CaseEvent.toList_hashed, hcase,
    append_cancel_left_eq, cons_inj_right, append_cancel_left_eq, cons_inj_right,
    intercalate_eq_iff (by simp [CaseEvent.fields]) (by simp [CaseEvent.fields])]
  rfl

theorem CaseEvent.prev_eq_of_hashed (hprev : ':' ∉ prev.toList) (hprev' : ':' ∉ prev'.toList)
    (h : row.hashed prev = row'.hashed prev') : prev = prev' := by
  have hsplit := congrArg (List.splitOn ':') (congrArg String.toList h)
  rw [CaseEvent.toList_hashed, CaseEvent.toList_hashed,
    splitOn_append_cons_self_of_not_mem hprev,
    splitOn_append_cons_self_of_not_mem hprev'] at hsplit
  exact String.toList_inj.mp (List.cons.inj hsplit).1

theorem Digests.tells (hrt : Digests rt) : Scheme.Tells (auditScheme rt) "" where
  prev := by
    have hcolon : ∀ {p}, (auditScheme rt).Reached "" p → ':' ∉ p.toList := by
      rintro p (rfl | ⟨q, a, rfl⟩)
      · simp
      · exact hrt.noColon _
    intro p q a b hp hq h
    exact CaseEvent.prev_eq_of_hashed (hcolon hp) (hcolon hq) (hrt.injective h)
  root _ _ := hrt.nonempty _

/-! ### Rewritten rows -/

/-- New values for the fields of a row. -/
structure Rewrite where
  eventType : String
  actor : String
  runId : Option String
  traceId : Option String
  metadata : Json

/-- The row with new values and its stored hashes. -/
def CaseEvent.rewrite (row : CaseEvent) (v : Rewrite) : CaseEvent :=
  { row with
    eventType := v.eventType
    actor := v.actor
    runId := v.runId
    traceId := v.traceId
    metadata := v.metadata }

/-- Some value is another one; of metadata, the text is. -/
def Rewrite.Changes (v : Rewrite) (row : CaseEvent) : Prop :=
  v.eventType ≠ row.eventType ∨ v.actor ≠ row.actor ∨ v.runId ≠ row.runId ∨
    v.traceId ≠ row.traceId ∨ v.metadata.dumps ≠ row.metadata.dumps

instance (v : Rewrite) (row : CaseEvent) : Decidable (v.Changes row) :=
  inferInstanceAs (Decidable (_ ∨ _ ∨ _ ∨ _ ∨ _))

/-- Rewrite one row of the table. -/
def EventTable.rewrite (t : EventTable) (row : CaseEvent) (v : Rewrite) : EventTable where
  rows := t.rows.map fun r =>
    if r.caseId = row.caseId ∧ r.seq = row.seq then r.rewrite v else r
  seqs := by
    rw [map_map]
    convert t.seqs using 2
    funext r
    simp only [Function.comp_apply]
    split <;> rfl

variable {t t' : EventTable} {v : Rewrite}

private theorem ofCase_rewrite (t : EventTable) (row : CaseEvent) (v : Rewrite) :
    (t.rewrite row v).ofCase row.caseId =
      (t.ofCase row.caseId).map fun r => if r.seq = row.seq then r.rewrite v else r := by
  have hsame : ∀ r : CaseEvent,
      (if r.caseId = row.caseId ∧ r.seq = row.seq then r.rewrite v else r).caseId = r.caseId := by
    intro r
    split <;> rfl
  rw [EventTable.ofCase, EventTable.rewrite, filter_map, EventTable.ofCase]
  simp only [Function.comp_def, hsame]
  refine map_congr_left fun r hr => ?_
  rw [mem_filter, decide_eq_true_eq] at hr
  simp only [hr.2, true_and]

theorem Chained.chain_rewrite (h : Chained rt t) (hrow : row ∈ t.rows) :
    ∃ l₁ l₂, t.chain row.caseId = l₁ ++ row :: l₂ ∧
      (t.rewrite row v).chain row.caseId = l₁ ++ row.rewrite v :: l₂ := by
  obtain ⟨l₁, l₂, hl⟩ := append_of_mem (EventTable.mem_ofCase.mpr ⟨hrow, rfl⟩)
  have hp := h.pairwise row.caseId
  have hseq : ∀ r : CaseEvent, (if r.seq = row.seq then r.rewrite v else r).seq = r.seq := by
    intro r
    split <;> rfl
  refine ⟨l₁, l₂, by rw [h.chain_eq, hl], ?_⟩
  rw [EventTable.chain_eq_of_pairwise, ofCase_rewrite, hl]
  · rw [hl, pairwise_append, pairwise_cons] at hp
    obtain ⟨-, ⟨hafter, -⟩, hbefore⟩ := hp
    have hkeep : ∀ l : List CaseEvent, (∀ r ∈ l, r.seq ≠ row.seq) →
        (l.map fun r => if r.seq = row.seq then r.rewrite v else r) = l := fun l hne =>
      (map_congr_left fun r hr => if_neg (hne r hr)).trans (map_id' l)
    rw [map_append, map_cons, if_pos rfl,
      hkeep l₁ fun r hr => (hbefore r hr row mem_cons_self).ne,
      hkeep l₂ fun r hr => (hafter r hr).ne']
  · rw [ofCase_rewrite, pairwise_map]
    simpa only [hseq] using hp

theorem Chained.rewrite_noticed_iff (h : Chained rt t) (hrt : Digests rt) (hrow : row ∈ t.rows) :
    (verifyEventChain rt (t.rewrite row v) row.caseId).valid = false ↔
      (row.rewrite v).pieces ≠ row.pieces := by
  obtain ⟨l₁, l₂, hchain, hchain'⟩ := h.chain_rewrite (v := v) hrow
  have hlinked : (auditScheme rt).Linked "" (l₁ ++ row :: l₂) := by
    rw [← hchain, h.chain_eq]
    exact h.linked row.caseId
  rw [← Bool.not_eq_true, not_iff_not, verifyEventChain_valid, hchain',
    Scheme.linked_replace (b := row.rewrite v) hlinked rfl rfl]
  exact hrt.injective.eq_iff.trans (CaseEvent.hashed_eq_iff rfl)

/-! ### Deleted rows -/

theorem Chained.deletion_noticed (h : Chained rt t) (hrt : Digests rt)
    (hsub : t'.rows.Sublist t.rows) (hrow : row ∈ t.rows) (hgone : row ∉ t'.rows)
    (hrow' : row' ∈ t'.rows) (hcase : row'.caseId = row.caseId) (hlater : row.seq < row'.seq) :
    (verifyEventChain rt t' row.caseId).valid = false := by
  have hsub' : (t'.ofCase row.caseId).Sublist (t.ofCase row.caseId) := hsub.filter _
  have hp := h.pairwise row.caseId
  rw [← Bool.not_eq_true, verifyEventChain_valid, EventTable.chain_eq_of_pairwise (hp.sublist hsub')]
  intro hlinked
  obtain ⟨rest, hrest⟩ : t'.ofCase row.caseId <+: t.ofCase row.caseId :=
    Scheme.Linked.prefix_of_sublist hrt.tells (h.linked row.caseId) hsub' hlinked
  have hmem : row ∈ t'.ofCase row.caseId ++ rest :=
    hrest ▸ EventTable.mem_ofCase.mpr ⟨hrow, rfl⟩
  rcases mem_append.mp hmem with hkept | hlost
  · exact hgone (EventTable.mem_ofCase.mp hkept).1
  · rw [← hrest, pairwise_append] at hp
    have hlt := hp.2.2 row' (EventTable.mem_ofCase.mpr ⟨hrow', hcase⟩) row hlost
    exact absurd hlater (Nat.lt_asymm hlt)

/-- **What the chain is evidence of.** In every chain the calls of `append_event` have made, a row
that is rewritten under its stored hashes is noticed exactly if its pieces between colons have
changed, and a row that is deleted is noticed if a later one of its case is still there. -/
theorem tampering_noticed_iff (rt : Runtime) (hrt : Digests rt) (w : World) (s : AuditState)
    (hs : Steps (auditProgram rt) (fun _ _ => True)
      ⟨{ w with db := { w.db with events := .empty } }, []⟩ s) :
    (∀ row ∈ s.world.db.events.rows, ∀ v : Rewrite,
      ((verifyEventChain rt (s.world.db.events.rewrite row v) row.caseId).valid = false ↔
        (row.rewrite v).pieces ≠ row.pieces)) ∧
    ∀ row ∈ s.world.db.events.rows, ∀ t : EventTable, t.rows.Sublist s.world.db.events.rows →
      row ∉ t.rows → (∃ row' ∈ t.rows, row'.caseId = row.caseId ∧ row.seq < row'.seq) →
      (verifyEventChain rt t row.caseId).valid = false := by
  have h : Chained rt s.world.db.events := audit_chained Chained.empty hs
  refine ⟨fun row hrow v => h.rewrite_noticed_iff hrt hrow, ?_⟩
  rintro row hrow t hsub hgone ⟨row', hrow', hcase, hlater⟩
  exact h.deletion_noticed hrt hsub hrow hgone hrow' hcase hlater

/-! ### A trace id with a colon -/

/-- Letters for colons, so that a text without colons can be read back. -/
def escapeColon (c : Char) : List Char :=
  if c = ':' then ['.', 'c'] else if c = '.' then ['.', 'd'] else [c]

/-- The demo's runtime with digests that can be told from what they are joined with. -/
def escapedRuntime : Runtime :=
  { demoRuntime with sha256 := fun s => String.ofList ('x' :: s.toList.flatMap escapeColon) }

private theorem escapeColon_append {c d : Char} {l l' : List Char}
    (h : escapeColon c ++ l = escapeColon d ++ l') : c = d ∧ l = l' := by
  simp only [escapeColon] at h
  grind

private theorem flatMap_escapeColon_injective :
    Function.Injective fun l : List Char => l.flatMap escapeColon := by
  have hne : ∀ c, escapeColon c ≠ [] := fun c => by
    simp only [escapeColon]
    split
    · simp
    · split <;> simp
  intro l
  induction l with
  | nil =>
    intro l' h
    cases l' with
    | nil => rfl
    | cons c l' => simp [hne c] at h
  | cons c l ih =>
    intro l' h
    cases l' with
    | nil => simp [hne c] at h
    | cons d l' =>
      obtain ⟨rfl, hl⟩ := escapeColon_append h
      rw [ih hl]

theorem escapedRuntime_digests : Digests escapedRuntime where
  injective s t h := by
    have hl := List.cons.inj (String.ofList_injective h)
    exact String.toList_inj.mp (flatMap_escapeColon_injective hl.2)
  noColon s := by
    simp only [escapedRuntime, String.toList_ofList, mem_cons, mem_flatMap, not_or,
      not_exists, escapeColon]
    refine ⟨by decide, fun c => ?_⟩
    grind
  nonempty s h := by
    have hl := congrArg String.toList h
    simp [escapedRuntime] at hl

/-- One row, its trace id taken from a header. -/
def tracedAppend : AuditState :=
  (run (auditProgram escapedRuntime)
    ⟨{ autoDecided with db := { autoDecided.db with events := .empty } }, []⟩
    (.spawn { caseId := 0, userId := "alice", actor := "alice", eventType := "approval_granted",
              traceId := some "a:b" } :: List.replicate 6 (.resume 0 .ok))).get (by decide +kernel)

/-- The row of that run. -/
def tracedRow : CaseEvent := tracedAppend.world.db.events.rows.head (by decide +kernel)

/-- Both ids rewritten, a part of one moved into the other. -/
def movedIds : Rewrite := ⟨"approval_granted", "alice", some ":a", some "b", .obj []⟩

/-- The missing run id rewritten as an empty one. -/
def emptiedId : Rewrite := ⟨"approval_granted", "alice", some "", some "a:b", .obj []⟩

/-- Two rewritten rows the verifier does not notice. -/
theorem rewrite_unnoticed :
    Digests escapedRuntime ∧
    Steps (auditProgram escapedRuntime) (fun _ _ => True)
      ⟨{ autoDecided with db := { autoDecided.db with events := .empty } }, []⟩ tracedAppend ∧
    tracedRow ∈ tracedAppend.world.db.events.rows ∧
    ∀ v ∈ [movedIds, emptiedId], v.Changes tracedRow ∧
      verifyEventChain escapedRuntime (tracedAppend.world.db.events.rewrite tracedRow v)
        tracedRow.caseId = ⟨true, none, 1⟩ := by
  refine ⟨escapedRuntime_digests, Steps.of_run_get _, head_mem _, ?_⟩
  decide +kernel

/-- Another actor is noticed. -/
theorem tampering_noticed_demo :
    (verifyEventChain escapedRuntime (tracedAppend.world.db.events.rewrite tracedRow
      ⟨"approval_granted", "bob", none, some "a:b", .obj []⟩) tracedRow.caseId).valid = false :=
  ((tampering_noticed_iff escapedRuntime escapedRuntime_digests autoDecided tracedAppend
    (Steps.of_run_get _)).1 tracedRow (head_mem _) _).mpr (by decide +kernel)

end AfterFlow
