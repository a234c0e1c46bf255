import AfterFlow.Journaling.Callbacks
import AfterFlow.Keyed.Latest
import Mathlib.Algebra.GroupWithZero.Nat

/-!
# Token totals

What the callbacks report about tokens is a list of model calls, each with the id it was reported
under. The first report of an id that has any tokens counts, and the totals are the sums over these
calls: all of them, those of each kind of caller, and those of each model.

## Main results

* `tokens_add_up` — the totals are the sums over the counted calls
-/

namespace AfterFlow.Journaling

open Keyed RunJournal

/-! ### Reported calls -/

/-- The id a model call is reported under. -/
inductive Source where
  | langchain (runId : String)
  | external (sourceRunId : String)
  deriving DecidableEq

structure Call where
  kind : CallerKind
  model : String
  input : ℕ
  output : ℕ
  total : ℕ
  deriving DecidableEq

def messageCall (caller : String) (m : Message) : Call :=
  let usage := m.usageMetadata.getD {}
  let input := usage.inputTokens.getD 0
  let output := usage.outputTokens.getD 0
  ⟨callerKind caller, modelKey (pyOr m.modelName m.model), input, output,
    reportedTotal input output (usage.totalTokens.getD 0)⟩

def recordCall (record : UsageRecord) : Call :=
  let input := record.inputTokens.getD 0
  let output := record.outputTokens.getD 0
  ⟨callerKind (getText record.caller), modelKey record.modelName, input, output,
    reportedTotal input output (record.totalTokens.getD 0)⟩

/-- A report counts if it has an id and tokens. -/
def Counts (p : Source × Call) : Prop := p.1 ≠ .external "" ∧ 0 < p.2.total

instance (p : Source × Call) : Decidable (Counts p) := inferInstanceAs (Decidable (_ ∧ _))

/-- The calls that a callback reports. -/
@[grind =] def Callback.calls : Callback → List (Source × Call)
  | .llmEnd generations runId tags =>
    ((messagesOf generations).map fun m =>
      (Source.langchain runId, messageCall (identifyCaller tags) m)).filter fun p => Counts p
  | .externalUsage records =>
    (records.map fun r => (Source.external (getText r.sourceRunId), recordCall r)).filter
      fun p => Counts p
  | _ => []

def Label.calls : Label → List (Source × Call)
  | .callback c _ => c.calls
  | _ => []

theorem calls_of_work {l : Label} (h : ∀ c loop, l ≠ .callback c loop) : l.calls = [] := by
  cases l with
  | callback c loop => exact absurd rfl (h c loop)
  | task | flush | flushStep => rfl

/-- All calls that a history reports. -/
def reported (history : List Label) : List (Source × Call) := history.flatMap Label.calls

/-- The calls that are counted: the first report of each id, if tokens are tracked. -/
def counted (cfg : Config) (history : List Label) : List (Source × Call) :=
  if cfg.trackTokens then firsts (reported history) else []

/-- The sum of a measure of calls. -/
def sumOf (f : Call → ℕ) (l : List (Source × Call)) : ℕ := (l.map fun p => f p.2).sum

@[simp] theorem sumOf_nil (f : Call → ℕ) : sumOf f [] = 0 := rfl

@[simp] theorem sumOf_concat (f : Call → ℕ) (l : List (Source × Call)) (p : Source × Call) :
    sumOf f (l ++ [p]) = sumOf f l + f p.2 := by
  simp [sumOf]

/-- The tokens of the calls by one kind of caller. -/
def ofKind (kind : CallerKind) (c : Call) : ℕ := if c.kind = kind then c.total else 0

theorem sumOf_total (l : List (Source × Call)) :
    sumOf Call.total l = sumOf (ofKind .leadAgent) l + sumOf (ofKind .subagent) l +
      sumOf (ofKind .middleware) l := by
  induction l using List.reverseRecOn with
  | nil => rfl
  | append_singleton l p ih =>
    simp only [sumOf_concat, ih, ofKind]
    cases p.2.kind <;> simp <;> omega

/-! ### Buckets -/

variable {buckets : Table String ModelUsage ModelUsage.model} {modelName : Option String}
  {input output total cacheRead : ℕ}

/-- **One call more in a bucket.** -/
theorem sum_recordModelUsage {f : ModelUsage → ℕ} {n : ℕ}
    (hadd : ∀ b : ModelUsage, f (b.add input output total cacheRead) = f b + n)
    (hnew : ∀ model, f ⟨model, 0, 0, 0, none⟩ = 0) (h : 0 < total) :
    (recordModelUsage buckets modelName input output total cacheRead).sum f =
      buckets.sum f + n := by
  rw [recordModelUsage, if_neg h.ne']
  split
  · rename_i bucket hfind
    have hkey : bucket.model = modelKey modelName := Table.key_of_find? hfind
    have hadded : buckets.find? (bucket.add input output total cacheRead).model = some bucket :=
      (congrArg buckets.find? hkey).trans hfind
    have hsum := Table.sum_put (f := f) hadded
    rw [hadd] at hsum
    omega
  · rename_i hfind
    have hsum := Table.sum_insert (f := f) (t := buckets)
      (r := ModelUsage.add ⟨modelKey modelName, 0, 0, 0, none⟩ input output total cacheRead)
      (h := hfind)
    rwa [hadd, hnew, Nat.zero_add] at hsum

/-! ### One report -/

/-- The ids that have been counted. -/
def TokenTotals.Known (t : TokenTotals) : Source → Prop
  | .langchain runId => runId ∈ t.countedLlmRunIds
  | .external sourceId => sourceId ∈ t.countedExternalSourceIds

/-- The total of a kind of caller. -/
def TokenTotals.kindTokens (t : TokenTotals) : CallerKind → ℕ
  | .leadAgent => t.leadAgentTokens
  | .subagent => t.subagentTokens
  | .middleware => t.middlewareTokens

/-- `t'` is `t` with one more call. -/
structure Added (t t' : TokenTotals) (p : Source × Call) : Prop where
  input : t'.totalInputTokens = t.totalInputTokens + p.2.input
  output : t'.totalOutputTokens = t.totalOutputTokens + p.2.output
  total : t'.totalTokens = t.totalTokens + p.2.total
  kind : ∀ k, t'.kindTokens k = t.kindTokens k + ofKind k p.2
  models : t'.tokensByModel.sum ModelUsage.totalTokens =
    t.tokensByModel.sum ModelUsage.totalTokens + p.2.total
  known : ∀ source, t'.Known source ↔ t.Known source ∨ source = p.1

/-- What a report does: it adds its call, unless its id is known or it does not count. -/
structure Reported (t t' : TokenTotals) (p : Source × Call) : Prop where
  skipped : ¬Counts p ∨ t.Known p.1 → t' = t
  added : Counts p → ¬t.Known p.1 → Added t t' p

theorem kindTokens_addToCaller (t : TokenTotals) (kind k : CallerKind) (n : ℕ) :
    (t.addToCaller kind n).kindTokens k = t.kindTokens k + if kind = k then n else 0 := by
  cases kind <;> cases k <;> rfl

@[simp] theorem countedLlmRunIds_addToCaller (t : TokenTotals) (kind : CallerKind) (n : ℕ) :
    (t.addToCaller kind n).countedLlmRunIds = t.countedLlmRunIds := by
  cases kind <;> rfl

@[simp] theorem countedExternalSourceIds_addToCaller (t : TokenTotals) (kind : CallerKind) (n : ℕ) :
    (t.addToCaller kind n).countedExternalSourceIds = t.countedExternalSourceIds := by
  cases kind <;> rfl

theorem reported_message (t : TokenTotals) (runId caller : String) (m : Message) :
    Reported t (t.countMessage runId caller m) (.langchain runId, messageCall caller m) := by
  constructor
  · rintro (hcounts | hknown)
    · refine if_neg fun h => hcounts ⟨by simp, h.1⟩
    · exact if_neg fun h => h.2 hknown
  · rintro ⟨-, hpos⟩ hknown
    rw [TokenTotals.countMessage]
    simp only
    rw [if_pos ⟨hpos, hknown⟩]
    constructor
    · rfl
    · rfl
    · rfl
    · intro k
      refine Eq.trans ?_ (kindTokens_addToCaller t (callerKind caller) k _)
      cases k <;> rfl
    · exact sum_recordModelUsage (fun _ => rfl) (fun _ => rfl) hpos
    · rintro (r | r)
      · simp [TokenTotals.Known, or_comm]
      · simp [TokenTotals.Known]

theorem reported_record (t : TokenTotals) (record : UsageRecord) :
    Reported t (t.countRecord record)
      (.external (getText record.sourceRunId), recordCall record) := by
  constructor
  · intro h
    rw [TokenTotals.countRecord]
    by_cases hid : getText record.sourceRunId = ""
    · exact if_pos hid
    · rcases h with hcounts | hknown
      · have hzero : (recordCall record).total = 0 := by
          by_contra hpos
          exact hcounts ⟨by simpa using hid, Nat.pos_of_ne_zero hpos⟩
        simp only
        rw [if_neg hid]
        split
        · rfl
        · exact if_pos hzero
      · simp only
        rw [if_neg hid]
        exact if_pos hknown
  · rintro ⟨hid, hpos⟩ (hknown : getText record.sourceRunId ∉ t.countedExternalSourceIds)
    have hzero : reportedTotal (record.inputTokens.getD 0) (record.outputTokens.getD 0)
        (record.totalTokens.getD 0) ≠ 0 := hpos.ne'
    rw [TokenTotals.countRecord]
    simp only
    rw [if_neg (by simpa using hid), if_neg hknown, if_neg hzero]
    constructor
    · rfl
    · rfl
    · rfl
    · intro k
      refine Eq.trans ?_ (kindTokens_addToCaller t (callerKind (getText record.caller)) k _)
      cases k <;> rfl
    · exact sum_recordModelUsage (fun _ => rfl) (fun _ => rfl) hpos
    · rintro (r | r)
      · simp [TokenTotals.Known]
      · simp [TokenTotals.Known, or_comm]

/-! ### Many reports -/

/-- The totals are the sums over the first reports of a list. -/
structure Tells (t : TokenTotals) (l : List (Source × Call)) : Prop where
  input : t.totalInputTokens = sumOf Call.input (firsts l)
  output : t.totalOutputTokens = sumOf Call.output (firsts l)
  total : t.totalTokens = sumOf Call.total (firsts l)
  kind : ∀ k, t.kindTokens k = sumOf (ofKind k) (firsts l)
  models : t.tokensByModel.sum ModelUsage.totalTokens = sumOf Call.total (firsts l)
  known : ∀ source, t.Known source ↔ source ∈ keys l

theorem Tells.nil : Tells {} [] := by
  constructor
  · rfl
  · rfl
  · rfl
  · intro k
    cases k <;> rfl
  · rfl
  · rintro (r | r) <;> simp [TokenTotals.Known]

variable {t t' : TokenTotals} {l : List (Source × Call)} {p : Source × Call}

/-- **One more report**, which may not count. -/
theorem Tells.report (h : Tells t l) (ht : Reported t t' p) :
    Tells t' (l ++ [p].filter fun p => Counts p) := by
  by_cases hcounts : Counts p
  · rw [List.filter_cons_of_pos (by simpa using hcounts), List.filter_nil]
    by_cases hknown : t.Known p.1
    · have hmem : p.1 ∈ keys l := (h.known p.1).1 hknown
      obtain rfl := ht.skipped (.inr hknown)
      have hfirsts : firsts (l ++ [p]) = firsts l := by rw [firsts_concat, if_pos hmem]
      refine ⟨?_, ?_, ?_, ?_, ?_, fun source => ?_⟩
      · rw [hfirsts, h.input]
      · rw [hfirsts, h.output]
      · rw [hfirsts, h.total]
      · simpa only [hfirsts] using h.kind
      · rw [hfirsts, h.models]
      · rw [h.known, keys, keys, List.map_append, List.mem_append]
        refine ⟨.inl, fun hs => hs.elim id fun hp => ?_⟩
        obtain rfl : source = p.1 := by simpa using hp
        exact hmem
    · have hmem : p.1 ∉ keys l := fun hp => hknown ((h.known p.1).2 hp)
      have hadded := ht.added hcounts hknown
      have hfirsts : firsts (l ++ [p]) = firsts l ++ [p] := by rw [firsts_concat, if_neg hmem]
      refine ⟨?_, ?_, ?_, fun k => ?_, ?_, fun source => ?_⟩
      · rw [hfirsts, sumOf_concat, hadded.input, h.input]
      · rw [hfirsts, sumOf_concat, hadded.output, h.output]
      · rw [hfirsts, sumOf_concat, hadded.total, h.total]
      · rw [hfirsts, sumOf_concat, hadded.kind, h.kind]
      · rw [hfirsts, sumOf_concat, hadded.models, h.models]
      · rw [hadded.known, h.known, keys, keys, List.map_append, List.mem_append, List.map_singleton,
          List.mem_singleton]
  · rw [List.filter_cons_of_neg (by simpa using hcounts), List.filter_nil, List.append_nil,
      ht.skipped (.inl hcounts)]
    exact h

/-- **The reports of a callback**, one after the other. -/
theorem Tells.reports {α : Type} {f : TokenTotals → α → TokenTotals} {g : α → Source × Call}
    (hf : ∀ t a, Reported t (f t a) (g a)) (as : List α) :
    ∀ {t l}, Tells t l → Tells (as.foldl f t) (l ++ (as.map g).filter fun p => Counts p) := by
  induction as with
  | nil =>
    intro t l h
    simpa using h
  | cons a as ih =>
    intro t l h
    have hrest := ih (h.report (hf t a))
    rwa [List.append_assoc, ← List.filter_append, List.singleton_append, ← List.map_cons] at hrest

/-! ### Histories -/

section

variable (cfg : Config) (loop : Bool) (s : RunJournal)

@[simp] theorem tokens_put (event : Event) : (s.put cfg loop event).tokens = s.tokens := rfl

@[simp] theorem tokens_flushSync : (s.flushSync loop).tokens = s.tokens := rfl

@[simp] theorem tokens_recordMessageSummary (m : Message) (caller : Option String) :
    (s.recordMessageSummary m caller).tokens = s.tokens := rfl

@[simp] theorem tokens_persistToolResultMessage (m : Message) :
    (s.persistToolResultMessage cfg loop m).tokens = s.tokens := rfl

theorem tokens_foldl {α : Type} {f : RunJournal → α → RunJournal}
    (hf : ∀ s a, (f s a).tokens = s.tokens) (as : List α) : (as.foldl f s).tokens = s.tokens :=
  List.foldlRecOn as f (motive := fun s' => s'.tokens = s.tokens) rfl
    fun s' h a _ => (hf s' a).trans h

@[simp] theorem tokens_captureHumanInput (caller : String) (batch : List Message) :
    (s.captureHumanInput cfg loop caller batch).tokens = s.tokens := by
  rw [captureHumanInput]
  split <;> rfl

@[simp] theorem tokens_captureHumanInputs (caller : String) (batches : List (List Message)) :
    (captureHumanInputs cfg loop caller batches s).tokens = s.tokens := by
  induction batches generalizing s with
  | nil => rfl
  | cons batch batches ih =>
    rw [captureHumanInputs]
    split
    · simp
    · rw [ih, tokens_captureHumanInput]

@[simp] theorem tokens_onChatModelStart (messages : List (List Message)) (runId : String)
    (tags : Option (List (Option String))) :
    (s.onChatModelStart cfg loop messages runId tags).tokens = s.tokens := by
  rw [onChatModelStart]
  simp only
  split
  · simp
  · rfl

@[simp] theorem tokens_reconcile (outputs : Outputs) :
    (s.reconcileFinalToolMessages cfg loop outputs).tokens = s.tokens := by
  refine tokens_foldl s (fun s m => ?_) _
  split <;> rfl

@[simp] theorem tokens_onToolEnd (output : ToolOutput) :
    (s.onToolEnd cfg loop output).tokens = s.tokens := by
  cases output with
  | message m =>
    rw [onToolEnd]
    split <;> rfl
  | command messages =>
    exact tokens_foldl s (fun s m => tokens_persistToolResultMessage cfg loop s m) _
  | other => rfl

@[simp] theorem tokens_rememberCurrentRunToolCalls (m : Message) (caller : String) :
    (s.rememberCurrentRunToolCalls m caller).tokens = s.tokens := by
  rw [rememberCurrentRunToolCalls]
  split <;> rfl

@[simp] theorem tokens_noteErrorFallback (m : Message) :
    (s.noteErrorFallback m).tokens = s.tokens := by
  rw [noteErrorFallback]
  split <;> rfl

@[simp] theorem tokens_resolveCallIndex (runId : String) :
    (s.resolveCallIndex runId).tokens = s.tokens := by
  rw [resolveCallIndex]
  split <;> rfl

@[simp] theorem tokens_putResponse (runId caller : String) (m : Message) :
    (s.putResponse cfg loop runId caller m).tokens = s.tokens := by
  rw [putResponse]
  split <;> rfl

theorem tokens_onLlmMessage (htrack : cfg.trackTokens = true) (runId caller : String) (m : Message) :
    (onLlmMessage cfg loop runId caller s m).tokens = s.tokens.countMessage runId caller m := by
  rw [onLlmMessage, countTokens, if_pos htrack]
  simp

theorem tokens_onLlmMessage_off (htrack : cfg.trackTokens = false) (runId caller : String)
    (m : Message) : (onLlmMessage cfg loop runId caller s m).tokens = s.tokens := by
  rw [onLlmMessage, countTokens, if_neg (by simp [htrack])]
  simp

theorem tokens_onLlmEnd (htrack : cfg.trackTokens = true)
    (generations : List (List (Option Message))) (runId : String)
    (tags : Option (List (Option String))) :
    (s.onLlmEnd cfg loop generations runId tags).tokens =
      (messagesOf generations).foldl
        (fun t m => t.countMessage runId (identifyCaller tags) m) s.tokens := by
  have hfold : ∀ (messages : List Message) (s : RunJournal),
      (messages.foldl (onLlmMessage cfg loop runId (identifyCaller tags)) s).tokens =
        messages.foldl (fun t m => t.countMessage runId (identifyCaller tags) m) s.tokens := by
    intro messages
    induction messages with
    | nil => exact fun _ => rfl
    | cons m messages ih =>
      intro s
      rw [List.foldl_cons, List.foldl_cons, ih, tokens_onLlmMessage cfg loop s htrack]
  rw [onLlmEnd, ← hfold]
  split <;> rfl

end

variable {cfg : Config} {s : RunJournal}

/-- **A callback** adds what it reports. -/
theorem Tells.callback (htrack : cfg.trackTokens = true) (loop : Bool) (c : Callback)
    (h : Tells s.tokens l) : Tells (s.callback cfg loop c).tokens (l ++ c.calls) := by
  cases c with
  | llmEnd generations runId tags =>
    rw [RunJournal.callback, tokens_onLlmEnd cfg loop s htrack]
    exact Tells.reports (fun t m => reported_message t runId _ m) _ h
  | externalUsage records =>
    rw [RunJournal.callback, recordExternalLlmUsageRecords, if_pos htrack]
    exact Tells.reports (fun t r => reported_record t r) records h
  | chainStart name parentRunId tags =>
    rw [RunJournal.callback, onChainStart]
    split <;> simpa [Callback.calls] using h
  | chainEnd outputs parentRunId =>
    rw [RunJournal.callback, onChainEnd]
    split <;> simpa [Callback.calls] using h
  | chainError error errorType => simpa [Callback.calls, RunJournal.callback, onChainError] using h
  | chatModelStart | llmStart => simpa [Callback.calls, RunJournal.callback] using h
  | llmError error => simpa [Callback.calls, RunJournal.callback, onLlmError] using h
  | toolStart | toolEnd => simpa [Callback.calls, RunJournal.callback] using h
  | middleware tag name hook action changes =>
    simpa [Callback.calls, RunJournal.callback, recordMiddleware] using h

/-- **The totals after any history** are the sums over the calls it reports. -/
theorem tells_after (htrack : cfg.trackTokens = true) (history : List Label) :
    Tells (RunJournal.after cfg history).tokens (reported history) := by
  induction history using List.reverseRecOn with
  | nil => exact Tells.nil
  | append_singleton history l ih =>
    rw [after_concat, reported, List.flatMap_append, List.flatMap_singleton]
    cases l with
    | callback c loop => exact ih.callback htrack loop c
    | task ok =>
      rw [calls_of_work (by simp), List.append_nil]
      exact ih
    | flush =>
      rw [calls_of_work (by simp), List.append_nil]
      exact ih
    | flushStep ok =>
      rw [calls_of_work (by simp), List.append_nil]
      exact ih

theorem tokens_callback_off (htrack : cfg.trackTokens = false) (loop : Bool) (c : Callback) :
    (s.callback cfg loop c).tokens = s.tokens := by
  cases c with
  | llmEnd generations runId tags =>
    rw [RunJournal.callback, onLlmEnd, ← tokens_foldl s
      (fun s m => tokens_onLlmMessage_off cfg loop s htrack runId (identifyCaller tags) m)
      (messagesOf generations)]
    split <;> rfl
  | externalUsage records =>
    rw [RunJournal.callback, recordExternalLlmUsageRecords, if_neg (by simp [htrack])]
  | chainStart name parentRunId tags =>
    rw [RunJournal.callback, onChainStart]
    split <;> rfl
  | chainEnd outputs parentRunId =>
    rw [RunJournal.callback, onChainEnd]
    split <;> simp
  | chainError error errorType => rfl
  | chatModelStart messages runId tags => exact tokens_onChatModelStart ..
  | llmStart | llmError | toolStart => rfl
  | toolEnd output => exact tokens_onToolEnd ..
  | middleware tag name hook action changes => rfl

theorem tokens_after_off (htrack : cfg.trackTokens = false) (history : List Label) :
    (RunJournal.after cfg history).tokens = {} := by
  induction history using List.reverseRecOn with
  | nil => rfl
  | append_singleton history l ih =>
    rw [after_concat, ← ih]
    cases l with
    | callback c loop => exact tokens_callback_off htrack loop c
    | task | flush | flushStep => rfl

theorem tells_counted (cfg : Config) (history : List Label) :
    ∃ l, Tells (RunJournal.after cfg history).tokens l ∧ counted cfg history = firsts l := by
  by_cases htrack : cfg.trackTokens = true
  · exact ⟨reported history, tells_after htrack history, if_pos htrack⟩
  · refine ⟨[], ?_, if_neg htrack⟩
    rw [tokens_after_off (by simpa using htrack)]
    exact .nil

/-- **Token accounting adds up.** After any history of callbacks and of work on the buffer the total
is what the lead agent, the subagents and the middlewares used, it is the sum of the models' totals,
and the totals are the sums over the counted calls. These are one for each id that was reported with
tokens, if tokens are tracked, and none otherwise. -/
theorem tokens_add_up (cfg : Config) (history : List Label) :
    let t := (RunJournal.after cfg history).tokens
    let calls := counted cfg history
    t.totalTokens = t.leadAgentTokens + t.subagentTokens + t.middlewareTokens ∧
    t.totalTokens = t.tokensByModel.sum ModelUsage.totalTokens ∧
    t.totalInputTokens = sumOf Call.input calls ∧
    t.totalOutputTokens = sumOf Call.output calls ∧
    t.totalTokens = sumOf Call.total calls ∧
    calls.Sublist (reported history) ∧ (keys calls).Nodup ∧
    ∀ source, source ∈ keys calls ↔ cfg.trackTokens = true ∧ source ∈ keys (reported history) := by
  intro t calls
  obtain ⟨l, h, hl⟩ := tells_counted cfg history
  have hcalls : calls = firsts l := hl
  have hkinds := sumOf_total (firsts l)
  rw [← h.kind, ← h.kind, ← h.kind, ← h.total] at hkinds
  refine ⟨hkinds, h.total.trans h.models.symm, ?_, ?_, ?_, ?_, ?_, fun source => ?_⟩
  · rw [hcalls]
    exact h.input
  · rw [hcalls]
    exact h.output
  · rw [hcalls]
    exact h.total
  · show (counted cfg history).Sublist _
    rw [counted]
    split
    · exact firsts_sublist
    · exact List.nil_sublist _
  · rw [hcalls]
    exact nodup_keys_firsts
  · show source ∈ keys (counted cfg history) ↔ _
    rw [counted]
    split
    · rename_i htrack
      rw [mem_keys_firsts, and_iff_right htrack]
    · rename_i htrack
      simp [htrack]

end AfterFlow.Journaling
