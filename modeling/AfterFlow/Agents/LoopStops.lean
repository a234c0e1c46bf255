import AfterFlow.Agents.LoopDetection
import Mathlib.Algebra.GroupWithZero.Nat

/-!
# When a run is stopped

A run is stopped no later than the response at which a set of calls has come for the `hardLimit`-th
time within the window. It is stopped no later than the response at which a tool has been called as
often as it may be, and the order of the calls in a response makes no difference, if no warning
comes before all calls of its response are counted.

## Main results

* `countCalls_cases` — what counting comes to does not depend on the order
* `loops_stop` — runs are stopped
-/

namespace AfterFlow.Agents.LoopDetection

open Events Transition List

variable {lib : Library} {cfg : Config} {t : Tracked} {call : ToolCall} {calls calls' : List ToolCall}
  {s : Middleware} {threadId name : String}

/-! ### Counting -/

/-- How often a tool is called. -/
def callsOf (name : String) (calls : List ToolCall) : ℕ := calls.countP fun call => call.name = name

/-- No call is counted. -/
def Unnamed (calls : List ToolCall) : Prop := ∀ call ∈ calls, call.name = ""

/-- A warning of the second layer comes after the last call that is counted. -/
def CountsFrom (cfg : Config) (t : Tracked) : List ToolCall → Prop
  | [] => True
  | call :: calls =>
    if call.name = "" then CountsFrom cfg t calls
    else
      let t := t.count call.name
      let count := t.toolFreq call.name
      if (cfg.toolFreq call.name).2 ≤ count then True
      else if (cfg.toolFreq call.name).1 ≤ count ∧ call.name ∉ t.toolFreqWarned then Unnamed calls
      else CountsFrom cfg t calls

/-- All calls counted. -/
def Tracked.counted (t : Tracked) (calls : List ToolCall) : Tracked :=
  { t with toolFreq := fun name =>
    if name = "" then t.toolFreq name else t.toolFreq name + callsOf name calls }

/-- The tool is called too often. -/
structure Capped (cfg : Config) (t : Tracked) (calls : List ToolCall) (name : String) : Prop where
  named : name ≠ ""
  called : 0 < callsOf name calls
  reached : (cfg.toolFreq name).2 ≤ t.toolFreq name + callsOf name calls

/-- A warning of the tool is due. -/
structure Due (cfg : Config) (t : Tracked) (calls : List ToolCall) (name : String) : Prop where
  named : name ≠ ""
  called : 0 < callsOf name calls
  reached : (cfg.toolFreq name).1 ≤ t.toolFreq name + callsOf name calls
  new : name ∉ t.toolFreqWarned

theorem callsOf_cons : callsOf name (call :: calls) =
    callsOf name calls + if call.name = name then 1 else 0 := by
  rw [callsOf, countP_cons]
  simp [callsOf]

theorem callsOf_unnamed (h : Unnamed calls) (hname : name ≠ "") : callsOf name calls = 0 := by
  refine countP_eq_zero.2 fun call hcall => ?_
  simp [h call hcall, Ne.symm hname]

theorem callsOf_perm (h : calls.Perm calls') : callsOf name calls = callsOf name calls' :=
  h.countP_eq _

theorem Tracked.count_self : (t.count name).toolFreq name = t.toolFreq name + 1 :=
  Function.update_self ..

theorem Tracked.count_add : (t.count call.name).toolFreq name + callsOf name calls =
    t.toolFreq name + callsOf name (call :: calls) := by
  rw [callsOf_cons]
  by_cases h : call.name = name
  · subst h
    rw [Tracked.count_self, if_pos rfl]
    omega
  · rw [if_neg h]
    exact congrArg (· + callsOf name calls) (Function.update_of_ne (Ne.symm h) ..)

theorem Tracked.counted_unnamed_cons (h : call.name = "") :
    t.counted (call :: calls) = t.counted calls := by
  have hfreq : ∀ name, (t.counted (call :: calls)).toolFreq name = (t.counted calls).toolFreq name := by
    intro name
    by_cases hname : name = ""
    · simp [Tracked.counted, hname]
    · simp [Tracked.counted, hname, callsOf_cons, h]
  rw [Tracked.counted, Tracked.counted, Tracked.mk.injEq]
  exact ⟨rfl, rfl, funext hfreq, rfl⟩

theorem Tracked.counted_cons (h : call.name ≠ "") :
    t.counted (call :: calls) = (t.count call.name).counted calls := by
  rw [Tracked.counted, Tracked.counted, Tracked.mk.injEq]
  refine ⟨rfl, rfl, funext fun name => ?_, rfl⟩
  by_cases hname : name = ""
  · have hne : "" ≠ call.name := Ne.symm h
    rw [if_pos hname, if_pos hname, hname]
    exact (Function.update_of_ne hne ..).symm
  · rw [if_neg hname, if_neg hname]
    exact Tracked.count_add.symm

theorem Tracked.counted_unnamed (h : Unnamed calls) : t.counted calls = t := by
  rw [Tracked.counted, Tracked.mk.injEq]
  refine ⟨rfl, rfl, funext fun name => ?_, rfl⟩
  by_cases hname : name = ""
  · simp [hname]
  · simp [hname, callsOf_unnamed h hname]

/-- A call of the tool brings its count to `n`. -/
structure Reached (n : ℕ) (t : Tracked) (calls : List ToolCall) (name : String) : Prop where
  named : name ≠ ""
  called : 0 < callsOf name calls
  reached : n ≤ t.toolFreq name + callsOf name calls

theorem capped_iff : Capped cfg t calls name ↔ Reached (cfg.toolFreq name).2 t calls name :=
  ⟨fun h => ⟨h.named, h.called, h.reached⟩, fun h => ⟨h.named, h.called, h.reached⟩⟩

theorem due_iff : Due cfg t calls name ↔
    Reached (cfg.toolFreq name).1 t calls name ∧ name ∉ t.toolFreqWarned :=
  ⟨fun h => ⟨⟨h.named, h.called, h.reached⟩, h.new⟩,
    fun h => ⟨h.1.named, h.1.called, h.1.reached, h.2⟩⟩

section Reached

variable {n : ℕ}

theorem reached_unnamed_cons (h : call.name = "") :
    Reached n t (call :: calls) name ↔ Reached n t calls name := by
  have hcalls : name ≠ "" → callsOf name (call :: calls) = callsOf name calls := fun hname => by
    simp [callsOf_cons, h, Ne.symm hname]
  constructor
  · rintro ⟨hname, hcalled, hreached⟩
    rw [hcalls hname] at hcalled hreached
    exact ⟨hname, hcalled, hreached⟩
  · rintro ⟨hname, hcalled, hreached⟩
    rw [← hcalls hname] at hcalled hreached
    exact ⟨hname, hcalled, hreached⟩

theorem Reached.cons (h : Reached n (t.count call.name) calls name) :
    Reached n t (call :: calls) name := by
  refine ⟨h.named, ?_, ?_⟩
  · rw [callsOf_cons]
    exact Nat.add_pos_left h.called _
  · rw [← Tracked.count_add]
    exact h.reached

theorem Reached.tail (h : Reached n t (call :: calls) name)
    (hfirst : name = call.name → ¬ n ≤ (t.count call.name).toolFreq name) :
    Reached n (t.count call.name) calls name := by
  have hreached := h.reached
  rw [← Tracked.count_add] at hreached
  refine ⟨h.named, ?_, hreached⟩
  by_contra hzero
  have hcalled := h.called
  rw [callsOf_cons, Nat.eq_zero_of_not_pos hzero, Nat.zero_add] at hcalled
  split at hcalled
  · rename_i hname
    rw [Nat.eq_zero_of_not_pos hzero, Nat.add_zero] at hreached
    exact hfirst hname.symm hreached
  · exact Nat.lt_irrefl 0 hcalled

end Reached

/-- **What counting comes to.** If a warning comes after the last call, there is a stop where a tool
is called too often, else a warning where one is due, of the only tool of which it is. -/
theorem countCalls_cases (h : CountsFrom cfg t calls) :
    (∃ message t', countCalls cfg t calls = (.hardStop message, t') ∧
        ∃ name, Capped cfg t calls name) ∨
      (∀ name, ¬Capped cfg t calls name) ∧
        ((∃ message name, countCalls cfg t calls = (.warning message,
            (t.counted calls).warnOf name) ∧
            Due cfg t calls name ∧ ∀ other, Due cfg t calls other → other = name) ∨
          countCalls cfg t calls = (.none, t.counted calls) ∧ ∀ name, ¬Due cfg t calls name) := by
  induction calls generalizing t with
  | nil =>
    refine .inr ⟨fun name hcapped => ?_, .inr ⟨?_, fun name hdue => ?_⟩⟩
    · exact absurd hcapped.called (Nat.lt_irrefl 0)
    · rw [Tracked.counted_unnamed fun call hcall => absurd hcall not_mem_nil]
      rfl
    · exact absurd hdue.called (Nat.lt_irrefl 0)
  | cons call calls ih =>
    rw [CountsFrom] at h
    rw [countCalls]
    by_cases hunnamed : call.name = ""
    · -- the call is not counted
      rw [if_pos hunnamed] at h ⊢
      simp only [capped_iff, due_iff, reached_unnamed_cons hunnamed,
        Tracked.counted_unnamed_cons hunnamed]
      simp only [capped_iff, due_iff] at ih
      exact ih h
    · rw [if_neg hunnamed] at h ⊢
      simp only at h ⊢
      split at h
      · -- too often
        rename_i hhard
        rw [if_pos hhard]
        refine .inl ⟨_, _, rfl, call.name, hunnamed, ?_, ?_⟩
        · simp [callsOf_cons]
        · rw [← Tracked.count_add]
          exact hhard.trans (Nat.le_add_right _ _)
      · rename_i hhard
        rw [if_neg hhard]
        split at h
        · -- a warning, and nothing is left to count
          rename_i hwarn
          rw [if_pos hwarn]
          have honly : ∀ name, name ≠ "" → 0 < callsOf name (call :: calls) → name = call.name := by
            intro name hname hcalled
            by_contra hne
            rw [callsOf_cons, if_neg (Ne.symm hne), callsOf_unnamed h hname] at hcalled
            exact absurd hcalled (Nat.lt_irrefl 0)
          have hself : t.toolFreq call.name + callsOf call.name (call :: calls) =
              (t.count call.name).toolFreq call.name := by
            rw [← Tracked.count_add, callsOf_unnamed h hunnamed, Nat.add_zero]
          refine .inr ⟨fun name hcapped => ?_, .inl ⟨toolFreqWarningMsg call.name
            ((t.count call.name).toolFreq call.name), call.name, ?_, ?_, fun other hdue => ?_⟩⟩
          · obtain rfl := honly name hcapped.named hcapped.called
            exact hhard (hself ▸ hcapped.reached)
          · rw [Tracked.counted_cons hunnamed, Tracked.counted_unnamed h]
          · refine ⟨hunnamed, ?_, hself ▸ hwarn.1, hwarn.2⟩
            simp [callsOf_cons]
          · exact honly other hdue.named hdue.called
        · rename_i hwarn
          rw [if_neg hwarn]
          -- what holds of the last call of a tool held of the first if there is one call only
          have hcapped : ∀ name, Capped cfg t (call :: calls) name →
              Capped cfg (t.count call.name) calls name := fun name hcapped =>
            capped_iff.2 ((capped_iff.1 hcapped).tail fun hname => by rwa [hname])
          have hdue : ∀ name, Due cfg t (call :: calls) name →
              Due cfg (t.count call.name) calls name := fun name hdue => by
            obtain ⟨hreached, hnew⟩ := due_iff.1 hdue
            refine due_iff.2 ⟨hreached.tail ?_, hnew⟩
            rintro rfl hle
            exact hwarn ⟨hle, hnew⟩
          obtain ⟨message, t', heq, name, hc⟩ | ⟨hnone, hrest⟩ := ih h
          · exact .inl ⟨message, t', heq, name, capped_iff.2 (capped_iff.1 hc).cons⟩
          · refine .inr ⟨fun name hc => hnone name (hcapped name hc), ?_⟩
            rw [Tracked.counted_cons hunnamed]
            obtain ⟨message, name, heq, hd, honly⟩ | ⟨heq, hd⟩ := hrest
            · obtain ⟨hreached, hnew⟩ := due_iff.1 hd
              exact .inl ⟨message, name, heq, due_iff.2 ⟨hreached.cons, hnew⟩,
                fun other ho => honly other (hdue other ho)⟩
            · exact .inr ⟨heq, fun name hn => hd name (hdue name hn)⟩

theorem countCalls_history : (countCalls cfg t calls).2.history = t.history := by
  induction calls generalizing t with
  | nil => rfl
  | cons call calls ih =>
    rw [countCalls]
    split
    · exact ih
    · simp only
      split
      · rfl
      · split
        · rfl
        · exact ih

/-! ### Responses -/

def Verdict.stops : Verdict → Bool
  | .hardStop _ => true
  | _ => false

def Verdict.warns : Verdict → Bool
  | .warning _ => true
  | _ => false

/-- A warning of a response comes after all its calls are counted. -/
def Tracked.CountsAll (lib : Library) (cfg : Config) (t : Tracked) (calls : List ToolCall) : Prop :=
  let callHash := hashToolCalls lib calls
  let t := t.record cfg callHash
  let count := t.history.count callHash
  if cfg.hardLimit ≤ count then True
  else if cfg.warnThreshold ≤ count ∧ callHash ∉ t.warned then Unnamed calls
  else CountsFrom cfg t calls

theorem hashToolCalls_perm (h : calls.Perm calls') :
    hashToolCalls lib calls = hashToolCalls lib calls' := by
  have htotal : Std.Total fun a b : String => a ≤ b := ⟨fun _ _ => String.le_total ..⟩
  have htrans : IsTrans String fun a b => a ≤ b := ⟨fun _ _ _ => String.le_trans⟩
  have hsorted : ∀ l : List String, (l.insertionSort (· ≤ ·)).Pairwise (· ≤ ·) :=
    fun l => pairwise_insertionSort (· ≤ ·) l
  have hsort : (calls.map (normalizeToolCall lib)).insertionSort (· ≤ ·) =
      (calls'.map (normalizeToolCall lib)).insertionSort (· ≤ ·) := by
    refine List.Perm.eq_of_pairwise (fun a b _ _ hab hba => String.le_antisymm hab hba) (hsorted _)
      (hsorted _) ?_
    exact (perm_insertionSort _ _).trans
      ((h.map _).trans (perm_insertionSort _ _).symm)
  rw [hashToolCalls, hashToolCalls, hsort]

theorem check_history : (t.check lib cfg calls).2.history =
    latest cfg.windowSize (t.history ++ [hashToolCalls lib calls]) := by
  rw [Tracked.check]
  split
  · rfl
  · split
    · rfl
    · exact countCalls_history

theorem check_count (h : (t.check lib cfg calls).1.stops = false) :
    (latest cfg.windowSize (t.history ++ [hashToolCalls lib calls])).count
      (hashToolCalls lib calls) < cfg.hardLimit := by
  by_contra hge
  have hhard : cfg.hardLimit ≤ (t.record cfg (hashToolCalls lib calls)).history.count
      (hashToolCalls lib calls) := not_lt.1 hge
  rw [Tracked.check, if_pos hhard] at h
  cases h

/-- Calls that are not stopped are all counted, and no tool is called too often. -/
theorem check_freq (hall : t.CountsAll lib cfg calls) (h : (t.check lib cfg calls).1.stops = false)
    (hname : name ≠ "") :
    (t.check lib cfg calls).2.toolFreq name = t.toolFreq name + callsOf name calls ∧
      (0 < callsOf name calls → t.toolFreq name + callsOf name calls < (cfg.toolFreq name).2) := by
  rw [Tracked.CountsAll] at hall
  rw [Tracked.check] at h ⊢
  have hcounted : ∀ t : Tracked, (t.counted calls).toolFreq name =
      t.toolFreq name + callsOf name calls := fun t => if_neg hname
  split at hall
  · rename_i hhard
    rw [if_pos hhard] at h
    cases h
  · rename_i hhard
    rw [if_neg hhard] at h ⊢
    split at hall
    · rename_i hwarn
      rw [if_pos hwarn, callsOf_unnamed hall hname]
      exact ⟨rfl, fun hpos => absurd hpos (Nat.lt_irrefl 0)⟩
    · rename_i hwarn
      rw [if_neg hwarn] at h ⊢
      obtain ⟨message, t', heq, -⟩ | ⟨hnone, hrest⟩ := countCalls_cases hall
      · rw [heq] at h
        cases h
      · have hbelow : 0 < callsOf name calls →
            t.toolFreq name + callsOf name calls < (cfg.toolFreq name).2 := fun hpos =>
          not_le.1 fun hle => hnone name ⟨hname, hpos, hle⟩
        obtain ⟨message, other, heq, -⟩ | ⟨heq, -⟩ := hrest
        · rw [heq]
          exact ⟨hcounted _, hbelow⟩
        · rw [heq]
          exact ⟨hcounted _, hbelow⟩

theorem Capped.perm (h : calls.Perm calls') (hc : Capped cfg t calls name) :
    Capped cfg t calls' name :=
  ⟨hc.named, callsOf_perm h ▸ hc.called, callsOf_perm h ▸ hc.reached⟩

theorem Due.perm (h : calls.Perm calls') (hd : Due cfg t calls name) : Due cfg t calls' name :=
  ⟨hd.named, callsOf_perm h ▸ hd.called, callsOf_perm h ▸ hd.reached, hd.new⟩

theorem Tracked.counted_perm (h : calls.Perm calls') : t.counted calls = t.counted calls' := by
  rw [Tracked.counted, Tracked.counted]
  simp only [callsOf_perm h]

theorem countCalls_perm (hperm : calls.Perm calls') (h : CountsFrom cfg t calls)
    (h' : CountsFrom cfg t calls') :
    (countCalls cfg t calls').1.stops = (countCalls cfg t calls).1.stops ∧
      (countCalls cfg t calls').1.warns = (countCalls cfg t calls).1.warns ∧
      ((countCalls cfg t calls).1.stops = false →
        (countCalls cfg t calls').2 = (countCalls cfg t calls).2) := by
  obtain ⟨message, t₁, heq, name, hc⟩ | ⟨hnone, hrest⟩ := countCalls_cases h
  · obtain ⟨message', t₁', heq', -⟩ | ⟨hnone', -⟩ := countCalls_cases h'
    · rw [heq, heq']
      exact ⟨rfl, rfl, fun h => absurd h Bool.true_eq_false_eq_False⟩
    · exact absurd (hc.perm hperm) (hnone' name)
  · obtain ⟨message', t₁', heq', name, hc⟩ | ⟨-, hrest'⟩ := countCalls_cases h'
    · exact absurd (hc.perm hperm.symm) (hnone name)
    · obtain ⟨message, name, heq, hd, -⟩ | ⟨heq, hd⟩ := hrest
      · obtain ⟨message', name', heq', -, honly'⟩ | ⟨-, hd'⟩ := hrest'
        · rw [heq, heq', honly' name (hd.perm hperm), Tracked.counted_perm hperm]
          exact ⟨rfl, rfl, fun _ => rfl⟩
        · exact absurd (hd.perm hperm) (hd' name)
      · obtain ⟨message', name', heq', hd', -⟩ | ⟨heq', -⟩ := hrest'
        · exact absurd (hd'.perm hperm.symm) (hd name')
        · rw [heq, heq', Tracked.counted_perm hperm]
          exact ⟨rfl, rfl, fun _ => rfl⟩

theorem check_perm (hperm : calls.Perm calls') (h : t.CountsAll lib cfg calls)
    (h' : t.CountsAll lib cfg calls') :
    (t.check lib cfg calls').1.stops = (t.check lib cfg calls).1.stops ∧
      (t.check lib cfg calls').1.warns = (t.check lib cfg calls).1.warns ∧
      ((t.check lib cfg calls).1.stops = false →
        (t.check lib cfg calls').2 = (t.check lib cfg calls).2) := by
  rw [Tracked.CountsAll] at h h'
  rw [Tracked.check, Tracked.check]
  rw [← hashToolCalls_perm hperm] at h' ⊢
  split at h
  · rename_i hhard
    rw [if_pos hhard, if_pos hhard]
    exact ⟨rfl, rfl, fun _ => rfl⟩
  · rename_i hhard
    rw [if_neg hhard] at h' ⊢
    rw [if_neg hhard]
    split at h
    · rename_i hwarn
      rw [if_pos hwarn, if_pos hwarn]
      exact ⟨rfl, rfl, fun _ => rfl⟩
    · rename_i hwarn
      rw [if_neg hwarn] at h' ⊢
      rw [if_neg hwarn]
      exact countCalls_perm hperm h h'

/-! ### The middleware -/

variable {r : Response} {rs rs' : List Response}

theorem tracked_append {l : Middleware} (h : ∀ e ∈ l, e.1 ≠ threadId) :
    Middleware.tracked (l ++ [(threadId, t)]) threadId = t := by
  have hlookup : (l ++ [(threadId, t)]).lookup threadId = some t := by
    induction l with
    | nil => simp
    | cons e l ih =>
      have hne : (threadId == e.1) = false := beq_false_of_ne (Ne.symm (h e mem_cons_self))
      rw [cons_append, lookup_cons, hne]
      exact ih fun x hx => h x (mem_cons_of_mem _ hx)
  rw [Middleware.tracked, hlookup]
  rfl

theorem mem_others {e : String × Tracked} (he : e ∈ s.others cfg threadId) : e.1 ≠ threadId := by
  rw [Middleware.others] at he
  split at he
  · exact of_decide_eq_true (mem_filter.1 he).2
  · rename_i hnone
    intro heq
    refine absurd hnone (Option.ne_none_iff_isSome.2 ?_)
    rw [lookup_isSome_iff]
    exact ⟨e, mem_of_mem_drop he, by simp [heq]⟩

theorem apply_verdict : (apply lib cfg s threadId r).1.1 =
    (trackAndCheck lib cfg s threadId r.toolCalls).1 := by
  rw [apply]
  split
  · rename_i heq
    rw [heq]
  · rename_i heq
    rw [heq]

theorem apply_state : (apply lib cfg s threadId r).2 =
    (trackAndCheck lib cfg s threadId r.toolCalls).2 := by
  rw [apply]
  split
  · rename_i heq
    rw [heq]
  · rename_i heq
    rw [heq]

theorem apply_stripped (h : (apply lib cfg s threadId r).1.1.stops = true) :
    (apply lib cfg s threadId r).1.2.toolCalls = [] := by
  rw [apply] at h ⊢
  split at h
  · rfl
  · rename_i verdict s' hno heq
    cases verdict with
    | hardStop message => exact absurd rfl (hno message)
    | _ => cases h

theorem trackAndCheck_verdict (h : calls ≠ []) : (trackAndCheck lib cfg s threadId calls).1 =
    ((s.tracked threadId).check lib cfg calls).1 := by
  have hempty : ¬calls.isEmpty = true := fun he => h (isEmpty_iff.1 he)
  rw [trackAndCheck, if_neg hempty]

theorem trackAndCheck_tracked (h : calls ≠ []) :
    (trackAndCheck lib cfg s threadId calls).2.tracked threadId =
      ((s.tracked threadId).check lib cfg calls).2 := by
  have hempty : ¬calls.isEmpty = true := fun he => h (isEmpty_iff.1 he)
  rw [trackAndCheck, if_neg hempty]
  exact tracked_append fun e he => mem_others he

theorem trackAndCheck_nil : trackAndCheck lib cfg s threadId [] = (.none, s) := rfl

/-! ### Runs -/

theorem session_cons : session lib cfg s threadId (r :: rs) = (apply lib cfg s threadId r).1 ::
    if (apply lib cfg s threadId r).1.1.stops then []
    else session lib cfg (apply lib cfg s threadId r).2 threadId rs := by
  rw [session]
  split
  · rename_i heq
    rw [heq]
    rfl
  · rename_i result s' hno heq
    rw [heq]
    obtain ⟨verdict, r'⟩ := result
    cases verdict with
    | hardStop message => exact absurd rfl (hno message r')
    | _ => rfl

/-- A response of the run is stopped: its tool calls are stripped. -/
def Stopped (results : List (Verdict × Response)) : Prop :=
  ∃ x ∈ results, x.1.stops = true ∧ x.2.toolCalls = []

theorem stopped_cons : Stopped (session lib cfg s threadId (r :: rs)) ↔
    (apply lib cfg s threadId r).1.1.stops = true ∨
      Stopped (session lib cfg (apply lib cfg s threadId r).2 threadId rs) := by
  rw [session_cons]
  cases hstops : (apply lib cfg s threadId r).1.1.stops with
  | true =>
    refine iff_of_true ⟨_, mem_cons_self, hstops, apply_stripped hstops⟩ (.inl rfl)
  | false =>
    rw [if_neg Bool.false_ne_true]
    constructor
    · rintro ⟨x, hx, hstop, hcalls⟩
      rcases mem_cons.1 hx with rfl | hx
      · rw [hstops] at hstop
        cases hstop
      · exact .inr ⟨x, hx, hstop, hcalls⟩
    · rintro (h | ⟨x, hx, hstop⟩)
      · cases h
      · exact ⟨x, mem_cons_of_mem _ hx, hstop⟩

/-- In the run, a warning of a response comes after all its calls are counted. -/
def CountsAlong (lib : Library) (cfg : Config) (threadId : String) :
    Middleware → List Response → Prop
  | _, [] => True
  | s, r :: rs => (s.tracked threadId).CountsAll lib cfg r.toolCalls ∧
    ((apply lib cfg s threadId r).1.1.stops = false →
      CountsAlong lib cfg threadId (apply lib cfg s threadId r).2 rs)

/-- How often a tool is called in a run. -/
def callsIn (name : String) (rs : List Response) : ℕ :=
  (rs.map fun r => callsOf name r.toolCalls).sum

theorem apply_freq (hall : (s.tracked threadId).CountsAll lib cfg r.toolCalls)
    (h : (apply lib cfg s threadId r).1.1.stops = false) (hname : name ≠ "") :
    ((apply lib cfg s threadId r).2.tracked threadId).toolFreq name =
        (s.tracked threadId).toolFreq name + callsOf name r.toolCalls ∧
      (0 < callsOf name r.toolCalls →
        (s.tracked threadId).toolFreq name + callsOf name r.toolCalls <
          (cfg.toolFreq name).2) := by
  rw [apply_verdict] at h
  rw [apply_state]
  by_cases hcalls : r.toolCalls = []
  · rw [hcalls]
    exact ⟨rfl, fun hpos => absurd hpos (Nat.lt_irrefl 0)⟩
  · rw [trackAndCheck_verdict hcalls] at h
    rw [trackAndCheck_tracked hcalls]
    exact check_freq hall h hname

theorem callsIn_lt (hall : CountsAlong lib cfg threadId s rs)
    (h : ¬Stopped (session lib cfg s threadId rs)) (hname : name ≠ "") (hpos : 0 < callsIn name rs) :
    (s.tracked threadId).toolFreq name + callsIn name rs < (cfg.toolFreq name).2 := by
  induction rs generalizing s with
  | nil => exact absurd hpos (Nat.lt_irrefl 0)
  | cons r rs ih =>
    obtain ⟨hr, hrs⟩ := hall
    rw [stopped_cons, not_or, Bool.not_eq_true] at h
    obtain ⟨hfreq, hbelow⟩ := apply_freq hr h.1 hname
    have hsum : callsIn name (r :: rs) = callsOf name r.toolCalls + callsIn name rs :=
      sum_cons
    rw [hsum] at hpos ⊢
    rcases Nat.eq_zero_or_pos (callsIn name rs) with hzero | hrest
    · rw [hzero] at hpos ⊢
      exact hbelow hpos
    · have hlt := ih (hrs h.1) h.2 hrest
      rw [hfreq] at hlt
      omega

/-- When there is a warning, and when a stop. -/
def moments (results : List (Verdict × Response)) : List (Bool × Bool) :=
  results.map fun x => (x.1.warns, x.1.stops)

theorem apply_perm {r' : Response} (hperm : r.toolCalls.Perm r'.toolCalls)
    (h : (s.tracked threadId).CountsAll lib cfg r.toolCalls)
    (h' : (s.tracked threadId).CountsAll lib cfg r'.toolCalls) :
    (apply lib cfg s threadId r').1.1.stops = (apply lib cfg s threadId r).1.1.stops ∧
      (apply lib cfg s threadId r').1.1.warns = (apply lib cfg s threadId r).1.1.warns ∧
      ((apply lib cfg s threadId r).1.1.stops = false →
        (apply lib cfg s threadId r').2 = (apply lib cfg s threadId r).2) := by
  rw [apply_verdict, apply_verdict, apply_state, apply_state]
  by_cases hcalls : r.toolCalls = []
  · rw [hcalls] at hperm ⊢
    rw [nil_perm.1 hperm]
    exact ⟨rfl, rfl, fun _ => rfl⟩
  · have hcalls' : r'.toolCalls ≠ [] := fun hnil => hcalls (perm_nil.1 (hnil ▸ hperm))
    obtain ⟨hstops, hwarns, hstate⟩ := check_perm hperm h h'
    rw [trackAndCheck_verdict hcalls, trackAndCheck_verdict hcalls']
    refine ⟨hstops, hwarns, fun hno => ?_⟩
    have hempty : ¬r.toolCalls.isEmpty = true := fun he => hcalls (isEmpty_iff.1 he)
    have hempty' : ¬r'.toolCalls.isEmpty = true := fun he => hcalls' (isEmpty_iff.1 he)
    rw [trackAndCheck, trackAndCheck, if_neg hempty, if_neg hempty']
    exact congrArg (fun t => s.others cfg threadId ++ [(threadId, t)]) (hstate hno)

theorem moments_perm (hperm : List.Forall₂ (fun r r' => r.toolCalls.Perm r'.toolCalls) rs rs')
    (h : CountsAlong lib cfg threadId s rs) (h' : CountsAlong lib cfg threadId s rs') :
    moments (session lib cfg s threadId rs') = moments (session lib cfg s threadId rs) := by
  induction hperm generalizing s with
  | nil => rfl
  | @cons r r' rs rs' hr hrs ih =>
    obtain ⟨hstops, hwarns, hstate⟩ := apply_perm hr h.1 h'.1
    rw [session_cons, session_cons, hstops]
    refine congrArg₂ List.cons (Prod.ext hwarns hstops) ?_
    cases hno : (apply lib cfg s threadId r).1.1.stops with
    | true => rfl
    | false =>
      rw [if_neg Bool.false_ne_true, if_neg Bool.false_ne_true, hstate hno]
      have hrest := h'.2 (hstops.trans hno)
      rw [hstate hno] at hrest
      exact ih (h.2 hno) hrest

/-! ### Sets of calls that come again -/

/-- The hashes of the responses that call tools. -/
def hashes (lib : Library) (rs : List Response) : List String :=
  (rs.filter fun r => !r.toolCalls.isEmpty).map fun r => hashToolCalls lib r.toolCalls

theorem hashes_cons (h : r.toolCalls ≠ []) :
    hashes lib (r :: rs) = hashToolCalls lib r.toolCalls :: hashes lib rs := by
  rw [hashes, filter_cons_of_pos (by simpa using h)]
  rfl

theorem hashes_cons_nil (h : r.toolCalls = []) : hashes lib (r :: rs) = hashes lib rs := by
  rw [hashes, filter_cons_of_neg (by simp [h])]
  rfl

/-- In a run that is not stopped no set of calls is in the window too often. -/
theorem hash_count_lt {before after : List Response}
    (h : ¬Stopped (session lib cfg s threadId (before ++ r :: after))) (hr : r.toolCalls ≠ []) :
    (latest cfg.windowSize ((s.tracked threadId).history ++ hashes lib (before ++ [r]))).count
      (hashToolCalls lib r.toolCalls) < cfg.hardLimit := by
  induction before generalizing s with
  | nil =>
    rw [nil_append, stopped_cons, not_or, Bool.not_eq_true, apply_verdict,
      trackAndCheck_verdict hr] at h
    rw [nil_append, hashes_cons hr]
    exact check_count h.1
  | cons r' before ih =>
    rw [cons_append, stopped_cons, not_or, apply_state] at h
    have hrest := ih h.2
    rw [cons_append]
    by_cases hcalls : r'.toolCalls = []
    · rw [hcalls, trackAndCheck_nil] at hrest
      rw [hashes_cons_nil hcalls]
      exact hrest
    · rw [trackAndCheck_tracked hcalls, check_history, latest_latest_append] at hrest
      rw [hashes_cons hcalls, append_cons]
      exact hrest

theorem exists_last {l : List Response} {n : ℕ} (hl : l.Sublist (latest n rs)) (hne : l ≠ []) :
    ∃ before r after, r ∈ l ∧ rs = before ++ r :: after ∧
      ∃ window, window <:+ before ++ [r] ∧ window.length ≤ n ∧ l.Sublist window := by
  obtain ⟨l₀, r, rfl⟩ := (eq_nil_or_concat l).resolve_left hne
  rw [concat_eq_append] at hl ⊢
  obtain ⟨w₁, w₂, hw, hl₀, hr⟩ := append_sublist_iff.1 hl
  obtain ⟨w₃, after, rfl⟩ := append_of_mem (singleton_sublist.1 hr)
  have hrs : rs = rs.take (rs.length - n) ++ (w₁ ++ (w₃ ++ r :: after)) := by
    rw [← hw]
    exact (take_append_drop _ _).symm
  refine ⟨rs.take (rs.length - n) ++ (w₁ ++ w₃), r, after, by simp, ?_, w₁ ++ w₃ ++ [r], ?_, ?_, ?_⟩
  · rw [append_assoc, append_assoc]
    exact hrs
  · rw [append_assoc (rs.take (rs.length - n))]
    exact suffix_append ..
  · have hlength := latest_length n rs
    rw [hw] at hlength
    simp only [length_append, length_cons, length_nil] at hlength ⊢
    omega
  · exact (hl₀.trans (sublist_append_left ..)).append (List.Sublist.refl _)

/-- A set of calls that comes as often as may be within the window is stopped. -/
theorem stopped_of_repeated (hcalls : calls ≠ []) {l : List Response}
    (hl : l.Sublist (latest cfg.windowSize rs)) (hlength : cfg.hardLimit ≤ l.length)
    (hperm : ∀ r ∈ l, r.toolCalls.Perm calls) : Stopped (session lib cfg s threadId rs) := by
  by_contra hno
  have hne : l ≠ [] := ne_nil_of_length_pos (cfg.hardLimit_pos.trans hlength)
  obtain ⟨before, r, after, hr, rfl, window, hsuffix, hsize, hsub⟩ := exists_last hl hne
  have hsome : ∀ x ∈ l, x.toolCalls ≠ [] := fun x hx hnil =>
    hcalls (nil_perm.1 (hnil ▸ hperm x hx))
  have hlt := hash_count_lt hno (hsome r hr)
  have hin : hashes lib window <:+ latest cfg.windowSize
      ((s.tracked threadId).history ++ hashes lib (before ++ [r])) := by
    refine suffix_latest ?_ ?_
    · exact ((hsuffix.filter _).map _).trans (suffix_append ..)
    · rw [hashes, length_map]
      exact (length_filter_le ..).trans hsize
  have hall : ∀ h ∈ hashes lib l, hashToolCalls lib r.toolCalls = h := by
    intro h hh
    obtain ⟨x, hx, rfl⟩ := mem_map.1 hh
    exact hashToolCalls_perm ((hperm r hr).trans (hperm x (mem_of_mem_filter hx)).symm)
  have hlen : (hashes lib l).length = l.length := by
    rw [hashes, length_map, filter_eq_self.2 fun x hx => by simpa using hsome x hx]
  have hcount : (hashes lib l).count (hashToolCalls lib r.toolCalls) = l.length :=
    (count_eq_length.2 hall).trans hlen
  have hle : (hashes lib l).count (hashToolCalls lib r.toolCalls) ≤
      (latest cfg.windowSize ((s.tracked threadId).history ++ hashes lib (before ++ [r]))).count
        (hashToolCalls lib r.toolCalls) :=
    (((hsub.filter _).map _).trans hin.sublist).count_le _
  omega

/-- **Runs are stopped.** A run is stopped no later than the response at which a set of calls has
come `hardLimit` times within the window. If a warning of a response comes after all its calls are
counted, the run is also stopped no later than the response at which a tool has been called as often
as it may be, and it is warned and stopped at the same responses whatever the order of their
calls. -/
theorem loops_stop (lib : Library) (cfg : Config) (s : Middleware) (threadId : String)
    (rs : List Response) :
    (∀ calls : List ToolCall, calls ≠ [] → ∀ l : List Response,
        l.Sublist (latest cfg.windowSize rs) → cfg.hardLimit ≤ l.length →
        (∀ r ∈ l, r.toolCalls.Perm calls) → Stopped (session lib cfg s threadId rs)) ∧
      (CountsAlong lib cfg threadId s rs →
        (∀ name ≠ "", (cfg.toolFreq name).2 ≤ callsIn name rs →
          Stopped (session lib cfg s threadId rs)) ∧
        ∀ rs', List.Forall₂ (fun r r' => r.toolCalls.Perm r'.toolCalls) rs rs' →
          CountsAlong lib cfg threadId s rs' →
          moments (session lib cfg s threadId rs') = moments (session lib cfg s threadId rs)) := by
  refine ⟨fun calls hcalls l hl hlength hperm => stopped_of_repeated hcalls hl hlength hperm,
    fun hall => ⟨fun name hname hreached => ?_, fun rs' hperm hall' =>
      moments_perm hperm hall hall'⟩⟩
  by_contra hno
  have hpos : 0 < callsIn name rs := by
    have hlimit : 1 ≤ (cfg.toolFreq name).2 := by
      rw [Config.toolFreq]
      cases hover : cfg.toolFreqOverrides name with
      | none => exact cfg.toolFreqHardLimit_pos
      | some o => exact cfg.overrides_pos name o hover
    exact hlimit.trans hreached
  have hlt := callsIn_lt hall hno hname hpos
  omega

/-- A library of which nothing but the texts of values is asked. -/
def plainLibrary : Library :=
  ⟨fun _ => none, Value.dumps, fun _ => none, fun _ => "", id⟩

/-- A configuration with low limits. -/
def lowLimits : Config where
  warnThreshold := 2
  hardLimit := 2
  windowSize := 20
  maxTrackedThreads := 100
  toolFreqWarn := 2
  toolFreqHardLimit := 3
  toolFreqOverrides := fun _ => none
  hardLimit_pos := by decide
  windowSize_pos := by decide
  maxTrackedThreads_pos := by decide
  toolFreqHardLimit_pos := by decide
  overrides_pos := fun _ _ h => by cases h

/-- A response that searches the web some times. -/
def searches (queries : List String) : Response :=
  ⟨queries.map fun query => ⟨"web_search", some (.obj [("query", .str query)])⟩, .none, [], []⟩

/-- A search that is made again is stopped. -/
theorem loops_stop_demo : Stopped (session plainLibrary lowLimits [] "thread-1"
    [searches ["cats"], searches ["cats"]]) :=
  (loops_stop plainLibrary lowLimits [] "thread-1" [searches ["cats"], searches ["cats"]]).1
    (searches ["cats"]).toolCalls (cons_ne_nil _ _) [searches ["cats"], searches ["cats"]]
    (List.Sublist.refl _) (Nat.le_refl 2) fun r hr => by
      have heq : r = searches ["cats"] := by simpa using hr
      rw [heq]

/-- Three searches in one response reach the limit. The second is warned of, and none is stopped. -/
theorem burst_not_stopped :
    (lowLimits.toolFreq "web_search").2 ≤
        callsIn "web_search" [searches ["cats", "dogs", "birds"]] ∧
      ¬Stopped (session plainLibrary lowLimits [] "thread-1"
        [searches ["cats", "dogs", "birds"]]) := by
  refine ⟨by decide, ?_⟩
  have hsome : (searches ["cats", "dogs", "birds"]).toolCalls ≠ [] := cons_ne_nil _ _
  rw [stopped_cons, apply_verdict, trackAndCheck_verdict hsome]
  rintro (h | ⟨x, hx, -⟩)
  · simp [Tracked.check, Tracked.record, Middleware.tracked, Tracked.empty, latest, searches,
      countCalls, Tracked.count, Config.toolFreq, lowLimits, Verdict.stops] at h
  · cases hx

end AfterFlow.Agents.LoopDetection
