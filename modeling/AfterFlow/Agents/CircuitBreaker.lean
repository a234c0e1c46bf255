import AfterFlow.Transition.Runs
import Mathlib.Algebra.Order.Ring.Int

/-!
# The circuit breaker around model calls

`wrap_model_call` asks `_check_circuit` whether the call may go to its handler, tries the handler up
to three times, and records a success, a failure or a `GraphBubbleUp`. While the circuit is half
open one call at a time is let through: the one that sets the probe flag.

The flag does not say whose it is. A probe that ends with an error that is not retriable, or that is
cancelled, records nothing and leaves the flag set; and a call that was let through while the
circuit was closed may clear a flag that is not its own. `Orderly` rules out these two, and then the
flag is set exactly while its call is under way.

## Main results

* `probes_one_at_a_time` — one probe at a time on orderly runs, and the circuit does not stick
-/

namespace AfterFlow.Agents.CircuitBreaker

open Transition Function Option

/-! ### Errors -/

/-- What the middleware reads of an exception. The texts are in lower case, as the patterns are. -/
structure ModelError where
  /-- `type(exc).__name__`. -/
  name : String
  /-- `_extract_error_detail(exc).lower()`. -/
  detail : String
  /-- `str(_extract_error_code(exc)).lower()`. -/
  code : String
  /-- `_extract_status_code(exc)`. -/
  statusCode : Option ℤ
  isIndexError : Bool
  deriving DecidableEq

def retriableStatusCodes : List ℤ := [408, 409, 425, 429, 500, 502, 503, 504]

def busyPatterns : List String :=
  ["server busy", "temporarily unavailable", "try again later", "please retry", "please try again",
    "overloaded", "high demand", "rate limit", "负载较高", "服务繁忙", "稍后重试", "请稍后重试"]

def quotaPatterns : List String :=
  ["insufficient_quota", "quota", "billing", "credit", "payment", "余额不足", "超出限额", "额度不足",
    "欠费"]

def authPatterns : List String :=
  ["authentication", "unauthorized", "invalid api key", "invalid_api_key", "permission", "forbidden",
    "access denied", "无权", "未授权"]

def transientNames : List String :=
  ["APITimeoutError", "APIConnectionError", "InternalServerError", "ReadError",
    "RemoteProtocolError", "StreamChunkTimeoutError"]

inductive Reason where
  | quota
  | auth
  | transient
  | busy
  | generic
  deriving DecidableEq

/-- `_matches_any`. -/
def matchesAny (detail : String) (patterns : List String) : Bool :=
  patterns.any fun pattern => detail.toList.tails.any fun rest => pattern.toList.isPrefixOf rest

/-- `_classify_error`: whether the error is retriable, and why. -/
def classifyError (e : ModelError) : Bool × Reason :=
  if matchesAny e.detail quotaPatterns || matchesAny e.code quotaPatterns then (false, .quota)
  else if matchesAny e.detail authPatterns then (false, .auth)
  else if e.name ∈ transientNames then (true, .transient)
  else if e.isIndexError then (true, .transient)
  else if e.statusCode.any fun code => code ∈ retriableStatusCodes then (true, .transient)
  else if matchesAny e.detail busyPatterns then (true, .busy)
  else (false, .generic)

def retryMaxAttempts : ℕ := 3

/-- `_max_attempts_for`. -/
def maxAttemptsFor (e : ModelError) : ℕ :=
  if e.name = "StreamChunkTimeoutError" then min 2 retryMaxAttempts else retryMaxAttempts

/-! ### The circuit -/

inductive CircuitState where
  | closed
  | open
  | halfOpen
  deriving DecidableEq

structure Circuit (T : Type) where
  state : CircuitState
  failureCount : ℤ
  openUntil : T
  probeInFlight : Bool

structure Config (T : Type) where
  failureThreshold : ℤ
  recoveryTimeout : T

variable {T : Type} [LinearOrder T] [Add T]

/-- What the check does once the circuit is half open: whether the call fails fast, and the circuit
afterwards. -/
def Circuit.probe (c : Circuit T) : Bool × Circuit T :=
  if c.probeInFlight then (true, c) else (false, { c with probeInFlight := true })

/-- `_check_circuit`. -/
def Circuit.check (c : Circuit T) (now : T) : Bool × Circuit T :=
  match c.state with
  | .closed => (false, c)
  | .open =>
    if now < c.openUntil then (true, c)
    else Circuit.probe { c with state := .halfOpen, probeInFlight := false }
  | .halfOpen => c.probe

/-- `_record_success`. The circuit is as it was first, with `openUntil` as `zero`. -/
def Circuit.recordSuccess (zero : T) (c : Circuit T) : Circuit T :=
  { c with failureCount := 0, openUntil := zero, state := .closed, probeInFlight := false }

/-- `_record_failure`. -/
def Circuit.recordFailure (cfg : Config T) (now : T) (c : Circuit T) : Circuit T :=
  if c.state = .halfOpen then
    { c with openUntil := now + cfg.recoveryTimeout, state := .open, probeInFlight := false }
  else
    let c := { c with failureCount := c.failureCount + 1 }
    if cfg.failureThreshold ≤ c.failureCount then
      let c := { c with openUntil := now + cfg.recoveryTimeout }
      if c.state ≠ .open then { c with state := .open, probeInFlight := false } else c
    else c

/-- What a `GraphBubbleUp` does. -/
def Circuit.bubbleUp (c : Circuit T) : Circuit T :=
  if c.state = .halfOpen then { c with probeInFlight := false } else c

/-! ### Calls that take turns -/

/-- What the handler of a call comes to. -/
inductive Outcome where
  | response
  | graphBubbleUp
  | error (e : ModelError)

/-- What a call does under the lock before it ends. -/
inductive Record where
  | success
  | failure
  | bubbleUp
  deriving DecidableEq

inductive Ending where
  /-- The circuit was open. -/
  | failedFast
  | response
  | fallback
  | raised
  deriving DecidableEq

inductive Stage where
  | called
  /-- The handler is under way. -/
  | handling (attempt : ℕ)
  /-- The call sleeps before it tries the handler again. -/
  | waiting (attempt : ℕ)
  | recording (record : Record)
  | ended (ending : Ending)
  deriving DecidableEq

/-- The call has been let through and is not over. -/
@[grind =] def Stage.inFlight : Stage → Bool
  | .handling _ | .waiting _ | .recording _ => true
  | .called | .ended _ => false

/-- The stage after the handler. -/
@[grind =] def afterHandler (attempt : ℕ) : Outcome → Stage
  | .response => .recording .success
  | .graphBubbleUp => .recording .bubbleUp
  | .error e =>
    if (classifyError e).1 && attempt < maxAttemptsFor e then .waiting attempt
    else if (classifyError e).1 then .recording .failure
    else .ended .fallback

def Record.ending : Record → Ending
  | .success => .response
  | .failure => .fallback
  | .bubbleUp => .raised

def Record.apply (zero : T) (cfg : Config T) (now : T) : Record → Circuit T → Circuit T
  | .success => Circuit.recordSuccess zero
  | .failure => Circuit.recordFailure cfg now
  | .bubbleUp => Circuit.bubbleUp

structure World (T I : Type) where
  circuit : Circuit T
  stage : I → Stage
  /-- Whether the call set the probe flag. -/
  probe : I → Bool
  /-- The last call that did. -/
  setBy : Option I

inductive Act (T I : Type) where
  | check (i : I) (now : T)
  | handle (i : I) (outcome : Outcome)
  | retry (i : I)
  | record (i : I) (now : T)
  /-- The call is cancelled, or an exception goes through it that is no `Exception`. -/
  | cancel (i : I)

variable {I : Type} [DecidableEq I] (zero : T) (cfg : Config T)

def World.goTo (w : World T I) (i : I) (stage : Stage) : World T I :=
  { w with stage := update w.stage i stage }

/-- A call checks the circuit. -/
def World.check (w : World T I) (i : I) (now : T) : World T I :=
  let (fastFail, circuit) := w.circuit.check now
  let sets := !fastFail && circuit.state = .halfOpen
  { circuit := circuit
    stage := update w.stage i (if fastFail then .ended .failedFast else .handling 1)
    probe := update w.probe i sets
    setBy := if sets then some i else w.setBy }

/-- One act of a call, if it is the call's turn to do it. -/
@[grind =] def step (w : World T I) : Act T I → Option (World T I)
  | .check i now => if w.stage i = .called then some (w.check i now) else none
  | .handle i outcome =>
    match w.stage i with
    | .handling attempt => some (w.goTo i (afterHandler attempt outcome))
    | _ => none
  | .retry i =>
    match w.stage i with
    | .waiting attempt => some (w.goTo i (.handling (attempt + 1)))
    | _ => none
  | .record i now =>
    match w.stage i with
    | .recording record =>
      some ({ w with circuit := record.apply zero cfg now w.circuit }.goTo i (.ended record.ending))
    | _ => none
  | .cancel i =>
    match w.stage i with
    | .handling _ | .waiting _ => some (w.goTo i (.ended .raised))
    | _ => none

/-- A circuit that nobody has used. -/
def World.start (zero : T) : World T I where
  circuit := ⟨.closed, 0, zero, false⟩
  stage _ := .called
  probe _ := false
  setBy := none

/-- A probe ends with what it records only, and while there is one, nobody else records. -/
def Orderly (w : World T I) : Act T I → Prop
  | .handle i (.error e) => w.probe i = true → (classifyError e).1 = true
  | .cancel i => w.probe i = false
  | .record i _ => w.circuit.probeInFlight = true → w.probe i = true
  | _ => True

instance (w : World T I) (a : Act T I) : Decidable (Orderly w a) :=
  match a with
  | .handle _ (.error _) => inferInstanceAs (Decidable (_ → _))
  | .cancel _ => inferInstanceAs (Decidable (_ = _))
  | .record _ _ => inferInstanceAs (Decidable (_ → _))
  | .check _ _ | .handle _ .response | .handle _ .graphBubbleUp | .retry _ =>
    inferInstanceAs (Decidable True)

/-- One probe at a time, and the circuit does not stick. -/
structure World.Sound (w : World T I) : Prop where
  flag : w.circuit.probeInFlight = true →
    w.circuit.state = .halfOpen ∧ ∃ i, w.setBy = some i ∧ (w.stage i).inFlight = true
  single : ∀ i j, w.probe i = true → (w.stage i).inFlight = true → w.probe j = true →
    (w.stage j).inFlight = true → i = j
  /-- With no call under way, one that comes after the open period goes to its handler. -/
  recovers : (∀ i, (w.stage i).inFlight = false) →
    ∀ now, (w.circuit.state = .open → w.circuit.openUntil ≤ now) → ∀ i, w.stage i = .called →
      ∃ w', step zero cfg w (.check i now) = some w' ∧ w'.stage i = .handling 1

/-! ### What each step keeps -/

variable {zero cfg} {w w' w₀ : World T I} {c : Circuit T} {now : T} {i j : I} {stage : Stage}

/-- The flag is set exactly while the call that set it is under way. -/
structure World.Tracked (w : World T I) : Prop where
  flag : w.circuit.probeInFlight = true → w.circuit.state = .halfOpen ∧
    ∃ i, w.setBy = some i ∧ w.probe i = true ∧ (w.stage i).inFlight = true
  probe : ∀ i, w.probe i = true → (w.stage i).inFlight = true →
    w.circuit.probeInFlight = true ∧ w.setBy = some i

omit [LinearOrder T] [Add T] [DecidableEq I] in
theorem World.Tracked.start : (World.start zero : World T I).Tracked where
  flag h := by cases h
  probe _ h := by cases h

omit [Add T] in
theorem Circuit.check_cases (c : Circuit T) (now : T) :
    (c.state = .closed ∧ c.check now = (false, c)) ∨
    ((c.state = .open ∧ now < c.openUntil ∨ c.state = .halfOpen ∧ c.probeInFlight = true) ∧
      c.check now = (true, c)) ∨
    ((c.state = .open ∧ c.openUntil ≤ now ∨ c.state = .halfOpen ∧ c.probeInFlight = false) ∧
      c.check now = (false, { c with state := .halfOpen, probeInFlight := true })) := by
  cases hstate : c.state with
  | closed => simp [Circuit.check, hstate]
  | «open» =>
    by_cases hnow : now < c.openUntil
    · simp [Circuit.check, hstate, hnow]
    · simp [Circuit.check, Circuit.probe, hstate, hnow, not_lt.1 hnow]
  | halfOpen =>
    cases hflag : c.probeInFlight <;> simp [Circuit.check, Circuit.probe, hstate, hflag]

attribute [local simp] World.goTo World.check

omit [LinearOrder T] [Add T] in
theorem World.Tracked.goTo (h : w.Tracked)
    (hi : w.probe i = true → (w.stage i).inFlight = true → stage.inFlight = true)
    (hnew : w.probe i = true → stage.inFlight = true → (w.stage i).inFlight = true) :
    (w.goTo i stage).Tracked where
  flag hflag := by
    obtain ⟨hstate, j, hset, hprobe, hj⟩ := h.flag hflag
    refine ⟨hstate, j, hset, hprobe, ?_⟩
    by_cases hji : j = i
    · subst hji
      simpa using hi hprobe hj
    · simpa [hji] using hj
  probe j hprobe hj := by
    refine h.probe j hprobe ?_
    by_cases hji : j = i
    · subst hji
      exact hnew hprobe (by simpa using hj)
    · simpa [hji] using hj

omit [Add T] in
theorem World.Tracked.check (h : w.Tracked) (hi : w.stage i = .called) (now : T) :
    (w.check i now).Tracked := by
  have hidle : (w.stage i).inFlight = false := by rw [hi]; rfl
  -- as long as the call is not let through as a probe, nothing changes for the others
  have hothers : ∀ stage, (({ w with probe := update w.probe i false }).goTo i stage).Tracked := by
    intro stage
    constructor
    · intro hflag
      obtain ⟨hstate, j, hset, hprobe, hj⟩ := h.flag hflag
      have hji : j ≠ i := by
        rintro rfl
        rw [hidle] at hj
        cases hj
      exact ⟨hstate, j, hset, by simpa [hji] using hprobe,
        by simpa [hji] using hj⟩
    · intro j hprobe hj
      have hji : j ≠ i := by
        rintro rfl
        simp at hprobe
      exact h.probe j (by simpa [hji] using hprobe) (by simpa [hji] using hj)
  rcases w.circuit.check_cases now with ⟨hstate, heq⟩ | ⟨-, heq⟩ | ⟨hstate, heq⟩
  · simpa [heq, hstate] using hothers (.handling 1)
  · simpa [heq] using hothers (.ended .failedFast)
  · have hflag : w.circuit.probeInFlight = false := by
      rcases hstate with ⟨hstate, -⟩ | ⟨-, hflag⟩
      · by_contra hflag
        rw [(h.flag (by simpa using hflag)).1] at hstate
        cases hstate
      · exact hflag
    constructor
    · intro _
      exact ⟨by simp [heq], i, by simp [heq], by simp [heq],
        by simp [heq, Stage.inFlight]⟩
    · intro j hprobe hj
      by_cases hji : j = i
      · subst hji
        simp [heq]
      · have hold := h.probe j (by simpa [heq, hji] using hprobe)
          (by simpa [heq, hji] using hj)
        rw [hflag] at hold
        cases hold.1

omit [LinearOrder T] [Add T] [DecidableEq I] in
theorem World.Tracked.unflagged (h : w.Tracked) (hstate : w.circuit.state ≠ .halfOpen) :
    w.circuit.probeInFlight = false := by
  by_contra hflag
  exact hstate (h.flag (by simpa using hflag)).1

omit [LinearOrder T] [DecidableEq I] in
theorem World.Tracked.apply_unflagged (h : w.Tracked) (record : Record) :
    (record.apply zero cfg now w.circuit).probeInFlight = false := by
  cases record with
  | success => rfl
  | failure =>
    by_cases hstate : w.circuit.state = .halfOpen
    · simp [Record.apply, Circuit.recordFailure, hstate]
    · have hflag := h.unflagged hstate
      simp only [Record.apply, Circuit.recordFailure, if_neg hstate]
      split
      · split
        · rfl
        · exact hflag
      · exact hflag
  | bubbleUp =>
    by_cases hstate : w.circuit.state = .halfOpen
    · simp [Record.apply, Circuit.bubbleUp, hstate]
    · simpa [Record.apply, Circuit.bubbleUp, hstate] using h.unflagged hstate

omit [LinearOrder T] in
theorem World.Tracked.record (h : w.Tracked) (record : Record) (ending : Ending)
    (hown : w.circuit.probeInFlight = true → w.probe i = true) (hi : w.stage i = .recording record) :
    ({ w with circuit := record.apply zero cfg now w.circuit }.goTo i (.ended ending)).Tracked where
  flag hflag := by
    change (record.apply zero cfg now w.circuit).probeInFlight = true at hflag
    rw [h.apply_unflagged record] at hflag
    cases hflag
  probe j hprobe hj := by
    have hji : j ≠ i := by
      rintro rfl
      simp [Stage.inFlight] at hj
    obtain ⟨hflag, hset⟩ := h.probe j hprobe (by simpa [hji] using hj)
    have hset' := (h.probe i (hown hflag) (by rw [hi]; rfl)).2
    exact absurd (some.inj (hset.symm.trans hset')) hji

theorem afterHandler_inFlight {attempt : ℕ} {outcome : Outcome}
    (h : ∀ e, outcome = .error e → (classifyError e).1 = true) :
    (afterHandler attempt outcome).inFlight = true := by
  cases outcome with
  | response | graphBubbleUp => rfl
  | error e =>
    rw [afterHandler, h e rfl]
    by_cases hattempt : attempt < maxAttemptsFor e <;> simp [hattempt, Stage.inFlight]

/-- **Every act keeps the count.** -/
theorem World.Tracked.step {a : Act T I} (h : w.Tracked) (horderly : Orderly w a)
    (hstep : step zero cfg w a = some w') : w'.Tracked := by
  cases a with
  | check i now =>
    simp only [CircuitBreaker.step, ite_none_right_eq_some, some.injEq] at hstep
    obtain ⟨hi, rfl⟩ := hstep
    exact h.check hi now
  | handle i outcome =>
    simp only [CircuitBreaker.step] at hstep
    split at hstep
    · rename_i attempt hi
      cases hstep
      refine h.goTo (fun hprobe _ => ?_) (fun _ _ => by rw [hi]; rfl)
      refine afterHandler_inFlight fun e he => ?_
      subst he
      exact horderly hprobe
    · cases hstep
  | retry i =>
    simp only [CircuitBreaker.step] at hstep
    split at hstep
    · rename_i attempt hi
      cases hstep
      exact h.goTo (fun _ _ => rfl) (fun _ _ => by rw [hi]; rfl)
    · cases hstep
  | record i now =>
    simp only [CircuitBreaker.step] at hstep
    split at hstep
    · rename_i record hi
      cases hstep
      exact h.record record _ horderly hi
    · cases hstep
  | cancel i =>
    have hother : ∀ stage, (w.goTo i stage).Tracked := fun stage =>
      h.goTo (fun hprobe _ => absurd (hprobe.symm.trans horderly) (by decide))
        (fun hprobe _ => absurd (hprobe.symm.trans horderly) (by decide))
    simp only [CircuitBreaker.step] at hstep
    split at hstep
    · cases hstep
      exact hother _
    · cases hstep
      exact hother _
    · cases hstep

theorem World.Tracked.sound (h : w.Tracked) : w.Sound zero cfg where
  flag hflag := by
    obtain ⟨hstate, i, hset, -, hi⟩ := h.flag hflag
    exact ⟨hstate, i, hset, hi⟩
  single i j hi hi' hj hj' := by
    have hset := (h.probe i hi hi').2
    exact some.inj (hset.symm.trans (h.probe j hj hj').2)
  recovers hquiet now hopen i hi := by
    refine ⟨w.check i now, by simp [CircuitBreaker.step, hi], ?_⟩
    rcases w.circuit.check_cases now with ⟨-, heq⟩ | ⟨hstate, -⟩ | ⟨-, heq⟩
    · simp [heq]
    · rcases hstate with ⟨hstate, hnow⟩ | ⟨-, hflag⟩
      · exact absurd hnow (not_lt.2 (hopen hstate))
      · obtain ⟨-, j, -, -, hj⟩ := h.flag hflag
        rw [hquiet j] at hj
        cases hj
    · simp [heq]

/-- **One call probes at a time, and the circuit does not stick**, where a probe ends with what it
records and nobody else records while there is one. -/
theorem probes_one_at_a_time {zero : T} {cfg : Config T} {w : World T I}
    (hrun : Runs (step zero cfg) Orderly (.start zero) w) : w.Sound zero cfg :=
  (hrun.invariant World.Tracked.start fun _ _ _ h horderly hstep => h.step horderly hstep).sound

/-! ### A probe with an error that is not retriable -/

/-- A circuit that one failed call opens for a minute. -/
def demoConfig : Config ℤ := ⟨1, 60⟩

def serverError : ModelError := ⟨"APIStatusError", "server error", "none", some 502, false⟩

def quotaError : ModelError :=
  ⟨"APIStatusError", "quota exceeded", "insufficient_quota", some 429, false⟩

/-- A call fails at time 0 and opens the circuit. The next one is a probe. -/
def openThenProbe (outcome : Outcome) : List (Act ℤ Bool) :=
  [.check false 0, .handle false (.error serverError), .retry false,
    .handle false (.error serverError), .retry false, .handle false (.error serverError),
    .record false 0, .check true 60, .handle true outcome]

theorem probes_one_at_a_time_demo : ∃ w : World ℤ Bool,
    runWith (step 0 demoConfig) Orderly (.start 0)
      (openThenProbe .response ++ [.record true 60]) = some w ∧ w.Sound 0 demoConfig := by
  obtain ⟨w, hw⟩ : ∃ w, runWith (step 0 demoConfig) Orderly (.start 0)
      (openThenProbe .response ++ [.record true 60]) = some w :=
    isSome_iff_exists.1 (by decide +kernel)
  exact ⟨w, hw, probes_one_at_a_time (runs_of_runWith hw)⟩

/-- **After a probe whose error is not retriable the flag stays set**, and every call fails fast. -/
theorem probe_stuck : ¬∀ w : World ℤ Bool,
    Runs (step 0 demoConfig) (fun _ _ => True) (.start 0) w → w.Sound 0 demoConfig := by
  intro h
  obtain ⟨w, hw, hflag, hidle⟩ : ∃ w, runWith (step 0 demoConfig) (fun _ _ => True) (.start 0)
      (openThenProbe (.error quotaError)) = some w ∧ w.circuit.probeInFlight = true ∧
      ∀ i, (w.stage i).inFlight = false := ⟨_, rfl, by decide +kernel, by decide +kernel⟩
  obtain ⟨-, i, -, hi⟩ := (h w (runs_of_runWith hw)).flag hflag
  rw [hidle i] at hi
  cases hi

end AfterFlow.Agents.CircuitBreaker
