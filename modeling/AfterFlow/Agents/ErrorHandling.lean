import AfterFlow.Agents.CircuitBreaker
import AfterFlow.Events.Queries
import Mathlib.Data.Rat.Defs

/-!
# Errors of model calls

`wrap_model_call` tries the handler of a model call again when it fails with an error that may pass,
and makes a message of the last error for the user. What an error is like is read off foreign
exceptions: their texts, codes and bodies, and the header that says how long to wait.

A delay is a number or a date. A number that is no number at all is taken for a date, and a date that
is none for nothing said. But a number may be infinite, which `int` raises another exception for, and
a delay may be longer than `time.sleep` can sleep. Either goes through all of it and out of the call.

Floating point numbers, dates, lower case and the text of a value are parameters, and so is what
`time.sleep` accepts. The event for the stream and the logging are left out; what the writer of the
stream raises is caught.

## Main results

* `model_call_total_iff` — a call is total iff its delays can be waited for
-/

namespace AfterFlow.Agents.ErrorHandling

open CircuitBreaker Events

/-! ### Numbers -/

/-- A floating point number. -/
inductive PyFloat where
  | nan
  | infinite
  | finite (x : ℚ)

/-- What `int` raises. -/
inductive NumberError where
  | valueError
  | overflowError
  deriving DecidableEq

/-- `int(x)`, which leaves out the fraction. -/
@[grind =] def PyFloat.toInt : PyFloat → Except NumberError ℤ
  | .nan => .error .valueError
  | .infinite => .error .overflowError
  | .finite x => .ok (x.num.tdiv x.den)

/-! ### Exceptions -/

inductive Headers where
  /-- Headers without a `get`. -/
  | other
  | table (get : String → Option String)

structure ErrorResponse where
  statusCode : Value
  headers : Option Headers

/-- What is read of an exception; `null` where it has no such attribute. -/
structure ForeignError where
  /-- `type(exc).__name__`. -/
  name : String
  isIndexError : Bool
  /-- `str(exc)`. -/
  text : String
  message : Value
  code : Value
  errorCode : Value
  body : Value
  statusCode : Value
  status : Value
  response : Option ErrorResponse

/-- How long a call waits at most if nobody says how long. -/
def retryCapDelayMs : ℕ := 8000

def retryBaseDelayMs : ℕ := 1000

/-- What libraries do to texts, numbers and dates, and how long one can sleep. -/
structure Library where
  lower : String → String
  /-- `str(value)`. -/
  str : Value → String
  /-- `float(text)`; `none` where it raises a `ValueError`. -/
  float : String → Option PyFloat
  /-- `x * n`. -/
  times : PyFloat → ℕ → PyFloat
  /-- The milliseconds to a date from the time of an attempt on; `none` where they cannot be read. -/
  untilDate : ℕ → String → Option ℤ
  /-- `time.sleep(ms / 1000)` returns. -/
  sleeps : ℕ → Bool
  sleeps_short : ∀ ms, ms ≤ retryCapDelayMs → sleeps ms = true

variable (lib : Library)

/-- `_extract_error_detail`. -/
def extractErrorDetail (exc : ForeignError) : String :=
  let detail := PyStr.strip exc.text
  if detail ≠ "" then detail
  else
    match exc.message with
    | .str message => if PyStr.strip message ≠ "" then PyStr.strip message else exc.name
    | _ => exc.name

/-- `value not in (None, "")`. -/
def given : Value → Option Value
  | .null => none
  | .str "" => none
  | value => some value

/-- `body.get(key)`, if the body is a dictionary. -/
def field (key : String) : Value → Value
  | .obj fields => (fields.lookup key).getD .null
  | _ => .null

/-- `_extract_error_code`; `null` if there is none. -/
def extractErrorCode (exc : ForeignError) : Value :=
  let error := field "error" exc.body
  (((given exc.code).or (given exc.errorCode)).or
    ((given (field "code" error)).or (given (field "type" error)))).getD .null

/-- The number, if the value is an `int`; the truth values are. -/
@[grind =] def asInt : Value → Option ℤ
  | .int n => some n
  | .bool b => some (if b then 1 else 0)
  | _ => none

/-- `_extract_status_code`. -/
def extractStatusCode (exc : ForeignError) : Option ℤ :=
  ((asInt exc.statusCode).or (asInt exc.status)).or
    (exc.response.bind fun response => asInt response.statusCode)

/-- The error as it is classified. -/
def ForeignError.toModelError (exc : ForeignError) : ModelError where
  name := exc.name
  detail := lib.lower (extractErrorDetail exc)
  code := lib.lower (lib.str (extractErrorCode exc))
  statusCode := extractStatusCode exc
  isIndexError := exc.isIndexError

/-! ### Delays -/

def retryAfterKeys : List String := ["retry-after-ms", "Retry-After-Ms", "retry-after", "Retry-After"]

/-- `1 if "ms" in header_name.lower() else 1000`. -/
def multiplierOf (headerName : String) : ℕ :=
  let lowered := headerName.toList.map Char.toLower
  if lowered.tails.any fun rest => "ms".toList.isPrefixOf rest then 1 else 1000

/-- The header that says how long to wait: how many milliseconds it counts in, and its text. -/
def retryAfter (exc : ForeignError) : Option (ℕ × String) :=
  match exc.response.bind (·.headers) with
  | some (.table get) =>
    retryAfterKeys.findSome? fun key =>
      ((get key).filter (· ≠ "")).map fun raw => (multiplierOf key, raw)
  | _ => none

/-- `_extract_retry_after_ms`, at an attempt. -/
def extractRetryAfterMs (attempt : ℕ) (exc : ForeignError) : Except NumberError (Option ℕ) :=
  match retryAfter exc with
  | none => .ok none
  | some (multiplier, raw) =>
    match lib.float raw with
    | none => .ok ((lib.untilDate attempt raw).map Int.toNat)
    | some x =>
      match (lib.times x multiplier).toInt with
      | .ok ms => .ok (some ms.toNat)
      | .error .valueError => .ok ((lib.untilDate attempt raw).map Int.toNat)
      | .error .overflowError => .error .overflowError

/-- `_build_retry_delay_ms`. -/
def buildRetryDelayMs (attempt : ℕ) (exc : ForeignError) : Except NumberError ℕ :=
  match extractRetryAfterMs lib attempt exc with
  | .ok (some ms) => .ok ms
  | .ok none => .ok (min (retryBaseDelayMs * 2 ^ (attempt - 1)) retryCapDelayMs)
  | .error e => .error e

/-! ### Messages -/

/-- What the user gets to see. -/
structure Fallback where
  content : String
  errorType : String
  errorReason : String
  errorDetail : String
  deriving DecidableEq

def reasonText : Reason → String
  | .quota => "quota"
  | .auth => "auth"
  | .transient => "transient"
  | .busy => "busy"
  | .generic => "generic"

/-- `_build_user_message`. -/
def buildUserMessage (exc : ForeignError) : Reason → String
  | .quota => "The configured LLM provider rejected the request because the account is out of quota, billing is unavailable, or usage is restricted. Please fix the provider account and try again."
  | .auth => "The configured LLM provider rejected the request because authentication or access is invalid. Please check the provider credentials and try again."
  | .busy | .transient =>
    if exc.name = "StreamChunkTimeoutError" then
      "The model's streaming response was interrupted before it could finish. This usually happens when a single response or tool call is very large — please ask the assistant to split the work into smaller steps, or shorten the requested output, and try again."
    else "The configured LLM provider is temporarily unavailable after multiple retries. Please wait a moment and continue the conversation."
  | .generic => s!"LLM request failed: {extractErrorDetail exc}"

/-- `_build_user_fallback_message`. -/
def buildUserFallbackMessage (exc : ForeignError) (reason : Reason) : Fallback where
  content := buildUserMessage exc reason
  errorType := exc.name
  errorReason := reasonText reason
  errorDetail := extractErrorDetail exc

/-- The message while the circuit is open. -/
def circuitFallback : Fallback where
  content := "The configured LLM provider is currently unavailable due to continuous failures. Circuit breaker is engaged to protect the system. Please wait a moment before trying again."
  errorType := "CircuitBreakerOpen"
  errorReason := "circuit_open"
  errorDetail := "LLM circuit breaker is open"

/-! ### The call -/

/-- What the handler comes to. -/
inductive Handled (R : Type) where
  | response (r : R)
  | graphBubbleUp
  | error (exc : ForeignError)

/-- What the call comes to. -/
inductive Result (R : Type) where
  | response (r : R)
  | fallback (message : Fallback)
  | bubbledUp
  /-- An exception of the middleware itself. -/
  | raised

/-- A response or a message. -/
def Result.Returns {R : Type} (result : Result R) : Prop :=
  (∃ r, result = .response r) ∨ ∃ message, result = .fallback message

/-- A call that is over. -/
structure Ended (R T : Type) where
  result : Result R
  /-- How often the handler was called. -/
  calls : ℕ
  circuit : Circuit T

theorem maxAttemptsFor_le (e : ModelError) : maxAttemptsFor e ≤ retryMaxAttempts := by
  rw [maxAttemptsFor]
  split
  · exact Nat.min_le_right 2 retryMaxAttempts
  · exact Nat.le_refl _

section

variable {R T : Type} [Add T] (zero : T) (cfg : CircuitBreaker.Config T)
  (clock : ℕ → T) (handler : ℕ → Handled R)

/-- The loop of `wrap_model_call`, from an attempt on. -/
@[grind =] def tryFrom (attempt : ℕ) (circuit : Circuit T) : Ended R T :=
  match handler attempt with
  | .response r => ⟨.response r, attempt, circuit.recordSuccess zero⟩
  | .graphBubbleUp => ⟨.bubbledUp, attempt, circuit.bubbleUp⟩
  | .error exc =>
    let (retriable, reason) := classifyError (exc.toModelError lib)
    if _h : retriable = true ∧ attempt < maxAttemptsFor (exc.toModelError lib) then
      match buildRetryDelayMs lib attempt exc with
      | .error _ => ⟨.raised, attempt, circuit⟩
      | .ok ms => if lib.sleeps ms then tryFrom (attempt + 1) circuit else ⟨.raised, attempt, circuit⟩
    else ⟨.fallback (buildUserFallbackMessage exc reason), attempt,
      if retriable then circuit.recordFailure cfg (clock attempt) else circuit⟩
termination_by retryMaxAttempts - attempt
decreasing_by
  have hle := maxAttemptsFor_le (exc.toModelError lib)
  omega

/-- `wrap_model_call`. -/
def wrapModelCall [LinearOrder T] (circuit : Circuit T) : Ended R T :=
  let (open_, circuit) := circuit.check (clock 0)
  if open_ then ⟨.fallback circuitFallback, 0, circuit⟩
  else tryFrom lib zero cfg clock handler 1 circuit

end

/-! ### What is expected -/

section

variable {R T : Type} (handler : ℕ → Handled R)

/-- The call returns, and the handler is not called too often. -/
structure TotalAndBounded (ended : Ended R T) : Prop where
  returns : ended.result.Returns
  bounded : ended.calls ≤ retryMaxAttempts
  /-- What is tried again is no failure of quota or access, and none that is unknown. -/
  reasons : ∀ i, 1 ≤ i → i < ended.calls → ∃ exc, handler i = .error exc ∧
    (classifyError (exc.toModelError lib)).2 ∉ [Reason.quota, .auth, .generic]
  /-- A stream that stalls is tried again at the first attempt only. -/
  stalled : ∀ i exc, 2 ≤ i → i < ended.calls → handler i = .error exc →
    exc.name ≠ "StreamChunkTimeoutError"

/-- An attempt fails with an error that is tried again. -/
def Retriable (i : ℕ) : Prop :=
  ∃ exc, handler i = .error exc ∧ (classifyError (exc.toModelError lib)).1 = true ∧
    i < maxAttemptsFor (exc.toModelError lib)

/-- The header of an error says nothing, or a delay that one can sleep: its number is not infinite,
and not too large, or its date not too late. -/
def Waitable (i : ℕ) (exc : ForeignError) : Prop :=
  ∀ multiplier raw, retryAfter exc = some (multiplier, raw) →
    match (lib.float raw).map (lib.times · multiplier) with
    | some .infinite => False
    | some (.finite x) => lib.sleeps (x.num.tdiv x.den).toNat = true
    | _ => ∀ ms, lib.untilDate i raw = some ms → lib.sleeps ms.toNat = true

end

variable {lib} {R T : Type} [Add T] {zero : T} {cfg : CircuitBreaker.Config T}
  {clock : ℕ → T} {handler : ℕ → Handled R} {exc : ForeignError} {attempt : ℕ} {circuit : Circuit T}

/-! ### Waiting -/

theorem sleeps_backoff : lib.sleeps (min (retryBaseDelayMs * 2 ^ (attempt - 1)) retryCapDelayMs) = true :=
  lib.sleeps_short _ (Nat.min_le_right _ _)

/-- A call waits, if its header can be waited for. -/
theorem waitable_iff : Waitable lib attempt exc ↔
    ∃ ms, buildRetryDelayMs lib attempt exc = .ok ms ∧ lib.sleeps ms = true := by
  rw [Waitable, buildRetryDelayMs, extractRetryAfterMs]
  cases hheader : retryAfter exc with
  | none => simp [sleeps_backoff]
  | some header =>
    obtain ⟨multiplier, raw⟩ := header
    have hsome : ∀ {P : ℕ → String → Prop},
        (∀ m r, some (multiplier, raw) = some (m, r) → P m r) ↔ P multiplier raw := by
      intro P
      constructor
      · exact fun h => h _ _ rfl
      · rintro h m r heq
        cases heq
        exact h
    rw [hsome]
    dsimp only
    -- what is no number is taken for a date
    have hdate : (∀ ms, lib.untilDate attempt raw = some ms → lib.sleeps ms.toNat = true) ↔
        ∃ ms, (match (Except.ok ((lib.untilDate attempt raw).map Int.toNat) :
            Except NumberError (Option ℕ)) with
          | .ok (some ms) => .ok ms
          | .ok none => .ok (min (retryBaseDelayMs * 2 ^ (attempt - 1)) retryCapDelayMs)
          | .error e => .error e) = (Except.ok ms : Except NumberError ℕ) ∧ lib.sleeps ms = true := by
      cases lib.untilDate attempt raw with
      | none => simp [sleeps_backoff]
      | some ms => simp
    cases lib.float raw with
    | none => exact hdate
    | some x =>
      rw [Option.map_some]
      cases htimes : lib.times x multiplier with
      | nan =>
        dsimp only
        rw [htimes]
        exact hdate
      | infinite | finite => simp [htimes, PyFloat.toInt]

/-! ### Attempts -/

variable (zero cfg clock circuit) in
theorem tryFrom_of_not_retriable (h : ¬Retriable lib handler attempt)
    (hbubble : handler attempt ≠ .graphBubbleUp) :
    (tryFrom lib zero cfg clock handler attempt circuit).calls = attempt ∧
      (tryFrom lib zero cfg clock handler attempt circuit).result.Returns := by
  rw [tryFrom]
  cases hhandler : handler attempt with
  | response r => exact ⟨rfl, .inl ⟨r, rfl⟩⟩
  | graphBubbleUp => exact absurd hhandler hbubble
  | error exc =>
    dsimp only
    rw [dif_neg fun hc => h ⟨exc, hhandler, hc⟩]
    exact ⟨rfl, .inr ⟨_, rfl⟩⟩

variable (zero cfg clock circuit) in
theorem tryFrom_of_retriable (hhandler : handler attempt = .error exc)
    (h : (classifyError (exc.toModelError lib)).1 = true ∧
      attempt < maxAttemptsFor (exc.toModelError lib)) :
    (Waitable lib attempt exc ∧ tryFrom lib zero cfg clock handler attempt circuit =
        tryFrom lib zero cfg clock handler (attempt + 1) circuit) ∨
      ¬Waitable lib attempt exc ∧
        tryFrom lib zero cfg clock handler attempt circuit = ⟨.raised, attempt, circuit⟩ := by
  rw [tryFrom, hhandler, waitable_iff]
  dsimp only
  rw [dif_pos h]
  cases hdelay : buildRetryDelayMs lib attempt exc with
  | error e => simp
  | ok ms =>
    cases hsleeps : lib.sleeps ms with
    | false | true => simp [hsleeps]

variable (zero cfg clock circuit) in
/-- **The attempts** from one on: they are not too many, all but the last are tried again, and the
call returns exactly if all that are tried again can be waited for. -/
theorem tryFrom_spec (hbubble : ∀ i, handler i ≠ .graphBubbleUp)
    (hattempt : attempt ≤ retryMaxAttempts) :
    ∀ ended, ended = tryFrom lib zero cfg clock handler attempt circuit →
      ended.calls ≤ retryMaxAttempts ∧
      (∀ i, attempt ≤ i → i < ended.calls → Retriable lib handler i) ∧
      (ended.result.Returns ↔ ∀ i exc, attempt ≤ i →
        (∀ j, attempt ≤ j → j ≤ i → Retriable lib handler j) → handler i = .error exc →
        Waitable lib i exc) := by
  induction hn : retryMaxAttempts - attempt using Nat.strong_induction_on generalizing attempt with
  | _ n ih =>
    rintro _ rfl
    by_cases hretriable : Retriable lib handler attempt
    · obtain ⟨exc, hhandler, hagain⟩ := hretriable
      have hle := maxAttemptsFor_le (exc.toModelError lib)
      rcases tryFrom_of_retriable zero cfg clock circuit hhandler hagain with ⟨hwait, hnext⟩ | ⟨hwait, hraised⟩
      · rw [hnext]
        obtain ⟨hcalls, hall, hreturns⟩ := ih _ (by omega) (show attempt + 1 ≤ retryMaxAttempts by omega)
          rfl _ rfl
        refine ⟨hcalls, fun i hi hlt => ?_, ?_⟩
        · rcases Nat.eq_or_lt_of_le hi with rfl | hi
          · exact ⟨exc, hhandler, hagain⟩
          · exact hall i hi hlt
        · rw [hreturns]
          constructor
          · intro h i exc' hi hfailed hexc
            rcases Nat.eq_or_lt_of_le hi with rfl | hi
            · rw [hhandler] at hexc
              cases hexc
              exact hwait
            · exact h i exc' hi (fun j hj => hfailed j (Nat.le_of_succ_le hj)) hexc
          · intro h i exc' hi hfailed hexc
            refine h i exc' (Nat.le_of_succ_le hi) (fun j hj hji => ?_) hexc
            rcases Nat.eq_or_lt_of_le hj with rfl | hj
            · exact ⟨exc, hhandler, hagain⟩
            · exact hfailed j hj hji
      · rw [hraised]
        refine ⟨hattempt, fun i hi hlt => absurd hlt (Nat.not_lt.2 hi), ?_⟩
        constructor
        · rintro (⟨r, h⟩ | ⟨message, h⟩)
          · cases h
          · cases h
        · intro h
          refine absurd (h attempt exc (Nat.le_refl _) (fun j hj hji => ?_) hhandler) hwait
          rw [Nat.le_antisymm hji hj]
          exact ⟨exc, hhandler, hagain⟩
    · obtain ⟨hcalls, hreturns⟩ := tryFrom_of_not_retriable zero cfg clock circuit hretriable
        (hbubble attempt)
      rw [hcalls]
      refine ⟨hattempt, fun i hi hlt => absurd hlt (Nat.not_lt.2 hi), ?_⟩
      refine ⟨fun _ i exc hi hfailed => ?_, fun _ => hreturns⟩
      exact absurd (hfailed attempt (Nat.le_refl _) hi) hretriable

/-! ### Calls -/

theorem classifyError_reason {e : ModelError} (h : (classifyError e).1 = true) :
    (classifyError e).2 ∉ [Reason.quota, .auth, .generic] := by
  rw [classifyError] at h ⊢
  split_ifs at h ⊢ <;> first | exact absurd h Bool.false_ne_true | decide

theorem maxAttemptsFor_stalled {e : ModelError} (h : e.name = "StreamChunkTimeoutError") :
    maxAttemptsFor e = 2 := by
  rw [maxAttemptsFor, if_pos h]
  rfl

/-- **A call is total and bounded**, exactly if the circuit is open, or all delays can be waited for of
the errors that are tried again. -/
theorem model_call_total_iff [LinearOrder T] (lib : Library) (zero : T)
    (cfg : CircuitBreaker.Config T) (clock : ℕ → T) (handler : ℕ → Handled R) (circuit : Circuit T)
    (hbubble : ∀ i, handler i ≠ .graphBubbleUp) :
    TotalAndBounded lib handler (wrapModelCall lib zero cfg clock handler circuit) ↔
      (circuit.check (clock 0)).1 = true ∨
        ∀ i exc, 1 ≤ i → (∀ j, 1 ≤ j → j ≤ i → Retriable lib handler j) → handler i = .error exc →
          Waitable lib i exc := by
  rw [wrapModelCall]
  dsimp only
  cases hopen : (circuit.check (clock 0)).1 with
  | true =>
    rw [if_pos rfl]
    refine ⟨fun _ => .inl rfl, fun _ => ⟨.inr ⟨_, rfl⟩, Nat.zero_le _, ?_, ?_⟩⟩
    · intro i _ hi
      exact absurd hi (Nat.not_lt_zero i)
    · intro i exc _ hi
      exact absurd hi (Nat.not_lt_zero i)
  | false =>
    obtain ⟨hcalls, hretriable, hreturns⟩ := tryFrom_spec zero cfg clock
      (circuit.check (clock 0)).2 hbubble (show 1 ≤ retryMaxAttempts by decide) _ rfl
    rw [if_neg Bool.false_ne_true, or_iff_right Bool.false_ne_true, ← hreturns]
    refine ⟨fun h => h.returns, fun h => ⟨h, hcalls, fun i hi hlt => ?_, ?_⟩⟩
    · obtain ⟨exc, hexc, hagain, -⟩ := hretriable i hi hlt
      exact ⟨exc, hexc, classifyError_reason hagain⟩
    · intro i exc hi hlt hexc hname
      obtain ⟨exc', hexc', -, hmore⟩ := hretriable i (Nat.le_of_succ_le hi) hlt
      rw [hexc] at hexc'
      cases hexc'
      rw [maxAttemptsFor_stalled hname] at hmore
      omega

/-! ### Two delays -/

/-- Whole numbers and infinity, and a sleep of less than `2 ^ 63` nanoseconds. -/
def plainLibrary : Library where
  lower := id
  str _ := "none"
  float raw := if raw = "inf" then some .infinite else if raw = "1" then some (.finite 1) else none
  times x n :=
    match x with
    | .finite q => .finite (q * n)
    | x => x
  untilDate _ _ := none
  sleeps ms := ms * 1000000 < 2 ^ 63
  sleeps_short ms hms := by
    rw [retryCapDelayMs] at hms
    exact decide_eq_true (by omega)

/-- The provider is not available, and says for how long. -/
def unavailable (retryAfter : String) : ForeignError where
  name := "InternalServerError"
  isIndexError := false
  text := "503"
  message := .null
  code := .null
  errorCode := .null
  body := .null
  statusCode := .int 503
  status := .null
  response := some ⟨.int 503, some (.table fun key => if key = "retry-after" then some retryAfter
    else none)⟩

theorem retryAfter_unavailable (raw : String) (h : raw ≠ "") :
    retryAfter (unavailable raw) = some (1000, raw) := by
  have hmultiplier : multiplierOf "retry-after" = 1000 := by decide
  simp [retryAfter, retryAfterKeys, unavailable, Option.filter, h, hmultiplier]

theorem retriable_unavailable (raw : String) :
    (classifyError ((unavailable raw).toModelError plainLibrary)).1 = true ∧
      1 < maxAttemptsFor ((unavailable raw).toModelError plainLibrary) := by
  have herror : (unavailable raw).toModelError plainLibrary =
      ⟨"InternalServerError", "503", "none", some 503, false⟩ := by
    simp [ForeignError.toModelError, unavailable, plainLibrary, extractErrorDetail, extractStatusCode,
      asInt, show PyStr.strip "503" = "503" by decide]
  rw [herror]
  decide

/-- One second. -/
theorem model_call_total_after_delay : TotalAndBounded plainLibrary
    (fun i => if i = 1 then .error (unavailable "1") else .response ())
    (wrapModelCall plainLibrary (0 : ℤ) ⟨5, 60⟩ (fun _ => 0)
      (fun i => if i = 1 then .error (unavailable "1") else .response ()) ⟨.closed, 0, 0, false⟩) := by
  refine (model_call_total_iff plainLibrary (0 : ℤ) ⟨5, 60⟩ (fun _ => 0) _ ⟨.closed, 0, 0, false⟩
    fun i => ?_).2 (.inr fun i exc _ _ hexc => ?_)
  · split <;> exact nofun
  · split at hexc
    · cases hexc
      intro multiplier raw hheader
      rw [retryAfter_unavailable "1" (by decide)] at hheader
      cases hheader
      have htimes : plainLibrary.times (.finite 1) 1000 = .finite 1000 := by
        simp [plainLibrary]
      show match some (plainLibrary.times (.finite 1) 1000) with
        | some .infinite => False
        | some (.finite x) => plainLibrary.sleeps (x.num.tdiv x.den).toNat = true
        | _ => ∀ ms, plainLibrary.untilDate i "1" = some ms → plainLibrary.sleeps ms.toNat = true
      rw [htimes]
      exact plainLibrary.sleeps_short 1000 (by decide)
    · cases hexc

/-- A handler that fails in the same way each time. -/
def failing (exc : ForeignError) : ℕ → Handled Unit := fun _ => .error exc

/-- An infinite delay. -/
theorem infinite_delay_raised : ¬∀ (handler : ℕ → Handled Unit),
    (∀ i, handler i ≠ .graphBubbleUp) →
    TotalAndBounded plainLibrary handler
      (wrapModelCall plainLibrary (0 : ℤ) ⟨5, 60⟩ (fun _ => 0) handler ⟨.closed, 0, 0, false⟩) := by
  intro h
  have hreturns := (h (failing (unavailable "inf")) fun _ => nofun).returns
  have hwait : ¬Waitable plainLibrary 1 (unavailable "inf") := by
    intro hwait
    exact hwait 1000 "inf" (retryAfter_unavailable "inf" (by decide))
  have hhandler : failing (unavailable "inf") 1 = .error (unavailable "inf") := rfl
  rcases tryFrom_of_retriable (0 : ℤ) ⟨5, 60⟩ (fun _ => 0) ⟨.closed, 0, 0, false⟩ hhandler
      (retriable_unavailable "inf") with ⟨hno, -⟩ | ⟨-, hraised⟩
  · exact hwait hno
  · have hresult : (wrapModelCall plainLibrary (0 : ℤ) ⟨5, 60⟩ (fun _ => 0)
        (failing (unavailable "inf")) ⟨.closed, 0, 0, false⟩).result =
          .raised := congrArg Ended.result hraised
    rw [hresult] at hreturns
    rcases hreturns with ⟨r, hr⟩ | ⟨message, hmessage⟩
    · cases hr
    · cases hmessage

end AfterFlow.Agents.ErrorHandling
