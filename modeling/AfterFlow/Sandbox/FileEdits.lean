import AfterFlow.Sandbox.Provider
import AfterFlow.Sandbox.Replacing
import AfterFlow.Transition.Runs
import AfterFlow.WeakLocks
import Mathlib.Data.Fintype.Pi

/-!
# Edits of one file

`str_replace` reads a file and writes it again, and `write_file` with `append` writes at its end.
Both hold a lock in between, which `get_file_operation_lock` looks up by the text of the path that
goes to the sandbox. For files in the thread's directories that text is the resolved host path, so
one file has one lock. For a file in a custom mount it is the path as it came, and with two
spellings the file has two locks.

What the sandbox does to the texts that are written and read is a parameter. A call that raises
before it writes may do so at any moment.

## Main results

* `lockPath_of_threadFile`, `lockPath_of_mount` — by which text the lock of a path is looked up
* `Serial.step` — what each step keeps
* `edits_kept` — no edit is lost as long as the calls between a read and a write share their lock
-/

namespace AfterFlow.Sandbox

open Transition WeakLocks List Function

namespace FileEdits

/-! ### Calls -/

/-- What a call does to its file. -/
inductive Edit where
  | append (content : List Char)
  | strReplace (oldStr newStr : List Char) (replaceAll : Bool)
  deriving DecidableEq

structure Call where
  path : List Char
  edit : Edit
  deriving DecidableEq

/-- The sandbox and the settings of its tools. -/
structure Tools where
  settings : Settings
  threadData : ThreadData
  mappings : List PathMapping
  /-- `_resolve_paths_in_content`, which may raise. -/
  resolveContent : List Char → Option (List Char)
  /-- `_reverse_resolve_paths_in_output`. -/
  reverseOutput : List Char → List Char

variable (t : Tools)

/-- The path that the tool hands to the sandbox. Its lock is looked up by it. -/
def Tools.lockPath (path : List Char) : List Char :=
  match writePath t.settings t.threadData path with
  | .ok path => path
  | .error _ => []

/-- The file that the path denotes, if the tool accepts it. -/
def Tools.denotes (path : List Char) : Except ToolError (List (List Char)) :=
  (writePath t.settings t.threadData path).bind (hostPlace t.mappings)

/-- The text of a file, if there is one, and whether its path is in `_agent_written_paths`. -/
structure File where
  text : Option (List Char)
  agentWritten : Bool
  deriving DecidableEq

/-- `sandbox.read_file`. -/
def Tools.readFile (f : File) : Option (List Char) :=
  f.text.map fun text => if f.agentWritten then t.reverseOutput text else text

/-- `sandbox.write_file`, to a file with the text `before`. -/
def Tools.writeFile (before content : List Char) : Option File :=
  (t.resolveContent content).map fun text => ⟨some (before ++ text), true⟩

/-- How far a call is. -/
inductive Stage where
  | begun
  /-- A `str_replace` call has read the file, and will write the content. -/
  | replacing (content : List Char)
  | done (ok : Bool)
  deriving DecidableEq

/-- What a `str_replace` call does after it has read the file. -/
def afterRead (oldStr newStr : List Char) (replaceAll : Bool) : Option (List Char) → Stage
  | none => .done false
  | some content =>
    if content = [] then .done true
    else if containsText oldStr content then .replacing (replaceText content oldStr newStr replaceAll)
    else .done false

/-- The stage of a call that has read the file. -/
def Tools.read (edit : Edit) (f : File) : Stage :=
  match edit with
  | .append _ => .begun
  | .strReplace oldStr newStr replaceAll => afterRead oldStr newStr replaceAll (t.readFile f)

/-- The file after the write of a call, if nothing raises. -/
def Tools.written (edit : Edit) (stage : Stage) (f : File) : Option File :=
  match edit, stage with
  | .append content, .begun => t.writeFile (f.text.getD []) content
  | .strReplace _ _ _, .replacing content => t.writeFile [] content
  | _, _ => none

/-- The file after a call that runs alone, if the call succeeds. -/
def Tools.perform (edit : Edit) (f : File) : Option File :=
  match t.read edit f with
  | .done true => some f
  | .done false => none
  | stage => t.written edit stage f

/-! ### Calls that take turns -/

variable {I : Type} [DecidableEq I]

structure World (I : Type) where
  locks : Locks (List Char) I
  files : List (List Char) → File
  stage : I → Stage
  /-- The calls that succeeded, in the order in which they did. -/
  applied : List I

inductive Act (I : Type) where
  | get (i : I)
  | acquire (i : I) (lock : ℕ)
  | read (i : I)
  | write (i : I)
  | fail (i : I)
  | release (i : I)
  | collect (key : List Char)

variable (calls : I → Call)

/-- The file of a call. -/
def Tools.target (path : List Char) : List (List Char) := (t.denotes path).toOption.getD []

/-- A call is over. -/
def World.finish (w : World I) (i : I) (ok : Bool) : World I :=
  { w with
    stage := update w.stage i (.done ok)
    applied := if ok then w.applied ++ [i] else w.applied }

/-- The call may write now. -/
def mayWrite (edit : Edit) (stage : Stage) : Bool :=
  match edit, stage with
  | .append _, .begun => true
  | .strReplace _ _ _, .replacing _ => true
  | _, _ => false

def mayRead (edit : Edit) (stage : Stage) : Bool :=
  match edit, stage with
  | .strReplace _ _ _, .begun => true
  | _, _ => false

def Stage.isDone : Stage → Bool
  | .done _ => true
  | _ => false

/-- When an act is possible. -/
@[grind =] def Possible (w : World I) : Act I → Prop
  | .get i => w.locks.grip i = .away ∧ w.stage i = .begun ∧ (t.denotes (calls i).path).isOk = true
  | .acquire i lock => w.locks.grip i = .waits lock ∧ w.locks.IsFree lock
  | .read i => (w.locks.grip i).isHolding = true ∧ mayRead (calls i).edit (w.stage i) = true
  | .write i => (w.locks.grip i).isHolding = true ∧ mayWrite (calls i).edit (w.stage i) = true
  | .fail i => (w.stage i).isDone = false
  | .release i => (w.stage i).isDone = true
  | .collect key => ∀ i, ((w.locks.table key).all fun lock => !(w.locks.grip i).refersTo lock) = true

instance [Fintype I] (w : World I) (a : Act I) : Decidable (Possible t calls w a) := by
  simp only [Possible, Locks.IsFree]
  cases a <;> infer_instance

/-- What an act does. -/
@[grind =] def effect (w : World I) : Act I → World I
  | .get i => { w with locks := w.locks.get i (t.lockPath (calls i).path) }
  | .acquire i lock => { w with locks := w.locks.acquire i lock }
  | .read i =>
    match t.read (calls i).edit (w.files (t.target (calls i).path)) with
    | .done ok => w.finish i ok
    | stage => { w with stage := update w.stage i stage }
  | .write i =>
    match t.written (calls i).edit (w.stage i) (w.files (t.target (calls i).path)) with
    | none => w.finish i false
    | some f =>
      { w with files := update w.files (t.target (calls i).path) f }.finish i true
  | .fail i => w.finish i false
  | .release i => { w with locks := w.locks.release i }
  | .collect key => { w with locks := w.locks.collect key }

def step [Fintype I] (w : World I) (a : Act I) : Option (World I) :=
  if Possible t calls w a then some (effect t calls w a) else none

/-- No call has done anything yet. -/
structure World.Begins (w : World I) : Prop where
  away : ∀ i, w.locks.grip i = .away
  sound : w.locks.Sound fun i => t.lockPath (calls i).path
  begun : ∀ i, w.stage i = .begun
  applied : w.applied = []

/-- The path is not handed on as it came, and no mapping takes the host path that is. -/
structure Tools.IsThreadFile (path : List Char) : Prop where
  resolved : isCustomMountPath t.settings path = false
  unmapped : findPathMapping t.mappings (t.lockPath path) = none

/-- When a call writes, no `str_replace` call with another lock has read the file and will write. -/
def Orderly (w : World I) : Act I → Prop
  | .write i => ∀ j, w.stage j ≠ .begun → (w.stage j).isDone = false →
      t.lockPath (calls j).path = t.lockPath (calls i).path
  | _ => True

/-- The file is as if the calls that succeeded had run one after another, in some order. -/
def AsIfSerial (place : List (List Char)) (w₀ w : World I) : Prop :=
  ∃ order : List I, order.Nodup ∧ (∀ i, i ∈ order ↔ w.stage i = .done true) ∧
    order.foldlM (fun f i => t.perform (calls i).edit f) (w₀.files place) = some (w.files place)

/-! ### The key of a path -/

variable {t calls} {place : List (List Char)} {start : File} {w w₀ : World I} {i j : I}

theorem lockPath_of_accepted {path : List Char} (h : t.denotes path = .ok place) :
    writePath t.settings t.threadData path = .ok (t.lockPath path) ∧
      hostPlace t.mappings (t.lockPath path) = .ok place := by
  rw [Tools.denotes] at h
  rw [Tools.lockPath]
  cases hpath : writePath t.settings t.threadData path with
  | error e =>
    rw [hpath] at h
    cases h
  | ok handed =>
    rw [hpath] at h
    exact ⟨rfl, h⟩

/-- What `write_file` and `str_replace` hand on, of a path that they accept. -/
theorem writePath_ok {s : Settings} {td : ThreadData} {path handed : List Char}
    (h : writePath s td path = .ok handed) :
    isCustomMountPath s path = true ∧ handed = path ∨
      isCustomMountPath s path = false ∧ handed = resolve (replaceVirtualPath path td) := by
  rw [writePath] at h
  cases hvalid : validateLocalToolPath s path false with
  | error e =>
    rw [hvalid] at h
    cases h
  | ok _ =>
    rw [hvalid] at h
    cases hmount : isCustomMountPath s path with
    | true =>
      rw [hmount] at h
      exact .inl ⟨rfl, (Except.ok.inj h).symm⟩
    | false =>
      rw [hmount] at h
      change resolveAndValidateUserDataPath path td = .ok handed at h
      simp only [resolveAndValidateUserDataPath] at h
      split at h
      · exact .inr ⟨rfl, (Except.ok.inj h).symm⟩
      · cases h

/-- **A file in the thread's directories** has its lock by its place, however its path is spelled. -/
theorem lockPath_of_threadFile {path : List Char} (hfile : t.IsThreadFile path)
    (h : t.denotes path = .ok place) : t.lockPath path = ofParts place := by
  obtain ⟨hwrite, hplace⟩ := lockPath_of_accepted h
  rw [hostPlace_of_none hfile.unmapped] at hplace
  obtain ⟨hmount, -⟩ | ⟨-, hresolve⟩ := writePath_ok hwrite
  · rw [hfile.resolved] at hmount
    cases hmount
  · rw [← Except.ok.inj hplace, hresolve, resolveParts_resolve]
    rfl

/-- **A file in a custom mount** has its lock by its path as it is spelled. -/
theorem lockPath_of_mount {path : List Char} (hmount : isCustomMountPath t.settings path = true)
    (h : t.denotes path = .ok place) : t.lockPath path = path := by
  obtain ⟨-, hpath⟩ | ⟨hresolved, -⟩ := writePath_ok (lockPath_of_accepted h).1
  · exact hpath
  · rw [hmount] at hresolved
    cases hresolved

/-! ### What each step keeps -/

/-- The file is as after the calls that succeeded, in their order, and a `str_replace` call that
will write has read it as it is. -/
structure Serial (t : Tools) (calls : I → Call) (place : List (List Char)) (start : File)
    (w : World I) : Prop where
  sound : w.locks.Sound fun i => t.lockPath (calls i).path
  held : ∀ i content, w.stage i = .replacing content → (w.locks.grip i).isHolding = true
  current : ∀ i content, w.stage i = .replacing content →
    t.read (calls i).edit (w.files place) = .replacing content
  nodup : w.applied.Nodup
  applied : ∀ i, i ∈ w.applied ↔ w.stage i = .done true
  serial : w.applied.foldlM (fun f i => t.perform (calls i).edit f) start = some (w.files place)

theorem perform_eq {edit : Edit} {stage : Stage} {f : File} (hread : t.read edit f = stage)
    (hmay : mayWrite edit stage = true) : t.perform edit f = t.written edit stage f := by
  rw [Tools.perform, hread]
  cases stage with
  | begun | replacing => rfl
  | done ok => cases edit <;> cases hmay

@[simp] theorem stage_finish (w : World I) (i : I) (ok : Bool) :
    (w.finish i ok).stage = update w.stage i (.done ok) := rfl

theorem replacing_of_finish {ok : Bool} {content : List Char}
    (h : (w.finish i ok).stage j = .replacing content) : j ≠ i ∧ w.stage j = .replacing content := by
  by_cases hji : j = i
  · subst hji
    rw [stage_finish, update_self] at h
    cases h
  · rw [stage_finish, update_of_ne hji] at h
    exact ⟨hji, h⟩

omit [DecidableEq I] in
theorem Serial.not_applied (h : Serial t calls place start w) (hi : (w.stage i).isDone = false) :
    i ∉ w.applied := by
  intro hmem
  rw [(h.applied i).1 hmem] at hi
  cases hi

theorem Serial.fail (h : Serial t calls place start w) (hi : (w.stage i).isDone = false) :
    Serial t calls place start (w.finish i false) where
  sound := h.sound
  held j content hj := h.held j content (replacing_of_finish hj).2
  current j content hj := h.current j content (replacing_of_finish hj).2
  nodup := h.nodup
  applied j := by
    by_cases hji : j = i
    · subst hji
      rw [stage_finish, update_self]
      exact iff_of_false (h.not_applied hi) (by decide)
    · rw [stage_finish, update_of_ne hji]
      exact h.applied j
  serial := h.serial

/-- A call succeeds, and where the file changes, no other call will write what it made of the old
one. -/
theorem Serial.succeed {f : File} (h : Serial t calls place start w)
    (hi : (w.stage i).isDone = false) (hf : t.perform (calls i).edit (w.files place) = some f)
    (hcalm : f = w.files place ∨ ∀ j content, w.stage j = .replacing content → j = i) :
    Serial t calls place start
      ({ w with files := update w.files place f }.finish i true) where
  sound := h.sound
  held j content hj := h.held j content (replacing_of_finish hj).2
  current j content hj := by
    obtain ⟨hji, hj⟩ := replacing_of_finish hj
    rcases hcalm with rfl | hcalm
    · rw [World.finish, update_eq_self]
      exact h.current j content hj
    · exact absurd (hcalm j content hj) hji
  nodup := nodup_append.2 ⟨h.nodup, nodup_singleton i, fun j hj k hk hjk => by
    rw [mem_singleton.1 hk] at hjk
    exact h.not_applied hi (hjk ▸ hj)⟩
  applied j := by
    show j ∈ w.applied ++ [i] ↔ update w.stage i (.done true) j = .done true
    rw [mem_append, mem_singleton]
    by_cases hji : j = i
    · subst hji
      rw [update_self]
      exact iff_of_true (.inr rfl) rfl
    · rw [update_of_ne hji, or_iff_left hji]
      exact h.applied j
  serial := by
    show (w.applied ++ [i]).foldlM _ start = some (update w.files place f place)
    rw [foldlM_append, h.serial, update_self]
    exact (congrArg (· >>= pure) hf : _)

section

omit [DecidableEq I]

theorem Serial.locks {locks : Locks (List Char) I} (h : Serial t calls place start w)
    (hsound : locks.Sound fun i => t.lockPath (calls i).path)
    (hheld : ∀ i, (w.stage i).isDone = false → (w.locks.grip i).isHolding = true →
      (locks.grip i).isHolding = true) :
    Serial t calls place start { w with locks := locks } where
  sound := hsound
  held i content hi := hheld i (by rw [hi]; rfl) (h.held i content hi)
  current := h.current
  nodup := h.nodup
  applied := h.applied
  serial := h.serial

theorem ne_of_holding {locks : Locks (List Char) I} (hi : (locks.grip i).isHolding = false)
    (hj : (locks.grip j).isHolding = true) : j ≠ i := by
  rintro rfl
  rw [hi] at hj
  cases hj

end

theorem isDone_of_mayRead {edit : Edit} {stage : Stage} (h : mayRead edit stage = true) :
    stage.isDone = false := by
  cases edit <;> cases stage <;> first | rfl | cases h

theorem isDone_of_mayWrite {edit : Edit} {stage : Stage} (h : mayWrite edit stage = true) :
    stage.isDone = false := by
  cases edit <;> cases stage <;> first | rfl | cases h

omit [DecidableEq I] in
theorem Serial.begin (h : w.Begins t calls) : Serial t calls place (w.files place) w where
  sound := h.sound
  held i content hi := by
    rw [h.begun i] at hi
    cases hi
  current i content hi := by
    rw [h.begun i] at hi
    cases hi
  nodup := by
    rw [h.applied]
    exact nodup_nil
  applied i := by
    rw [h.applied, h.begun i]
    exact iff_of_false not_mem_nil nofun
  serial := by
    rw [h.applied]
    rfl

variable (hsame : ∀ i, t.denotes (calls i).path = .ok place)

include hsame

omit [DecidableEq I] in
theorem target_eq (i : I) : t.target (calls i).path = place := by
  rw [Tools.target, hsame i]
  rfl

/-- A `str_replace` call reads the file. -/
theorem Serial.read (h : Serial t calls place start w) (hgrip : (w.locks.grip i).isHolding = true)
    (hmay : mayRead (calls i).edit (w.stage i) = true) :
    Serial t calls place start (effect t calls w (.read i)) := by
  have hi : (w.stage i).isDone = false := isDone_of_mayRead hmay
  simp only [effect, target_eq hsame]
  cases hread : t.read (calls i).edit (w.files place) with
  | done ok =>
    cases ok with
    | false => exact h.fail hi
    | true =>
      have hf : t.perform (calls i).edit (w.files place) = some (w.files place) := by
        rw [Tools.perform, hread]
      have := h.succeed hi hf (.inl rfl)
      rwa [update_eq_self] at this
  | begun =>
    -- Not a `str_replace` call.
    cases hedit : (calls i).edit with
    | append content =>
      rw [hedit] at hmay
      cases hmay
    | strReplace oldStr newStr all =>
      rw [hedit, Tools.read, afterRead.eq_def] at hread
      split at hread
      · cases hread
      · split at hread
        · cases hread
        · split at hread <;> cases hread
  | replacing content =>
    have hstage : ∀ j content', update w.stage i (.replacing content) j =
        .replacing content' → j = i ∧ content = content' ∨ w.stage j = .replacing content' := by
      intro j content' hj
      by_cases hji : j = i
      · subst hji
        rw [update_self] at hj
        cases hj
        exact .inl ⟨rfl, rfl⟩
      · rw [update_of_ne hji] at hj
        exact .inr hj
    refine ⟨h.sound, fun j content' hj => ?_, fun j content' hj => ?_, h.nodup, fun j => ?_, h.serial⟩
    · rcases hstage j content' hj with ⟨rfl, -⟩ | hold
      · exact hgrip
      · exact h.held j content' hold
    · rcases hstage j content' hj with ⟨rfl, rfl⟩ | hold
      · exact hread
      · exact h.current j content' hold
    · show j ∈ w.applied ↔ update w.stage i (.replacing content) j = .done true
      by_cases hji : j = i
      · subst hji
        rw [update_self]
        exact iff_of_false (h.not_applied hi) (by simp)
      · rw [update_of_ne hji]
        exact h.applied j

/-- A call writes the file, and no other has read it for a write of its own. -/
theorem Serial.write (h : Serial t calls place start w) (hgrip : (w.locks.grip i).isHolding = true)
    (hmay : mayWrite (calls i).edit (w.stage i) = true) (horderly : Orderly t calls w (.write i)) :
    Serial t calls place start (effect t calls w (.write i)) := by
  have hi : (w.stage i).isDone = false := isDone_of_mayWrite hmay
  have hread : t.read (calls i).edit (w.files place) = w.stage i := by
    cases hstage : w.stage i with
    | begun =>
      rw [hstage] at hmay
      cases hedit : (calls i).edit with
      | append content => rfl
      | strReplace oldStr newStr all =>
        rw [hedit] at hmay
        cases hmay
    | replacing content => exact h.current i content hstage
    | done ok =>
      rw [hstage] at hi
      cases hi
  simp only [effect, target_eq hsame]
  cases hwritten : t.written (calls i).edit (w.stage i) (w.files place) with
  | none => exact h.fail hi
  | some f =>
    refine h.succeed hi ((perform_eq hread hmay).trans hwritten) (.inr fun j content hj => ?_)
    refine h.sound.exclusive (h.held j content hj) hgrip (horderly j ?_ ?_)
    · rw [hj]
      exact nofun
    · rw [hj]
      rfl

/-- **Each step keeps it.** -/
theorem Serial.step [Fintype I] {a : Act I} {w' : World I} (h : Serial t calls place start w)
    (horderly : Orderly t calls w a) (hstep : step t calls w a = some w') :
    Serial t calls place start w' := by
  rw [FileEdits.step] at hstep
  split at hstep
  · rename_i hpossible
    obtain rfl := Option.some.inj hstep
    cases a with
    | get i =>
      refine h.locks (h.sound.get i) fun j _ hj => ?_
      have hji : j ≠ i := ne_of_holding (by rw [hpossible.1]; rfl) hj
      rwa [Locks.grip_get_of_ne hji]
    | acquire i lock =>
      refine h.locks (h.sound.acquire hpossible.1 hpossible.2) fun j _ hj => ?_
      have hji : j ≠ i := ne_of_holding (by rw [hpossible.1]; rfl) hj
      rwa [Locks.grip_acquire_of_ne hji]
    | read i => exact h.read hsame hpossible.1 hpossible.2
    | write i => exact h.write hsame hpossible.1 hpossible.2 horderly
    | fail i => exact h.fail hpossible
    | release i =>
      refine h.locks (h.sound.release i) fun j hj hgrip => ?_
      have hji : j ≠ i := by
        rintro rfl
        rw [show (w.stage j).isDone = true from hpossible] at hj
        cases hj
      rwa [Locks.grip_release_of_ne hji]
    | collect key =>
      refine h.locks (h.sound.collect fun lock hlock i => ?_) fun j _ hj => hj
      have := hpossible i
      rwa [hlock, Option.all_some, Bool.not_eq_true'] at this
  · cases hstep

/-! ### Runs -/

omit hsame

/-- **No edit is lost**, where no call writes while a `str_replace` call with another lock is about
to; so in every run, if the calls spell the path alike or the file is one of the thread's. -/
theorem edits_kept [Fintype I] {t : Tools} {calls : I → Call} {place : List (List Char)}
    {w₀ : World I} (hsame : ∀ i, t.denotes (calls i).path = .ok place) (hbegins : w₀.Begins t calls) :
    (∀ w, Runs (step t calls) (Orderly t calls) w₀ w → AsIfSerial t calls place w₀ w) ∧
    (((∀ i j, (calls i).path = (calls j).path) ∨ ∀ i, t.IsThreadFile (calls i).path) →
      ∀ w, Runs (step t calls) (fun _ _ => True) w₀ w → AsIfSerial t calls place w₀ w) := by
  have horderly : ∀ w, Runs (step t calls) (Orderly t calls) w₀ w →
      AsIfSerial t calls place w₀ w := by
    intro w hrun
    have hserial : Serial t calls place (w₀.files place) w :=
      hrun.invariant (Serial.begin hbegins) fun w₁ a w₂ h horderly hstep =>
        h.step hsame horderly hstep
    exact ⟨w.applied, hserial.nodup, hserial.applied, hserial.serial⟩
  refine ⟨horderly, fun hpaths w hrun => horderly w (hrun.mono fun w a _ => ?_)⟩
  have hkey : ∀ i j, t.lockPath (calls j).path = t.lockPath (calls i).path := by
    intro i j
    rcases hpaths with halike | hfile
    · rw [halike j i]
    · rw [lockPath_of_threadFile (hfile j) (hsame j), lockPath_of_threadFile (hfile i) (hsame i)]
  cases a with
  | write i => exact fun j _ _ => hkey i j
  | _ => trivial

/-! ### Two calls -/

/-- A thread, and a mount of `/srv/data` at `/mnt/data`. -/
def demoTools : Tools where
  settings := ⟨"/mnt/skills".toList, none, "/skills/ann".toList, none,
    [⟨"/srv/data".toList, "/mnt/data".toList, false⟩]⟩
  threadData := ⟨"/t/workspace".toList, "/t/uploads".toList, "/t/outputs".toList⟩
  mappings := [⟨"/mnt/data".toList, "/srv/data".toList, false⟩]
  resolveContent := some
  reverseOutput := id

/-- One call replaces `x`, the other appends `z`. -/
def twoCalls (path path' : String) : Bool → Call
  | false => ⟨path.toList, .strReplace ['x'] ['y'] false⟩
  | true => ⟨path'.toList, .append ['z']⟩

/-- Files with the text `x`. -/
def demoWorld : World Bool := ⟨Locks.empty, fun _ => ⟨some ['x'], false⟩, fun _ => .begun, []⟩

def demoPlace : List (List Char) := ["srv".toList, "data".toList, "a.txt".toList]

theorem demoWorld_begins (calls : Bool → Call) : demoWorld.Begins demoTools calls :=
  ⟨fun _ => rfl, sound_empty, fun _ => rfl, rfl⟩

instance [Fintype I] (w : World I) (a : Act I) : Decidable (Orderly t calls w a) := by
  simp only [Orderly]
  cases a <;> infer_instance

theorem edits_kept_demo : ∃ w : World Bool,
    runWith (step demoTools (twoCalls "/mnt/data/a.txt" "/mnt/data/a.txt"))
      (Orderly demoTools (twoCalls "/mnt/data/a.txt" "/mnt/data/a.txt")) demoWorld
      [.get false, .acquire false 0, .read false, .get true, .write false, .release false,
        .acquire true 0, .write true] = some w ∧
    AsIfSerial demoTools (twoCalls "/mnt/data/a.txt" "/mnt/data/a.txt") demoPlace demoWorld w := by
  obtain ⟨w, hw⟩ : ∃ w, runWith (step demoTools (twoCalls "/mnt/data/a.txt" "/mnt/data/a.txt"))
      (Orderly demoTools (twoCalls "/mnt/data/a.txt" "/mnt/data/a.txt")) demoWorld
      [.get false, .acquire false 0, .read false, .get true, .write false, .release false,
        .acquire true 0, .write true] = some w := Option.isSome_iff_exists.1 (by decide +kernel)
  exact ⟨w, hw,
    (edits_kept (by decide +kernel) (demoWorld_begins _)).1 w (runs_of_runWith hw)⟩

/-- The calls spell the path in two ways. -/
def lostCalls : Bool → Call := twoCalls "/mnt/data/a.txt" "/mnt/data//a.txt"

/-- **An append is lost** that comes between the read and the write of the other call. -/
theorem edit_lost : ¬∀ w : World Bool,
    Runs (step demoTools lostCalls) (fun _ _ => True) demoWorld w →
      AsIfSerial demoTools lostCalls demoPlace demoWorld w := by
  intro h
  have hrun : ∃ w, runWith (step demoTools lostCalls) (fun _ _ => True) demoWorld
      [.get false, .acquire false 0, .read false, .get true, .acquire true 1, .write true,
        .write false] = some w ∧ w.files demoPlace = ⟨some ['y'], true⟩ ∧
      ∀ i, w.stage i = .done true := by
    refine ⟨_, rfl, by decide +kernel, by decide +kernel⟩
  obtain ⟨w, hw, hfile, hdone⟩ := hrun
  obtain ⟨order, hnodup, hmem, hserial⟩ := h w (runs_of_runWith hw)
  have hperm : order.Perm [false, true] := (perm_ext_iff_of_nodup hnodup (by decide)).2 fun i =>
    iff_of_true ((hmem i).2 (hdone i)) (by cases i <;> decide)
  have hboth : ∀ order ∈ [[false, true], [true, false]],
      order.foldlM (fun f i => demoTools.perform (lostCalls i).edit f) (demoWorld.files demoPlace) ≠
        some ⟨some ['y'], true⟩ := by decide +kernel
  have horder : order ∈ [[false, true], [true, false]] := by
    match order, hperm.length_eq, hnodup with
    | [false, true], _, _ => exact mem_cons_self
    | [true, false], _, _ => exact mem_cons_of_mem _ mem_cons_self
    | [false, false], _, hnodup => exact absurd hnodup (by decide)
    | [true, true], _, hnodup => exact absurd hnodup (by decide)
  exact hboth order horder (hserial.trans (congrArg some hfile))

end FileEdits

end AfterFlow.Sandbox
