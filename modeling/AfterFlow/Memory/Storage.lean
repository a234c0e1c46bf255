import AfterFlow.Memory.Document
import AfterFlow.Transition.Runs
import Mathlib.Data.Fintype.Basic

/-!
# The cache of memory documents

`FileMemoryStorage` keeps a document for each user and agent, and beside it the modification time of
the file it is from. A load goes by the cache if the file still has that time. Only the dictionary
is locked: the time is asked for, the file read and replaced, and the cache written one after the
other, and other calls may come in between.

A load asks for the time before it reads. If the file is replaced in between, the cache gets an old
time, which the file never has again, and the next load reads. `reload` reads first and `save` asks
for the time of its own file after it put it there: if another call replaces the file in between, an
old document gets the new time.

## Main results

* `load_returns_file` — a load returns what is in the file, when no call is under way
-/

namespace AfterFlow.Memory.Storage

open Transition Function Option

inductive Call (K : Type) where
  | load (key : K)
  | reload (key : K)
  | save (key : K) (memoryData : MemoryData)

/-- The user and the agent. -/
def Call.key {K : Type} : Call K → K
  | .load k | .reload k | .save k _ => k

structure File (M : Type) where
  doc : MemoryData
  mtime : M

/-- How far a call is. -/
inductive Stage (M : Type) where
  | called
  /-- A load has asked for the modification time. -/
  | statted (mtime : Option M)
  /-- A load has not found its document in the cache. -/
  | missed (mtime : Option M)
  /-- A reload has read the file, or a save has replaced it. -/
  | unstamped (doc : MemoryData)
  /-- The call is going to write the cache. -/
  | caching (doc : MemoryData) (mtime : Option M)
  /-- The call has returned a document, or a save has failed. -/
  | done (result : Option MemoryData)

/-- The call has begun and is not over. -/
def Stage.inFlight {M : Type} : Stage M → Bool
  | .called | .done _ => false
  | _ => true

def Stage.isUnstamped {M : Type} : Stage M → Bool
  | .unstamped _ => true
  | _ => false

structure World (K P M I : Type) where
  files : P → Option (File M)
  /-- The modification times that the file has had. -/
  mtimes : P → List M
  /-- `_memory_cache`. -/
  cache : K → Option (MemoryData × Option M)
  stage : I → Stage M

inductive Act (M I : Type) where
  /-- The modification time, or an `OSError`. -/
  | stat (i : I) (ok : Bool)
  /-- `_memory_cache.get`. -/
  | lookup (i : I)
  /-- `_load_memory_from_file`, or an error in it. -/
  | read (i : I) (now : String) (ok : Bool)
  /-- `temp_path.replace`. -/
  | replace (i : I) (now : String) (mtime : M)
  /-- A save fails before it replaces the file. -/
  | fail (i : I)
  | write (i : I)

/-- The call whose act it is. -/
@[grind =] def Act.call {M I : Type} : Act M I → I
  | .stat i _ | .lookup i | .read i _ _ | .replace i _ _ | .fail i | .write i => i

/-- No error is raised in the act. -/
def Act.succeeds {M I : Type} : Act M I → Bool
  | .stat _ ok | .read _ _ ok => ok
  | .fail _ => false
  | _ => true

/-- `file_path.stat().st_mtime if file_path.exists() else None`. -/
def statOf {M : Type} (ok : Bool) (file : Option (File M)) : Option M :=
  if ok then file.map File.mtime else none

/-- `_load_memory_from_file`. -/
def loadMemoryFromFile {M : Type} (now : String) (ok : Bool) : Option (File M) → MemoryData
  | none => createEmptyMemory now
  | some file => if ok then file.doc else createEmptyMemory now

variable {K P M I : Type} [DecidableEq K] [DecidableEq P] [DecidableEq M] [DecidableEq I]

def World.goTo (w : World K P M I) (i : I) (stage : Stage M) : World K P M I :=
  { w with stage := update w.stage i stage }

/-- `_get_memory_file_path` of a user and an agent. Several may have one file. -/
abbrev Paths (K P : Type) := K → P

variable (path : Paths K P) (calls : I → Call K)

/-- The path of the file of a call. -/
def pathOf (i : I) : P := path (calls i).key

def World.fileOf (w : World K P M I) (i : I) : Option (File M) := w.files (pathOf path calls i)

/-- One act of a call, if it is the call's turn to do it. A file gets a time that it has not had. -/
@[grind =] def step (w : World K P M I) : Act M I → Option (World K P M I)
  | .stat i ok =>
    match calls i, w.stage i with
    | .load _, .called => some (w.goTo i (.statted (statOf ok (w.fileOf path calls i))))
    | .reload _, .unstamped doc | .save _ _, .unstamped doc =>
      some (w.goTo i (.caching doc (statOf ok (w.fileOf path calls i))))
    | _, _ => none
  | .lookup i =>
    match w.stage i with
    | .statted mtime =>
      match w.cache (calls i).key with
      | some (doc, cached) =>
        if cached = mtime then some (w.goTo i (.done (some doc))) else some (w.goTo i (.missed mtime))
      | none => some (w.goTo i (.missed mtime))
    | _ => none
  | .read i now ok =>
    match calls i, w.stage i with
    | .load _, .missed mtime =>
      some (w.goTo i (.caching (loadMemoryFromFile now ok (w.fileOf path calls i)) mtime))
    | .reload _, .called =>
      some (w.goTo i (.unstamped (loadMemoryFromFile now ok (w.fileOf path calls i))))
    | _, _ => none
  | .replace i now mtime =>
    match calls i, w.stage i with
    | .save _ memoryData, .called =>
      if mtime ∈ w.mtimes (pathOf path calls i) then none
      else
        let doc := memoryData.touched now
        some ({ w with
          files := update w.files (pathOf path calls i) (some ⟨doc, mtime⟩)
          mtimes := update w.mtimes (pathOf path calls i)
            (mtime :: w.mtimes (pathOf path calls i)) }.goTo i (.unstamped doc))
    | _, _ => none
  | .fail i =>
    match calls i, w.stage i with
    | .save _ _, .called => some (w.goTo i (.done none))
    | _, _ => none
  | .write i =>
    match w.stage i with
    | .caching doc mtime =>
      some ({ w with cache := update w.cache (calls i).key (some (doc, mtime)) }.goTo i
        (.done (some doc)))
    | _ => none

/-- Storage that has just been made, with the files that are there. -/
structure World.Begins (w : World K P M I) : Prop where
  cache : ∀ k, w.cache k = none
  called : ∀ i, w.stage i = .called
  mtimes : ∀ p file, w.files p = some file → file.mtime ∈ w.mtimes p

/-- No file is replaced between the read and the stat of a reload, or between the replacement and
the stat of a save, and no read of a file that is there fails. -/
@[grind =] def Orderly (w : World K P M I) : Act M I → Prop
  | .replace i _ _ => ∀ j, pathOf path calls j = pathOf path calls i →
      (w.stage j).isUnstamped = false
  | .read i _ ok => ok = true ∨ w.fileOf path calls i = none
  | _ => True

/-- When no call is under way, a load that runs alone and without errors returns what is in the
file. -/
def World.Fresh (w : World K P M I) : Prop :=
  (∀ i, (w.stage i).inFlight = false) → ∀ i k file, calls i = .load k → w.stage i = .called →
    w.files (path k) = some file → ∀ w' result,
      Runs (step path calls) (fun _ a => a.call = i ∧ a.succeeds = true) w w' →
      w'.stage i = .done result → result = some file.doc

/-! ### What each step keeps -/

/-- The document is the one in the file, if the file has the time; and the file has had the time. -/
structure Stamped {M : Type} (file : Option (File M)) (mtimes : List M) (doc : MemoryData)
    (mtime : Option M) : Prop where
  known : ∀ t, mtime = some t → t ∈ mtimes
  doc : ∀ f, file = some f → mtime = some f.mtime → f.doc = doc

/-- What a call has found out is right. -/
def Stage.Fits {M : Type} (file : Option (File M)) (mtimes : List M) : Stage M → Prop
  | .called | .done _ => True
  | .statted mtime | .missed mtime => ∀ t, mtime = some t → t ∈ mtimes
  | .unstamped doc => ∀ f, file = some f → f.doc = doc
  | .caching doc mtime => Stamped file mtimes doc mtime

/-- The cache and the calls know a document under the time of the file only if it is the file's. -/
structure Current (w : World K P M I) : Prop where
  file : ∀ p f, w.files p = some f → f.mtime ∈ w.mtimes p
  cache : ∀ k doc mtime, w.cache k = some (doc, mtime) →
    Stamped (w.files (path k)) (w.mtimes (path k)) doc mtime
  stage : ∀ i, (w.stage i).Fits (w.fileOf path calls i) (w.mtimes (pathOf path calls i))

variable {path calls} {w w' w₀ : World K P M I} {i j : I} {stage : Stage M} {file : Option (File M)}
  {f : File M} {times : List M} {doc : MemoryData} {mtime : Option M} {t : M}

omit [DecidableEq K] [DecidableEq P] [DecidableEq M] [DecidableEq I] in
theorem World.Begins.current (h : w.Begins) : Current path calls w where
  file := h.mtimes
  cache k doc mtime hk := by
    rw [h.cache k] at hk
    cases hk
  stage i := by
    rw [h.called i]
    trivial

section

omit [DecidableEq M]

theorem statOf_known {ok : Bool} (h : ∀ f, file = some f → f.mtime ∈ times) :
    ∀ t, statOf ok file = some t → t ∈ times := by
  intro t ht
  cases ok with
  | false => cases ht
  | true =>
    obtain ⟨f, hf, rfl⟩ := map_eq_some_iff.1 ht
    exact h f hf

theorem Stamped.replace (h : Stamped file times doc mtime) (ht : t ∉ times) (new : MemoryData) :
    Stamped (some ⟨new, t⟩) (t :: times) doc mtime where
  known s hs := List.mem_cons_of_mem _ (h.known s hs)
  doc f hf hmtime := by
    cases hf
    exact absurd (h.known t hmtime) ht

theorem Stage.Fits.replace (h : stage.Fits file times) (ht : t ∉ times)
    (hstage : stage.isUnstamped = false) (new : MemoryData) :
    stage.Fits (some ⟨new, t⟩) (t :: times) := by
  cases stage with
  | called => trivial
  | statted | missed => exact fun s hs => List.mem_cons_of_mem _ (h s hs)
  | unstamped doc => cases hstage
  | caching doc mtime => exact Stamped.replace h ht new
  | done result => trivial

end

omit [DecidableEq K] [DecidableEq P] [DecidableEq M] in
theorem Current.goTo (h : Current path calls w)
    (hstage : stage.Fits (w.fileOf path calls i) (w.mtimes (pathOf path calls i))) :
    Current path calls (w.goTo i stage) where
  file := h.file
  cache := h.cache
  stage j := by
    by_cases hji : j = i
    · subst hji
      simpa [World.goTo, World.fileOf] using hstage
    · simpa [World.goTo, World.fileOf, hji] using h.stage j

omit [DecidableEq P] [DecidableEq M] in
theorem Current.write (h : Current path calls w) (hi : w.stage i = .caching doc mtime) :
    Current path calls ({ w with
      cache := update w.cache (calls i).key (some (doc, mtime)) }.goTo i
        (.done (some doc))) := by
  have hstage := h.stage i
  rw [hi] at hstage
  refine Current.goTo ⟨h.file, fun k doc' mtime' hk => ?_, h.stage⟩ trivial
  by_cases hki : k = (calls i).key
  · subst hki
    simp only [update_self, some.injEq, Prod.mk.injEq] at hk
    obtain ⟨rfl, rfl⟩ := hk
    exact hstage
  · simp only [update_of_ne hki] at hk
    exact h.cache k doc' mtime' hk

omit [DecidableEq K] [DecidableEq M] in
theorem Current.replace (h : Current path calls w) (ht : t ∉ w.mtimes (pathOf path calls i))
    (hcalm : ∀ j, pathOf path calls j = pathOf path calls i → (w.stage j).isUnstamped = false)
    (new : MemoryData) :
    Current path calls ({ w with
      files := update w.files (pathOf path calls i) (some ⟨new, t⟩)
      mtimes := update w.mtimes (pathOf path calls i)
        (t :: w.mtimes (pathOf path calls i)) }.goTo i (.unstamped new)) := by
  refine Current.goTo ⟨fun p f hp => ?_, fun k doc mtime hk => ?_, fun j => ?_⟩ ?_
  · by_cases hpi : p = pathOf path calls i
    · subst hpi
      simp only [update_self, some.injEq] at hp
      subst hp
      simp
    · simp only [update_of_ne hpi] at hp ⊢
      exact h.file p f hp
  · by_cases hpi : path k = pathOf path calls i
    · have hk := h.cache k doc mtime hk
      simp only [hpi, update_self] at hk ⊢
      exact hk.replace ht new
    · simp only [update_of_ne hpi]
      exact h.cache k doc mtime hk
  · have hj := h.stage j
    by_cases hpi : pathOf path calls j = pathOf path calls i
    · simp only [World.fileOf, hpi, update_self] at hj ⊢
      exact hj.replace ht (hcalm j hpi) new
    · simp only [World.fileOf, update_of_ne hpi] at hj ⊢
      exact hj
  · intro f hf
    simp only [World.fileOf, update_self, some.injEq] at hf
    subst hf
    rfl

/-- The acts of one call. -/
theorem Current.step {a : Act M I} (h : Current path calls w) (horderly : Orderly path calls w a)
    (hstep : step path calls w a = some w') : Current path calls w' := by
  have hfile : ∀ i f, w.fileOf path calls i = some f → f.mtime ∈ w.mtimes (pathOf path calls i) :=
    fun i f hf => h.file _ f hf
  cases a with
  | stat i ok =>
    have hunstamped : ∀ doc, w.stage i = .unstamped doc →
        Current path calls (w.goTo i (.caching doc (statOf ok (w.fileOf path calls i)))) := by
      intro doc hi
      have hdoc := h.stage i
      rw [hi] at hdoc
      exact h.goTo ⟨statOf_known (hfile i), fun f hf _ => hdoc f hf⟩
    simp only [Storage.step] at hstep
    split at hstep <;> cases hstep
    · exact h.goTo (statOf_known (hfile i))
    · exact hunstamped _ ‹_›
    · exact hunstamped _ ‹_›
  | lookup i =>
    have hknown : ∀ mtime, w.stage i = .statted mtime →
        Current path calls (w.goTo i (.missed mtime)) := by
      intro mtime hi
      have hmtime := h.stage i
      rw [hi] at hmtime
      exact h.goTo hmtime
    simp only [Storage.step] at hstep
    split at hstep
    · rename_i mtime hi
      split at hstep
      · split at hstep <;> cases hstep
        · exact h.goTo trivial
        · exact hknown mtime hi
      · cases hstep
        exact hknown mtime hi
    · cases hstep
  | read i now ok =>
    have hread : ∀ f, w.fileOf path calls i = some f →
        f.doc = loadMemoryFromFile now ok (w.fileOf path calls i) := by
      intro f hf
      rcases horderly with rfl | hnone
      · rw [hf]
        rfl
      · rw [hnone] at hf
        cases hf
    simp only [Storage.step] at hstep
    split at hstep <;> cases hstep
    · rename_i mtime _ hi
      have hmtime := h.stage i
      rw [hi] at hmtime
      exact h.goTo ⟨hmtime, fun f hf _ => hread f hf⟩
    · exact h.goTo hread
  | replace i now t =>
    simp only [Storage.step] at hstep
    split at hstep
    · split at hstep
      · cases hstep
      · rename_i ht
        cases hstep
        exact h.replace ht horderly _
    · cases hstep
  | fail i =>
    simp only [Storage.step] at hstep
    split at hstep <;> cases hstep
    exact h.goTo trivial
  | write i =>
    simp only [Storage.step] at hstep
    split at hstep <;> cases hstep
    exact h.write ‹_›

/-! ### A load that runs alone -/

/-- What a load has found out while nobody else did anything. -/
@[grind =] def Stage.Agrees (f : File M) : Stage M → Prop
  | .statted mtime | .missed mtime | .caching _ mtime => mtime = some f.mtime
  | .unstamped _ => False
  | .done result => result = some f.doc
  | .called => True

/-- The acts of a load that runs alone and without errors. -/
theorem Stage.Agrees.step {k : K} {a : Act M I} (h : (w.stage i).Agrees f)
    (hcurrent : Current path calls w) (hcall : calls i = .load k) (hfile : w.files (path k) = some f)
    (ha : a.call = i ∧ a.succeeds = true) (hstep : Storage.step path calls w a = some w') :
    (w'.stage i).Agrees f ∧ w'.files = w.files := by
  have hof : w.fileOf path calls i = some f := by
    rw [World.fileOf, pathOf, hcall]
    exact hfile
  cases a with
  | stat j ok =>
    obtain ⟨rfl, rfl⟩ : j = i ∧ ok = true := ha
    simp only [Storage.step] at hstep
    split at hstep <;> cases hstep
    · exact ⟨by simp [World.goTo, Stage.Agrees, statOf, hof], rfl⟩
    · rename_i hi
      rw [hi] at h
      exact h.elim
    · rename_i hi
      rw [hi] at h
      exact h.elim
  | lookup j =>
    obtain rfl : j = i := ha.1
    simp only [Storage.step] at hstep
    split at hstep
    · rename_i mtime hi
      rw [hi] at h
      obtain rfl : mtime = some f.mtime := h
      split at hstep
      · rename_i doc cached hk
        rw [hcall] at hk
        split at hstep <;> cases hstep
        · rename_i hmtime
          have hdoc : f.doc = doc := (hcurrent.cache k doc cached hk).doc f hfile hmtime
          exact ⟨by simp [World.goTo, Stage.Agrees, hdoc], rfl⟩
        · exact ⟨by simp [World.goTo, Stage.Agrees], rfl⟩
      · cases hstep
        exact ⟨by simp [World.goTo, Stage.Agrees], rfl⟩
    · cases hstep
  | read j now ok =>
    obtain rfl : j = i := ha.1
    simp only [Storage.step] at hstep
    split at hstep <;> cases hstep
    · rename_i mtime _ hi
      rw [hi] at h
      exact ⟨by simpa [World.goTo, Stage.Agrees] using h, rfl⟩
    · rename_i hreload _
      rw [hcall] at hreload
      cases hreload
  | replace j now t =>
    obtain rfl : j = i := ha.1
    simp [Storage.step, hcall] at hstep
  | fail j => cases ha.2
  | write j =>
    obtain rfl : j = i := ha.1
    simp only [Storage.step] at hstep
    split at hstep <;> cases hstep
    rename_i doc mtime hi
    have hfits := hcurrent.stage j
    rw [hi] at h hfits
    have hdoc : f.doc = doc := Stamped.doc hfits f hof h
    exact ⟨by simp [World.goTo, Stage.Agrees, hdoc], rfl⟩

theorem orderly_of_alone {k : K} {a : Act M I} (hcall : calls i = .load k)
    (ha : a.call = i ∧ a.succeeds = true) (hstep : step path calls w a = some w') :
    Orderly path calls w a := by
  cases a with
  | read j now ok => exact .inl ha.2
  | replace j now t =>
    obtain rfl : j = i := ha.1
    simp [step, hcall] at hstep
  | _ => trivial

theorem Current.fresh (h : Current path calls w) : w.Fresh path calls := by
  intro _ i k f hcall hcalled hfile w' result hrun hdone
  have hall : Current path calls w' ∧ w'.files = w.files ∧ (w'.stage i).Agrees f := by
    refine hrun.invariant (I := fun w' => Current path calls w' ∧ w'.files = w.files ∧
      (w'.stage i).Agrees f) ⟨h, rfl, ?_⟩ ?_
    · rw [hcalled]
      trivial
    · intro w₁ a w₂ ⟨hcurrent, hfiles, hagrees⟩ ha hstep
      obtain ⟨hagrees', hfiles'⟩ := hagrees.step hcurrent hcall (hfiles ▸ hfile) ha hstep
      exact ⟨hcurrent.step (orderly_of_alone hcall ha hstep) hstep, hfiles'.trans hfiles, hagrees'⟩
  have hagrees := hall.2.2
  rw [hdone] at hagrees
  exact hagrees

/-- **Once no call is under way, a load returns what is in the file**, if no file was replaced
between the two halves of a reload or a save. -/
theorem load_returns_file {path : Paths K P} {calls : I → Call K} {w₀ w : World K P M I}
    (hbegins : w₀.Begins) (hrun : Runs (step path calls) (Orderly path calls) w₀ w) :
    w.Fresh path calls :=
  (hrun.invariant hbegins.current fun _ _ _ h horderly hstep => h.step horderly hstep).fresh

/-! ### Two saves -/

def demoDoc (work : String) : MemoryData := { createEmptyMemory "" with workContext := ⟨work, ""⟩ }

/-- Two calls save, one loads. -/
def demoCalls : Fin 3 → Call Unit
  | 0 => .save () (demoDoc "first")
  | 1 => .save () (demoDoc "second")
  | 2 => .load ()

/-- No files. -/
def demoWorld : World Unit Unit ℕ (Fin 3) := ⟨fun _ => none, fun _ => [], fun _ => none, fun _ => .called⟩

theorem demoWorld_begins : demoWorld.Begins :=
  ⟨fun _ => rfl, fun _ => rfl, fun _ _ h => by cases h⟩

instance [Fintype I] (w : World K P M I) (a : Act M I) : Decidable (Orderly path calls w a) := by
  simp only [Orderly]
  cases a <;> infer_instance

theorem load_returns_file_demo : ∃ w : World Unit Unit ℕ (Fin 3),
    runWith (step id demoCalls) (Orderly id demoCalls) demoWorld
      [.replace 0 "1" 1, .stat 0 true, .replace 1 "2" 2, .stat 1 true, .write 1, .write 0] = some w ∧
    w.Fresh id demoCalls := by
  obtain ⟨w, hw⟩ : ∃ w, runWith (step id demoCalls) (Orderly id demoCalls) demoWorld
      [.replace 0 "1" 1, .stat 0 true, .replace 1 "2" 2, .stat 1 true, .write 1, .write 0] = some w :=
    isSome_iff_exists.1 (by decide +kernel)
  exact ⟨w, hw, load_returns_file demoWorld_begins (runs_of_runWith hw)⟩

/-- **The cache stays wrong** after two saves of which the first asks for its time last. -/
theorem saved_stale : ¬∀ w : World Unit Unit ℕ (Fin 3),
    Runs (step id demoCalls) (fun _ _ => True) demoWorld w → w.Fresh id demoCalls := by
  intro h
  obtain ⟨w, hw, hidle, hcalled, hfile⟩ : ∃ w, runWith (step id demoCalls) (fun _ _ => True) demoWorld
      [.replace 0 "1" 1, .replace 1 "2" 2, .stat 1 true, .write 1, .stat 0 true, .write 0] = some w ∧
      (∀ i, (w.stage i).inFlight = false) ∧ w.stage 2 = .called ∧
      w.files () = some ⟨(demoDoc "second").touched "2", 2⟩ :=
    ⟨_, rfl, by decide +kernel, rfl, rfl⟩
  obtain ⟨w', hw', hdone⟩ : ∃ w', runWith (step id demoCalls)
      (fun _ a => a.call = 2 ∧ a.succeeds = true) w [.stat 2 true, .lookup 2] = some w' ∧
      w'.stage 2 = .done (some ((demoDoc "first").touched "1")) := by
    cases hw
    exact ⟨_, rfl, rfl⟩
  have hstale := h w (runs_of_runWith hw) hidle 2 () _ rfl hcalled hfile w' _ (runs_of_runWith hw') hdone
  exact absurd (congrArg (Option.map MemoryData.lastUpdated) hstale) (by decide)

end AfterFlow.Memory.Storage
