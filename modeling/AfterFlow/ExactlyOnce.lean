import AfterFlow.Demo
import AfterFlow.Idempotency

/-!
# Exactly once under an idempotency key

Looking up, running and storing are separate awaited steps, so two requests of one key are kept
apart by the lock of the key alone. While a task holds it, nobody else changes the record and the
completed runs of that key; `Respects` says so, and `Sound` what holds once the lock is free. The
store works and the record of the key does not expire in the runs considered here; what the requests
run may do anything.

## Main results

* `Identity.scope_injective` — a scope belongs to one actor, role, endpoint and key
* `exactly_once` — the contract of the key, over all interleavings
-/

namespace AfterFlow

open List Function Option

namespace Idempotency

open Coop Coop.Logic

variable {σ Op : Type} {Ret : Op → Type} {ε ρ Req α β : Type}

/-! ### Scopes -/

private theorem append_colon_inj {a a' b b' : List Char} (ha : ':' ∉ a) (ha' : ':' ∉ a')
    (h : a ++ ':' :: b = a' ++ ':' :: b') : a = a' ∧ b = b' := by
  induction a generalizing a' with
  | nil =>
    cases a' with
    | nil => exact ⟨rfl, by simpa using h⟩
    | cons x a' =>
      rw [nil_append, cons_append, List.cons.injEq] at h
      exact absurd (h.1 ▸ mem_cons_self) ha'
  | cons x a ih =>
    cases a' with
    | nil =>
      rw [nil_append, cons_append, List.cons.injEq] at h
      exact absurd (h.1 ▸ mem_cons_self) ha
    | cons y a' =>
      rw [cons_append, cons_append, List.cons.injEq] at h
      obtain ⟨rfl, hb⟩ := ih (fun hm => ha (mem_cons_of_mem _ hm))
        (fun hm => ha' (mem_cons_of_mem _ hm)) h.2
      exact ⟨by rw [h.1], hb⟩

theorem roleValue_plain (r : SystemRole) : ':' ∉ r.value.toList := by
  cases r <;> decide

theorem roleValue_injective {r r' : SystemRole} (h : r.value.toList = r'.value.toList) : r = r' := by
  cases r <;> cases r' <;> first | rfl | exact absurd h (by decide)

/-- **A scope belongs to one actor, role, endpoint and key.** -/
theorem Identity.scope_injective {i j : Identity} (h : i.scope = j.scope) : i = j := by
  obtain ⟨⟨a, ha⟩, r, e, k⟩ := i
  obtain ⟨⟨a', ha'⟩, r', e', k'⟩ := j
  simp only [Identity.scope, Prod.mk.injEq] at h
  obtain ⟨rfl, htext⟩ := h
  have hlist := congrArg String.toList htext
  simp only [String.toList_append, append_assoc] at hlist
  obtain ⟨h₁, hrest⟩ := append_colon_inj ha ha' hlist
  obtain ⟨h₂, h₃⟩ := append_colon_inj (roleValue_plain r) (roleValue_plain r') hrest
  obtain rfl := String.toList_inj.mp h₁
  obtain rfl := roleValue_injective h₂
  obtain rfl := String.toList_inj.mp h₃
  rfl

/-! ### The condition -/

/-- The record of the key has not expired. -/
def Unexpired (K : Scope) (w : IdemWorld σ ρ) : Prop := ∀ r ∈ w.records K, w.now < r.expiresAt

instance (K : Scope) (w : IdemWorld σ ρ) : Decidable (Unexpired K w) :=
  inferInstanceAs (Decidable (∀ r ∈ w.records K, _))

/-- The lock is taken while it is free, and the store works. The run may fail in any way. -/
@[grind =] def Works (waits : Option (IdemOp Op ρ)) (out : Outcome) (w : IdemWorld σ ρ) : Prop :=
  match waits with
  | some (.acquire scope) => out = .ok ∧ w.held scope = false
  | some (.app _) | none => True
  | _ => out = .ok

instance (waits : Option (IdemOp Op ρ)) (out : Outcome) (w : IdemWorld σ ρ) :
    Decidable (Works waits out w) := by
  simp only [Works]
  split <;> infer_instance

/-- A statement of the store. -/
def IdemOp.OfStore : IdemOp Op ρ → Prop
  | .acquire _ | .app _ => False
  | _ => True

theorem Works.ok {op : IdemOp Op ρ} {out : Outcome} {w : IdemWorld σ ρ} (h : Works (some op) out w)
    (hop : op.OfStore) : out = .ok := by
  cases op <;> first | exact hop.elim | exact h

/-- A state of the requests. -/
abbrev IdemState (σ Op : Type) (Ret : Op → Type) (ε ρ Req : Type) :=
  Sys (IdemWorld σ ρ) (IdemOp Op ρ) (IdemOp.Reply Ret) (IdemExn ε) ρ (IdemRequest Req)

/-- A step of a request: within the time to live of the key's record, with locks and a store that
work. -/
def Healthy (K : Scope) (s : IdemState σ Op Ret ε ρ Req) : Label (IdemRequest Req) ℕ → Prop
  | .resume i out => Unexpired K s.world ∧ ∀ t ∈ s.tasks[i]?, Works t.pending out s.world
  | _ => True

instance (K : Scope) (s : IdemState σ Op Ret ε ρ Req) (l : Label (IdemRequest Req) ℕ) :
    Decidable (Healthy K s l) := by
  cases l with
  | resume i out => exact inferInstanceAs (Decidable (_ ∧ ∀ t ∈ s.tasks[i]?, _))
  | _ => exact inferInstanceAs (Decidable True)

/-! ### The invariant -/

/-- A record keeps the response of a run. -/
def Matches (r : IdemRecord ρ) (d : Completion ρ) : Prop :=
  r.response = d.response ∧ r.requestFingerprint = d.fingerprint

/-- What holds between steps; `r₀` is the record of the key before the first request. -/
structure Sound (K : Scope) (r₀ : Option (IdemRecord ρ)) (w : IdemWorld σ ρ) (g : Multiset Scope) :
    Prop where
  locks : Owns g w.held
  who : ∀ k, ∀ d ∈ w.completions k, d.who.scope = k
  fresh : w.completions K = [] → w.records K = r₀
  once : (w.completions K).length + r₀.toList.length ≤ 1
  origin : ∀ r, w.records K = some r → r₀ = some r ∨ ∃ d ∈ w.completions K, Matches r d
  settled : K ∉ g → ∀ d ∈ w.completions K, ∃ r, w.records K = some r ∧ Matches r d

/-- A change that leaves the keys of `g` alone, forgets no record of `K` and no run. -/
structure Respects (K : Scope) (g : Multiset Scope) (w w' : IdemWorld σ ρ) : Prop where
  own : ∀ k ∈ g, w'.records k = w.records k ∧ w'.completions k = w.completions k
  keep : ∀ r, w.records K = some r → w'.records K = some r
  grow : ∀ k, w.completions k <+: w'.completions k

theorem Respects.of_eq {K : Scope} {g : Multiset Scope} {w w' : IdemWorld σ ρ}
    (hr : w'.records = w.records) (hc : w'.completions = w.completions) : Respects K g w w' where
  own k _ := ⟨congrFun hr k, congrFun hc k⟩
  keep r h := by rw [hr, h]
  grow k := by rw [hc]

theorem Respects.trans {K : Scope} {g : Multiset Scope} {w₁ w₂ w₃ : IdemWorld σ ρ}
    (h₁ : Respects K g w₁ w₂) (h₂ : Respects K g w₂ w₃) : Respects K g w₁ w₃ where
  own k hk := ⟨(h₂.own k hk).1.trans (h₁.own k hk).1, (h₂.own k hk).2.trans (h₁.own k hk).2⟩
  keep r h := h₂.keep r (h₁.keep r h)
  grow k := (h₁.grow k).trans (h₂.grow k)

theorem Sound.of_eq {K : Scope} {r₀ : Option (IdemRecord ρ)} {w w' : IdemWorld σ ρ}
    {g : Multiset Scope} (h : Sound K r₀ w g) (hr : w'.records = w.records)
    (hc : w'.completions = w.completions) (hh : w'.held = w.held) : Sound K r₀ w' g := by
  obtain ⟨app, records, ids, held, now, completions, runs⟩ := w
  obtain ⟨app', records', ids', held', now', completions', runs'⟩ := w'
  dsimp only at hr hc hh
  subst hr hc hh
  exact ⟨h.locks, h.who, h.fresh, h.once, h.origin, h.settled⟩

/-! ### How a request ends -/

/-- A finished step of a request. -/
abbrev IdemEvent (σ Op : Type) (Ret : Op → Type) (ε ρ : Type) :=
  Event (IdemWorld σ ρ) (IdemOp Op ρ) (IdemOp.Reply Ret) (IdemExn ε)

/-- The world a request found, and the one it left. -/
def firstWorld (trace : List (IdemEvent σ Op Ret ε ρ)) : Option (IdemWorld σ ρ) :=
  trace.head?.map Event.before

def lastWorld (trace : List (IdemEvent σ Op Ret ε ρ)) : Option (IdemWorld σ ρ) :=
  trace.getLast?.map Event.after

/-- The request never began a run. -/
def NotRun (trace : List (IdemEvent σ Op Ret ε ρ)) : Prop :=
  ∀ e ∈ trace, e.after.runs = e.before.runs

/-- How a request of the key `K` ended that found `first` and left `last`. -/
inductive Ending (i : Identity) (fingerprint : String) (first last : IdemWorld σ ρ)
    (trace : List (IdemEvent σ Op Ret ε ρ)) : Except (IdemExn ε) ρ → Prop where
  /-- It ran to completion; nobody had before. -/
  | completed (response : ρ) (h : ⟨i, fingerprint, response⟩ ∈ last.completions i.scope)
    (hfirst : first.completions i.scope = [] ∧ first.records i.scope = none) :
    Ending i fingerprint first last trace (.ok response)
  /-- It ran and raised; nobody had completed before. -/
  | raised (e : ε) (hfirst : first.completions i.scope = [] ∧ first.records i.scope = none) :
    Ending i fingerprint first last trace (.error (.run e))
  /-- It got the recorded response, without running. -/
  | replayed (r : IdemRecord ρ) (h : last.records i.scope = some r)
    (hsame : r.requestFingerprint = fingerprint) (hrun : NotRun trace) :
    Ending i fingerprint first last trace (.ok r.response)
  /-- It had another body than the recorded one: 422, without running. -/
  | conflict (r : IdemRecord ρ) (detail : String) (h : last.records i.scope = some r)
    (hother : r.requestFingerprint ≠ fingerprint) (hrun : NotRun trace) :
    Ending i fingerprint first last trace (.error (.http 422 detail))

/-! ### The logic -/

/-- The request of the key keeps its ending; every other request is only kept apart. -/
def Concludes (K : Scope) (fingerprint : Json → String) (r : IdemRequest Req)
    (res : Except (IdemExn ε) ρ) (trace : List (IdemEvent σ Op Ret ε ρ)) : Prop :=
  ∀ i, r.identity = some i → i.scope = K → ∃ first last, firstWorld trace = some first ∧
    lastWorld trace = some last ∧ Ending i (fingerprint r.body) first last trace res

/-- The assertions: a task owns the locks it holds. -/
def idemLogic (K : Scope) (r₀ : Option (IdemRecord ρ)) (fingerprint : Json → String) :
    Logic (IdemWorld σ ρ) (IdemOp Op ρ) (IdemOp.Reply Ret) (IdemExn ε) ρ (IdemRequest Req)
      (Multiset Scope) where
  inv := Sound K r₀
  rel := Respects K
  link := fun _ _ _ _ => True
  allowed := fun _ _ waits out w _ => Unexpired K w ∧ Works waits out w
  done := Concludes K fingerprint
  rel_refl _ _ := .of_eq rfl rfl
  rel_trans := Respects.trans
  rel_weaken h := ⟨fun k hk => h.own k (Multiset.mem_add.mpr (.inl hk)), h.keep, h.grow⟩

/-- A context of a request. -/
abbrev IdemCtx (σ Op : Type) (Ret : Op → Type) (ε ρ : Type) :=
  Ctx (IdemWorld σ ρ) (IdemOp Op ρ) (IdemOp.Reply Ret) (IdemExn ε) (Multiset Scope)

variable {K : Scope} {r₀ : Option (IdemRecord ρ)} {cfg : IdemConfig σ Op Ret ε ρ Req}
  {c c' : IdemCtx σ Op Ret ε ρ} {g : Multiset Scope} {r : IdemRequest Req}

/-- The task owns `g` and could be suspended here. -/
structure At (K : Scope) (r₀ : Option (IdemRecord ρ)) (g : Multiset Scope)
    (c : IdemCtx σ Op Ret ε ρ) : Prop where
  inv : Sound K r₀ c.now (g + c.frame)
  rel : Respects K c.frame c.start c.now

section Rules

variable (cfg)

/-- Shorthand for the obligation of a coroutine. -/
abbrev Sure (K : Scope) (r₀ : Option (IdemRecord ρ)) (r : IdemRequest Req)
    (p : IdemProc σ Op Ret ε ρ α) (Q : Except (IdemExn ε) α → IdemCtx σ Op Ret ε ρ → Prop)
    (c : IdemCtx σ Op Ret ε ρ) : Prop :=
  (idemLogic K r₀ cfg.fingerprint).Safe cfg.program.toBackend r p Q c

variable {cfg}

theorem At.yield (h : At K r₀ g c) (op : Option (IdemOp Op ρ)) :
    (idemLogic K r₀ cfg.fingerprint).Yield r c op g :=
  ⟨h.inv, h.rel, trivial⟩

theorem At.write {f : IdemWorld σ ρ → IdemWorld σ ρ} (h : At K r₀ g c)
    (hr : (f c.now).records = c.now.records) (hc : (f c.now).completions = c.now.completions)
    (hh : (f c.now).held = c.now.held) : At K r₀ g { c with now := f c.now } :=
  ⟨h.inv.of_eq hr hc hh, h.rel.trans (.of_eq hr hc)⟩

theorem At.resumed {s w : IdemWorld σ ρ} {frame : Multiset Scope}
    {answer : Option (Answer (IdemOp Op ρ) (IdemOp.Reply Ret) (IdemExn ε))}
    (hinv : Sound K r₀ s (g + frame)) (hr : w.records = s.records)
    (hc : w.completions = s.completions) (hh : w.held = s.held) :
    At K r₀ g (⟨c.close, answer, s, frame, w⟩ : IdemCtx σ Op Ret ε ρ) :=
  ⟨hinv.of_eq hr hc hh, .of_eq hr hc⟩

/-- The run: it keeps to its own part of the world, so the held keys stay as they are. -/
theorem safe_embed {p : Coro σ Op Ret ε α} {Q : Except (IdemExn ε) α → IdemCtx σ Op Ret ε ρ → Prop}
    (h : At K r₀ g c)
    (hQ : ∀ res c', At K r₀ g c' → Respects K g c.now c'.now → c.trace <+: c'.trace →
      (∀ e, res = .error e → ∃ e', e = .run e') → Q res c') :
    Sure cfg K r₀ r (embed cfg.backend.fault p) Q c := by
  induction p generalizing c with
  | pure a => exact hQ _ _ h (.of_eq rfl rfl) (prefix_refl _) fun _ he => by cases he
  | raise e => exact hQ _ _ h (.of_eq rfl rfl) (prefix_refl _) fun e' he => ⟨e, by cases he; rfl⟩
  | read k ih => exact ih _ h hQ
  | write f k ih =>
    have hwrite : Respects K g c.now { c.now with app := f c.now.app } := .of_eq rfl rfl
    exact ih (h.write (f := fun w => { w with app := f w.app }) rfl rfl rfl)
      fun res c' h₁ h₂ h₃ h₄ => hQ res c' h₁ (hwrite.trans h₂) h₃ h₄
  | await op k ih =>
    refine ⟨g, h.yield _, fun s frame out hr hi ha => ?_⟩
    have hsame : (cfg.program.toBackend.answer (.app op) out s).2.records = s.records ∧
        (cfg.program.toBackend.answer (.app op) out s).2.completions = s.completions ∧
        (cfg.program.toBackend.answer (.app op) out s).2.held = s.held := by
      cases out <;> exact ⟨rfl, rfl, rfl⟩
    refine ih _ (At.resumed hi hsame.1 hsame.2.1 hsame.2.2) fun res c' h₁ h₂ h₃ h₄ => hQ res c' h₁ ?_ ?_ h₄
    · exact (hr.trans (.of_eq hsame.1 hsame.2.1)).trans h₂
    · exact (prefix_append _ _).trans h₃

/-! ### Under the lock -/

/-- The task holds the lock of `k` and found the world `first`; the key's record and completed runs
are `R` and `D`; if `b`, it has not begun a run. -/
structure View (K : Scope) (r₀ : Option (IdemRecord ρ)) (b : Bool) (first : IdemWorld σ ρ) (k : Scope)
    (R : Option (IdemRecord ρ)) (D : List (Completion ρ)) (c : IdemCtx σ Op Ret ε ρ) : Prop where
  here : At K r₀ {k} c
  record : c.now.records k = R
  completed : c.now.completions k = D
  first : firstWorld c.trace = some first
  idle : b = true → NotRun c.trace ∧ c.now.runs = c.start.runs

variable {b : Bool} {first : IdemWorld σ ρ} {k : Scope} {R : Option (IdemRecord ρ)}
  {D : List (Completion ρ)}

theorem firstWorld_append {l l' : List (IdemEvent σ Op Ret ε ρ)} (h : firstWorld l = some first) :
    firstWorld (l ++ l') = some first := by
  cases l with
  | nil => cases h
  | cons e l => exact h

theorem NotRun.close (h : NotRun c.trace) (hc : c.now.runs = c.start.runs) : NotRun c.close := by
  intro e he
  rcases mem_append.mp he with he | he
  · exact h e he
  · rw [mem_singleton.mp he]
    exact hc

theorem View.await {op : IdemOp Op ρ}
    {Q : Except (IdemExn ε) (op.Reply Ret) → IdemCtx σ Op Ret ε ρ → Prop}
    (h : View K r₀ b first k R D c) (hop : op.OfStore)
    (hruns : ∀ w, (op.perform cfg.backend w).2.runs = w.runs)
    (hQ : ∀ s c', Unexpired K s → s.records k = R → s.completions k = D →
      Sound K r₀ s ({k} + c'.frame) → c'.start = s → c'.now = (op.perform cfg.backend s).2 →
      firstWorld c'.trace = some first → (b = true → NotRun c'.trace ∧ c'.now.runs = c'.start.runs) →
      Q (op.perform cfg.backend s).1 c') :
    Sure cfg K r₀ r (idemAwait op) Q c := by
  refine Safe.call {k} (h.here.yield _) fun s frame out hr hi ha => ?_
  obtain ⟨hlive, hw⟩ := ha
  obtain rfl := hw.ok hop
  have hown := hr.own k (Multiset.mem_singleton_self k)
  exact hQ s _ hlive (hown.1.trans h.record) (hown.2.trans h.completed) hi rfl rfl
    (firstWorld_append h.first) fun hb => ⟨(h.idle hb).1.close (h.idle hb).2, hruns s⟩

theorem View.awaitQuiet {op : IdemOp Op ρ}
    {Q : Except (IdemExn ε) (op.Reply Ret) → IdemCtx σ Op Ret ε ρ → Prop}
    (h : View K r₀ b first k R D c) (hop : op.OfStore)
    (hquiet : ∀ w, (op.perform cfg.backend w).2 = w)
    (hQ : ∀ s c', Unexpired K c'.now → c'.now = s → View K r₀ b first k R D c' →
      Q (op.perform cfg.backend s).1 c') :
    Sure cfg K r₀ r (idemAwait op) Q c := by
  refine h.await hop (fun w => by rw [hquiet]) fun s c' hlive hR hD hi hs hn hf hb => ?_
  rw [hquiet] at hn
  refine hQ s c' (hn ▸ hlive) hn ⟨⟨hn ▸ hi, ?_⟩, hn ▸ hR, hn ▸ hD, hf, hb⟩
  rw [hn, hs]
  exact .of_eq rfl rfl

theorem safe_idemSession (first : IdemWorld σ ρ) {body : IdemProc σ Op Ret ε ρ α}
    {Q : Except (IdemExn ε) α → IdemCtx σ Op Ret ε ρ → Prop}
    (h : Sure cfg K r₀ r body (fun res c => ∃ R D, View K r₀ b first k R D c ∧
      ∀ c', View K r₀ b first k R D c' → Q res c') c) :
    Sure cfg K r₀ r (idemSession body) Q c := by
  rw [Sure, idemSession, Coro.bind_def, Safe.bind_iff, Safe.tryCatch_iff]
  refine Safe.mono (fun res c' hc => ?_) h
  obtain ⟨R, D, hview, hQ⟩ := hc
  cases res with
  | ok a =>
    rw [catch_ok, then_ok, Coro.bind_def, Safe.bind_iff]
    exact hview.awaitQuiet trivial (fun _ => rfl) fun s c'' _ _ hv => hQ c'' hv
  | error e =>
    rw [catch_error, Coro.bind_def, Safe.bind_iff]
    exact hview.awaitQuiet trivial (fun _ => rfl) fun s c'' _ _ hv => hQ c'' hv

theorem records_update (f : Scope → Option (IdemRecord ρ)) (k : Scope) (R' : Option (IdemRecord ρ)) :
    update f k R' k = R' := update_self k R' f

theorem At.writeRecord {s : IdemWorld σ ρ} {frame : Multiset Scope} (ids : ℕ)
    (hs : Sound K r₀ s ({k} + frame)) (R' : Option (IdemRecord ρ))
    (hkeep : k = K → ∀ row, s.records K = some row → R' = some row)
    (hfresh : k = K → s.completions K = [] → R' = r₀)
    (horigin : k = K → ∀ row, R' = some row → r₀ = some row ∨ ∃ d ∈ s.completions K, Matches row d) :
    Sound K r₀ { s with records := update s.records k R', ids } ({k} + frame) ∧
      Respects K frame s { s with records := update s.records k R', ids } := by
  have hframe : ∀ k' ∈ frame, k' ≠ k := fun k' hk' he => hs.locks.disjoint (he ▸ hk')
  by_cases hK : k = K
  · subst hK
    refine ⟨⟨hs.locks, hs.who, fun hc => ?_, hs.once, fun row hrow => ?_, fun hn => ?_⟩,
      ⟨fun k' hk' => ⟨update_of_ne (hframe k' hk') _ _, rfl⟩, fun row hrow => ?_,
        fun _ => prefix_refl _⟩⟩
    · exact (records_update _ k R').trans (hfresh rfl hc)
    · exact horigin rfl row ((records_update _ k R').symm.trans hrow)
    · exact absurd (Multiset.mem_add.mpr (.inl (Multiset.mem_singleton_self k))) hn
    · exact (records_update _ k R').trans (hkeep rfl row hrow)
  · have hrec : update s.records k R' K = s.records K := update_of_ne (Ne.symm hK) _ _
    refine ⟨⟨hs.locks, hs.who, fun hc => hrec.trans (hs.fresh hc), hs.once, fun row hrow => ?_,
      fun hn d hd => ?_⟩, ⟨fun k' hk' => ⟨update_of_ne (hframe k' hk') _ _, rfl⟩,
        fun row hrow => hrec.trans hrow, fun _ => prefix_refl _⟩⟩
    · exact hs.origin row (hrec.symm.trans hrow)
    · obtain ⟨row, hrow, hm⟩ := hs.settled hn d hd
      exact ⟨row, hrec.trans hrow, hm⟩

/-- What a lookup may answer when it leaves the record `R`. -/
inductive Found (fingerprint : String) (R : Option (IdemRecord ρ)) :
    Except (IdemExn ε) (Lookup ρ) → Prop where
  | miss (h : R = none) : Found fingerprint R (.ok .miss)
  | hit (row : IdemRecord ρ) (h : R = some row) (hsame : row.requestFingerprint = fingerprint) :
    Found fingerprint R (.ok (.hit row.response row.statusCode row.createdAt))
  | conflict (row : IdemRecord ρ) (detail : String) (h : R = some row)
    (hother : row.requestFingerprint ≠ fingerprint) :
    Found fingerprint R (.error (.idempotencyConflict detail))

theorem safe_matchRecord {fingerprint : String} {row : IdemRecord ρ}
    {Q : Except (IdemExn ε) (Lookup ρ) → IdemCtx σ Op Ret ε ρ → Prop}
    (hQ : ∀ res, Found fingerprint (some row) res → Q res c) :
    Sure cfg K r₀ r (matchRecord cfg k fingerprint row) Q c := by
  rw [matchRecord]
  split
  · exact hQ _ (.conflict row _ rfl ‹_›)
  · exact hQ _ (.hit row rfl (not_not.mp ‹_›))

/-- The lookup of the key whose lock the task holds. -/
theorem safe_lookup {fingerprint : String}
    {Q : Except (IdemExn ε) (Lookup ρ) → IdemCtx σ Op Ret ε ρ → Prop}
    (h : View K r₀ true first k R D c) (hlive : Unexpired K c.now)
    (hQ : ∀ res c' R', View K r₀ true first k R' D c' → (k = K → R' = R) → Found fingerprint R' res →
      Q res c') :
    Sure cfg K r₀ r (lookup cfg k fingerprint) Q c := by
  -- an expired record belongs to another key
  have hexpired : ∀ {w : IdemWorld σ ρ} {row : IdemRecord ρ}, Unexpired K w → w.records k = some row →
      w.now ≥ row.expiresAt → k ≠ K := by
    rintro w row hw hrow hle rfl
    exact absurd (hw row hrow) (not_lt.mpr hle)
  rw [lookup]
  cases cfg.kind with
  | sql =>
    refine safe_idemSession first (b := true) (k := k) ?_
    rw [Sure, Coro.bind_def, Safe.bind_iff]
    refine h.awaitQuiet trivial (fun _ => rfl) fun s c₁ hlive₁ hs hview => ?_
    subst hs
    show Then _ _ _ _ _ (.ok (c₁.now.records k)) c₁
    rw [then_ok, hview.record]
    cases hR : R with
    | none => exact ⟨none, D, hR ▸ hview, fun c' hv => hQ _ c' none hv (fun _ => hR.symm) (.miss rfl)⟩
    | some row =>
      dsimp only
      rw [Coro.bind_def, Safe.bind_iff, safe_get, then_ok]
      split
      · rename_i hle
        have hne := hexpired hlive₁ (hview.record.trans hR) hle
        rw [Coro.bind_def, Safe.bind_iff]
        refine hview.await trivial (fun w => ?_) fun s c₂ _ hrec hcomp hi hst hn hf hb => ?_
        · show (if _ then _ else w).runs = w.runs
          split <;> rfl
        · have hnow : c₂.now = { s with records := update s.records k none } := by
            rw [hn]
            exact if_pos (by rw [hrec, hR, any_some, decide_eq_true rfl])
          obtain ⟨hsound, hresp⟩ := At.writeRecord s.ids hi none (fun h => absurd h hne)
            (fun h => absurd h hne) fun h => absurd h hne
          refine ⟨none, D, ⟨⟨hnow ▸ hsound, ?_⟩, ?_, ?_, hf, hb⟩, fun c' hv =>
            hQ _ c' none hv (fun h => absurd h hne) (.miss rfl)⟩
          · rw [hst, hnow]
            exact hresp
          · rw [hnow]
            exact records_update _ k none
          · rw [hnow]
            exact hcomp
      · exact safe_matchRecord fun res hfound => ⟨some row, D, hR ▸ hview, fun c' hv =>
          hQ res c' (some row) hv (fun _ => hR.symm) hfound⟩
  | memory =>
    dsimp only
    rw [Sure, Coro.bind_def, Safe.bind_iff, safe_get, then_ok, h.record]
    cases hR : R with
    | none => exact hQ _ c none (hR ▸ h) (fun _ => hR.symm) (.miss rfl)
    | some row =>
      dsimp only
      split
      · rename_i hle
        have hne := hexpired hlive (h.record.trans hR) hle
        obtain ⟨hsound, hresp⟩ := At.writeRecord c.now.ids h.here.inv none
          (fun h => absurd h hne) (fun h => absurd h hne) fun h => absurd h hne
        exact hQ _ { c with now := { c.now with records := update c.now.records k none } } none
          ⟨⟨hsound, h.here.rel.trans hresp⟩, records_update _ k none, h.completed, h.first, h.idle⟩
          (fun h => absurd h hne) (.miss rfl)
      · exact safe_matchRecord fun res hfound => hQ res c (some row) (hR ▸ h) (fun _ => hR.symm) hfound

/-- The holder of a lock notes a completed run of its key. -/
theorem At.complete {i : Identity} {fingerprint : String} {response : ρ} (h : At K r₀ {i.scope} c)
    (hK : i.scope = K → c.now.completions K = [] ∧ r₀ = none) :
    At K r₀ {i.scope} { c with now := noteCompletion i fingerprint response c.now } := by
  have hframe : ∀ k' ∈ c.frame, k' ≠ i.scope := fun k' hk' he => h.inv.locks.disjoint (he ▸ hk')
  have hself : (noteCompletion i fingerprint response c.now).completions i.scope =
      c.now.completions i.scope ++ [⟨i, fingerprint, response⟩] :=
    update_self i.scope _ c.now.completions
  have hother : ∀ k' ≠ i.scope, (noteCompletion i fingerprint response c.now).completions k' =
      c.now.completions k' := fun k' hne => update_of_ne hne _ _
  have hgrow : ∀ k', c.now.completions k' <+:
      (noteCompletion i fingerprint response c.now).completions k' := by
    intro k'
    by_cases hk : k' = i.scope
    · rw [hk, hself]
      exact prefix_append _ _
    · rw [hother k' hk]
  refine ⟨⟨h.inv.locks, fun k' d hd => ?_, fun hc => ?_, ?_, fun row hrow => ?_, fun hn d hd => ?_⟩,
    h.rel.trans ⟨fun k' hk' => ⟨rfl, hother k' (hframe k' hk')⟩, fun _ hrow => hrow, hgrow⟩⟩
  · by_cases hk : k' = i.scope
    · rw [hk, hself, mem_append, mem_singleton] at hd
      rcases hd with hd | rfl
      · exact (h.inv.who _ d hd).trans hk.symm
      · exact hk.symm
    · rw [hother k' hk] at hd
      exact h.inv.who k' d hd
  · by_cases hk : i.scope = K
    · rw [← hk, hself] at hc
      simp at hc
    · rw [hother K (Ne.symm hk)] at hc
      exact h.inv.fresh hc
  · by_cases hk : i.scope = K
    · obtain ⟨hempty, hnone⟩ := hK hk
      rw [← hk] at hempty ⊢
      rw [hself, hempty, hnone]
      exact Nat.le_refl 1
    · rw [hother K (Ne.symm hk)]
      exact h.inv.once
  · exact (h.inv.origin row hrow).imp id fun ⟨d, hd, hm⟩ => ⟨d, (hgrow K).subset hd, hm⟩
  · have hk : K ≠ i.scope := fun hk =>
      hn (Multiset.mem_add.mpr (.inl (Multiset.mem_singleton.mpr hk)))
    rw [hother K hk] at hd
    exact h.inv.settled hn d hd

/-- The run, with nothing recorded yet. -/
theorem safe_runWork {i : Identity} {fingerprint : String}
    {Q : Except (IdemExn ε) ρ → IdemCtx σ Op Ret ε ρ → Prop}
    (h : View K r₀ true first i.scope none D c) (hK : i.scope = K → D = [] ∧ r₀ = none)
    (hok : ∀ response c', View K r₀ false first i.scope none (D ++ [⟨i, fingerprint, response⟩]) c' →
      Q (.ok response) c')
    (herror : ∀ e c', View K r₀ false first i.scope none D c' → Q (.error (.run e)) c') :
    Sure cfg K r₀ r (runWork cfg r.work (noteCompletion i fingerprint)) Q c := by
  rw [Sure, runWork, Coro.bind_def, Safe.bind_iff, safe_modify, then_ok, Coro.bind_def, Safe.bind_iff]
  refine safe_embed (h.here.write (f := fun w => { w with runs := w.runs + 1 }) rfl rfl rfl)
    fun res c' hat hresp hprefix hrun => ?_
  obtain ⟨hrec, hcomp⟩ := hresp.own i.scope (Multiset.mem_singleton_self _)
  obtain ⟨l, hl⟩ := hprefix
  have hfirst : firstWorld c'.trace = some first := hl ▸ firstWorld_append h.first
  have hview : View K r₀ false first i.scope none D c' :=
    ⟨hat, hrec.trans h.record, hcomp.trans h.completed, hfirst, fun hb => by cases hb⟩
  cases res with
  | error e =>
    obtain ⟨e', rfl⟩ := hrun e rfl
    exact herror e' c' hview
  | ok response =>
    rw [then_ok, Coro.bind_def, Safe.bind_iff, safe_modify, then_ok]
    refine hok response _ ⟨hat.complete fun hk => ?_, hview.record, ?_, hfirst, fun hb => by cases hb⟩
    · rw [← hk, hview.completed]
      exact hK hk
    · rw [← hview.completed]
      exact update_self i.scope _ c'.now.completions

/-- The record of a run that has completed. -/
theorem safe_store {i : Identity} {fingerprint : String} {response : ρ} {statusCode : ℕ}
    {Q : Except (IdemExn ε) Unit → IdemCtx σ Op Ret ε ρ → Prop}
    (h : View K r₀ false first i.scope none (D ++ [⟨i, fingerprint, response⟩]) c)
    (hQ : ∀ row c', row.response = response → row.requestFingerprint = fingerprint →
      View K r₀ false first i.scope (some row) (D ++ [⟨i, fingerprint, response⟩]) c' → Q (.ok ()) c') :
    Sure cfg K r₀ r (store cfg i.scope fingerprint response statusCode) Q c := by
  -- what writing the row does to a world in which the key has no record
  have hwrite : ∀ {s : IdemWorld σ ρ} {frame : Multiset Scope} (row : IdemRecord ρ) (ids : ℕ),
      row.response = response → row.requestFingerprint = fingerprint → s.records i.scope = none →
      s.completions i.scope = D ++ [⟨i, fingerprint, response⟩] →
      Sound K r₀ s ({i.scope} + frame) →
      Sound K r₀ { s with records := update s.records i.scope (some row), ids }
        ({i.scope} + frame) ∧
      Respects K frame s { s with records := update s.records i.scope (some row), ids } := by
    intro s frame row ids hres hfp hnone hcomp hs
    refine At.writeRecord _ hs (some row) (fun hk row' hrow' => ?_) (fun hk hc => ?_) fun hk row' hrow' => ?_
    · rw [← hk, hnone] at hrow'
      cases hrow'
    · rw [← hk, hcomp] at hc
      simp at hc
    · cases hrow'
      refine .inr ⟨⟨i, fingerprint, response⟩, ?_, hres, hfp⟩
      rw [← hk, hcomp]
      exact mem_append_right _ (mem_singleton_self _)
  rw [Sure, store, Coro.bind_def, Safe.bind_iff, safe_get, then_ok]
  let row : IdemRecord ρ :=
    { requestFingerprint := fingerprint, response, statusCode, createdAt := c.now.now
      expiresAt := c.now.now + cfg.ttl }
  cases cfg.kind with
  | sql =>
    dsimp only
    refine safe_idemSession first (b := false) (k := i.scope) ?_
    rw [Sure, Safe.tryCatch_iff]
    refine h.await trivial (fun w => ?_) fun s c' _ hrec hcomp hi hst hn hf _ => ?_
    · rw [IdemOp.perform]
      split <;> rfl
    · have hperform : ∀ row : IdemRecord ρ, IdemOp.perform cfg.backend (.insert i.scope row) s =
          (.ok (), { s with
            records := update s.records i.scope (some { row with id := s.ids })
            ids := s.ids + 1 }) := fun row => if_neg (by rw [hrec]; exact Bool.false_ne_true)
      rw [hperform] at hn ⊢
      obtain ⟨hsound, hresp⟩ := hwrite { row with id := s.ids } (s.ids + 1) rfl rfl hrec hcomp hi
      refine ⟨_, _, ⟨⟨hn ▸ hsound, ?_⟩, ?_, ?_, hf, fun hb => by cases hb⟩, fun c'' hv =>
        hQ { row with id := s.ids } c'' rfl rfl hv⟩
      · rw [hst, hn]
        exact hresp
      · rw [hn]
        exact records_update _ i.scope _
      · rw [hn]
        exact hcomp
  | memory =>
    dsimp only
    rw [if_neg (by rw [h.record]; exact Bool.false_ne_true), safe_modify]
    obtain ⟨hsound, hresp⟩ := hwrite row c.now.ids rfl rfl h.record h.completed h.here.inv
    exact hQ row _ rfl rfl ⟨⟨hsound, h.here.rel.trans hresp⟩, records_update _ i.scope _, h.completed,
      h.first, fun hb => by cases hb⟩

/-- How the work under the lock ended: the key's record and completed runs are `R` and `D` now. -/
inductive Worked (i : Identity) (fingerprint : String) (b : Bool) (first : IdemWorld σ ρ)
    (R : Option (IdemRecord ρ)) (D : List (Completion ρ)) : Except (IdemExn ε) ρ → Prop where
  | completed (response : ρ) (h : ⟨i, fingerprint, response⟩ ∈ D)
    (hfirst : first.completions i.scope = [] ∧ first.records i.scope = none) :
    Worked i fingerprint b first R D (.ok response)
  | raised (e : ε) (hfirst : first.completions i.scope = [] ∧ first.records i.scope = none) :
    Worked i fingerprint b first R D (.error (.run e))
  | replayed (row : IdemRecord ρ) (h : R = some row) (hsame : row.requestFingerprint = fingerprint)
    (hb : b = true) : Worked i fingerprint b first R D (.ok row.response)
  | conflict (row : IdemRecord ρ) (detail : String) (h : R = some row)
    (hother : row.requestFingerprint ≠ fingerprint) (hb : b = true) :
    Worked i fingerprint b first R D (.error (.http 422 detail))

/-- What the holder of the lock of `K` knows when it takes the lock. -/
structure Taken (K : Scope) (r₀ : Option (IdemRecord ρ)) (first : IdemWorld σ ρ)
    (R : Option (IdemRecord ρ)) (D : List (Completion ρ)) : Prop where
  fresh : D = [] → R = r₀
  once : D.length + r₀.toList.length ≤ 1
  settled : ∀ d ∈ D, ∃ row, R = some row ∧ Matches row d
  before : D = [] → first.completions K = []
  kept : R = none → first.records K = none

theorem Taken.empty (h : Taken K r₀ first none D) : D = [] ∧ r₀ = none := by
  have hD : D = [] := by
    refine eq_nil_iff_forall_not_mem.mpr fun d hd => ?_
    obtain ⟨row, hrow, -⟩ := h.settled d hd
    cases hrow
  exact ⟨hD, (h.fresh hD).symm⟩

/-- The work under the lock. -/
theorem safe_replayOrRun (first : IdemWorld σ ρ) {i : Identity} {Q : Except (IdemExn ε) ρ → IdemCtx σ Op Ret ε ρ → Prop}
    (h : View K r₀ true first i.scope R D c) (hlive : Unexpired K c.now)
    (hK : i.scope = K → Taken K r₀ first R D)
    (hQ : ∀ res c' b R' D', View K r₀ b first i.scope R' D' c' →
      (i.scope = K → (∀ d ∈ D', ∃ row, R' = some row ∧ Matches row d) ∧
        Worked i (cfg.fingerprint r.body) b first R' D' res) → Q res c') :
    Sure cfg K r₀ r (replayOrRun cfg i r) Q c := by
  rw [Sure, replayOrRun, Coro.bind_def, Safe.bind_iff, Safe.tryCatch_iff, applyIdempotency,
    Coro.bind_def, Safe.bind_iff]
  refine safe_lookup h hlive fun res c₁ R' hview hR hfound => ?_
  have hK' : i.scope = K → Taken K r₀ first R' D := fun hk => hR hk ▸ hK hk
  cases hfound with
  | conflict row detail hrow hother =>
    exact hQ _ c₁ true R' D hview fun hk =>
      ⟨(hK' hk).settled, .conflict row detail hrow hother rfl⟩
  | hit row hrow hsame =>
    exact hQ _ c₁ true R' D hview fun hk => ⟨(hK' hk).settled, .replayed row hrow hsame rfl⟩
  | miss hnone =>
    subst hnone
    have hfirst : i.scope = K → first.completions i.scope = [] ∧ first.records i.scope = none :=
      fun hk => ⟨hk ▸ (hK' hk).before (hK' hk).empty.1, hk ▸ (hK' hk).kept rfl⟩
    show (idemLogic K r₀ cfg.fingerprint).Safe _ r ((runWork cfg r.work _).bind _) Q c₁
    rw [Safe.bind_iff]
    refine safe_runWork hview (fun hk => (hK' hk).empty) (fun response c₂ hview₂ => ?_)
      fun e c₂ hview₂ => ?_
    · rw [then_ok, Coro.bind_def, Safe.bind_iff]
      refine safe_store hview₂ fun row c₃ hres hfp hview₃ => ?_
      refine hQ _ c₃ false (some row) _ hview₃ fun hk => ⟨fun d hd => ?_, ?_⟩
      · rw [(hK' hk).empty.1, nil_append, mem_singleton] at hd
        subst hd
        exact ⟨row, rfl, hres, hfp⟩
      · exact .completed response (mem_append_right _ (mem_singleton_self _)) (hfirst hk)
    · exact hQ _ c₂ false none D hview₂ fun hk => ⟨(hK' hk).settled, .raised e (hfirst hk)⟩

/-- **Every request keeps the logic.** -/
theorem idem_safe (K : Scope) (r₀ : Option (IdemRecord ρ)) (cfg : IdemConfig σ Op Ret ε ρ Req)
    (r : IdemRequest Req) : SafeHandler (idemLogic K r₀ cfg.fingerprint) cfg.program.toBackend r
      (cfg.program.handler r) := by
  refine ⟨trivial, fun w frame hw => ?_⟩
  have hstart : At K r₀ 0 (⟨[], none, w, frame, w⟩ : IdemCtx σ Op Ret ε ρ) := ⟨hw, .of_eq rfl rfl⟩
  have hend : ∀ (res : Except (IdemExn ε) ρ) (c : IdemCtx σ Op Ret ε ρ), r.identity = none →
      At K r₀ 0 c → (idemLogic K r₀ cfg.fingerprint).Final r res c :=
    fun res c hid hc => ⟨⟨0, hc.yield _⟩, fun i hi => by rw [hid] at hi; cases hi⟩
  show (idemLogic K r₀ cfg.fingerprint).Safe _ r (idemReplayOrRun cfg r) _ _
  rw [idemReplayOrRun]
  split
  · rename_i hu
    exact hend _ _ (by rw [IdemRequest.identity, hu]) hstart
  · split
    · -- without a key the request just runs
      rename_i hid
      rw [runWork, Coro.bind_def, Safe.bind_iff, safe_modify, then_ok, Coro.bind_def, Safe.bind_iff]
      refine safe_embed (hstart.write (f := fun w => { w with runs := w.runs + 1 }) rfl rfl rfl)
        fun res c hc _ _ _ => ?_
      cases res with
      | error | ok => exact hend _ _ hid hc
    · rename_i i hid
      rw [safe_withLock]
      refine Safe.call 0 (hstart.yield _) fun s frame' out hr hi ha => ?_
      obtain ⟨hlive, rfl, hfree⟩ := ha
      have hsound : Sound K r₀ s frame' := zero_add frame' ▸ hi
      have hnot : i.scope ∉ frame' := hsound.locks.not_mem hfree
      refine safe_replayOrRun w (R := s.records i.scope) (D := s.completions i.scope)
        ⟨⟨⟨hsound.locks.acquire hfree, hsound.who, hsound.fresh, hsound.once, hsound.origin,
          fun hn => hsound.settled fun hm => hn (Multiset.mem_add.mpr (.inr hm))⟩, .of_eq rfl rfl⟩,
          rfl, rfl, rfl, fun _ => ⟨?_, rfl⟩⟩ hlive (fun hk => ?_)
        fun res c b R' D' hview hfacts => ?_
      · intro e he
        rw [mem_singleton.mp he]
      · rw [hk] at hnot ⊢
        refine ⟨hsound.fresh, hsound.once, fun d hd => hsound.settled hnot d hd, fun hD => ?_, fun hR => ?_⟩
        · exact prefix_nil.mp (hD ▸ hr.grow K)
        · by_contra hne
          obtain ⟨row, hrow⟩ := ne_none_iff_exists'.mp hne
          rw [hr.keep row hrow] at hR
          cases hR
      · -- the lock is released, and the request is over
        refine ⟨⟨0, ?_, hview.here.rel.trans (.of_eq rfl rfl), trivial⟩, fun i' hi' hk => ?_⟩
        · have hinv := hview.here.inv
          refine (zero_add c.frame).symm ▸ ⟨hinv.locks.release, hinv.who, hinv.fresh, hinv.once,
            hinv.origin, fun hn d hd => ?_⟩
          by_cases hk : i.scope = K
          · have hrec : c.now.records K = R' := hk ▸ hview.record
            have hcomp : c.now.completions K = D' := hk ▸ hview.completed
            obtain ⟨row, hrow, hm⟩ := (hfacts hk).1 d (hcomp ▸ hd)
            exact ⟨row, hrec.trans hrow, hm⟩
          · refine hinv.settled (fun hm => ?_) d hd
            rcases Multiset.mem_add.mp hm with hm | hm
            · exact hk (Multiset.mem_singleton.mp hm).symm
            · exact hn hm
        · obtain rfl : i = i' := some.inj (hid.symm.trans hi')
          have hrecord : (releaseScope i.scope c.now).records i.scope = R' := hview.record
          have hcompleted : (releaseScope i.scope c.now).completions i.scope = D' := hview.completed
          refine ⟨w, releaseScope i.scope c.now, firstWorld_append hview.first,
            by simp [lastWorld, Ctx.close], ?_⟩
          have hidle : b = true → NotRun (Ctx.close { c with now := releaseScope i.scope c.now }) :=
            fun hb => NotRun.close (hview.idle hb).1 (hview.idle hb).2
          cases (hfacts hk).2 with
          | completed response h hfirst => exact .completed response (hcompleted ▸ h) hfirst
          | raised e hfirst => exact .raised e hfirst
          | replayed row h hsame hb => exact .replayed row (hrecord.trans h) hsame (hidle hb)
          | conflict row detail h hother hb =>
            exact .conflict row detail (hrecord.trans h) hother (hidle hb)

end Rules

/-! ### All interleavings -/

theorem idem_admits (K : Scope) (r₀ : Option (IdemRecord ρ)) (cfg : IdemConfig σ Op Ret ε ρ Req) :
    Admits (idemLogic K r₀ cfg.fingerprint) cfg.program (Healthy K) where
  spawn s req _ := idem_safe K r₀ cfg req
  env s d g _ hinv := ⟨hinv.of_eq rfl rfl rfl, .of_eq rfl rfl⟩
  resume s out l₁ t l₂ gs₁ gs₂ hC htasks _ _ :=
    ⟨hC.1, hC.2 t (by rw [htasks]; simp)⟩

/-- The invariant of a run from a world in which nothing of the keys' runs happened yet, and how the
requests of a key that are over ended. -/
theorem endings (cfg : IdemConfig σ Op Ret ε ρ Req) {w₀ : IdemWorld σ ρ}
    (hheld : ∀ k, w₀.held k = false) (hnew : ∀ k, w₀.completions k = []) {i : Identity}
    {s : IdemState σ Op Ret ε ρ Req} (hs : Steps cfg.program (Healthy i.scope) ⟨w₀, []⟩ s) :
    (∃ g, Sound i.scope (w₀.records i.scope) s.world g) ∧
      ∀ t ∈ s.tasks, t.req.identity = some i → ∀ res, t.result = some res →
        ∃ first, firstWorld t.trace = some first ∧
          Ending i (cfg.fingerprint t.req.body) first s.world t.trace res := by
  have hstart : Sound i.scope (w₀.records i.scope) w₀ 0 :=
    { locks := .zero hheld
      who := fun k d hd => absurd (hnew k ▸ hd) not_mem_nil
      fresh := fun _ => rfl
      once := by
        rw [hnew]
        cases w₀.records i.scope <;> simp
      origin := fun row hrow => .inl hrow
      settled := fun _ d hd => absurd (hnew i.scope ▸ hd) not_mem_nil }
  have hadmits := idem_admits i.scope (w₀.records i.scope) cfg
  have hgood := (sound hadmits (Good.init hstart) hs).1
  have hpast := sound_past hadmits (Good.init hstart) (fun t ht => absurd ht not_mem_nil) hs
  obtain ⟨gs, -, hsound⟩ := id hgood
  refine ⟨⟨_, hsound⟩, fun t ht hid res hres => ?_⟩
  obtain ⟨first, last, hfirst, hlast, hend⟩ := hgood.done ht hres i hid rfl
  obtain ⟨e, he, rfl⟩ := map_eq_some_iff.mp hlast
  have hsince := (hpast t ht e (mem_of_getLast? he)).2
  refine ⟨first, hfirst, ?_⟩
  cases hend with
  | completed response h hf => exact .completed response ((hsince.grow _).subset h) hf
  | raised e hf => exact .raised e hf
  | replayed row h hsame hrun => exact .replayed row (hsince.keep _ h) hsame hrun
  | conflict row detail h hother hrun => exact .conflict row detail (hsince.keep _ h) hother hrun

/-- Two requests of the key that were answered had the same fingerprint. -/
theorem Sound.fingerprint_eq {w first first' : IdemWorld σ ρ} {g : Multiset Scope} {i : Identity}
    {fingerprint fingerprint' : String} {trace trace' : List (IdemEvent σ Op Ret ε ρ)}
    {response response' : ρ} (hw : Sound i.scope r₀ w g)
    (h : Ending i fingerprint first w trace (.ok response))
    (h' : Ending i fingerprint' first' w trace' (.ok response')) : fingerprint = fingerprint' := by
  have hone : ∀ d ∈ w.completions i.scope, ∀ d' ∈ w.completions i.scope, d = d' := by
    intro d hd d' hd'
    obtain ⟨n, hn, rfl⟩ := mem_iff_getElem.mp hd
    obtain ⟨m, hm, rfl⟩ := mem_iff_getElem.mp hd'
    have honce := hw.once
    obtain rfl : n = m := by omega
    rfl
  have hrow : ∀ d ∈ w.completions i.scope, ∀ row, w.records i.scope = some row →
      row.requestFingerprint = d.fingerprint := by
    intro d hd row hrow
    rcases hw.origin row hrow with rfl | ⟨d', hd', hm⟩
    · have hpos := length_pos_of_mem hd
      have honce := hw.once
      rw [toList_some, length_singleton] at honce
      omega
    · rw [hm.2, hone d hd d' hd']
  cases h with
  | completed _ hd _ =>
    cases h' with
    | completed _ hd' _ => exact congrArg Completion.fingerprint (hone _ hd _ hd')
    | replayed row' hrow' hsame' _ => exact ((hrow _ hd _ hrow').symm.trans hsame')
  | replayed row hrec hsame _ =>
    cases h' with
    | completed _ hd' _ => exact hsame.symm.trans (hrow _ hd' _ hrec)
    | replayed row' hrec' hsame' _ =>
      obtain rfl := some.inj (hrec.symm.trans hrec')
      exact hsame.symm.trans hsame'

/-- The contract of one key: `first` is what a request found, and `s` the state now. -/
structure Contract (cfg : IdemConfig σ Op Ret ε ρ Req) (w₀ : IdemWorld σ ρ) (i : Identity)
    (s : IdemState σ Op Ret ε ρ Req) : Prop where
  /-- At most one run completes, and none if there was a record. -/
  once : (s.world.completions i.scope).length + (w₀.records i.scope).toList.length ≤ 1
  /-- Runs that raised leave no record. -/
  clean : s.world.completions i.scope = [] → s.world.records i.scope = w₀.records i.scope
  /-- What is recorded under the key is the run of a request with this actor, role, endpoint,
  key. -/
  own : ∀ row, s.world.records i.scope = some row → w₀.records i.scope = some row ∨
    ∃ d ∈ s.world.completions i.scope, d.who = i ∧ Matches row d
  /-- Every request of the key that is over ended in one of four ways. -/
  ending : ∀ t ∈ s.tasks, t.req.identity = some i → ∀ res, t.result = some res →
    ∃ first, firstWorld t.trace = some first ∧
      Ending i (cfg.fingerprint t.req.body) first s.world t.trace res
  /-- A request that began after the completion gets the recorded response, or 422 for another body,
  and does not run. -/
  replay : ∀ t ∈ s.tasks, t.req.identity = some i → ∀ res, t.result = some res →
    ∀ first, firstWorld t.trace = some first → first.completions i.scope ≠ [] → NotRun t.trace ∧
      ∃ row, s.world.records i.scope = some row ∧
        (row.requestFingerprint = cfg.fingerprint t.req.body ∧ res = .ok row.response ∨
          row.requestFingerprint ≠ cfg.fingerprint t.req.body ∧
            ∃ detail, res = .error (.http 422 detail))
  /-- As long as no run completed, every request runs again. -/
  retry : w₀.records i.scope = none → s.world.completions i.scope = [] → ∀ t ∈ s.tasks,
    t.req.identity = some i → ∀ res, t.result = some res → ∃ e, res = .error (.run e)

/-- **Exactly once.** However the requests interleave, whatever they run, each key keeps its
contract. -/
theorem exactly_once (cfg : IdemConfig σ Op Ret ε ρ Req) (w₀ : IdemWorld σ ρ)
    (hheld : ∀ k, w₀.held k = false) (hnew : ∀ k, w₀.completions k = []) (i : Identity)
    (s : IdemState σ Op Ret ε ρ Req) (hs : Steps cfg.program (Healthy i.scope) ⟨w₀, []⟩ s) :
    Contract cfg w₀ i s := by
  obtain ⟨⟨g, hsound⟩, hending⟩ := endings cfg hheld hnew hs
  refine ⟨hsound.once, hsound.fresh, fun row hrow => ?_, hending, ?_, ?_⟩
  · exact (hsound.origin row hrow).imp id fun ⟨d, hd, hm⟩ =>
      ⟨d, hd, Identity.scope_injective (hsound.who _ d hd), hm⟩
  · intro t ht hid res hres first hfirst hdone
    obtain ⟨first', hfirst', hend⟩ := hending t ht hid res hres
    obtain rfl := some.inj (hfirst.symm.trans hfirst')
    cases hend with
    | completed response h hf => exact absurd hf.1 hdone
    | raised e hf => exact absurd hf.1 hdone
    | replayed row h hsame hrun => exact ⟨hrun, row, h, .inl ⟨hsame, rfl⟩⟩
    | conflict row detail h hother hrun => exact ⟨hrun, row, h, .inr ⟨hother, detail, rfl⟩⟩
  · intro hnone hempty t ht hid res hres
    obtain ⟨first, -, hend⟩ := hending t ht hid res hres
    have hrec := (hsound.fresh hempty).trans hnone
    cases hend with
    | completed response h hf => rw [hempty] at h; cases h
    | raised e hf => exact ⟨e, rfl⟩
    | replayed row h hsame hrun => rw [hrec] at h; cases h
    | conflict row detail h hother hrun => rw [hrec] at h; cases h

/-! ### The demo -/

/-- The after-sales endpoints behind either store. -/
def demoIdem (kind : StoreKind) : IdemConfig World AfterFlow.Op AfterFlow.Op.Reply Exn Response Request where
  kind := kind
  ttl := actionTtl
  fingerprint := fun body => demoRuntime.sha256 body.dumps
  quote := fun s => "'" ++ s ++ "'"
  backend := database
  work := handler demo
  tick := fun d w => { w with now := w.now + d }

/-- An empty store before the first call of the demo. -/
def demoIdemWorld : IdemWorld World Response :=
  { app := demoWorld, records := fun _ => none, ids := 1, held := fun _ => false, now := 0
    completions := fun _ => [], runs := 0 }

def demoIdentity : Identity := ⟨⟨"customer", by decide⟩, .user, "/api/after-sales/cases", "key-1"⟩

/-- `POST /cases` under the key. -/
def demoRequest (orderId : String) : IdemRequest Request where
  user := some (⟨"customer", by decide⟩, .user)
  endpoint := "/api/after-sales/cases"
  key := some "key-1"
  body := .obj [("order_id", .str orderId), ("issue_type", .str "quality_issue")]
  responseStatus := 201
  work := .createCase customer ⟨orderId, .qualityIssue, false, none⟩

/-- Two requests at once, of which the second waits for the first, and one with another body. -/
def demoIdemSchedule : List (Label (IdemRequest Request) ℕ) :=
  [.spawn (demoRequest "ORDER-1003"), .spawn (demoRequest "ORDER-1003"),
    .spawn (demoRequest "ORDER-1001"), .resume 0 .ok, .resume 1 .ok, .resume 2 .ok] ++
  List.replicate 13 (.resume 0 .ok) ++ List.replicate 3 (.resume 1 .ok) ++
  List.replicate 3 (.resume 2 .ok)

def demoIdemState : IdemState World AfterFlow.Op AfterFlow.Op.Reply Exn Response Request :=
  (runWith (demoIdem .sql).program (Healthy demoIdentity.scope) ⟨demoIdemWorld, []⟩
    demoIdemSchedule).get (by decide +kernel)

/-- One run, one replay and one 422. -/
theorem exactly_once_demo : Contract (demoIdem .sql) demoIdemWorld demoIdentity demoIdemState ∧
    (demoIdemState.world.completions demoIdentity.scope).length = 1 ∧ demoIdemState.world.runs = 1 ∧
    demoIdemState.tasks.map (fun t => t.result.isSome) = [true, true, true] :=
  ⟨exactly_once (demoIdem .sql) demoIdemWorld (fun _ => rfl) (fun _ => rfl) demoIdentity
    demoIdemState (Steps.of_runWith_get _), by decide +kernel, by decide +kernel, by decide +kernel⟩

end Idempotency

end AfterFlow
