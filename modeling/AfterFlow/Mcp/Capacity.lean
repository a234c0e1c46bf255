import AfterFlow.Mcp.SessionLeaks
import Mathlib.Data.List.Dedup

/-!
# How many sessions the pool keeps

A call makes room when it starts to create a session, and the session is registered when the
creation is done. Creations that overlap see the same room, so as many sessions can be registered
beyond the bound as there were creations under way. Where each creation finds room for itself beside
the others, the bound holds.

The table is in the order of last use, whatever overlaps. What was used is written down beside the
pool: a call that finds a session uses it, and so does the registration.

## Main results

* `pool_keeps_capacity` — the capacity is kept where every creation finds room
-/

namespace AfterFlow.Mcp

open Transition List

/-! ### What was used -/

/-- The session that an act uses. -/
@[grind =] def World.used (w : World) : Act → List Key
  | .get _ key => if (w.entries.lookup key).isSome then [key] else []
  | .resume c =>
    match w.calls c with
    | .creating key o =>
      if w.ready o = .session ∧ w.inflight.lookup key = some o then [key] else []
    | _ => []
  | _ => []

/-- A step of the pool, and what was used so far, the last one last. -/
def stepUsing (s : World × List Key) (a : Act) : Option (World × List Key) :=
  (step s.1 a).map fun w => (w, s.2 ++ s.1.used a)

/-- The keys of the registered sessions. -/
def World.keys (w : World) : List Key := w.entries.map Prod.fst

theorem dedup_concat (l : List Key) (key : Key) :
    (l ++ [key]).dedup = l.dedup.filter (· ≠ key) ++ [key] := by
  induction l with
  | nil => simp
  | cons k l ih =>
    by_cases hmem : k ∈ l
    · rw [cons_append, dedup_cons_of_mem (mem_append_left _ hmem), dedup_cons_of_mem hmem, ih]
    · by_cases hk : k = key
      · rw [cons_append, dedup_cons_of_mem (by simp [hk]), dedup_cons_of_notMem hmem, ih,
          filter_cons_of_neg (by simp [hk])]
      · rw [cons_append, dedup_cons_of_notMem (by simp [hmem, hk]), dedup_cons_of_notMem hmem, ih,
          filter_cons_of_pos (by simp [hk]), cons_append]

theorem keys_erase (l : List (Key × ℕ)) (key : Key) :
    (erase l key).map Prod.fst = (l.map Prod.fst).filter (· ≠ key) := by
  rw [erase, filter_map]
  rfl

/-! ### What each step does to the table -/

variable {w w' : World} {c o : ℕ} {key : Key} {a : Act}

theorem lookup_erase_of_ne {k : Key} (h : k ≠ key) (l : List (Key × ℕ)) :
    (erase l key).lookup k = l.lookup k := by
  induction l with
  | nil => rfl
  | cons e l ih =>
    rw [erase] at ih ⊢
    by_cases he : e.1 = key
    · have hne : (k == e.1) = false := beq_false_of_ne (he ▸ h)
      rw [filter_cons_of_neg (by simp [he]), ih, lookup_cons, hne]
    · rw [filter_cons_of_pos (by simp [he]), lookup_cons, lookup_cons, ih]

/-- The sessions and the creations under way. -/
def World.count (w : World) : ℕ := w.entries.length + w.inflight.length

theorem length_erase_lt {l : List (Key × ℕ)} (h : l.lookup key = some o) :
    (erase l key).length < l.length := by
  refine Nat.lt_of_le_of_ne World.erase_sublist.length_le fun heq => ?_
  have hmem := World.mem_of_lookup h
  rw [← World.erase_sublist.eq_of_length heq, World.mem_erase] at hmem
  exact hmem.2 rfl

theorem evict_entries {next : Next} : (w.evict c next).entries = w.entries.drop w.overflow := by
  simp [World.evict]

theorem getSession_entries (h : w.entries.lookup key = none) :
    (w.getSession c key).entries = w.entries.drop w.overflow := by
  simp only [World.getSession, h]
  split <;> exact evict_entries

theorem evict_inflight {next : Next} : (w.evict c next).inflight = w.inflight := by
  simp [World.evict]

/-- **A step uses a session, which is the last then, or what it leaves was there before.** -/
theorem Stepped.entries (h : Stepped w a w') :
    (∃ key o, w.used a = [key] ∧ w'.entries = erase w.entries key ++ [(key, o)]) ∨
      w.used a = [] ∧ w'.entries <+ w.entries := by
  cases h with
  | @get c key hidle =>
    cases hentry : w.entries.lookup key with
    | some o => exact .inl ⟨key, o, by simp [World.used, hentry], by simp [World.getSession, hentry]⟩
    | none =>
      exact .inr ⟨by simp [World.used, hentry], getSession_entries hentry ▸ drop_sublist _ _⟩
  | @promote c o key hc hready =>
    by_cases hours : w.inflight.lookup key = some o
    · refine .inl ⟨key, o, by simp [World.used, hc, hready, hours], ?_⟩
      simp [World.promote, hours]
    · exact .inr ⟨by simp [World.used, hc, hready, hours], by simp [World.promote, hours]⟩
  | close => exact .inr ⟨rfl, by simp [World.close, Target.leave]⟩
  | proceed hc => exact .inr ⟨by simp [World.used, hc], by simp⟩
  | pass => exact .inr ⟨rfl, .refl _⟩
  | joined hc => exact .inr ⟨by simp [World.used, hc], .refl _⟩
  | raised hc ha =>
    rcases ha with ⟨rfl, -⟩ | rfl
    · exact .inr ⟨by simp [World.used, hc], .refl _⟩
    · exact .inr ⟨rfl, .refl _⟩
  | @giveUp c o key _ hc ha =>
    have hentries : (w.giveUp c key o).entries = w.entries := by
      rw [World.giveUp]
      split <;> rfl
    rcases ha with ⟨rfl, hready⟩ | rfl
    · exact .inr ⟨by simp [World.used, hc, hready], by rw [hentries]⟩
    · exact .inr ⟨rfl, by rw [hentries]⟩
  | unwind hc ha =>
    rcases ha with ⟨rfl, -⟩ | rfl
    · exact .inr ⟨by simp [World.used, hc], .refl _⟩
    · exact .inr ⟨rfl, .refl _⟩
  | owner => exact .inr ⟨rfl, .refl _⟩

/-- A creation starts only where the sessions that stay and the creations under way leave room. -/
def World.HasRoom (w : World) : Act → Prop
  | .get _ key => w.entries.lookup key = none → w.inflight.lookup key = none →
      w.entries.length - w.overflow + w.inflight.length < maxSessions
  | _ => True

/-- Nothing but a creation makes the pool larger. -/
theorem Stepped.count (h : Stepped w a w') (hroom : w.HasRoom a) (hle : w.count ≤ maxSessions) :
    w'.count ≤ maxSessions := by
  have hkeep : w'.entries.length ≤ w.entries.length → w'.inflight.length ≤ w.inflight.length →
      w'.count ≤ maxSessions := fun he hi => Nat.le_trans (Nat.add_le_add he hi) hle
  cases h with
  | @get c key hidle =>
    cases hentry : w.entries.lookup key with
    | some o =>
      have hlt := length_erase_lt hentry
      exact hkeep (by simp [World.getSession, hentry]; omega) (by simp [World.getSession, hentry])
    | none =>
      cases hinflight : w.inflight.lookup key with
      | some o =>
        exact hkeep (by simp [getSession_entries hentry])
          (by simp [World.getSession, hentry, hinflight, evict_inflight])
      | none =>
        have hlt := hroom hentry hinflight
        simp only [World.count, World.getSession, hentry, hinflight, evict_entries, evict_inflight,
          length_drop, length_append, length_singleton, World.overflow] at hlt ⊢
        omega
  | @promote c o key hc hready =>
    by_cases hours : w.inflight.lookup key = some o
    · have hlt := length_erase_lt hours
      have hle' : (erase w.entries key).length ≤ w.entries.length := World.erase_sublist.length_le
      simp only [World.count, World.promote, hours, if_true, World.goTo_entries, World.goTo_inflight,
        World.popInflight, length_append, length_singleton] at hle ⊢
      omega
    · exact hkeep (by simp [World.promote, hours]) (by simp [World.promote, hours])
  | close =>
    refine hkeep ?_ ?_ <;> rw [World.close] <;> simp [Target.leave, length_filter_le]
  | proceed => exact hkeep (by simp) (by simp)
  | giveUp =>
    rw [World.giveUp]
    split <;> exact hle
  | unwind => exact hkeep (Nat.le_refl _) World.popInflight_sublist.length_le
  | pass | joined | raised | owner => exact hle

/-! ### The bound, and what is evicted -/

/-- The bound holds; a call that finds its session evicts nothing and returns it; and what another
call evicts was used less recently than everything that stays. -/
structure KeepsCapacity (s : World × List Key) : Prop where
  bound : s.1.entries.length ≤ maxSessions
  found : ∀ c key o s', s.1.entries.lookup key = some o → stepUsing s (.get c key) = some s' →
    s'.1.calls c = .returned o ∧ s'.1.entries.Perm s.1.entries
  evicted : ∀ c key s', s.1.entries.lookup key = none → stepUsing s (.get c key) = some s' →
    ∃ evicted, s.1.keys = evicted ++ s'.1.keys ∧ evicted ++ s'.1.keys <+ s.2.dedup

/-- Where a creation starts there is room. -/
def Roomy (s : World × List Key) (a : Act) : Prop := s.1.HasRoom a

/-- **The table is in the order of last use.** -/
structure Recent (s : World × List Key) : Prop where
  sound : s.1.Sound
  order : s.1.keys <+ s.2.dedup

theorem recent_init : Recent (init, []) := ⟨World.sound_init, by simp [World.keys, init]⟩

theorem Recent.step {s s' : World × List Key} (h : Recent s) (hstep : stepUsing s a = some s') :
    Recent s' := by
  obtain ⟨w', hw, rfl⟩ := Option.map_eq_some_iff.1 hstep
  have hstepped := stepped hw
  refine ⟨h.sound.step hstepped, ?_⟩
  obtain ⟨key, o, hused, hentries⟩ | ⟨hused, hsub⟩ := hstepped.entries
  · rw [World.keys, hentries, map_append, keys_erase, hused, dedup_concat]
    exact (h.order.filter _).append (.refl _)
  · rw [hused, append_nil]
    exact (hsub.map _).trans h.order

theorem erase_append_perm {l : List (Key × ℕ)} (hnodup : (l.map Prod.fst).Nodup)
    (h : l.lookup key = some o) : (erase l key ++ [(key, o)]).Perm l := by
  obtain ⟨l₁, l₂, rfl, hne⟩ := lookup_eq_some_iff.1 h
  simp only [map_append, map_cons] at hnodup
  have hnotin := (nodup_cons.1 (nodup_append.1 hnodup).2.1).1
  have hbefore : ∀ e ∈ l₁, e.1 ≠ key := fun e he => (bne_iff_ne.1 (hne e he)).symm
  have hafter : ∀ e ∈ l₂, e.1 ≠ key := fun e he heq => hnotin (heq ▸ mem_map_of_mem he)
  have herase : erase (l₁ ++ (key, o) :: l₂) key = l₁ ++ l₂ := by
    rw [erase, filter_append, filter_cons_of_neg (by simp),
      filter_eq_self.2 fun e he => decide_eq_true (hbefore e he),
      filter_eq_self.2 fun e he => decide_eq_true (hafter e he)]
  rw [herase]
  exact (perm_append_singleton _ _).trans perm_middle.symm

theorem Recent.keepsCapacity {s : World × List Key} (h : Recent s)
    (hbound : s.1.entries.length ≤ maxSessions) : KeepsCapacity s := by
  have hget (c : ℕ) (key : Key) (s' : World × List Key) (hstep : stepUsing s (.get c key) = some s') :
      s'.1 = s.1.getSession c key := by
    obtain ⟨w', hw, rfl⟩ := Option.map_eq_some_iff.1 hstep
    rw [Mcp.step, Option.ite_none_right_eq_some] at hw
    exact (Option.some.inj hw.2).symm
  refine ⟨hbound, fun c key o s' hentry hstep => ?_, fun c key s' hentry hstep => ?_⟩ <;>
    rw [hget c key s' hstep]
  · have hcall : s.1.getSession c key =
        { s.1 with entries := erase s.1.entries key ++ [(key, o)] }.goTo c (.returned o) := by
      rw [World.getSession, hentry]
    rw [hcall]
    exact ⟨World.goTo_calls, erase_append_perm h.sound.tables.entries hentry⟩
  · have hkeys : s.1.keys = (s.1.entries.take s.1.overflow).map Prod.fst ++
        (s.1.getSession c key).keys := by
      rw [World.keys, World.keys, getSession_entries hentry, ← map_append, take_append_drop]
    exact ⟨(s.1.entries.take s.1.overflow).map Prod.fst, hkeys, hkeys ▸ h.order⟩

/-- **Where every creation finds room, the pool keeps its capacity**, whatever fails or is cancelled
or closed. -/
theorem pool_keeps_capacity {s : World × List Key} (hrun : Runs stepUsing Roomy (init, []) s) :
    KeepsCapacity s := by
  have hkept : Recent s ∧ s.1.count ≤ maxSessions := by
    refine hrun.invariant (I := fun s => Recent s ∧ s.1.count ≤ maxSessions)
      ⟨recent_init, Nat.zero_le _⟩ fun s₁ a s₂ hs hroom hstep => ?_
    refine ⟨hs.1.step hstep, ?_⟩
    obtain ⟨w', hw, rfl⟩ := Option.map_eq_some_iff.1 hstep
    exact (stepped hw).count hroom hs.2
  exact hkept.1.keepsCapacity (Nat.le_trans (Nat.le_add_right _ _) hkept.2)

/-! ### Creations that overlap -/

def demoKey (i : ℕ) : Key := (String.ofList (replicate i 'x'), "ada")

theorem demoKey_ne {i j : ℕ} (h : i ≠ j) : demoKey i ≠ demoKey j := fun heq => by
  have hlength := congrArg (fun key : Key => key.1.toList.length) heq
  simp [demoKey, h] at hlength

/-- A call has started to create its session. -/
structure Begun (w : World) (c : ℕ) : Prop where
  call : w.calls c = .creating (demoKey c) c
  owner : w.owners[c]? = some (Owner.create (demoKey c))
  inflight : w.inflight.lookup (demoKey c) = some c

/-- Any number of calls start before a session is registered. -/
theorem exists_begun (n : ℕ) : ∃ w, Runs step (fun _ _ => True) init w ∧ w.entries = [] ∧
    w.owners.length = n ∧ (∀ c < n, Begun w c) ∧
    ∀ c, n ≤ c → w.calls c = .idle ∧ w.inflight.lookup (demoKey c) = none := by
  induction n with
  | zero => exact ⟨init, .refl, rfl, rfl, nofun, fun c _ => ⟨rfl, rfl⟩⟩
  | succ n ih =>
    obtain ⟨w, hrun, hentries, hlength, hbegun, hidle⟩ := ih
    have hget : w.getSession n (demoKey n) =
        { w with
          owners := w.owners ++ [Owner.create (demoKey n)]
          inflight := w.inflight ++ [(demoKey n, n)] }.goTo n (.creating (demoKey n) n) := by
      simp [World.getSession, hentries, (hidle n (Nat.le_refl n)).2, hlength, World.evict,
        World.proceed, listed]
    refine ⟨w.getSession n (demoKey n), hrun.tail (l := .get n (demoKey n)) trivial
      (if_pos (hidle n (Nat.le_refl n)).1), ?_⟩
    rw [hget]
    refine ⟨hentries, by simp [hlength], fun c hc => ?_, fun c hc => ?_⟩
    · rcases Nat.lt_succ_iff_lt_or_eq.1 hc with hlt | rfl
      · obtain ⟨hcall, howner, hlookup⟩ := hbegun c hlt
        exact ⟨by rw [World.goTo_calls_of_ne (by omega)]; exact hcall,
          (getElem?_append_left (by omega)).trans howner, by simp [lookup_append, hlookup]⟩
      · exact ⟨World.goTo_calls, by simp [← hlength],
          by simp [lookup_append, (hidle c (Nat.le_refl c)).2]⟩
    · obtain ⟨hcall, hlookup⟩ := hidle c (by omega)
      have hne : demoKey c ≠ demoKey n := demoKey_ne (by omega)
      exact ⟨by rw [World.goTo_calls_of_ne (by omega)]; exact hcall,
        by simp [lookup_append, hlookup, hne]⟩

theorem runs_owner {C : World → Act → Prop} {x y : Owner} {a : OwnerAct} (h : Runs step C w w')
    (hC : C w' (.owner o a)) (hx : w'.owners[o]? = some x) (hy : x.step a = some y) :
    Runs step C w { w' with owners := w'.owners.set o y } :=
  h.tail hC (by simp [step, hx, hy])

theorem step_promote (hc : w.calls c = .creating key o) (hready : w.ready o = .session) :
    step w (.resume c) = some (w.promote c key o) := by
  simp [step, hc, hready]

/-- Then they are registered, one after the other. -/
theorem exists_registered (n k : ℕ) (hk : k ≤ n) : ∃ w, Runs step (fun _ _ => True) init w ∧
    w.entries.length = k ∧ (∀ e ∈ w.entries, ∃ i < k, e.1 = demoKey i) ∧
    ∀ c, k ≤ c → c < n → Begun w c := by
  induction k with
  | zero =>
    obtain ⟨w, hrun, hentries, -, hbegun, -⟩ := exists_begun n
    exact ⟨w, hrun, by simp [hentries], by simp [hentries], fun c _ hc => hbegun c hc⟩
  | succ k ih =>
    obtain ⟨w, hrun, hlength, hkeys, hbegun⟩ := ih (by omega)
    obtain ⟨hcall, howner, hlookup⟩ := hbegun k (Nat.le_refl k) (by omega)
    have hlt : k < w.owners.length := (List.getElem?_eq_some_iff.1 howner).1
    -- the owner enters and initializes the session
    have hserving := runs_owner (runs_owner (runs_owner (a := .start) hrun trivial howner rfl)
      trivial (getElem?_set_self hlt) (a := .entered) rfl) trivial
      (getElem?_set_self (by simpa using hlt)) (a := .initialized) rfl
    simp only [set_set] at hserving
    refine ⟨_, hserving.tail (l := .resume k) trivial (step_promote hcall ?_), ?_⟩
    · simp [World.ready, hlt]
      rfl
    rw [World.promote, if_pos hlookup]
    have hfresh : erase w.entries (demoKey k) = w.entries := filter_eq_self.2 fun e he => by
      obtain ⟨i, hi, hkey⟩ := hkeys e he
      exact decide_eq_true (hkey ▸ demoKey_ne (by omega))
    refine ⟨by simp [hfresh, hlength], fun e he => ?_, fun c hc hcn => ?_⟩
    · rw [World.goTo_entries, hfresh] at he
      rcases mem_append.1 he with he | he
      · obtain ⟨i, hi, hkey⟩ := hkeys e he
        exact ⟨i, by omega, hkey⟩
      · exact ⟨k, by omega, by rw [mem_singleton.1 he]⟩
    · obtain ⟨hcall', howner', hlookup'⟩ := hbegun c (by omega) hcn
      have hne : demoKey c ≠ demoKey k := demoKey_ne (by omega)
      refine ⟨by rw [World.goTo_calls_of_ne (by omega)]; exact hcall', ?_, ?_⟩
      · exact (getElem?_set_ne (by omega)).trans howner'
      · have hpop : w.popInflight (demoKey k) k = erase w.inflight (demoKey k) := if_pos hlookup
        exact (congrArg (lookup (demoKey c)) hpop).trans ((lookup_erase_of_ne hne _).trans hlookup')

/-- **Creations that overlap go beyond the bound**: of one more than it allows, all are
registered. -/
theorem capacity_exceeded : ¬∀ w, Runs step (fun _ _ => True) init w →
    w.entries.length ≤ maxSessions := by
  intro h
  obtain ⟨w, hrun, hlength, -⟩ := exists_registered (maxSessions + 1) (maxSessions + 1) (Nat.le_refl _)
  have hle := h w hrun
  omega

instance (w : World) : (a : Act) → Decidable (w.HasRoom a)
  | .get _ _ => inferInstanceAs (Decidable (_ → _ → _))
  | .close _ _ | .resume _ | .cancel _ | .owner _ _ => .isTrue trivial

instance (s : World × List Key) (a : Act) : Decidable (Roomy s a) :=
  inferInstanceAs (Decidable (s.1.HasRoom a))

/-- A session is registered, and found again. -/
theorem pool_keeps_capacity_demo : ∃ s, runWith stepUsing Roomy (init, [])
    (demoGet 0 0 ("browser", "ada") ++ [.get 1 ("browser", "ada")]) = some s ∧
    s.1.calls 1 = .returned 0 ∧ KeepsCapacity s := by
  have hany : (runWith stepUsing Roomy (init, []) (demoGet 0 0 ("browser", "ada") ++
      [.get 1 ("browser", "ada")])).any (fun s => s.1.calls 1 = .returned 0) = true := by
    decide +kernel
  obtain ⟨s, hs, hlast⟩ := (Option.any_eq_true _ _).1 hany
  exact ⟨s, hs, of_decide_eq_true hlast, pool_keeps_capacity (runs_of_runWith hs)⟩

end AfterFlow.Mcp
