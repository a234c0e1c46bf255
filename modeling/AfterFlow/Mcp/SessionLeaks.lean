import AfterFlow.Mcp.SessionOwners
import AfterFlow.Transition.Runs

/-!
# No session is lost

Between two steps every running owner is in one of the tables, told to close, on its way out after a
failure, or in the list of a call that shuts owners down one after the other. The tables have one
owner of a key, so at most one session of a key is usable.

A close call takes everything that it covers out of the tables in one step, and waits for each owner
that it has taken to end. What is still open of it when it returns was taken out by others before.

Nothing is said of those who wait for an owner that was cancelled before its first step.

## Main results

* `World.Sound.step` — what each step keeps
* `Closing.step` — what each step keeps while a close call is under way
* `sessions_accounted` — no session is lost, and none of a scope is left when it has been closed
* `taken_out_not_told` — a session that is in the list of a call and nowhere else
-/

namespace AfterFlow.Mcp

open Transition List Option

namespace World

variable {w w' w'' : World} {c o : ℕ} {key : Key} {a : Act} {rest : List (ℕ × Bool)} {next : Next}

/-! ### What each step keeps -/

/-- **The invariant**: the tables are in order, every running owner is accounted for, who waits for
the end of an owner has told it or it has failed, and no owner ends with its future open. -/
structure Sound (w : World) : Prop where
  tables : w.Tables
  accounted : ∀ o, w.running o = true → w.Accounted o
  unwinding : ∀ c key o, w.calls c = .unwinding key o → w.told o = true ∨ w.ready o = .failed
  future : ∀ c o, (w.calls c).future = some o → (w.keyOf o).isSome = true
  owners : ∀ x ∈ w.owners, x.Sound

theorem sound_init : init.Sound where
  tables := ⟨.nil, .nil, by simp [init], by simp [init]⟩
  accounted o h := by simp [init, running] at h
  unwinding c key o h := by simp [init] at h
  future c o h := by simp [init, Stage.future] at h
  owners x h := by simp [init] at h

theorem unwinding_of_ages {o : ℕ} (h : w.told o = true ∨ w.ready o = .failed) (hages : w.Ages w') :
    w'.told o = true ∨ w'.ready o = .failed := by
  rcases h with h | h
  · exact .inl (hages.told h)
  · exact .inr ((hages.ready (by simp [h])).trans h)

theorem Sound.aged (h : w.Sound) (hentries : w'.entries = w.entries)
    (hinflight : w'.inflight = w.inflight) (hcalls : w'.calls = w.calls) (hages : w.Ages w')
    (hlength : w'.owners.length = w.owners.length) (howners : ∀ x ∈ w'.owners, x.Sound) : w'.Sound where
  tables := h.tables.sublist (hentries ▸ .refl _) (hinflight ▸ .refl _) hages
  accounted o hrunning := (h.accounted o (hages.running_of_length hlength hrunning)).mono
    (by simp [Filed, hentries, hinflight]) hages hcalls
  unwinding c key o hc := unwinding_of_ages (h.unwinding c key o (hcalls ▸ hc)) hages
  future c o hc := hages.isSome_keyOf (h.future c o (hcalls ▸ hc))
  owners := howners

theorem Sound.goTo {stage : Stage} (h : w.Sound) (hfuture : stage.future = none) (hages : w.Ages w') (htables : w'.Tables)
    (hcalls : w'.calls = w.calls) (howners : ∀ x ∈ w'.owners, x.Sound)
    (haccounted : ∀ o, w'.running o = true → w'.AccountedBut c o)
    (hunwinding : ∀ key o, stage = .unwinding key o → w'.told o = true ∨ w'.ready o = .failed) :
    (w'.goTo c stage).Sound where
  tables := htables.sublist (.refl _) (.refl _) (ages_of_owners rfl)
  accounted o hrunning := (haccounted o hrunning).goTo.accounted
  unwinding d key o hd := by
    by_cases heq : d = c
    · subst heq
      exact hunwinding key o (goTo_calls.symm.trans hd)
    · rw [goTo_calls_of_ne heq, hcalls] at hd
      exact unwinding_of_ages (h.unwinding d key o hd) hages
  future d o hd := by
    by_cases heq : d = c
    · rw [heq, goTo_calls, hfuture] at hd
      cases hd
    · rw [goTo_calls_of_ne heq, hcalls] at hd
      exact hages.isSome_keyOf (h.future d o hd)
  owners := howners

theorem Sound.proceed (h : w.Sound) (hfuture : ∀ o, next.future = some o → (w'.keyOf o).isSome = true)
    (hages : w.Ages w') (htables : w'.Tables)
    (hcalls : w'.calls = w.calls) (howners : ∀ x ∈ w'.owners, x.Sound)
    (haccounted : ∀ o, w'.running o = true → w'.AccountedBut c o ∨ o ∈ rest.map Prod.fst) :
    (w'.proceed c rest next).Sound where
  tables := htables.sublist (by simp) (by simp) ages_proceed
  accounted o hrunning := accounted_proceed
    (haccounted o (ages_proceed.running_of_length length_proceed hrunning)) hrunning
  unwinding d key o hd := by
    by_cases heq : d = c
    · exact absurd (heq ▸ hd) proceed_not_unwinding
    · rw [proceed_calls_of_ne heq, hcalls] at hd
      exact unwinding_of_ages (h.unwinding d key o hd) (hages.trans ages_proceed)
  future d o hd := by
    by_cases heq : d = c
    · rw [heq, proceed_future] at hd
      exact ages_proceed.isSome_keyOf (hfuture o hd)
    · rw [proceed_calls_of_ne heq, hcalls] at hd
      exact ages_proceed.isSome_keyOf (hages.isSome_keyOf (h.future d o hd))
  owners := by
    simp only [World.proceed]
    split
    · exact forall_modifyOwner howners fun x hx => hx
    all_goals exact howners

theorem Sound.accountedBut (h : w.Sound) (hrest : (w.calls c).rest = []) (hrunning : w.running o = true) :
    w.AccountedBut c o :=
  ((h.accounted o hrunning).but c).resolve_right (by simp [hrest])

theorem mem_listed {cancel : Bool} {l : List (Key × ℕ)} :
    o ∈ (listed cancel l).map Prod.fst ↔ o ∈ l.map Prod.snd := by
  simp [listed]

theorem mem_take_or_drop {l : List (Key × ℕ)} (n : ℕ) (h : o ∈ l.map Prod.snd) :
    o ∈ (l.take n).map Prod.snd ∨ o ∈ (l.drop n).map Prod.snd := by
  rw [← mem_append, ← map_append, take_append_drop]
  exact h

theorem Sound.evict (h : w.Sound) (hfuture : ∀ o, next.future = some o → (w'.keyOf o).isSome = true)
    (hages : w.Ages w') (htables : w'.Tables)
    (hcalls : w'.calls = w.calls) (howners : ∀ x ∈ w'.owners, x.Sound)
    (haccounted : ∀ o, w'.running o = true → w'.AccountedBut c o) : (w'.evict c next).Sound := by
  refine h.proceed hfuture (hages.trans (ages_of_owners rfl))
    (htables.sublist (drop_sublist ..) (.refl _) (ages_of_owners rfl)) hcalls howners ?_
  intro o hrunning
  rw [mem_listed]
  rcases haccounted o hrunning with (hentry | hinflight) | hrest
  · rcases mem_take_or_drop w'.overflow hentry with hentry | hentry
    · exact .inr hentry
    · exact .inl (.inl (.inl hentry))
  · exact .inl (.inl (.inr hinflight))
  · exact .inl (.inr hrest)

/-- A call that asks for a session keeps the account. -/
theorem Sound.getSession (h : w.Sound) (hidle : w.calls c = .idle) : (w.getSession c key).Sound := by
  have hbut (o : ℕ) := h.accountedBut (c := c) (o := o) (by rw [hidle]; rfl)
  rw [World.getSession]
  split
  · rename_i p hentry
    have hmem := mem_of_lookup hentry
    refine h.goTo rfl (ages_of_owners rfl) (h.tables.register rfl (.refl _)
      (fun f hf => (h.tables.disjoint _ hmem f hf).symm) (h.tables.keyed _ (.inl hmem))
      (ages_of_owners rfl)) rfl h.owners ?_ (by simp)
    intro o hrunning
    refine (hbut o hrunning).mono ?_ (ages_of_owners rfl) fun _ _ => rfl
    rintro (hfiled | hfiled)
    · obtain ⟨e, he, rfl⟩ := mem_map.1 hfiled
      by_cases hkey : e.1 = key
      · obtain rfl := inj_on_of_nodup_map h.tables.entries he hmem hkey
        exact .inl (by simp)
      · exact .inl (mem_map_of_mem (mem_append_left _ (mem_erase.2 ⟨he, hkey⟩)))
    · exact .inr hfiled
  · rename_i hentry
    split
    · rename_i p hinflight
      refine h.evict ?_ (.refl w) h.tables rfl h.owners hbut
      intro q hq
      cases hq
      rw [h.tables.keyed _ (.inr (mem_of_lookup hinflight)), isSome_some]
    · rename_i hinflight
      have hages : w.Ages { w with
          owners := w.owners ++ [Owner.create key]
          inflight := w.inflight ++ [(key, w.owners.length)] } := fun o x hx =>
        ⟨x, List.getElem?_append_left (List.getElem?_eq_some_iff.1 hx).1 ▸ hx, .refl x⟩
      have hkey : World.keyOf { w with
          owners := w.owners ++ [Owner.create key]
          inflight := w.inflight ++ [(key, w.owners.length)] } w.owners.length = some key := by
        simp [keyOf, Owner.create]
      refine h.evict ?_ hages (h.tables.publish rfl rfl (fun e => ne_of_lookup hentry)
        (fun e => ne_of_lookup hinflight) hkey hages) rfl ?_ ?_
      · intro q hq
        cases hq
        rw [hkey, isSome_some]
      · intro x hx
        rcases mem_append.1 hx with hx | hx
        · exact h.owners x hx
        · obtain rfl := mem_singleton.1 hx
          simp [Owner.Sound, Owner.create]
      · intro o hrunning
        rcases hages.running hrunning with hold | hle
        · refine (hbut o hold).mono ?_ hages fun _ _ => rfl
          exact Or.imp id fun hmem => by simp [hmem]
        · have hnew : o = w.owners.length := by
            obtain ⟨x, hx, -⟩ := (Option.any_eq_true _ _).1 hrunning
            have hlt := (List.getElem?_eq_some_iff.1 hx).1
            simp only [List.length_append, List.length_singleton] at hlt
            omega
          exact .inl (.inr (by simp [hnew]))

theorem popInflight_sublist : (w.popInflight key o).Sublist w.inflight := by
  rw [popInflight]
  split
  · exact erase_sublist
  · exact .refl _

theorem mem_popInflight (h : w.Tables) {e : Key × ℕ} (he : e ∈ w.inflight) (hne : e ≠ (key, o)) :
    e ∈ w.popInflight key o := by
  rw [popInflight]
  split
  · rename_i hlookup
    refine mem_erase.2 ⟨he, fun hkey => hne ?_⟩
    exact inj_on_of_nodup_map h.inflight he (mem_of_lookup hlookup) hkey
  · exact he

theorem Sound.promote (h : w.Sound) (hc : w.calls c = .creating key o) : (w.promote c key o).Sound := by
  have hbut (p : ℕ) := h.accountedBut (c := c) (o := p) (by rw [hc]; rfl)
  rw [World.promote]
  split
  · rename_i hlookup
    have hmem := mem_of_lookup hlookup
    have herase : w.popInflight key o = erase w.inflight key := if_pos hlookup
    refine h.goTo rfl (ages_of_owners rfl) (h.tables.register rfl popInflight_sublist ?_
      (h.tables.keyed _ (.inr hmem)) (ages_of_owners rfl)) rfl h.owners ?_ (by simp)
    · intro f hf
      rw [herase] at hf
      exact (mem_erase.1 hf).2
    · intro p hrunning
      refine (hbut p hrunning).mono ?_ (ages_of_owners rfl) fun _ _ => rfl
      rintro (hfiled | hfiled) <;> obtain ⟨e, he, rfl⟩ := mem_map.1 hfiled
      · have hkey : e.1 ≠ key := h.tables.disjoint e he _ hmem
        exact .inl (mem_map_of_mem (mem_append_left _ (mem_erase.2 ⟨he, hkey⟩)))
      · by_cases heq : e = (key, o)
        · exact .inl (by simp [heq])
        · exact .inr (mem_map_of_mem (mem_popInflight h.tables he heq))
  · exact h.proceed nofun (.refl w) h.tables rfl h.owners fun p hrunning => .inl (hbut p hrunning)

theorem Sound.giveUp (h : w.Sound) (hc : w.calls c = .creating key o) : (w.giveUp c key o).Sound := by
  have hbut (p : ℕ) := h.accountedBut (c := c) (o := p) (by rw [hc]; rfl)
  rw [World.giveUp]
  split
  · rename_i hfailed
    refine h.goTo rfl (.refl w) h.tables rfl h.owners hbut ?_
    intro _ _ heq
    cases heq
    exact .inr hfailed
  · have hages := ages_modifyOwner (Owner.evolves_shutdown true) w o
    refine h.goTo rfl hages (h.tables.sublist (.refl _) (.refl _) hages) rfl
      (forall_modifyOwner h.owners fun x hx => hx) ?_ ?_
    · intro p hrunning
      exact (hbut p (hages.running_of_length (length_modify ..) hrunning)).mono id hages
        fun _ _ => rfl
    · intro _ _ heq
      cases heq
      obtain ⟨x, hx⟩ := isSome_iff_exists.1 (h.future c o (by rw [hc]; rfl))
      obtain ⟨x, hx, -⟩ := map_eq_some_iff.1 hx
      exact .inl (by simp [told, modifyOwner, hx, Owner.shutdown])

theorem Sound.unwind (h : w.Sound) (hc : w.calls c = .unwinding key o) : (w.unwind c key o).Sound := by
  have hbut (p : ℕ) := h.accountedBut (c := c) (o := p) (by rw [hc]; rfl)
  refine h.goTo rfl (ages_of_owners rfl)
    (h.tables.sublist (.refl _) popInflight_sublist (ages_of_owners rfl)) rfl h.owners ?_ (by simp)
  intro p hrunning
  by_cases heq : p = o
  · rcases h.unwinding c key o hc with htold | hfailed
    · exact .inr (.inl (heq ▸ htold))
    · exact .inr (.inr (.inl (heq ▸ hfailed)))
  · refine (hbut p hrunning).mono ?_ (ages_of_owners rfl) fun _ _ => rfl
    refine Or.imp id fun hfiled => ?_
    obtain ⟨e, he, rfl⟩ := mem_map.1 hfiled
    exact mem_map_of_mem (mem_popInflight h.tables he fun hpair => heq (by rw [hpair]))

theorem mem_take_or_leave {l : List (Key × ℕ)} (target : Target) (h : o ∈ l.map Prod.snd) :
    o ∈ (target.take l).map Prod.snd ∨ o ∈ (target.leave l).map Prod.snd := by
  obtain ⟨e, he, rfl⟩ := mem_map.1 h
  cases hcovers : target.covers e.1
  · exact .inr (mem_map_of_mem (mem_filter.2 ⟨he, by rw [hcovers]; rfl⟩))
  · exact .inl (mem_map_of_mem (mem_filter.2 ⟨he, hcovers⟩))

theorem Sound.close {target : Target} (h : w.Sound) (hidle : w.calls c = .idle) :
    (w.close c target).Sound := by
  have hbut (p : ℕ) := h.accountedBut (c := c) (o := p) (by rw [hidle]; rfl)
  refine h.proceed nofun (ages_of_owners rfl) (h.tables.sublist filter_sublist
    filter_sublist (ages_of_owners rfl)) rfl h.owners ?_
  intro p hrunning
  rw [map_append, mem_append, mem_listed, mem_listed]
  rcases hbut p hrunning with (hfiled | hfiled) | hrest
  · rcases mem_take_or_leave target hfiled with htaken | hleft
    · exact .inr (.inl htaken)
    · exact .inl (.inl (.inl hleft))
  · rcases mem_take_or_leave target hfiled with htaken | hleft
    · exact .inr (.inr htaken)
    · exact .inl (.inl (.inr hleft))
  · exact .inl (.inr hrest)

end World

/-- **What a step can do.** -/
inductive Stepped (w : World) : Act → World → Prop
  | get {c : ℕ} {key : Key} (hidle : w.calls c = .idle) : Stepped w (.get c key) (w.getSession c key)
  | close {c : ℕ} {target : Target} (hidle : w.calls c = .idle) :
    Stepped w (.close c target) (w.close c target)
  | proceed {c o : ℕ} {rest : List (ℕ × Bool)} {next : Next} (hc : w.calls c = .awaiting o rest next)
    (hended : w.running o = false) : Stepped w (.resume c) (w.proceed c rest next)
  | pass {c o : ℕ} {rest : List (ℕ × Bool)} {next : Next} (hc : w.calls c = .awaiting o rest next) :
    Stepped w (.cancel c) (w.modifyOwner o Owner.cancel)
  | joined {c o : ℕ} (hc : w.calls c = .joining o) (hready : w.ready o = .session) :
    Stepped w (.resume c) (w.goTo c (.returned o))
  | raised {c o : ℕ} {a : Act} (hc : w.calls c = .joining o)
    (ha : a = .resume c ∧ w.ready o = .failed ∨ a = .cancel c) : Stepped w a (w.goTo c .raised)
  | promote {c o : ℕ} {key : Key} (hc : w.calls c = .creating key o) (hready : w.ready o = .session) :
    Stepped w (.resume c) (w.promote c key o)
  | giveUp {c o : ℕ} {key : Key} {a : Act} (hc : w.calls c = .creating key o)
    (ha : a = .resume c ∧ w.ready o = .failed ∨ a = .cancel c) : Stepped w a (w.giveUp c key o)
  | unwind {c o : ℕ} {key : Key} {a : Act} (hc : w.calls c = .unwinding key o)
    (ha : a = .resume c ∧ w.running o = false ∨ a = .cancel c) : Stepped w a (w.unwind c key o)
  | owner {o : ℕ} {a : OwnerAct} {x y : Owner} (hx : w.owners[o]? = some x) (hy : x.step a = some y) :
    Stepped w (.owner o a) { w with owners := w.owners.set o y }

/-- Each step is one of these. -/
theorem stepped {w w' : World} {a : Act} (hstep : step w a = some w') : Stepped w a w' := by
  cases a with
  | get c key =>
    simp only [step, ite_none_right_eq_some, some.injEq] at hstep
    obtain ⟨hidle, rfl⟩ := hstep
    exact .get hidle
  | close c target =>
    simp only [step, ite_none_right_eq_some, some.injEq] at hstep
    obtain ⟨hidle, rfl⟩ := hstep
    exact .close hidle
  | resume c =>
    simp only [step] at hstep
    split at hstep
    · rename_i hc
      simp only [ite_none_left_eq_some, some.injEq, Bool.not_eq_true] at hstep
      obtain ⟨hended, rfl⟩ := hstep
      exact .proceed hc hended
    · rename_i hc
      split at hstep <;> cases hstep
      · exact .joined hc ‹_›
      · exact .raised hc (.inl ⟨rfl, ‹_›⟩)
    · rename_i key o hc
      split at hstep <;> cases hstep
      · exact .promote hc ‹_›
      · rename_i hfailed
        have hgiveUp : w.giveUp c key o = w.goTo c (.unwinding key o) := if_pos hfailed
        exact hgiveUp ▸ .giveUp hc (.inl ⟨rfl, hfailed⟩)
    · rename_i hc
      simp only [ite_none_left_eq_some, some.injEq, Bool.not_eq_true] at hstep
      obtain ⟨hended, rfl⟩ := hstep
      exact .unwind hc (.inl ⟨rfl, hended⟩)
    · cases hstep
  | cancel c =>
    simp only [step] at hstep
    split at hstep <;> cases hstep <;> rename_i hc
    · exact .pass hc
    · exact .raised hc (.inr rfl)
    · exact .giveUp hc (.inr rfl)
    · exact .unwind hc (.inr rfl)
  | owner o a =>
    obtain ⟨x, hx, hstep⟩ := bind_eq_some_iff.1 hstep
    obtain ⟨y, hy, rfl⟩ := map_eq_some_iff.1 hstep
    exact .owner hx hy

namespace World

variable {w w' : World} {c o : ℕ} {key : Key} {a : Act}

theorem ages_set {x y : Owner} (hx : w.owners[o]? = some x) (hy : x.Evolves y) :
    w.Ages { w with owners := w.owners.set o y } := by
  intro p z hz
  have hlt := (List.getElem?_eq_some_iff.1 hx).1
  by_cases heq : o = p
  · subst heq
    cases hx.symm.trans hz
    exact ⟨y, by simp [hlt], hy⟩
  · exact ⟨z, by rw [getElem?_set_ne heq, hz], .refl z⟩

/-- **What every step keeps.** -/
theorem Sound.step (h : w.Sound) (hstep : Stepped w a w') : w'.Sound := by
  cases hstep with
  | get hidle => exact h.getSession hidle
  | close hidle => exact h.close hidle
  | @proceed c o rest next hc hended =>
    refine h.proceed (fun p hp => h.future c p ?_) (.refl w) h.tables rfl h.owners fun p hrunning => ?_
    · rw [hc]
      exact hp
    · have haccounted := (h.accounted p hrunning).but c
      rwa [hc] at haccounted
  | @pass c o _ _ hc =>
    exact h.aged rfl rfl rfl (ages_modifyOwner Owner.evolves_cancel w o) (length_modify ..)
      (forall_modifyOwner h.owners fun x hx => hx)
  | @joined c o hc hready =>
    exact h.goTo rfl (.refl w) h.tables rfl h.owners
      (fun p => h.accountedBut (by rw [hc]; rfl)) (by simp)
  | @raised c o _ hc ha =>
    exact h.goTo rfl (.refl w) h.tables rfl h.owners
      (fun p => h.accountedBut (by rw [hc]; rfl)) (by simp)
  | promote hc hready => exact h.promote hc
  | giveUp hc ha => exact h.giveUp hc
  | unwind hc ha => exact h.unwind hc
  | @owner o _ x y hx hy =>
    refine h.aged rfl rfl rfl (ages_set hx (Owner.step_evolves hy)) (length_set ..) ?_
    intro z hz
    rcases mem_or_eq_of_mem_set hz with hz | rfl
    · exact h.owners z hz
    · exact (h.owners x (mem_of_getElem? hx)).step hy

/-! ### A close call -/

theorem ages_evict {next : Next} : w.Ages (w.evict c next) := by
  refine Ages.trans ?_ ages_proceed
  exact ages_of_owners rfl

theorem ages_getSession : w.Ages (w.getSession c key) := by
  rw [getSession]
  split
  · exact ages_of_owners rfl
  · split
    · exact ages_evict
    · refine Ages.trans (fun o x hx => ?_) ages_evict
      exact ⟨x, List.getElem?_append_left (List.getElem?_eq_some_iff.1 hx).1 ▸ hx, .refl x⟩

theorem ages_promote : w.Ages (w.promote c key o) := by
  rw [promote]
  split
  · exact ages_of_owners rfl
  · exact ages_proceed

theorem ages_giveUp : w.Ages (w.giveUp c key o) := by
  rw [giveUp]
  split
  · exact ages_of_owners rfl
  · exact ages_modifyOwner (Owner.evolves_shutdown true) w o

theorem ages_close {target : Target} : w.Ages (w.close c target) := by
  refine Ages.trans ?_ ages_proceed
  exact ages_of_owners rfl

variable {d : ℕ}

theorem evict_calls_of_ne {next : Next} (h : d ≠ c) : (w.evict c next).calls d = w.calls d := by
  rw [evict]
  exact proceed_calls_of_ne h

theorem getSession_calls_of_ne (h : d ≠ c) : (w.getSession c key).calls d = w.calls d := by
  rw [getSession]
  split
  · exact goTo_calls_of_ne h
  · split <;> exact evict_calls_of_ne h

theorem promote_calls_of_ne (h : d ≠ c) : (w.promote c key o).calls d = w.calls d := by
  rw [promote]
  split
  · exact goTo_calls_of_ne h
  · exact proceed_calls_of_ne h

theorem giveUp_calls_of_ne (h : d ≠ c) : (w.giveUp c key o).calls d = w.calls d := by
  rw [giveUp]
  split <;> exact goTo_calls_of_ne h

theorem close_calls_of_ne {target : Target} (h : d ≠ c) :
    (w.close c target).calls d = w.calls d := by
  rw [World.close]
  exact proceed_calls_of_ne h

end World

open World

variable {w w' : World} {c : ℕ} {a : Act}

theorem Stepped.ages (h : Stepped w a w') : w.Ages w' := by
  cases h with
  | get hidle => exact ages_getSession
  | close hidle => exact ages_close
  | proceed hc hended => exact ages_proceed
  | pass hc => exact ages_modifyOwner Owner.evolves_cancel w _
  | joined | raised => exact ages_of_owners rfl
  | promote hc hready => exact ages_promote
  | giveUp hc ha => exact ages_giveUp
  | unwind hc ha => exact ages_of_owners rfl
  | owner hx hy => exact ages_set hx (Owner.step_evolves hy)

/-- A call that waits for the end of an owner goes on when it has ended, and one that has returned
does nothing more. -/
theorem Stepped.calls (h : Stepped w a w')
    (hc : w.calls c = .closed ∨ ∃ o rest next, w.calls c = .awaiting o rest next) :
    w'.calls c = w.calls c ∨ ∃ o rest next,
      w.calls c = .awaiting o rest next ∧ w.running o = false ∧ w' = w.proceed c rest next := by
  -- who is anywhere else is another call
  have hother {d : ℕ} {stage : Stage} (hd : w.calls d = stage) (hne : stage ≠ .closed)
      (hne' : ∀ o rest next, stage ≠ .awaiting o rest next) : c ≠ d := by
    rintro rfl
    subst hd
    rcases hc with hc | ⟨o, rest, next, hc⟩
    · exact hne hc
    · exact hne' o rest next hc
  cases h with
  | get hidle => exact .inl (getSession_calls_of_ne (hother hidle (by simp) (by simp)))
  | close hidle => exact .inl (close_calls_of_ne (hother hidle (by simp) (by simp)))
  | @proceed d o rest next hd hended =>
    by_cases heq : c = d
    · subst heq
      exact .inr ⟨o, rest, next, hd, hended, rfl⟩
    · exact .inl (proceed_calls_of_ne heq)
  | pass hd => exact .inl rfl
  | joined hd hready => exact .inl (goTo_calls_of_ne (hother hd (by simp) (by simp)))
  | raised hd ha => exact .inl (goTo_calls_of_ne (hother hd (by simp) (by simp)))
  | promote hd hready => exact .inl (promote_calls_of_ne (hother hd (by simp) (by simp)))
  | giveUp hd ha => exact .inl (giveUp_calls_of_ne (hother hd (by simp) (by simp)))
  | unwind hd ha => exact .inl (goTo_calls_of_ne (hother hd (by simp) (by simp)))
  | owner hx hy => exact .inl rfl

/-- The key is in one of the tables. -/
def World.HasKey (w : World) (key : Key) : Prop :=
  key ∈ w.entries.map Prod.fst ∨ key ∈ w.inflight.map Prod.fst

theorem World.HasKey.mono {key : Key} (h : w'.HasKey key)
    (hentries : w'.entries.Sublist w.entries) (hinflight : w'.inflight.Sublist w.inflight) :
    w.HasKey key :=
  h.imp (fun h => (hentries.map _).subset h) fun h => (hinflight.map _).subset h

/-- A key gets into the tables by a `get_session` for it. -/
theorem Stepped.hasKey {key : Key} (h : Stepped w a w') (hkey : w'.HasKey key) :
    w.HasKey key ∨ ∃ d, a = .get d key := by
  cases h with
  | @get d k hidle =>
    rw [getSession] at hkey
    split at hkey
    · rcases hkey with hkey | hkey
      · rw [goTo_entries, map_append, mem_append] at hkey
        rcases hkey with hkey | hkey
        · exact .inl (.inl ((erase_sublist.map _).subset hkey))
        · obtain rfl := mem_singleton.1 hkey
          exact .inr ⟨d, rfl⟩
      · exact .inl (.inr hkey)
    · split at hkey
      · exact .inl (hkey.mono (by simp [evict, drop_sublist]) (by simp [evict]))
      · rcases hkey with hkey | hkey
        · rw [evict, proceed_entries] at hkey
          exact .inl (.inl (((drop_sublist ..).map _).subset hkey))
        · rw [evict, proceed_inflight, map_append, mem_append] at hkey
          rcases hkey with hkey | hkey
          · exact .inl (.inr hkey)
          · obtain rfl := mem_singleton.1 hkey
            exact .inr ⟨d, rfl⟩
  | close hidle =>
    refine .inl (hkey.mono ?_ ?_) <;> rw [World.close]
    · rw [proceed_entries]
      exact filter_sublist
    · rw [proceed_inflight]
      exact filter_sublist
  | proceed hd hended => exact .inl (hkey.mono (by simp) (by simp))
  | pass | joined | raised => exact .inl hkey
  | promote hd hready =>
    rw [World.promote] at hkey
    split at hkey
    · rename_i hlookup
      rcases hkey with hkey | hkey
      · rw [goTo_entries, map_append, mem_append] at hkey
        rcases hkey with hkey | hkey
        · exact .inl (.inl ((erase_sublist.map _).subset hkey))
        · obtain rfl := mem_singleton.1 hkey
          exact .inl (.inr (mem_map_of_mem (mem_of_lookup hlookup)))
      · exact .inl (.inr ((popInflight_sublist.map _).subset hkey))
    · exact .inl (hkey.mono (by simp) (by simp))
  | giveUp hd ha =>
    rw [World.giveUp] at hkey
    split at hkey <;> exact .inl hkey
  | unwind hd ha => exact .inl (hkey.imp id fun hkey => (popInflight_sublist.map _).subset hkey)
  | owner hx hy => exact .inl hkey

/-- A close call that is under way or has returned, and what it has taken out of the tables. -/
structure Closing (target : Target) (c : ℕ) (taken : List ℕ) (w : World) : Prop where
  left : ∀ key, w.HasKey key → target.covers key = false
  known : ∀ o ∈ taken, (w.keyOf o).isSome = true
  call : (w.calls c = .closed ∧ ∀ o ∈ taken, w.running o = false) ∨
    ∃ p rest, w.calls c = .awaiting p rest .closed ∧
      ∀ o ∈ taken, w.running o = true → o = p ∨ o ∈ rest.map Prod.fst

variable {target : Target} {taken : List ℕ}

theorem World.Ages.running_of_known {o : ℕ} (h : w.Ages w') (hknown : (w.keyOf o).isSome = true)
    (hrunning : w'.running o = true) : w.running o = true := by
  refine (h.running hrunning).resolve_right fun hle => ?_
  simp [World.keyOf, getElem?_eq_none hle] at hknown

/-- The list of a close call has what it has taken out and has not been told. -/
theorem closing_proceed {rest : List (ℕ × Bool)} (hleft : ∀ key, w.HasKey key → target.covers key = false)
    (hknown : ∀ o ∈ taken, (w.keyOf o).isSome = true)
    (hrest : ∀ o ∈ taken, w.running o = true → o ∈ rest.map Prod.fst) :
    Closing target c taken (w.proceed c rest .closed) where
  left key hkey := hleft key (hkey.mono (by simp) (by simp))
  known o ho := ages_proceed.isSome_keyOf (hknown o ho)
  call := by
    cases rest with
    | nil =>
      refine .inl ⟨goTo_calls, fun o ho => ?_⟩
      have hended : w.running o = false := by simpa using fun hrun => hrest o ho hrun
      exact hended
    | cons e rest =>
      refine .inr ⟨e.1, rest, goTo_calls, fun o ho hrunning => ?_⟩
      have hold := ages_proceed.running_of_known (hknown o ho) hrunning
      exact mem_cons.1 (hrest o ho hold)

theorem closing_close (h : w.Sound) : Closing target c
    ((target.take w.entries ++ target.take w.inflight).map Prod.snd) (w.close c target) := by
  refine closing_proceed ?_ ?_ ?_
  · rintro key (hkey | hkey) <;> obtain ⟨e, he, rfl⟩ := mem_map.1 hkey <;>
      simpa using (mem_filter.1 he).2
  · intro o ho
    obtain ⟨e, he, rfl⟩ := mem_map.1 ho
    have hkeyed : w.keyOf e.2 = some e.1 := by
      rcases mem_append.1 he with he | he
      · exact h.tables.keyed e (.inl (mem_filter.1 he).1)
      · exact h.tables.keyed e (.inr (mem_filter.1 he).1)
    exact isSome_iff_exists.2 ⟨e.1, hkeyed⟩
  · intro o ho _
    simpa [mem_listed, map_append] using ho

theorem Closing.step (h : Closing target c taken w) (hstep : Stepped w a w')
    (ha : a.starts target = false) : Closing target c taken w' := by
  have hleft : ∀ key, w'.HasKey key → target.covers key = false := by
    intro key hkey
    rcases hstep.hasKey hkey with hkey | ⟨d, rfl⟩
    · exact h.left key hkey
    · exact ha
  have hrunning {o : ℕ} (ho : o ∈ taken) := hstep.ages.running_of_known (h.known o ho)
  have hknown := fun o ho => hstep.ages.isSome_keyOf (h.known o ho)
  rcases h.call with ⟨hc, hended⟩ | ⟨p, rest, hc, hrest⟩
  · refine ⟨hleft, hknown, .inl ⟨?_, fun o ho => ?_⟩⟩
    · rcases hstep.calls (.inl hc) with hsame | ⟨_, _, _, hother, -⟩
      · exact hsame.trans hc
      · cases hc.symm.trans hother
    · by_contra hrun
      exact absurd (hrunning ho (by simpa using hrun)) (by simp [hended o ho])
  · rcases hstep.calls (.inr ⟨p, rest, .closed, hc⟩) with hsame | ⟨_, _, _, hother, hended, rfl⟩
    · exact ⟨hleft, hknown, .inr ⟨p, rest, hsame.trans hc, fun o ho hrun => hrest o ho (hrunning ho hrun)⟩⟩
    · cases hc.symm.trans hother
      refine closing_proceed h.left h.known fun o ho hrun => ?_
      rcases hrest o ho hrun with rfl | hmem
      · simp [hended] at hrun
      · exact hmem

/-! ### Every run -/

/-- The session is initialized, and nobody has told its owner to close or is about to. -/
def World.Usable (w : World) (o : ℕ) : Prop :=
  (∃ x, w.owners[o]? = some x ∧ x.phase = .serving ∧ x.closeEvt = false) ∧
    ∀ c, o ∉ (w.calls c).rest

/-- What a close call that was made at `w` has left when it returns at `w'`: the owners that are
still running were not in the tables, and are shut down by others. -/
structure World.ClosedSince (w w' : World) (target : Target) : Prop where
  left : ∀ key, w'.HasKey key → target.covers key = false
  owners : ∀ o key, w'.keyOf o = some key → target.covers key = true → w'.running o = true →
    ¬w.Filed o ∧ (w'.told o = true ∨ w'.ready o = .failed ∨ ∃ d, o ∈ (w'.calls d).rest)

/-- **No session is lost.** -/
structure World.NothingLost (w : World) : Prop where
  /-- Of the sessions of one key no two are usable. -/
  unique : ∀ o p, w.Usable o → w.Usable p → w.keyOf o = w.keyOf p → o = p
  accounted : ∀ o, w.running o = true → w.Accounted o
  /-- Where no `get_session` for what it covers has started since, a close call leaves nothing. -/
  closed : ∀ c target w₁ w₂, step w (.close c target) = some w₁ →
    Runs step (fun _ a => a.starts target = false) w₁ w₂ → w₂.calls c = .closed →
      w.ClosedSince w₂ target
  /-- Who waits for a future waits for an owner that has not ended, if it was not dropped. -/
  resolved : ∀ c o, (w.calls c).waitsFor o = true → w.ready o = .pending →
    ∃ x, w.owners[o]? = some x ∧ x.phase ≠ .ended

theorem World.Sound.filed_of_usable {o : ℕ} (h : w.Sound) (husable : w.Usable o) : w.Filed o := by
  obtain ⟨⟨x, hx, hphase, htold⟩, hrest⟩ := husable
  have hready : x.ready = .session := by
    have hsound := h.owners x (mem_of_getElem? hx)
    simpa [Owner.Sound, hphase] using hsound
  have hrunning : w.running o = true := by simp [World.running, hx, Owner.running, hphase]
  rcases h.accounted o hrunning with hfiled | htold' | hfailed | ⟨c, hmem⟩
  · exact hfiled
  · simp [World.told, hx, htold] at htold'
  · simp [World.ready, hx, hready] at hfailed
  · exact absurd hmem (hrest c)

/-- A close that has returned has closed them all. -/
theorem closedSince_of_close {w₁ w₂ : World} (h : w.Sound)
    (hclose : step w (.close c target) = some w₁)
    (hrun : Runs step (fun _ a => a.starts target = false) w₁ w₂) (hreturned : w₂.calls c = .closed) :
    w.ClosedSince w₂ target := by
  obtain ⟨hidle, rfl⟩ : w.calls c = .idle ∧ w.close c target = w₁ := by simpa [step] using hclose
  obtain ⟨hsound, hages, hclosing⟩ : w₂.Sound ∧ w.Ages w₂ ∧ Closing target c
      ((target.take w.entries ++ target.take w.inflight).map Prod.snd) w₂ := by
    refine hrun.invariant (I := fun v => v.Sound ∧ w.Ages v ∧ Closing target c
      ((target.take w.entries ++ target.take w.inflight).map Prod.snd) v)
      ⟨h.close hidle, ages_close, closing_close h⟩ fun v a v' hv ha hstep => ?_
    have hv' := stepped hstep
    exact ⟨hv.1.step hv', hv.2.1.trans hv'.ages, hv.2.2.step hv' ha⟩
  refine ⟨hclosing.left, fun o key hkey hcovers hrunning => ⟨fun hfiled => ?_, ?_⟩⟩
  · -- it was taken out by this call, which has waited for its end
    have hended : ∀ p ∈ (target.take w.entries ++ target.take w.inflight).map Prod.snd,
        w₂.running p = false := by
      rcases hclosing.call with ⟨-, hended⟩ | ⟨_, _, hawaiting, -⟩
      · exact hended
      · cases hreturned.symm.trans hawaiting
    have htaken : o ∈ (target.take w.entries ++ target.take w.inflight).map Prod.snd := by
      have hcovered {e : Key × ℕ} (he : e ∈ w.entries ∨ e ∈ w.inflight) (heq : e.2 = o) :
          target.covers e.1 = true := by
        have hold := hages.keyOf (h.tables.keyed e he)
        rw [heq, hkey] at hold
        exact some.inj hold ▸ hcovers
      rw [map_append, mem_append]
      rcases hfiled with hfiled | hfiled <;> obtain ⟨e, he, heq⟩ := mem_map.1 hfiled
      · exact .inl (mem_map.2 ⟨e, mem_filter.2 ⟨he, hcovered (.inl he) heq⟩, heq⟩)
      · exact .inr (mem_map.2 ⟨e, mem_filter.2 ⟨he, hcovered (.inr he) heq⟩, heq⟩)
    rw [hended o htaken] at hrunning
    cases hrunning
  · refine (hsound.accounted o hrunning).resolve_left fun hfiled => ?_
    have hkeyed {e : Key × ℕ} (he : e ∈ w₂.entries ∨ e ∈ w₂.inflight) (heq : e.2 = o) : w₂.HasKey key := by
      have hold := hsound.tables.keyed e he
      rw [heq, hkey] at hold
      obtain rfl := some.inj hold
      exact he.imp mem_map_of_mem mem_map_of_mem
    have hhas : w₂.HasKey key := by
      rcases hfiled with hfiled | hfiled <;> obtain ⟨e, he, heq⟩ := mem_map.1 hfiled
      · exact hkeyed (.inl he) heq
      · exact hkeyed (.inr he) heq
    rw [hclosing.left key hhas] at hcovers
    cases hcovers

/-- **The session pool leaks no session, in any order of steps.** At most one session of a key is
usable; every running owner is in a table, told to close, on its way out after a failure, or in the
list of a call that shuts owners down; a close call that has returned leaves nothing that it covers
in the tables, and what is still open of it was taken out by others before; and who waits for a
future waits for an owner that has not ended, unless it was cancelled before its first step. -/
theorem sessions_accounted (hrun : Runs step (fun _ _ => True) init w) : w.NothingLost := by
  have hsound : w.Sound :=
    hrun.invariant sound_init fun v a v' hv _ hstep => hv.step (stepped hstep)
  refine ⟨fun o p ho hp hkey => ?_, hsound.accounted, ?_, fun c o hwaits hpending => ?_⟩
  · exact hsound.tables.eq_of_key (hsound.filed_of_usable ho) (hsound.filed_of_usable hp) hkey
  · intro c target w₁ w₂ hclose hrest hreturned
    exact closedSince_of_close hsound hclose hrest hreturned
  · have hfuture : (w.calls c).future = some o := by
      cases hc : w.calls c <;> simp_all [Stage.waitsFor, Stage.future]
    obtain ⟨key, hkey⟩ := isSome_iff_exists.1 (hsound.future c o hfuture)
    obtain ⟨x, hx, -⟩ := map_eq_some_iff.1 hkey
    refine ⟨x, hx, fun hended => ?_⟩
    have hne : x.ready ≠ .pending := by
      have := hsound.owners x (mem_of_getElem? hx)
      simpa [Owner.Sound, hended] using this
    exact hne (by simpa [World.ready, hx] using hpending)

/-- A call for a key, up to the registration of the session. -/
def demoGet (c o : ℕ) (key : Key) : List Act :=
  [.get c key, .owner o .start, .owner o .entered, .owner o .initialized, .resume c]

/-- Two sessions of a scope are closed, one after the other. -/
def demoActs : List Act :=
  demoGet 0 0 ("browser", "ada") ++ demoGet 1 1 ("files", "ada") ++
    [.close 2 (.scope "ada"), .owner 0 .woken, .owner 0 .exited, .resume 2,
      .owner 1 .woken, .owner 1 .exited, .resume 2]

theorem sessions_accounted_demo : ∃ w, runWith step (fun _ _ => True) init demoActs = some w ∧
    w.calls 2 = .closed ∧ w.running 0 = false ∧ w.running 1 = false ∧ w.NothingLost := by
  have hany : (runWith step (fun _ _ => True) init demoActs).any (fun w =>
      w.calls 2 = .closed && !w.running 0 && !w.running 1) = true := by decide +kernel
  obtain ⟨w, hw, hlast⟩ := (any_eq_true _ _).1 hany
  simp only [Bool.and_eq_true, decide_eq_true_eq, Bool.not_eq_true'] at hlast
  exact ⟨w, hw, hlast.1.1, hlast.1.2, hlast.2, sessions_accounted (runs_of_runWith hw)⟩

/-- While the first of two sessions is shut down, the second is not in the tables, and its owner has
not been told. So another call creates a second session of the same key. -/
theorem taken_out_not_told : ∃ w, Runs step (fun _ _ => True) init w ∧
    w.running 1 = true ∧ ¬w.Filed 1 ∧ w.told 1 = false ∧ w.told 2 = false ∧
    w.ready 1 = .session ∧ w.ready 2 = .session ∧ w.keyOf 1 = w.keyOf 2 := by
  have hany : (runWith step (fun _ _ => True) init (demoGet 0 0 ("browser", "ada") ++
      demoGet 1 1 ("files", "ada") ++ [.close 2 .all] ++ demoGet 3 2 ("files", "ada"))).any (fun w =>
        w.running 1 = true ∧ ¬w.Filed 1 ∧ w.told 1 = false ∧ w.told 2 = false ∧
          w.ready 1 = .session ∧ w.ready 2 = .session ∧ w.keyOf 1 = w.keyOf 2) = true := by
    decide +kernel
  obtain ⟨w, hw, hlast⟩ := (any_eq_true _ _).1 hany
  exact ⟨w, runs_of_runWith hw, of_decide_eq_true hlast⟩

end AfterFlow.Mcp
