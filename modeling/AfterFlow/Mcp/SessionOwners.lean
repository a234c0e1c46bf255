import AfterFlow.Mcp.SessionPool
import Mathlib.Data.List.Nodup

/-!
# The owners of MCP sessions

What a step does to an owner only makes it older: what it was told it knows, what it has published
stays, and when it has ended it does not run again. So an owner that is accounted for stays so as
long as it is not taken out of the tables, and who takes it out has it in a list.
-/

namespace AfterFlow.Mcp

open List Option

/-! ### Owners grow older -/

/-- What an owner was told it knows, what it published stays, and when it has ended it does not run
again. -/
structure Owner.Evolves (x y : Owner) : Prop where
  key : y.key = x.key
  told : x.closeEvt = true → y.closeEvt = true
  ready : x.ready ≠ .pending → y.ready = x.ready
  running : y.running = true → x.running = true

/-- The future is open until the session is initialized, and resolved from then on. -/
def Owner.Sound (x : Owner) : Prop :=
  match x.phase with
  | .scheduled | .connecting | .initializing | .dropped => x.ready = .pending
  | .serving => x.ready = .session
  | .exiting | .ended => x.ready ≠ .pending

namespace Owner

variable {x y z : Owner} {a : OwnerAct}

theorem Evolves.refl (x : Owner) : x.Evolves x := ⟨rfl, id, fun _ => rfl, id⟩

theorem Evolves.trans (h : x.Evolves y) (h' : y.Evolves z) : x.Evolves z where
  key := h'.key.trans h.key
  told := h'.told ∘ h.told
  ready hne := by rw [h'.ready (by rwa [h.ready hne]), h.ready hne]
  running := h.running ∘ h'.running

theorem evolves_cancel (x : Owner) : x.Evolves x.cancel := ⟨rfl, id, fun _ => rfl, id⟩

theorem evolves_shutdown (cancel : Bool) (x : Owner) : x.Evolves (x.shutdown cancel) :=
  ⟨rfl, fun _ => rfl, fun _ => rfl, id⟩

theorem resolve_of_ne {r new : Ready} (h : r ≠ .pending) : r.resolve new = r := if_neg h

theorem resolve_ne {r new : Ready} (h : new ≠ .pending) : r.resolve new ≠ .pending := by
  rw [Ready.resolve]
  split <;> assumption

theorem step_evolves (h : x.step a = some y) : x.Evolves y := by
  cases a <;> simp only [Owner.step, ite_none_right_eq_some, some.injEq] at h <;>
    obtain ⟨hphase, rfl⟩ := h
  case start => exact ⟨rfl, id, fun _ => rfl, fun _ => by simp [running, hphase]⟩
  case entered => exact ⟨rfl, id, fun _ => rfl, fun _ => by simp [running, hphase]⟩
  case enterFailed => exact ⟨rfl, id, resolve_of_ne, fun _ => by simp [running, hphase]⟩
  case initialized => exact ⟨rfl, id, resolve_of_ne, fun _ => by simp [running, hphase]⟩
  case initializeFailed => exact ⟨rfl, id, resolve_of_ne, fun _ => by simp [running, hphase]⟩
  case woken => exact ⟨rfl, id, fun _ => rfl, fun _ => by simp [running, hphase.1]⟩
  case exited => exact ⟨rfl, id, fun _ => rfl, fun _ => by simp [running, hphase]⟩

theorem Sound.step (hx : x.Sound) (h : x.step a = some y) : y.Sound := by
  cases a <;> simp only [Owner.step, ite_none_right_eq_some, some.injEq] at h <;>
    obtain ⟨hphase, rfl⟩ := h
  case start =>
    have hpending : x.ready = .pending := by simpa [Sound, hphase] using hx
    cases hcancelled : x.cancelled <;> simpa [Sound, hcancelled] using hpending
  case entered => simpa [Sound, hphase] using hx
  case enterFailed => exact resolve_ne (by decide)
  case initialized =>
    have hpending : x.ready = .pending := by simpa [Sound, hphase] using hx
    exact if_pos hpending
  case initializeFailed => exact resolve_ne (by decide)
  case woken =>
    have hsession : x.ready = .session := by simpa [Sound, hphase.1] using hx
    simp [Sound, hsession]
  case exited => simpa [Sound, hphase] using hx

end Owner

namespace World

/-- Every owner that there was has evolved. -/
def Ages (w w' : World) : Prop :=
  ∀ (o : ℕ) (x : Owner), w.owners[o]? = some x → ∃ y, w'.owners[o]? = some y ∧ x.Evolves y

variable {w w' w'' : World} {c o : ℕ} {key : Key} {a : Act}

theorem Ages.refl (w : World) : w.Ages w := fun _ x hx => ⟨x, hx, .refl x⟩

theorem Ages.trans (h : w.Ages w') (h' : w'.Ages w'') : w.Ages w'' := by
  intro o x hx
  obtain ⟨y, hy, hxy⟩ := h o x hx
  obtain ⟨z, hz, hyz⟩ := h' o y hy
  exact ⟨z, hz, hxy.trans hyz⟩

theorem ages_modifyOwner {f : Owner → Owner} (hf : ∀ x : Owner, x.Evolves (f x)) (w : World) (o : ℕ) :
    w.Ages (w.modifyOwner o f) := by
  intro p x hx
  by_cases heq : o = p
  · exact ⟨f x, by simp [modifyOwner, hx, heq], hf x⟩
  · exact ⟨x, by simp [modifyOwner, hx, heq], .refl x⟩

theorem forall_modifyOwner {P : Owner → Prop} {f : Owner → Owner} (h : ∀ x ∈ w.owners, P x)
    (hf : ∀ x, P x → P (f x)) : ∀ x ∈ (w.modifyOwner o f).owners, P x := by
  intro y hy
  obtain ⟨p, hp⟩ := mem_iff_getElem?.1 hy
  simp only [modifyOwner, getElem?_modify] at hp
  obtain ⟨x, hx, rfl⟩ := map_eq_some_iff.1 hp
  have hmem := mem_of_getElem? hx
  split
  · exact hf x (h x hmem)
  · exact h x hmem

theorem Ages.told (h : w.Ages w') (htold : w.told o = true) : w'.told o = true := by
  obtain ⟨x, hx, hclose⟩ := (any_eq_true _ _).1 htold
  obtain ⟨y, hy, hxy⟩ := h o x hx
  exact (any_eq_true _ _).2 ⟨y, hy, hxy.told hclose⟩

theorem Ages.ready (h : w.Ages w') (hready : w.ready o ≠ .pending) : w'.ready o = w.ready o := by
  cases hx : w.owners[o]? with
  | none => simp [World.ready, hx] at hready
  | some x =>
    obtain ⟨y, hy, hxy⟩ := h o x hx
    simp only [World.ready, hx, hy, map_some, getD_some] at hready ⊢
    exact hxy.ready hready

theorem Ages.keyOf (h : w.Ages w') (hkey : w.keyOf o = some key) : w'.keyOf o = some key := by
  obtain ⟨x, hx, rfl⟩ := map_eq_some_iff.1 hkey
  obtain ⟨y, hy, hxy⟩ := h o x hx
  simp [World.keyOf, hy, hxy.key]

theorem Ages.isSome_keyOf (h : w.Ages w') (hkey : (w.keyOf o).isSome = true) :
    (w'.keyOf o).isSome = true := by
  obtain ⟨key, hkey⟩ := isSome_iff_exists.1 hkey
  rw [h.keyOf hkey, isSome_some]

theorem Ages.running (h : w.Ages w') (hrunning : w'.running o = true) :
    w.running o = true ∨ w.owners.length ≤ o := by
  obtain ⟨y, hy, hrun⟩ := (any_eq_true _ _).1 hrunning
  cases hx : w.owners[o]? with
  | none => exact .inr (getElem?_eq_none_iff.1 hx)
  | some x =>
    obtain ⟨y', hy', hxy⟩ := h o x hx
    cases hy.symm.trans hy'
    exact .inl ((any_eq_true _ _).2 ⟨x, hx, hxy.running hrun⟩)

theorem Ages.running_of_length (h : w.Ages w') (hlength : w'.owners.length = w.owners.length)
    (hrunning : w'.running o = true) : w.running o = true := by
  refine (h.running hrunning).resolve_right fun hle => ?_
  rw [World.running, getElem?_eq_none (hlength ▸ hle)] at hrunning
  cases hrunning

/-! ### What the parts of a step change -/

@[simp] theorem goTo_entries {stage : Stage} : (w.goTo c stage).entries = w.entries := rfl

@[simp] theorem goTo_inflight {stage : Stage} : (w.goTo c stage).inflight = w.inflight := rfl

@[simp] theorem goTo_owners {stage : Stage} : (w.goTo c stage).owners = w.owners := rfl

@[simp] theorem goTo_calls {stage : Stage} : (w.goTo c stage).calls c = stage :=
  Function.update_self ..

theorem goTo_calls_of_ne {stage : Stage} {d : ℕ} (h : d ≠ c) :
    (w.goTo c stage).calls d = w.calls d := Function.update_of_ne h ..

variable {rest : List (ℕ × Bool)} {next : Next}

@[simp] theorem proceed_entries : (w.proceed c rest next).entries = w.entries := by
  simp only [proceed]
  split <;> rfl

@[simp] theorem proceed_inflight : (w.proceed c rest next).inflight = w.inflight := by
  simp only [proceed]
  split <;> rfl

theorem proceed_calls_of_ne {d : ℕ} (h : d ≠ c) : (w.proceed c rest next).calls d = w.calls d := by
  simp only [proceed]
  split <;> exact goTo_calls_of_ne h

theorem ages_of_owners (h : w'.owners = w.owners) : w.Ages w' := by
  intro o x hx
  exact ⟨x, by rw [h, hx], .refl x⟩

theorem ages_proceed : w.Ages (w.proceed c rest next) := by
  simp only [proceed]
  split
  · exact (ages_modifyOwner (Owner.evolves_shutdown _) w _).trans (ages_of_owners rfl)
  all_goals exact ages_of_owners rfl

theorem length_proceed : (w.proceed c rest next).owners.length = w.owners.length := by
  simp only [proceed]
  split
  · exact length_modify ..
  all_goals rfl

theorem proceed_future : ((w.proceed c rest next).calls c).future = next.future := by
  simp only [proceed]
  split <;> simp [Stage.future, Next.future]

theorem proceed_not_unwinding {o : ℕ} : (w.proceed c rest next).calls c ≠ .unwinding key o := by
  simp only [proceed]
  split <;> simp

/-! ### Where an owner is -/

/-- The owner is in one of the tables. -/
def Filed (w : World) (o : ℕ) : Prop := o ∈ w.entries.map Prod.snd ∨ o ∈ w.inflight.map Prod.snd

instance (w : World) (o : ℕ) : Decidable (w.Filed o) := inferInstanceAs (Decidable (_ ∨ _))

/-- **Where a running owner is**: in one of the tables, told to close, on its way out after a
failure, or in the list of a call that shuts owners down. -/
def Accounted (w : World) (o : ℕ) : Prop :=
  w.Filed o ∨ w.told o = true ∨ w.ready o = .failed ∨ ∃ c, o ∈ (w.calls c).rest

/-- The owner is accounted for without the list of one call. -/
def AccountedBut (w : World) (c o : ℕ) : Prop :=
  w.Filed o ∨ w.told o = true ∨ w.ready o = .failed ∨ ∃ d ≠ c, o ∈ (w.calls d).rest

theorem Accounted.but (h : w.Accounted o) (c : ℕ) : w.AccountedBut c o ∨ o ∈ (w.calls c).rest := by
  rcases h with h | h | h | ⟨d, h⟩
  · exact .inl (.inl h)
  · exact .inl (.inr (.inl h))
  · exact .inl (.inr (.inr (.inl h)))
  · by_cases hd : d = c
    · exact .inr (hd ▸ h)
    · exact .inl (.inr (.inr (.inr ⟨d, hd, h⟩)))

theorem AccountedBut.accounted (h : w.AccountedBut c o) : w.Accounted o := by
  rcases h with h | h | h | ⟨d, -, h⟩
  · exact .inl h
  · exact .inr (.inl h)
  · exact .inr (.inr (.inl h))
  · exact .inr (.inr (.inr ⟨d, h⟩))

/-- What is accounted for without the list of a call stays so while owners grow older and the others
keep their lists. -/
theorem AccountedBut.mono (h : w.AccountedBut c o) (hfiled : w.Filed o → w'.Filed o)
    (hages : w.Ages w') (hcalls : ∀ d ≠ c, w'.calls d = w.calls d) : w'.AccountedBut c o := by
  rcases h with h | h | h | ⟨d, hd, h⟩
  · exact .inl (hfiled h)
  · exact .inr (.inl (hages.told h))
  · exact .inr (.inr (.inl ((hages.ready (by simp [h])).trans h)))
  · exact .inr (.inr (.inr ⟨d, hd, by rwa [hcalls d hd]⟩))

theorem Accounted.mono (h : w.Accounted o) (hfiled : w.Filed o → w'.Filed o) (hages : w.Ages w')
    (hcalls : w'.calls = w.calls) : w'.Accounted o := by
  rcases h.but 0 with hbut | hrest
  · exact (hbut.mono hfiled hages fun d _ => by rw [hcalls]).accounted
  · exact .inr (.inr (.inr ⟨0, by rwa [hcalls]⟩))

theorem AccountedBut.goTo {stage : Stage} (h : w.AccountedBut c o) : (w.goTo c stage).AccountedBut c o :=
  h.mono id (ages_of_owners rfl) fun _ hd => goTo_calls_of_ne hd

/-- **Whoever is in the list is told, or still in the list.** -/
theorem accounted_proceed (h : w.AccountedBut c o ∨ o ∈ rest.map Prod.fst)
    (hrunning : (w.proceed c rest next).running o = true) : (w.proceed c rest next).Accounted o := by
  have hkeep : w.AccountedBut c o → (w.proceed c rest next).Accounted o := fun h =>
    (h.mono (by simp [Filed]) ages_proceed fun d hd => proceed_calls_of_ne hd).accounted
  rcases h with h | h
  · exact hkeep h
  · cases rest with
    | nil => cases h
    | cons e rest =>
      obtain ⟨p, cancel⟩ := e
      rcases mem_cons.1 h with rfl | h
      · refine .inr (.inl ?_)
        obtain ⟨y, hy, -⟩ := (any_eq_true _ _).1 hrunning
        simp only [proceed, goTo_owners, modifyOwner, getElem?_modify_eq] at hy
        obtain ⟨x, hx, rfl⟩ := map_eq_some_iff.1 hy
        simp [told, proceed, modifyOwner, hx, Owner.shutdown]
      · exact .inr (.inr (.inr ⟨c, by simpa [proceed, Stage.rest] using h⟩))

/-! ### The tables -/

theorem mem_of_lookup {l : List (Key × ℕ)} (h : l.lookup key = some o) : (key, o) ∈ l := by
  obtain ⟨l₁, l₂, rfl, -⟩ := lookup_eq_some_iff.1 h
  simp

theorem ne_of_lookup {l : List (Key × ℕ)} (h : l.lookup key = none) {e : Key × ℕ} (he : e ∈ l) :
    e.1 ≠ key := by
  have hne := lookup_eq_none_iff.1 h e he
  exact fun heq => by simp [heq] at hne

theorem mem_erase {l : List (Key × ℕ)} {e : Key × ℕ} : e ∈ erase l key ↔ e ∈ l ∧ e.1 ≠ key := by
  simp [erase]

theorem erase_sublist {l : List (Key × ℕ)} : (erase l key).Sublist l := filter_sublist

/-- Every key is in one table, with an owner of that key. -/
structure Tables (w : World) : Prop where
  entries : (w.entries.map Prod.fst).Nodup
  inflight : (w.inflight.map Prod.fst).Nodup
  disjoint : ∀ e ∈ w.entries, ∀ f ∈ w.inflight, e.1 ≠ f.1
  keyed : ∀ e : Key × ℕ, e ∈ w.entries ∨ e ∈ w.inflight → w.keyOf e.2 = some e.1

theorem Tables.sublist (h : w.Tables) (hentries : w'.entries.Sublist w.entries)
    (hinflight : w'.inflight.Sublist w.inflight) (hages : w.Ages w') : w'.Tables where
  entries := h.entries.sublist (hentries.map _)
  inflight := h.inflight.sublist (hinflight.map _)
  disjoint e he f hf := h.disjoint e (hentries.subset he) f (hinflight.subset hf)
  keyed e he := hages.keyOf (h.keyed e (he.imp (hentries.subset ·) (hinflight.subset ·)))

/-- An owner becomes the last of the entries. -/
theorem Tables.register (h : w.Tables) (hentries : w'.entries = erase w.entries key ++ [(key, o)])
    (hinflight : w'.inflight.Sublist w.inflight) (hfree : ∀ f ∈ w'.inflight, f.1 ≠ key)
    (hkey : w.keyOf o = some key) (hages : w.Ages w') : w'.Tables where
  entries := by
    rw [hentries, map_append, map_singleton]
    refine (h.entries.sublist (erase_sublist.map _)).append (nodup_singleton _) ?_
    intro k hk hmem
    obtain ⟨e, he, rfl⟩ := mem_map.1 hk
    exact (mem_erase.1 he).2 (mem_singleton.1 hmem)
  inflight := h.inflight.sublist (hinflight.map _)
  disjoint e he f hf := by
    rw [hentries] at he
    rcases mem_append.1 he with he | he
    · exact h.disjoint e (mem_erase.1 he).1 f (hinflight.subset hf)
    · obtain rfl := mem_singleton.1 he
      exact (hfree f hf).symm
  keyed e he := by
    refine hages.keyOf ?_
    rw [hentries] at he
    rcases he with he | he
    · rcases mem_append.1 he with he | he
      · exact h.keyed e (.inl (mem_erase.1 he).1)
      · obtain rfl := mem_singleton.1 he
        exact hkey
    · exact h.keyed e (.inr (hinflight.subset he))

/-- A creation is published. -/
theorem Tables.publish (h : w.Tables) (hentries : w'.entries = w.entries)
    (hinflight : w'.inflight = w.inflight ++ [(key, o)]) (hfree : ∀ e ∈ w.entries, e.1 ≠ key)
    (hfree' : ∀ e ∈ w.inflight, e.1 ≠ key) (hkey : w'.keyOf o = some key) (hages : w.Ages w') :
    w'.Tables where
  entries := hentries ▸ h.entries
  inflight := by
    rw [hinflight, map_append, map_singleton]
    refine h.inflight.append (nodup_singleton _) ?_
    intro k hk hmem
    obtain ⟨e, he, rfl⟩ := mem_map.1 hk
    exact hfree' e he (mem_singleton.1 hmem)
  disjoint e he f hf := by
    rw [hentries] at he
    rw [hinflight] at hf
    rcases mem_append.1 hf with hf | hf
    · exact h.disjoint e he f hf
    · obtain rfl := mem_singleton.1 hf
      exact hfree e he
  keyed e he := by
    rw [hentries, hinflight] at he
    rcases he with he | he
    · exact hages.keyOf (h.keyed e (.inl he))
    · rcases mem_append.1 he with he | he
      · exact hages.keyOf (h.keyed e (.inr he))
      · obtain rfl := mem_singleton.1 he
        exact hkey

theorem Tables.eq_of_key (h : w.Tables) {p : ℕ} (ho : w.Filed o) (hp : w.Filed p)
    (hkey : w.keyOf o = w.keyOf p) : o = p := by
  have hpair {q : ℕ} (hq : w.Filed q) : ∃ k, ((k, q) ∈ w.entries ∨ (k, q) ∈ w.inflight) ∧
      w.keyOf q = some k := by
    rcases hq with hq | hq <;> obtain ⟨e, he, rfl⟩ := mem_map.1 hq
    · exact ⟨e.1, .inl he, h.keyed e (.inl he)⟩
    · exact ⟨e.1, .inr he, h.keyed e (.inr he)⟩
  obtain ⟨k, hk, hko⟩ := hpair ho
  obtain ⟨l, hl, hkp⟩ := hpair hp
  obtain rfl : k = l := some.inj (hko.symm.trans (hkey.trans hkp))
  rcases hk with hk | hk <;> rcases hl with hl | hl
  · exact congrArg Prod.snd (inj_on_of_nodup_map h.entries hk hl rfl)
  · exact (h.disjoint _ hk _ hl rfl).elim
  · exact (h.disjoint _ hl _ hk rfl).elim
  · exact congrArg Prod.snd (inj_on_of_nodup_map h.inflight hk hl rfl)

end World

end AfterFlow.Mcp
