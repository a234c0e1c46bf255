import AfterFlow.AutoApproval

/-!
# More suspicion, more scrutiny

The scorecard adds up points, signal by signal, and no signal gives fewer points when it gets worse.
The level and the tier are read off the score and off signals that force a level, so they do not
fall either, and neither does the tier when more money is asked for.

The source keeps two books, the list of contributions and the score. They agree, for a contribution
is listed with the points that are added.

## Main results

* `scrutiny_mono` — scrutiny does not fall with suspicion
-/

namespace AfterFlow

/-! ### Levels and tiers in order -/

@[grind =] def RiskLevel.rank : RiskLevel → ℕ
  | .low => 0
  | .medium => 1
  | .high => 2

@[grind =] def RiskTier.rank : RiskTier → ℕ
  | .auto => 0
  | .review => 1
  | .supervisor => 2
  | .fourEyes => 3

instance : Preorder RiskLevel := .lift RiskLevel.rank

instance : Preorder RiskTier := .lift RiskTier.rank

theorem RiskLevel.le_iff {a b : RiskLevel} :
    a ≤ b ↔ (a = .high → b = .high) ∧ (b = .low → a = .low) := by
  show a.rank ≤ b.rank ↔ _
  cases a <;> cases b <;> simp [RiskLevel.rank]

/-! ### Worse signals -/

/-- `s'` differs from `s` only by being more suspicious: more claims, cases and address changes, a
higher rate, a younger account, a signal switched on. The kind of the claim and its time are the
same. -/
structure RiskSignals.Worse (s s' : RiskSignals) : Prop where
  claims : s.notReceivedClaims180d ≤ s'.notReceivedClaims180d
  cases : s.refundCases180d ≤ s'.refundCases180d
  proof : s.carrierHasProofOfDelivery = true → s'.carrierHasProofOfDelivery = true
  delivery : s'.isDeliveryNotReceived = s.isDeliveryNotReceived
  value : s.highValueRefund = true → s'.highValueRefund = true
  hours : s'.signReceiptHours = s.signReceiptHours
  age : ∀ days ∈ s.accountAgeDays, ∃ days' ∈ s'.accountAgeDays, days' ≤ days
  rate : ∀ rate ∈ s.historicalRefundRate, ∃ rate' ∈ s'.historicalRefundRate, rate ≤ rate'
  address : s.addressChanges30d ≤ s'.addressChanges30d
  device : s.deviceReuse = true → s'.deviceReuse = true

/-! ### One scorecard -/

/-- The score is the sum of the points that are listed. -/
def Tally.Exact (t : Tally) : Prop := t.score = (t.contributions.map RiskContribution.points).sum

@[simp, grind =] theorem Tally.score_add {t : Tally} {signal reason : String} {points : ℕ} :
    (t.add signal points reason).score = t.score + points := rfl

theorem Tally.Exact.add {t : Tally} (h : t.Exact) (signal reason : String) (points : ℕ) :
    (t.add signal points reason).Exact := by
  rw [Exact, Tally.score_add, h, Tally.add]
  dsimp only
  split
  · simp
  · rename_i hzero
    rw [not_not.mp hzero, Nat.add_zero]

/-! ### One signal -/

/-- A signal of the scorecard keeps the two books in agreement, and gives at least as many points
when the signals are worse. -/
structure Signal (f : RiskSignals → Tally → Tally) : Prop where
  exact : ∀ s t, t.Exact → (f s t).Exact
  mono : ∀ {s s' : RiskSignals} {t t' : Tally}, s.Worse s' → t.score ≤ t'.score →
    (f s t).score ≤ (f s' t').score

theorem Tally.Exact.ite {p : Prop} [Decidable p] {t t' : Tally} (h : t.Exact) (h' : t'.Exact) :
    (if p then t else t').Exact := by
  split
  · exact h
  · exact h'

theorem signal_claims : Signal RiskSignals.tallyClaims where
  exact s t h := .ite (h.add ..) (.ite (h.add ..) h)
  mono {s s' t t'} h ht := by
    have hclaims := h.claims
    simp only [RiskSignals.tallyClaims]
    split_ifs <;> grind

theorem signal_proof : Signal RiskSignals.tallyProof where
  exact s t h := .ite (h.add ..) h
  mono {s s' t t'} h ht := by
    have hproof := h.proof
    simp only [RiskSignals.tallyProof, h.delivery]
    split_ifs <;> grind

theorem signal_value : Signal RiskSignals.tallyValue where
  exact s t h := .ite (h.add ..) h
  mono {s s' t t'} h ht := by
    have hvalue := h.value
    simp only [RiskSignals.tallyValue]
    split_ifs <;> grind

theorem signal_volume : Signal RiskSignals.tallyVolume where
  exact s t h := .ite (h.add ..) (.ite (h.add ..) h)
  mono {s s' t t'} h ht := by
    have hcases := h.cases
    simp only [RiskSignals.tallyVolume]
    split_ifs <;> grind

theorem signal_time : Signal RiskSignals.tallyTime where
  exact s t h := by
    rw [RiskSignals.tallyTime]
    split
    · exact h
    · exact .ite (h.add ..) (.ite (h.add ..) h)
  mono {s s' t t'} h ht := by
    simp only [RiskSignals.tallyTime, h.hours]
    cases s.signReceiptHours with
    | none => exact ht
    | some hours =>
      dsimp only
      split_ifs <;> grind

theorem signal_age : Signal RiskSignals.tallyAge where
  exact s t h := by
    rw [RiskSignals.tallyAge]
    split
    · exact h
    · exact .ite (h.add ..) h
  mono {s s' t t'} h ht := by
    have hage := h.age
    simp only [RiskSignals.tallyAge]
    cases hdays : s.accountAgeDays with
    | none =>
      cases s'.accountAgeDays with
      | none => exact ht
      | some days' =>
        dsimp only
        split_ifs <;> grind
    | some days =>
      obtain ⟨days', hdays', hle⟩ := hage days hdays
      rw [Option.mem_def.1 hdays']
      dsimp only
      split_ifs <;> grind

theorem signal_rate : Signal RiskSignals.tallyRate where
  exact s t h := by
    rw [RiskSignals.tallyRate]
    split
    · exact h
    · exact .ite (h.add ..) (.ite (h.add ..) h)
  mono {s s' t t'} h ht := by
    have hrate := h.rate
    simp only [RiskSignals.tallyRate]
    cases hrate' : s.historicalRefundRate with
    | none =>
      cases s'.historicalRefundRate with
      | none => exact ht
      | some rate' =>
        dsimp only
        split_ifs <;> grind
    | some rate =>
      obtain ⟨rate', hrate', hle⟩ := hrate rate hrate'
      rw [Option.mem_def.1 hrate']
      dsimp only
      split_ifs <;> grind

theorem signal_address : Signal RiskSignals.tallyAddress where
  exact s t h := .ite (h.add ..) h
  mono {s s' t t'} h ht := by
    have haddress := h.address
    simp only [RiskSignals.tallyAddress]
    split_ifs <;> grind

theorem signal_device : Signal RiskSignals.tallyDevice where
  exact s t h := .ite (h.add ..) h
  mono {s s' t t'} h ht := by
    have hdevice := h.device
    simp only [RiskSignals.tallyDevice]
    split_ifs <;> grind

/-! ### The scorecard -/

theorem Signal.comp {f g : RiskSignals → Tally → Tally} (hf : Signal f) (hg : Signal g) :
    Signal fun s t => f s (g s t) where
  exact s t h := hf.exact s _ (hg.exact s t h)
  mono h ht := hf.mono h (hg.mono h ht)

theorem signal_tally : Signal fun s t =>
    s.tallyDevice (s.tallyAddress (s.tallyRate (s.tallyAge (s.tallyTime (s.tallyVolume
      (s.tallyValue (s.tallyProof (s.tallyClaims t)))))))) :=
  signal_device.comp <| signal_address.comp <| signal_rate.comp <| signal_age.comp <|
    signal_time.comp <| signal_volume.comp <| signal_value.comp <| signal_proof.comp signal_claims

theorem tally_exact (s : RiskSignals) : s.tally.Exact := signal_tally.exact s {} rfl

variable {s s' : RiskSignals} {amount amount' threshold : ℤ}

theorem tally_mono (h : s.Worse s') : s.tally.score ≤ s'.tally.score := signal_tally.mono h le_rfl

/-! ### Score, level and tier -/

theorem score_mono (h : s.Worse s') :
    (assessRisk s amount threshold).score ≤ (assessRisk s' amount' threshold).score := by
  have htally := tally_mono h
  show min 100 s.tally.score ≤ min 100 s'.tally.score
  omega

theorem decisiveHigh_mono (h : s.Worse s') (hs : s.decisiveHigh = true) :
    s'.decisiveHigh = true := by
  have hclaims := h.claims
  have hproof := h.proof
  rw [RiskSignals.decisiveHigh, decide_eq_true_eq] at hs ⊢
  rw [h.delivery]
  exact hs.imp (le_trans · hclaims) fun hconflict => ⟨hconflict.1, hproof hconflict.2⟩

theorem assessRisk_high : (assessRisk s amount threshold).level = .high ↔
    s.decisiveHigh = true ∨ 60 ≤ (assessRisk s amount threshold).score := by
  show (if s.decisiveHigh ∨ (assessRisk s amount threshold).score ≥ 60 then RiskLevel.high
    else if _ then .medium else .low) = .high ↔ _
  split
  · rename_i h
    exact iff_of_true rfl h
  · rename_i h
    refine iff_of_false ?_ h
    split <;> exact RiskLevel.noConfusion

theorem level_mono (h : s.Worse s') :
    (assessRisk s amount threshold).level ≤ (assessRisk s' amount' threshold).level := by
  have hscore : (assessRisk s amount threshold).score ≤ (assessRisk s' amount' threshold).score :=
    score_mono h
  refine RiskLevel.le_iff.2 ⟨fun hhigh => ?_, fun hlow => ?_⟩
  · rw [assessRisk_high] at hhigh ⊢
    exact hhigh.imp (decisiveHigh_mono h) fun hs => hs.trans hscore
  · have hclaims := h.claims
    have hproof := h.proof
    have hvalue := h.value
    rw [assessRisk_level] at hlow ⊢
    rw [h.delivery] at hlow
    refine ⟨by omega, fun hconflict => hlow.2.1 ⟨hconflict.1, hproof hconflict.2⟩, ?_, by omega⟩
    exact Bool.eq_false_iff.2 fun hs => Bool.false_ne_true (hlow.2.2.1.symm.trans (hvalue hs))

/-- The tier of a level, for much money or not. -/
def RiskLevel.tier (level : RiskLevel) (much : Prop) [Decidable much] : RiskTier :=
  if level = .high ∧ much then .fourEyes
  else if level = .high then .supervisor
  else if level = .medium then .review
  else .auto

theorem RiskLevel.tier_mono {a b : RiskLevel} {much much' : Prop} [Decidable much]
    [Decidable much'] (h : a ≤ b) (hmuch : much → much') : a.tier much ≤ b.tier much' := by
  show (a.tier much).rank ≤ (b.tier much').rank
  have hrank : a.rank ≤ b.rank := h
  by_cases hm : much
  · have hm' := hmuch hm
    cases a <;> cases b <;> simp_all [RiskLevel.tier, RiskLevel.rank, RiskTier.rank]
  · by_cases hm' : much' <;> cases a <;> cases b <;>
      simp_all [RiskLevel.tier, RiskLevel.rank, RiskTier.rank]

theorem tier_mono (h : s.Worse s') (hamount : amount ≤ amount') :
    (assessRisk s amount threshold).tier ≤ (assessRisk s' amount' threshold).tier := by
  have hlevel : (assessRisk s amount threshold).level ≤ (assessRisk s' amount' threshold).level :=
    level_mono h
  exact RiskLevel.tier_mono hlevel fun hmuch : threshold ≤ amount => hmuch.trans hamount

/-- **Scrutiny does not fall.** Whatever is more suspicious gets at least the score, the level and
the tier of what is less so, and every score is what its contributions add up to, up to 100. -/
theorem scrutiny_mono :
    (∀ (s s' : RiskSignals) (amount amount' threshold : ℤ), s.Worse s' → amount ≤ amount' →
      (assessRisk s amount threshold).score ≤ (assessRisk s' amount' threshold).score ∧
      (assessRisk s amount threshold).level ≤ (assessRisk s' amount' threshold).level ∧
      (assessRisk s amount threshold).tier ≤ (assessRisk s' amount' threshold).tier) ∧
    ∀ (s : RiskSignals) (amount threshold : ℤ), (assessRisk s amount threshold).score =
      min 100 ((assessRisk s amount threshold).contributions.map RiskContribution.points).sum :=
  ⟨fun _ _ _ _ _ h hamount => ⟨score_mono h, level_mono h, tier_mono h hamount⟩,
    fun s _ _ => congrArg (min 100) (tally_exact s)⟩

/-- A second claim that nothing came, from a young account. -/
def secondClaim : RiskSignals := { notReceivedClaims180d := 2, accountAgeDays := some 20 }

/-- The same with a third claim, from a younger account still. -/
def thirdClaim : RiskSignals := { notReceivedClaims180d := 3, accountAgeDays := some 10 }

theorem scrutiny_mono_thirdClaim :
    (assessRisk secondClaim 500000 500000).tier ≤ (assessRisk thirdClaim 500001 500000).tier ∧
      (assessRisk thirdClaim 500001 500000).score =
        min 100 ((assessRisk thirdClaim 500001 500000).contributions.map
          RiskContribution.points).sum :=
  ⟨(scrutiny_mono.1 secondClaim thirdClaim 500000 500001 500000
    { claims := by decide
      cases := by decide
      proof := by decide
      delivery := rfl
      value := by decide
      hours := rfl
      age := fun days hdays => ⟨10, rfl, by cases hdays; decide⟩
      rate := fun rate hrate => by cases hrate
      address := by decide
      device := by decide } (by decide)).2.2, scrutiny_mono.2 _ _ _⟩

end AfterFlow
