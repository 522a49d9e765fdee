import FusionCore.Core.Backstop

/-!
# The decay of the redemption base rate

The base rate of the redemption fee decays by whole minutes, counted from an anchor that a
redemption moves to its own time once a minute has passed.  Along any schedule of redemptions the
minutes that were applied, the seconds that a move of the anchor dropped and the seconds since the
anchor add up to the time that has passed.
-/

namespace FusionCore

open Checked

/-! ## One redemption -/

/-- The base rate after `n` decay ticks of one minute. -/
def decayTicks (baseRate n : ℕ) : ℕ :=
  if baseRate = 0 ∨ n = 0 then baseRate
  else (rayMul baseRate ((rayPow BASE_RATE_DECAY_PER_MINUTE n).getD 0)).getD 0

theorem decayBaseRate_eq_decayTicks (baseRate secs : ℕ) :
    decayBaseRate baseRate secs = decayTicks baseRate (secs / 60) := by
  unfold decayBaseRate decayTicks
  by_cases hrate : baseRate = 0
  · rw [if_pos (.inl hrate), if_pos (.inl hrate)]
  by_cases hn : secs / 60 = 0
  · rw [if_pos hn, ite_self, if_pos (.inr hn)]
  · have hsecs : secs ≠ 0 := by
      rintro rfl
      exact hn rfl
    rw [if_neg (by simp [hrate, hsecs]), if_neg hn, if_neg (by simp [hrate, hn])]

theorem bumpBaseRate_le {baseRate redeemed debt : ℕ} (hpos : 0 < redeemed)
    (hle : redeemed ≤ debt) : bumpBaseRate baseRate redeemed debt ≤ RAY := by
  have hgo : ¬(debt = 0 ∨ redeemed = 0 ∨ BASE_RATE_BETA = 0) := by
    have hbeta : BASE_RATE_BETA ≠ 0 := by decide
    omega
  unfold bumpBaseRate
  rw [if_neg hgo]
  exact min_le_right _ _

theorem le_effectiveFeeBps (baseRate floorBps maxBps : ℕ) :
    min floorBps MAX_REDEMPTION_FEE_BPS ≤
      effectiveFeeBps baseRate floorBps maxBps MAX_REDEMPTION_FEE_BPS := by
  unfold effectiveFeeBps
  rw [truncate_of_lt ((min_le_right _ _).trans_lt (by decide))]
  exact min_le_min_right _ (Nat.le_add_right _ _)

/-- What a redemption with the dynamic fee on does to the base rate: `n` ticks of decay, a bump by
the share of the debt that was redeemed, and a fee of `bps` on the collateral drawn. -/
structure RateCharged (now : ℕ) (a a' : Accounts) (n : ℕ) : Prop where
  rate : ∃ m₁ redeemed, accrue a.state.market now = .ok m₁ ∧ 0 < redeemed ∧
    a'.state.market.aggRecordedDebt + redeemed = m₁.aggRecordedDebt ∧
    a'.state.market.redemptionBaseRate =
      bumpBaseRate (decayTicks a.state.market.redemptionBaseRate n) redeemed m₁.aggRecordedDebt
  fee : ∃ bps drawn, min a.state.market.redemptionFeeBps MAX_REDEMPTION_FEE_BPS ≤ bps ∧
    bps ≤ MAX_REDEMPTION_FEE_BPS ∧
    a'.state.market.totalCollateral + drawn = a.state.market.totalCollateral ∧
    a'.state.market.surplusCollateral =
      a.state.market.surplusCollateral + drawn * bps / BPS_DENOMINATOR

/-- The anchor that a redemption at `now` leaves. -/
def nextAnchor (anchor now : ℕ) : ℕ := if 60 ≤ now - anchor then now else anchor

section Redeem

variable {now redeemed drawn : ℕ} {a a' : Accounts} {m₁ : Market}

theorem Redeemed.bumped (h : Redeemed now a a' m₁ redeemed drawn)
    (hon : 0 < a.state.market.redemptionBaseRateMaxBps) :
    m₁.bumpedBaseRate now redeemed = bumpBaseRate (decayTicks a.state.market.redemptionBaseRate
      ((now - a.state.market.redemptionBaseRateTs) / 60)) redeemed m₁.aggRecordedDebt := by
  have hmax : m₁.redemptionBaseRateMaxBps = a.state.market.redemptionBaseRateMaxBps :=
    congrArg MarketParams.redemptionBaseRateMaxBps (accrue_params m₁ h.accrued)
  have hrate : m₁.redemptionBaseRate = a.state.market.redemptionBaseRate :=
    congrArg Counters.redemptionBaseRate (accrue_counters m₁ h.accrued)
  have hts : m₁.redemptionBaseRateTs = a.state.market.redemptionBaseRateTs :=
    congrArg Counters.redemptionBaseRateTs (accrue_counters m₁ h.accrued)
  unfold Market.bumpedBaseRate
  rw [hmax, if_pos hon, hrate, hts, decayBaseRate_eq_decayTicks]

theorem Redeemed.stored (h : Redeemed now a a' m₁ redeemed drawn)
    (hon : 0 < a.state.market.redemptionBaseRateMaxBps) :
    a'.state.market.redemptionBaseRate = m₁.bumpedBaseRate now redeemed ∧
      a'.state.market.redemptionBaseRateTs =
        nextAnchor a.state.market.redemptionBaseRateTs now := by
  have hcounters := h.counters
  unfold Market.storeBaseRate at hcounters
  rw [if_pos hon] at hcounters
  exact ⟨congrArg Counters.redemptionBaseRate hcounters,
    congrArg Counters.redemptionBaseRateTs hcounters⟩

theorem Redeemed.unstored (h : Redeemed now a a' m₁ redeemed drawn)
    (hoff : ¬0 < a.state.market.redemptionBaseRateMaxBps) :
    a'.state.market.counters = a.state.market.counters := by
  have hcounters := h.counters
  unfold Market.storeBaseRate at hcounters
  rwa [if_neg hoff] at hcounters

theorem Redeemed.charged (h : Redeemed now a a' m₁ redeemed drawn)
    (hon : 0 < a.state.market.redemptionBaseRateMaxBps) :
    RateCharged now a a' ((now - a.state.market.redemptionBaseRateTs) / 60) where
  rate := ⟨m₁, redeemed, h.accrued, h.pos, h.agg, (h.stored hon).1.trans (h.bumped hon)⟩
  fee := ⟨_, drawn, le_effectiveFeeBps _ _ _, effectiveFeeBps_le, h.coll, h.surplus⟩

end Redeem

/-! ## Stored rates along every run -/

/-- The stored base rate is at most one, and its anchor does not lie ahead. -/
structure Market.RateBounded (now : ℕ) (m : Market) : Prop where
  rate_le : m.redemptionBaseRate ≤ RAY
  anchor_le : m.redemptionBaseRateTs ≤ now

theorem Market.RateBounded.mono {now now' : ℕ} {m : Market} (h : m.RateBounded now)
    (hle : now ≤ now') : m.RateBounded now' :=
  ⟨h.rate_le, h.anchor_le.trans hle⟩

theorem BaseRateKept.bounded {now : ℕ} {m m' : Market} (h : BaseRateKept m m')
    (hb : m.RateBounded now) : m'.RateBounded now :=
  ⟨h.rate.trans_le hb.rate_le, h.anchor.trans_le hb.anchor_le⟩

section Steps

variable {clk : Clock} {cfg : Config} {a a' : Accounts} {i : MarketInstr}

theorem Redeemed.bounded {now redeemed drawn : ℕ} {m₁ : Market}
    (h : Redeemed now a a' m₁ redeemed drawn) (hb : a.state.market.RateBounded now) :
    a'.state.market.RateBounded now := by
  by_cases hon : 0 < a.state.market.redemptionBaseRateMaxBps
  · obtain ⟨hrate, hanchor⟩ := h.stored hon
    constructor
    · have hagg := h.agg
      rw [hrate, h.bumped hon]
      exact bumpBaseRate_le h.pos (by omega)
    · have hbefore := hb.anchor_le
      rw [hanchor]
      unfold nextAnchor
      split <;> omega
  · have hcounters := h.unstored hon
    have hkept : BaseRateKept a.state.market a'.state.market :=
      ⟨congrArg Counters.redemptionBaseRate hcounters,
        congrArg Counters.redemptionBaseRateTs hcounters⟩
    exact hkept.bounded hb

theorem MarketInstr.run_rateBounded (hi : Inv clk.unixTimestamp a)
    (hb : a.state.market.RateBounded clk.unixTimestamp) (h : i.run cfg clk a = .ok a') :
    a'.state.market.RateBounded clk.unixTimestamp := by
  cases i with
  | redeem =>
    obtain ⟨m₁, redeemed, drawn, hredeemed⟩ := redeem_redeemed hi h
    exact hredeemed.bounded hb
  | _ => exact (MarketInstr.run_rateKept hi (by simp) h).bounded hb

theorem fusdCore_rateBounded {w : World} (h : fusdCore.Reach w) :
    w.protocol.markets.All fun state ↦ state.market.RateBounded w.clock.unixTimestamp := by
  refine h.all_entries (P := fun w state ↦ state.market.RateBounded w.clock.unixTimestamp)
    fusdCore_init_markets ?_
  intro e w w' mint hreach _ hs ih state hl
  obtain ⟨hclk, hrun, hclock⟩ := hs
  rw [hclock]
  cases e.instr.core_run hrun mint with
  | idle _ hsame => exact (ih state (hsame ▸ hl)).mono hclk.unixTimestamp
  | birth _ _ args born _ _ hinit hstate =>
    obtain rfl : born = state := Option.some.inj (hstate.symm.trans hl)
    rw [initMarket_eq hinit]
    exact ⟨Nat.zero_le _, le_rfl⟩
  | run j before a' _ hbefore hrun heq =>
    rw [heq] at hl
    obtain rfl : a'.state = state := by simpa using hl
    exact MarketInstr.run_rateBounded (fusdCore_market_inv hreach hclk hbefore)
      ((ih before hbefore).mono hclk.unixTimestamp) hrun

end Steps

/-! ## Schedules -/

/-- The redemptions of a schedule so far: the time of the last one, the ticks of decay they applied,
and the seconds dropped where the anchor moved past a part of a minute. -/
structure DecayLog where
  last : ℕ
  ticks : ℕ
  dropped : ℕ
  deriving DecidableEq

/-- A redemption at `now` from `anchor` on. -/
def DecayLog.redeem (log : DecayLog) (anchor now : ℕ) : DecayLog where
  last := now
  ticks := log.ticks + (now - anchor) / 60
  dropped := log.dropped + if 60 ≤ now - anchor then (now - anchor) % 60 else 0

def Instr.redeems (k : Pubkey) : Instr → Bool
  | .market mint (.redeem _ _ _) => mint = k
  | _ => false

/-- The anchor of a market. -/
def Protocol.anchor (s : Protocol) (k : Pubkey) : ℕ :=
  (s.markets.lookup k).elim 0 (·.market.redemptionBaseRateTs)

/-- Note the redemptions of the market of `k`. -/
def noteDecay (k : Pubkey) (e : Event) (w _w' : World) (log : DecayLog) : DecayLog :=
  if e.instr.redeems k then log.redeem (w.protocol.anchor k) e.clock.unixTimestamp else log

/-- The market of `k` is redeemed from with the dynamic fee on. -/
def DynamicFee (k : Pubkey) (e : Event) (w : World) : Prop :=
  e.instr.redeems k = true →
    0 < (w.protocol.markets.lookup k).elim 0 (·.market.redemptionBaseRateMaxBps)

instance (k : Pubkey) (e : Event) (w : World) : Decidable (DynamicFee k e w) :=
  inferInstanceAs (Decidable (_ → _))

/-- From the first anchor `t₀` to the present one whole minutes were applied and seconds dropped;
the last redemption lies less than a minute after the anchor. -/
structure DecayLog.Exact (log : DecayLog) (t₀ anchor : ℕ) : Prop where
  elapsed : t₀ + 60 * log.ticks + log.dropped = anchor
  anchor_le : anchor ≤ log.last
  last_lt : log.last < anchor + 60

theorem DecayLog.Exact.redeem {log : DecayLog} {t₀ anchor now : ℕ} (h : log.Exact t₀ anchor)
    (hle : anchor ≤ now) : (log.redeem anchor now).Exact t₀ (nextAnchor anchor now) := by
  have helapsed := h.elapsed
  unfold nextAnchor
  by_cases hminute : 60 ≤ now - anchor
  · rw [if_pos hminute]
    constructor
    · simp only [DecayLog.redeem, if_pos hminute]
      omega
    · exact le_rfl
    · exact Nat.lt_add_of_pos_right (by decide)
  · rw [if_neg hminute]
    constructor
    · simp only [DecayLog.redeem, if_neg hminute]
      omega
    · exact hle
    · change now < anchor + 60
      omega

theorem DecayLog.Exact.ticks_eq {log : DecayLog} {t₀ anchor : ℕ} (h : log.Exact t₀ anchor) :
    log.ticks = (log.last - t₀ - log.dropped) / 60 := by
  have h1 := h.elapsed
  have h2 := h.anchor_le
  have h3 := h.last_lt
  omega

/-! ## Redemptions along every run -/

section Runs

variable {k : Pubkey} {w w' : World} {e : Event} {t₀ : ℕ} {log : DecayLog}

theorem Instr.redeems_eq_true {i : Instr} (h : i.redeems k = true) :
    ∃ redeemer amount candidates, i = .market k (.redeem redeemer amount candidates) := by
  cases i with
  | market mint j =>
    cases j with
    | redeem redeemer amount candidates =>
      obtain rfl : mint = k := of_decide_eq_true h
      exact ⟨redeemer, amount, candidates, rfl⟩
    | _ => cases h
  | _ => cases h

/-- The market of `k` exists and its log is exact. -/
def DecayLog.Tracks (log : DecayLog) (k : Pubkey) (t₀ : ℕ) (s : Protocol) : Prop :=
  ∃ state, s.markets.lookup k = some state ∧
    log.Exact t₀ state.market.redemptionBaseRateTs

theorem redeem_step (hreach : fusdCore.Reach w) (hs : fusdCore.step e w w')
    (hredeems : e.instr.redeems k = true) : ∃ state state' m₁ redeemed drawn,
    w.protocol.markets.lookup k = some state ∧ w'.protocol.markets.lookup k = some state' ∧
      Redeemed e.clock.unixTimestamp ⟨state, w.protocol.fusd, w.protocol.backstop⟩
        ⟨state', w'.protocol.fusd, w'.protocol.backstop⟩ m₁ redeemed drawn := by
  obtain ⟨hclk, hrun, -⟩ := hs
  obtain ⟨redeemer, amount, candidates, hinstr⟩ := Instr.redeems_eq_true hredeems
  rw [hinstr] at hrun
  obtain ⟨state, a', hl, ha', heq⟩ := Protocol.onMarket_cases hrun
  obtain ⟨m₁, redeemed, drawn, h⟩ := redeem_redeemed (fusdCore_market_inv hreach hclk hl) ha'
  refine ⟨state, a'.state, m₁, redeemed, drawn, hl, ?_, ?_⟩
  · rw [heq, AList.lookup_insert]
  · rw [heq]
    exact h

theorem DecayLog.Tracks.step (h : log.Tracks k t₀ w.protocol) (hreach : fusdCore.Reach w)
    (hfee : DynamicFee k e w) (hs : fusdCore.step e w w') :
    (noteDecay k e w w' log).Tracks k t₀ w'.protocol := by
  obtain ⟨state, hl, hexact⟩ := h
  unfold noteDecay
  by_cases hredeems : e.instr.redeems k = true
  · obtain ⟨before, state', m₁, redeemed, drawn, hbefore, hl', hredeemed⟩ :=
      redeem_step hreach hs hredeems
    obtain rfl : before = state := Option.some.inj (hbefore.symm.trans hl)
    have hon : 0 < before.market.redemptionBaseRateMaxBps := by
      have := hfee hredeems
      rwa [hl] at this
    have hle := ((fusdCore_rateBounded hreach k before hl).mono hs.1.unixTimestamp).anchor_le
    have hanchor : w.protocol.anchor k = before.market.redemptionBaseRateTs := by
      rw [Protocol.anchor, hl]
      rfl
    refine ⟨state', hl', ?_⟩
    rw [if_pos hredeems, hanchor, (hredeemed.stored hon).2]
    exact hexact.redeem hle
  · rw [if_neg hredeems]
    cases e.instr.core_run hs.2.1 k with
    | idle _ hsame => exact ⟨state, hsame.trans hl, hexact⟩
    | birth _ _ _ _ _ hnone =>
      rw [hl] at hnone
      cases hnone
    | run j before a' hon hbefore hrun heq =>
      obtain rfl : before = state := Option.some.inj (hbefore.symm.trans hl)
      have hother : ∀ redeemer amount candidates, j ≠ .redeem redeemer amount candidates := by
        rintro redeemer amount candidates rfl
        rw [hon] at hredeems
        exact hredeems (decide_eq_true rfl)
      have hkept := MarketInstr.run_rateKept (fusdCore_market_inv hreach hs.1 hbefore) hother hrun
      refine ⟨a'.state, ?_, ?_⟩
      · rw [heq, AList.lookup_insert]
      · rw [hkept.anchor]
        exact hexact

theorem DecayLog.Tracks.leads {x x' : World × DecayLog} {g₀ : DecayLog}
    (h : x.2.Tracks k t₀ x.1.protocol) (hreach : fusdCore.Reach x.1)
    (hrun : (fusdCore.withGhost g₀ (noteDecay k)).Leads (fun e x ↦ DynamicFee k e x.1) x x') :
    fusdCore.Reach x'.1 ∧ x'.2.Tracks k t₀ x'.1.protocol := by
  induction hrun with
  | refl => exact ⟨hreach, h⟩
  | step e _ hfee hs ih =>
    obtain ⟨hreach', htracks⟩ := ih
    refine ⟨hreach'.step e trivial hs.1, ?_⟩
    rw [hs.2]
    exact htracks.step hreach' hfee hs.1

/-- A schedule that has just begun at the anchor `t₀`. -/
def DecayLog.start (t₀ : ℕ) : DecayLog := ⟨t₀, 0, 0⟩

theorem redemption_decay {w₀ : World} (hw₀ : fusdCore.Reach w₀) {s₀ : MarketState}
    (hs₀ : w₀.protocol.markets.lookup k = some s₀) {g₀ : DecayLog}
    (hrun : (fusdCore.withGhost g₀ (noteDecay k)).Leads (fun e x ↦ DynamicFee k e x.1)
      (w₀, .start s₀.market.redemptionBaseRateTs) (w, log)) :
    log.ticks = (log.last - s₀.market.redemptionBaseRateTs - log.dropped) / 60 ∧
      (∀ state, w.protocol.markets.lookup k = some state →
        state.market.redemptionBaseRate ≤ RAY) ∧
      ∀ e w', e.instr.redeems k = true → DynamicFee k e w → fusdCore.step e w w' →
        ∃ state state', w.protocol.markets.lookup k = some state ∧
          w'.protocol.markets.lookup k = some state' ∧
          RateCharged e.clock.unixTimestamp ⟨state, w.protocol.fusd, w.protocol.backstop⟩
            ⟨state', w'.protocol.fusd, w'.protocol.backstop⟩
            ((noteDecay k e w w' log).ticks - log.ticks) := by
  have hstart : (DecayLog.start s₀.market.redemptionBaseRateTs).Tracks k
      s₀.market.redemptionBaseRateTs w₀.protocol :=
    ⟨s₀, hs₀, rfl, le_rfl, Nat.lt_add_of_pos_right (by decide)⟩
  obtain ⟨hreach, state, hl, hexact⟩ := hstart.leads hw₀ hrun
  refine ⟨hexact.ticks_eq, ?_, ?_⟩
  · intro state hl
    exact (fusdCore_rateBounded hreach k state hl).rate_le
  · intro e w' hredeems hfee hs
    obtain ⟨before, state', m₁, redeemed, drawn, hbefore, hl', hredeemed⟩ :=
      redeem_step hreach hs hredeems
    have hon : 0 < before.market.redemptionBaseRateMaxBps := by
      have := hfee hredeems
      rwa [hbefore] at this
    refine ⟨before, state', hbefore, hl', ?_⟩
    have hticks : (noteDecay k e w w' log).ticks - log.ticks =
        (e.clock.unixTimestamp - before.market.redemptionBaseRateTs) / 60 := by
      rw [noteDecay, if_pos hredeems, Protocol.anchor, hbefore]
      exact Nat.add_sub_cancel_left _ _
    rw [hticks]
    exact hredeemed.charged hon

end Runs

/-! ## A sample schedule -/

namespace Sample

/-- A market with the dynamic fee on. -/
def dynamic : List Instr := instrs ++ [.market 7 (.executeParamChange .redemptionBaseRateMax 100)]

/-- A redemption of one dollar, `secs` after the market was created. -/
def redeemAfter (secs : ℕ) : Event :=
  ⟨{ clock with unixTimestamp := clock.unixTimestamp + secs },
    .market 7 (.redeem 100 1000000 [.position 100])⟩

/-- The market before a schedule, and the world and log after it. -/
def schedule (times : List ℕ) : Option (World × MarketState × World × DecayLog) :=
  (world dynamic).bind fun w₀ ↦
    (w₀.protocol.markets.lookup 7).bind fun s₀ ↦
      (Machine.execute (fun e x ↦ DynamicFee 7 e x.1) (Machine.ghostNext World.next (noteDecay 7))
        (w₀, .start s₀.market.redemptionBaseRateTs) (times.map redeemAfter)).map
        fun x ↦ (w₀, s₀, x.1, x.2)

theorem schedule_leads {times : List ℕ} {w₀ w : World} {s₀ : MarketState} {log : DecayLog}
    (h : schedule times = some (w₀, s₀, w, log)) :
    fusdCore.Reach w₀ ∧ w₀.protocol.markets.lookup 7 = some s₀ ∧
      (fusdCore.withGhost ⟨0, 0, 0⟩ (noteDecay 7)).Leads (fun e x ↦ DynamicFee 7 e x.1)
        (w₀, .start s₀.market.redemptionBaseRateTs) (w, log) := by
  simp only [schedule, Option.bind_eq_some_iff, Option.map_eq_some_iff, Prod.mk.injEq] at h
  obtain ⟨w₀', hw, s₀', hs, ⟨w', log'⟩, hx, rfl, rfl, rfl, rfl⟩ := h
  exact ⟨reach hw, hs,
    Machine.Leads.execute (Machine.withGhost_step fusdCore_step_of_next) .refl hx⟩

end Sample

/-- Redemptions 119 and 238 seconds after the anchor apply two ticks between them, although three
whole minutes have passed. -/
theorem redemption_decay_drops_seconds : ∃ w₀ s₀ w log, fusdCore.Reach w₀ ∧
    w₀.protocol.markets.lookup 7 = some s₀ ∧
      (fusdCore.withGhost ⟨0, 0, 0⟩ (noteDecay 7)).Leads (fun e x ↦ DynamicFee 7 e x.1)
        (w₀, .start s₀.market.redemptionBaseRateTs) (w, log) ∧
      log.last = s₀.market.redemptionBaseRateTs + 238 ∧ log.ticks = 2 ∧
      log.ticks ≠ (log.last - s₀.market.redemptionBaseRateTs) / 60 := by
  have hrun : (Sample.schedule [119, 238]).map (fun x ↦
      decide (x.2.2.2.last = x.2.1.market.redemptionBaseRateTs + 238 ∧ x.2.2.2.ticks = 2)) =
        some true := by decide +kernel
  simp only [Option.map_eq_some_iff, decide_eq_true_eq, Prod.exists] at hrun
  obtain ⟨w₀, s₀, w, log, hw, hlast, hticks⟩ := hrun
  obtain ⟨hreach, hs₀, hleads⟩ := Sample.schedule_leads hw
  refine ⟨w₀, s₀, w, log, hreach, hs₀, hleads, hlast, hticks, ?_⟩
  rw [hlast, hticks]
  omega

/-- The same schedule: 59 seconds were dropped at each of the two redemptions. -/
theorem redemption_decay_sample : ∃ w₀ s₀ w log, fusdCore.Reach w₀ ∧
    w₀.protocol.markets.lookup 7 = some s₀ ∧
      (fusdCore.withGhost ⟨0, 0, 0⟩ (noteDecay 7)).Leads (fun e x ↦ DynamicFee 7 e x.1)
        (w₀, .start s₀.market.redemptionBaseRateTs) (w, log) ∧ log.dropped = 118 ∧
      log.ticks = (log.last - s₀.market.redemptionBaseRateTs - log.dropped) / 60 := by
  have hrun : (Sample.schedule [119, 238]).map (fun x ↦ decide (x.2.2.2.dropped = 118)) =
      some true := by decide +kernel
  simp only [Option.map_eq_some_iff, decide_eq_true_eq, Prod.exists] at hrun
  obtain ⟨w₀, s₀, w, log, hw, hdropped⟩ := hrun
  obtain ⟨hreach, hs₀, hleads⟩ := Sample.schedule_leads hw
  exact ⟨w₀, s₀, w, log, hreach, hs₀, hleads, hdropped, (redemption_decay hreach hs₀ hleads).1⟩

end FusionCore
