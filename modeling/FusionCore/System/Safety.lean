import FusionCore.Core.RiskChecks
import FusionCore.System.Steps

/-!
# The low price and the high price

Along every run the low price of a market is at most the high one.  So a position that has just
passed the test of a borrow, of a withdrawal under debt or of a rate change with a fee fails the
test of a liquidation at the same time.  The shutdown test takes the low price as well, and there
the distance of the two prices works against the borrowers.
-/

namespace FusionCore

open Checked Oracle

/-- The instruction has tested the position of `owner` at the low price: a borrow, a withdrawal
that leaves debt, or a rate change that books a fee beyond the interest accrued. -/
inductive RiskChecked (clk : Clock) (a a' : Accounts) (owner : Pubkey) : MarketInstr → Prop where
  | borrow (amount : UInt64) : RiskChecked clk a a' owner (.borrow owner amount)
  | withdraw (amount : UInt64) (p : Position) (hp : a'.state.positions.lookup owner = some p)
      (hdebt : 0 < p.recordedDebt) : RiskChecked clk a a' owner (.withdraw owner amount)
  | adjustRate (rate : UInt16) (m : Market)
      (hm : accrue a.state.market clk.unixTimestamp = .ok m)
      (hfee : m.unmintedInterest < a'.state.market.unmintedInterest) :
      RiskChecked clk a a' owner (.adjustRate owner rate)

section

variable {clk : Clock} {a a' : Accounts} {owner : Pubkey} {cfg : Config} {j : MarketInstr}

theorem RiskChecked.justTested (hc : RiskChecked clk a a' owner j) (hi : Inv clk.unixTimestamp a)
    (h : j.run cfg clk a = .ok a') : ∃ p, JustTested clk a' owner p := by
  cases hc with
  | borrow amount => exact borrow_justTested hi h
  | withdraw amount p hp hdebt => exact ⟨p, withdraw_justTested hi h hp hdebt⟩
  | adjustRate rate m hm hfee => exact adjustRate_justTested hi h hm hfee

theorem MarketState.Sound.infrastructure {p : Position} (hs : a.state.Sound)
    (hi : Inv clk.unixTimestamp a) (hc : JustTested clk a owner p) :
    a.state.reactor.isSome ∧ a.state.buffer.isSome := by
  have hle := hi.book.debt_le hc.position hc.current.folded
  have howes := hc.owes
  refine hs.backed.of_ready (hs.drawn.resolve_left ?_)
  omega

end

section

variable {clk : Clock} {s s' : System} {mint : Pubkey} {j : MarketInstr}
  {hplain : (Instr.market mint j).plain = true}

theorem core_market_cases
    (h : (SystemInstr.core (.market mint j) hplain).run clk s = .ok s') :
    ∃ state a', s.protocol.markets.lookup mint = some state ∧
      j.run s.protocol.config clk (s.accounts state) = .ok a' ∧
      s'.protocol = { s.protocol with
        fusd := a'.fusd
        backstop := a'.backstop
        markets := s.protocol.markets.insert mint a'.state } := by
  simp only [SystemInstr.run, Instr.run, bind_eq_ok_iff, pure_eq_ok] at h
  obtain ⟨p, hp, rfl⟩ := h
  obtain ⟨state, a', hl, ha', rfl⟩ := Protocol.onMarket_cases hp
  exact ⟨state, a', hl, ha', rfl⟩

theorem core_market_error {state : MarketState} {e : ProgramError}
    (hl : s.protocol.markets.lookup mint = some state)
    (h : j.run s.protocol.config clk (s.accounts state) = .error e) :
    (SystemInstr.core (.market mint j) hplain).run clk s = .error e := by
  have hrun : j.run s.protocol.config clk ⟨state, s.protocol.fusd, s.protocol.backstop⟩
      = .error e := h
  simp only [SystemInstr.run, Instr.run, Protocol.onMarket, hl, okOr_some, ok_bind, hrun,
    error_bind]

end

/-- Along every run: the low price is at most the high one, and after a borrow, a withdrawal that
leaves debt or a rate change that costs a fee, a liquidation of the same position that comes next
at the same time is refused.  Outside the two pauses of liquidations the reason is that the
position is healthy. -/
theorem fusion_checked_then_liquidate {w : SystemWorld} (h : fusion.Reach w) :
    (w.system.protocol.markets.All fun s ↦ s.market.spot ≤ s.market.debtSpot) ∧
    ∀ clk mint j hplain w' state state' owner,
      fusion.step ⟨clk, .core (.market mint j) hplain⟩ w w' →
      w.system.protocol.markets.lookup mint = some state →
      w'.system.protocol.markets.lookup mint = some state' →
      RiskChecked clk (w.system.accounts state) (w'.system.accounts state') owner j →
      ∀ liquidator withBackstop,
        (SystemInstr.core (.market mint (.liquidate liquidator owner withBackstop)) rfl).run clk
            w'.system
          = .error (liquidationRefusal (w'.system.accounts state') clk.slot withBackstop) := by
  refine ⟨(fusion_sound h).mono fun _ hs ↦ hs.ordered, ?_⟩
  intro clk mint j hplain w' state state' owner hstep hl hl' hchecked liquidator withBackstop
  have hreach' : fusion.Reach w' := h.step _ trivial hstep
  obtain ⟨hclk, hrun, hclock⟩ := hstep
  have hi := fusion_market_inv h hclk hl
  have hi' : Inv clk.unixTimestamp (w'.system.accounts state') := by
    refine fusion_market_inv hreach' ?_ hl'
    rw [hclock]
    exact ⟨le_rfl, le_rfl, le_rfl⟩
  have hs' := fusion_sound hreach' mint state' hl'
  obtain ⟨state₀, a', hl₀, ha', hw'⟩ := core_market_cases hrun
  obtain rfl : state₀ = state := Option.some.inj (hl₀.symm.trans hl)
  obtain rfl : a' = w'.system.accounts state' := by
    rw [hw', AList.lookup_insert] at hl'
    rw [System.accounts, hw', ← Option.some.inj hl']
  obtain ⟨p, htested⟩ := hchecked.justTested hi ha'
  obtain ⟨hreactor, hbuffer⟩ := hs'.infrastructure hi' htested
  exact core_market_error hl'
    (liquidate_refused htested hi' hreactor hbuffer hs'.ordered hs'.debtSpot_lt)

/-- Ten tokens at 150 dollars carry the debt that is drawn last. -/
theorem fusion_checked_then_liquidate_sample : ∃ w w' state',
    fusion.Reach w ∧
      fusion.step ⟨Sample.clock, .core (.market 7 (.borrow 100 1000000000)) rfl⟩ w w' ∧
      w'.system.protocol.markets.lookup 7 = some state' ∧
      state'.market.spot ≤ state'.market.debtSpot ∧
      (SystemInstr.core (.market 7 (.liquidate 5 100 false)) rfl).run Sample.clock w'.system
        = .error .positionHealthy := by
  obtain ⟨w, w', hreach, hstep, htest⟩ := @Sample.of_testLast
    (Sample.at_ Sample.clock (Sample.launch ++ Sample.drawn Sample.clock 15000 1000000))
    ⟨Sample.clock, .core (.market 7 (.borrow 100 1000000000)) rfl⟩
    (fun w w' ↦ (w.system.protocol.markets.lookup 7).isSome &&
      (w'.system.protocol.markets.lookup 7).any fun s ↦ decide
        (liquidationRefusal (w'.system.accounts s) Sample.clock.slot false = .positionHealthy))
    (by decide +kernel)
  rw [Bool.and_eq_true, Option.isSome_iff_exists, Option.any_eq_true] at htest
  obtain ⟨⟨state, hl⟩, state', hl', hrefusal⟩ := htest
  have hordered := (fusion_checked_then_liquidate (hreach.step _ trivial hstep)).1 7 state' hl'
  have hrun := (fusion_checked_then_liquidate hreach).2 _ 7 _ rfl w' state state' 100 hstep hl hl'
    (.borrow _) 5 false
  rw [of_decide_eq_true hrefusal] at hrun
  exact ⟨w, w', state', hreach, hstep, hl', hordered, hrun⟩

/-- A raised minimum ratio pauses liquidations, and the pause is what a liquidation after the next
borrow meets first. -/
theorem checked_then_liquidate_paused : ∃ w w',
    fusion.Reach w ∧
      fusion.step ⟨Sample.clock, .core (.market 7 (.borrow 100 1000000000)) rfl⟩ w w' ∧
      (SystemInstr.core (.market 7 (.liquidate 5 100 false)) rfl).run Sample.clock w'.system
        = .error .liquidationGracePeriod := by
  obtain ⟨w, w', hreach, hstep, htest⟩ := @Sample.of_testLast
    (Sample.at_ Sample.clock (Sample.launch ++
      [.queueParamChange 3 7 false (.market .mcr) 12000, .executeParamChange 0 7 false] ++
      Sample.drawn Sample.clock 15000 1000000))
    ⟨Sample.clock, .core (.market 7 (.borrow 100 1000000000)) rfl⟩
    (fun _ w' ↦
      match (SystemInstr.core (.market 7 (.liquidate 5 100 false)) rfl).run Sample.clock
        w'.system with
      | .error e => decide (e = .liquidationGracePeriod)
      | .ok _ => false)
    (by decide +kernel)
  refine ⟨w, w', hreach, hstep, ?_⟩
  cases hrun : (SystemInstr.core (.market 7 (.liquidate 5 100 false)) rfl).run Sample.clock
      w'.system with
  | ok s => simp [hrun] at htest
  | error e =>
    simp only [hrun, decide_eq_true_eq] at htest
    rw [htest]

/-! ## Shutdown below the system ratio -/

/-- The position, with interest and redistribution folded in, can be liquidated: it owes something
and is below the minimum ratio at the high price. -/
def Liquidatable (m : Market) (p : Position) : Prop :=
  0 < owedDebt m p ∧ isHealthy (ownedColl m p) (owedDebt m p) m.debtSpot m.mcrBps = false

instance (m : Market) (p : Position) : Decidable (Liquidatable m p) :=
  inferInstanceAs (Decidable (_ ∧ _))

/-- What a liquidation tests is what folding gives. -/
theorem liquidatable_iff {m : Market} {p p₁ : Position} {now : ℕ}
    (hcur : m.shutdown = true ∨ m.lastUpdateTs = now) (h : realize m p now = .ok p₁) :
    Liquidatable m p ↔
      0 < p₁.recordedDebt ∧ isHealthy p₁.ink p₁.recordedDebt m.debtSpot m.mcrBps = false := by
  have hreal := realize_spec hcur h
  rw [hreal.recordedDebt, hreal.ink]
  rfl

/-- What the collateral of the positions carries one by one at the high price and the minimum
ratio, with the excess of the aggregate debt over the positions, is carried by the total collateral
at the low price and the shutdown ratio. -/
def ShutdownMargin (m : Market) (ps : Table Pubkey Position) : Prop :=
  ps.total (fun p ↦ debtLimit (ownedColl m p) m.debtSpot m.mcrBps)
      + (m.aggRecordedDebt - ps.total (owedDebt m))
    ≤ debtLimit m.totalCollateral m.spot m.scrBps

instance (m : Market) (ps : Table Pubkey Position) : Decidable (ShutdownMargin m ps) :=
  inferInstanceAs (Decidable (_ ≤ _))

section Shutdown

variable {clk : Clock} {a a' : Accounts} {m : Market}

theorem shutdown_scr_breach (h : shutdown clk a = .ok a')
    (hm : accrue a.state.market clk.unixTimestamp = .ok m)
    (hreason : a'.state.market.shutdownReason = .scr) :
    tcrBelow m.totalCollateral m.aggRecordedDebt m.spot m.scrBps = true := by
  simp only [shutdown, bind_eq_ok_iff, require_eq_ok, pure_eq_ok, exists_const] at h
  obtain ⟨-, m₁, hm₁, hwhy, rfl⟩ := h
  obtain rfl : m = m₁ := Except.ok.inj (hm.symm.trans hm₁)
  rcases hwhy with hfailed | ⟨-, -, hbreach⟩
  · simp [hfailed] at hreason
  · exact hbreach

theorem ShutdownMargin.exists_liquidatable {ps : Table Pubkey Position} {bm : RedemptionBitmap}
    {t : Tally} {now : ℕ} (hmargin : ShutdownMargin m ps) (hb : Book now m bm ps t)
    (htotal : m.totalCollateral < 2 ^ 64) (hordered : m.spot ≤ m.debtSpot)
    (hwidth : m.debtSpot < 2 ^ 128) (hmcr : 0 < m.mcrBps)
    (hbreach : tcrBelow m.totalCollateral m.aggRecordedDebt m.spot m.scrBps = true) :
    ∃ owner p, ps.lookup owner = some p ∧ Liquidatable m p := by
  by_contra hnone
  push Not at hnone
  have hlimit : ps.All fun p ↦ owedDebt m p ≤ debtLimit (ownedColl m p) m.debtSpot m.mcrBps := by
    intro owner p hp
    have hcoll : ownedColl m p ≤ ps.total (ownedColl m) :=
      Table.le_total (fun _ ↦ Nat.zero_le _) hp
    have hink : ownedColl m p < 2 ^ 64 :=
      (hcoll.trans hb.total_ownedColl_le).trans_lt htotal
    rcases Nat.eq_zero_or_pos (owedDebt m p) with hzero | hpos
    · rw [hzero]
      exact Nat.zero_le _
    · have hhealthy := hnone owner p hp
      simp only [Liquidatable, hpos, true_and, Bool.not_eq_false] at hhealthy
      exact (isHealthy_iff hink hwidth hmcr).mp hhealthy
  have howed := Table.total_le_total hlimit
  have hcovered := hb.total_owedDebt_le
  have hlow := (tcrBelow_iff htotal (hordered.trans_lt hwidth)
    (ratio_pos_of_tcrBelow hbreach)).mp hbreach
  unfold ShutdownMargin at hmargin
  omega

end Shutdown

/-- Along every run: where the margin holds, a market that is shut down for its ratio has a
position that can be liquidated; once realised, it fails the test that a liquidation makes. -/
theorem fusion_shutdown_scr {w w' : SystemWorld} {clk : Clock} {mint : Pubkey}
    {state state' : MarketState} {m : Market} (h : fusion.Reach w)
    (hstep : fusion.step ⟨clk, .core (.market mint .shutdown) rfl⟩ w w')
    (hl : w.system.protocol.markets.lookup mint = some state)
    (hl' : w'.system.protocol.markets.lookup mint = some state')
    (hreason : state'.market.shutdownReason = .scr)
    (hm : accrue state.market clk.unixTimestamp = .ok m)
    (hmargin : ShutdownMargin m state.positions) :
    ∃ owner p, state.positions.lookup owner = some p ∧ Liquidatable m p ∧
      ∀ p₁, realize m p clk.unixTimestamp = .ok p₁ →
        0 < p₁.recordedDebt ∧ isHealthy p₁.ink p₁.recordedDebt m.debtSpot m.mcrBps = false := by
  obtain ⟨hclk, hrun, -⟩ := hstep
  have hi := fusion_market_inv h hclk hl
  have hs := fusion_sound h mint state hl
  obtain ⟨state₀, a', hl₀, ha', hw'⟩ := core_market_cases hrun
  obtain rfl : state₀ = state := Option.some.inj (hl₀.symm.trans hl)
  obtain rfl : a'.state = state' := by
    rw [hw', AList.lookup_insert] at hl'
    exact Option.some.inj hl'
  have hbreach := shutdown_scr_breach ha' hm hreason
  obtain ⟨x, ts, hacc⟩ := accrue_spec hi.book.clock hm
  have htotal : m.totalCollateral < 2 ^ 64 := by
    have hvault := hi.vault
    have hlt := state₀.coll.balance_lt .vault
    have htracked := hacc.tracked
    simp only [tracked, System.accounts] at hvault htracked
    omega
  have hmcr : 0 < m.mcrBps := by
    rw [hacc.eq]
    exact lt_of_lt_of_le (by decide) hi.valid.mcr_ge
  have hordered : m.spot ≤ m.debtSpot := by
    rw [hacc.eq]
    exact hs.ordered
  have hwidth : m.debtSpot < 2 ^ 128 := by
    rw [hacc.eq]
    exact hs.debtSpot_lt
  obtain ⟨owner, p, hp, hliquidatable⟩ := hmargin.exists_liquidatable (hi.book.accrue hacc) htotal
    hordered hwidth hmcr hbreach
  exact ⟨owner, p, hp, hliquidatable, fun p₁ hp₁ ↦
    (liquidatable_iff hacc.realizable hp₁).mp hliquidatable⟩

/-- The price of the collateral moves after the owner has drawn `amount`. -/
def Sample.repriced (change : List SystemInstr) (amount : UInt64) (cents : ℕ) :
    List SystemEvent :=
  Sample.at_ Sample.clock (Sample.launch ++ change ++ Sample.drawn Sample.clock 15000 amount ++
    [.updatePrice 7 (Sample.feeds Sample.clock cents)])

/-- With a minimum ratio of 120 % over a shutdown ratio of 110 % the margin holds, and after a fall
from 150 to 130 dollars the market is shut down with its position liquidatable. -/
theorem fusion_shutdown_scr_sample : ∃ w w' state state' m,
    fusion.Reach w ∧
      fusion.step ⟨Sample.clock, .core (.market 7 .shutdown) rfl⟩ w w' ∧
      w.system.protocol.markets.lookup 7 = some state ∧
      w'.system.protocol.markets.lookup 7 = some state' ∧
      state'.market.shutdownReason = .scr ∧ ShutdownMargin m state.positions ∧
      ∃ owner p, state.positions.lookup owner = some p ∧ Liquidatable m p ∧
        ∀ p₁, realize m p Sample.clock.unixTimestamp = .ok p₁ →
          0 < p₁.recordedDebt ∧
            isHealthy p₁.ink p₁.recordedDebt m.debtSpot m.mcrBps = false := by
  obtain ⟨w, w', hreach, hstep, htest⟩ := @Sample.of_testLast
    (Sample.repriced [.queueParamChange 3 7 false (.market .mcr) 12000,
      .executeParamChange 0 7 false] 1200000000 13000)
    ⟨Sample.clock, .core (.market 7 .shutdown) rfl⟩
    (fun w w' ↦ ((w.system.protocol.markets.lookup 7).any fun s : MarketState ↦
        (accrue s.market Sample.clock.unixTimestamp).toOption.any fun m : Market ↦
          decide (ShutdownMargin m s.positions)) &&
      (w'.system.protocol.markets.lookup 7).any fun s : MarketState ↦
        decide (s.market.shutdownReason = .scr))
    (by decide +kernel)
  simp only [Bool.and_eq_true, Option.any_eq_true, decide_eq_true_eq, toOption_eq_some] at htest
  obtain ⟨⟨state, hl, m, hm, hmargin⟩, state', hl', hreason⟩ := htest
  exact ⟨w, w', state, state', m, hreach, hstep, hl, hl', hreason, hmargin,
    fusion_shutdown_scr hreach hstep hl hl' hreason hm hmargin⟩

/-- With both ratios at 110 % a fall from 150 to 148 dollars opens the shutdown, because the low
price is cut by two percent, while no position can be liquidated at the high one. -/
theorem shutdown_scr_without_liquidatable : ∃ w w' state state' m,
    fusion.Reach w ∧
      fusion.step ⟨Sample.clock, .core (.market 7 .shutdown) rfl⟩ w w' ∧
      w.system.protocol.markets.lookup 7 = some state ∧
      w'.system.protocol.markets.lookup 7 = some state' ∧
      state'.market.shutdownReason = .scr ∧
      accrue state.market Sample.clock.unixTimestamp = .ok m ∧
      state.positions.All fun p ↦ ¬ Liquidatable m p := by
  obtain ⟨w, w', hreach, hstep, htest⟩ := @Sample.of_testLast
    (Sample.repriced [] 1330000000 14800)
    ⟨Sample.clock, .core (.market 7 .shutdown) rfl⟩
    (fun w w' ↦ ((w.system.protocol.markets.lookup 7).any fun s : MarketState ↦
        (accrue s.market Sample.clock.unixTimestamp).toOption.any fun m : Market ↦
          decide (∀ e ∈ s.positions.entries, ¬ Liquidatable m e.2)) &&
      (w'.system.protocol.markets.lookup 7).any fun s : MarketState ↦
        decide (s.market.shutdownReason = .scr))
    (by decide +kernel)
  simp only [Bool.and_eq_true, Option.any_eq_true, decide_eq_true_eq, toOption_eq_some] at htest
  obtain ⟨⟨state, hl, m, hm, hnone⟩, state', hl', hreason⟩ := htest
  refine ⟨w, w', state, state', m, hreach, hstep, hl, hl', hreason, hm, ?_⟩
  intro owner p hp
  exact hnone ⟨owner, p⟩ (Table.lookup_eq_some_iff.mp hp)

end FusionCore
