import FusionCore.System.MarketRuns
import Mathlib.Order.Bounds.Basic

/-!
# A liquidation covers the debt it removes

Governance accepts a configuration only if the collateral seizable at the threshold, less the gas
compensation, is worth the debt.  The roundings of a liquidation all leave that product intact:
the collar rounds the seized units up, the gas compensation rounds down, and the share of the
Reactor Pool falls short by less than one unit.
-/

namespace FusionCore

open Checked

/-- The value, in basis points of the debt, that a liquidation at the threshold can seize. -/
def Market.seizableBps (m : Market) : ℕ :=
  if m.liqBonusBps = 0 then m.mcrBps else min (BPS_DENOMINATOR + m.liqBonusBps) m.mcrBps

/-! ## The roundings -/

section Rounding

variable {seizable gasBps seized debt spot ink bonus : ℕ}

theorem MarketParams.Consistent.gas_le {p : MarketParams} (h : p.Consistent) :
    p.liqGasCompBps ≤ BPS_DENOMINATOR := by
  have hproduct := h.product
  by_contra hlt
  rw [Nat.sub_eq_zero_of_le (not_le.mp hlt).le, Nat.mul_zero] at hproduct
  exact absurd hproduct (by decide)

/-- The gas compensation rounds down, so the rest keeps its whole part of the seized value. -/
theorem mul_sub_le_distributable (seized gasBps : ℕ) :
    seized * (BPS_DENOMINATOR - gasBps) ≤
      (seized - seized * gasBps / BPS_DENOMINATOR) * BPS_DENOMINATOR := by
  have hfloor : seized * gasBps / BPS_DENOMINATOR * BPS_DENOMINATOR ≤ seized * gasBps :=
    Nat.div_mul_le_self _ _
  rw [Nat.mul_sub, Nat.sub_mul]
  exact Nat.sub_le_sub_left hfloor _

theorem debt_le_distributable (hconfig : 100000000 ≤ seizable * (BPS_DENOMINATOR - gasBps))
    (hseized : seizable * debt * RAY ≤ seized * spot * BPS_DENOMINATOR) :
    debt * RAY ≤ (seized - seized * gasBps / BPS_DENOMINATOR) * spot := by
  have hkept := mul_sub_le_distributable seized gasBps
  set rest := seized - seized * gasBps / BPS_DENOMINATOR
  refine Nat.le_of_mul_le_mul_right ?_ (by decide : 0 < BPS_DENOMINATOR * BPS_DENOMINATOR)
  calc
    debt * RAY * (BPS_DENOMINATOR * BPS_DENOMINATOR) = 100000000 * (debt * RAY) := by
      rw [Nat.mul_comm]
      rfl
    _ ≤ seizable * (BPS_DENOMINATOR - gasBps) * (debt * RAY) := Nat.mul_le_mul_right _ hconfig
    _ = seizable * debt * RAY * (BPS_DENOMINATOR - gasBps) := by ring
    _ ≤ seized * spot * BPS_DENOMINATOR * (BPS_DENOMINATOR - gasBps) :=
      Nat.mul_le_mul_right _ hseized
    _ = seized * (BPS_DENOMINATOR - gasBps) * (spot * BPS_DENOMINATOR) := by ring
    _ ≤ rest * BPS_DENOMINATOR * (spot * BPS_DENOMINATOR) := Nat.mul_le_mul_right _ hkept
    _ = rest * spot * (BPS_DENOMINATOR * BPS_DENOMINATOR) := by ring

/-- The share of the pool falls short of the debt it burns by less than one unit. -/
theorem offset_lt_share {rest : ℕ} (hdebt : 0 < debt) (hspot : 0 < spot)
    (hcover : debt * RAY ≤ rest * spot) (offset : ℕ) :
    offset * RAY < (rest * offset / debt + 1) * spot := by
  refine Nat.lt_of_mul_lt_mul_right (a := debt) ?_
  calc
    offset * RAY * debt = offset * (debt * RAY) := by ring
    _ ≤ offset * (rest * spot) := Nat.mul_le_mul_left _ hcover
    _ = rest * offset * spot := by ring
    _ < (rest * offset / debt + 1) * debt * spot :=
      Nat.mul_lt_mul_of_pos_right (Nat.lt_mul_of_div_lt (Nat.lt_succ_self _) hdebt) hspot
    _ = (rest * offset / debt + 1) * spot * debt := by ring

/-- A rounded-up quotient is the least number that covers the product. -/
theorem mulDivCeil_isLeast {a b d q : ℕ} (h : mulDivCeil a b d = some q) :
    IsLeast {n | a * b ≤ n * d} q := by
  obtain ⟨hd, -, hle, hlt⟩ := mulDivCeil_spec h
  refine ⟨hle, fun n hn ↦ ?_⟩
  have hnext : q * d < (n + 1) * d := by
    rw [Nat.add_mul, Nat.one_mul]
    exact hlt.trans_le (Nat.add_le_add_right hn d)
  exact Nat.lt_succ_iff.mp (Nat.lt_of_mul_lt_mul_right hnext)

/-- What the collar lets a liquidation seize: everything when it is off, and otherwise the least
number of units that covers the debt and the bonus, as far as there are that many. -/
theorem seizeCollateral_units {r : ℕ × ℕ} (h : seizeCollateral ink debt spot bonus = some r) :
    (bonus = 0 ∧ r.1 = ink) ∨ 0 < bonus ∧ ∃ value units,
      IsLeast {v | debt * (BPS_DENOMINATOR + bonus) ≤ v * BPS_DENOMINATOR} value ∧
      IsLeast {n | value * RAY ≤ n * spot} units ∧ r.1 = min units ink := by
  unfold seizeCollateral at h
  split at h
  next hoff =>
    cases h
    exact .inl ⟨hoff, rfl⟩
  next hon =>
    simp only [Option.bind_eq_bind, Option.bind_eq_some_iff, Option.pure_def,
      Option.some.injEq] at h
    obtain ⟨value, hvalue, units, hunits, rfl⟩ := h
    exact .inr ⟨Nat.pos_of_ne_zero hon, value, units, mulDivCeil_isLeast hvalue,
      mulDivCeil_isLeast hunits, rfl⟩

/-- Whatever limits the seizure, the seized value is at least the seizable part of the debt. -/
theorem seizable_le_seized {r : ℕ × ℕ}
    (hink : seizable * debt * RAY ≤ ink * spot * BPS_DENOMINATOR)
    (hon : 0 < bonus → seizable ≤ BPS_DENOMINATOR + bonus)
    (h : seizeCollateral ink debt spot bonus = some r) :
    seizable * debt * RAY ≤ r.1 * spot * BPS_DENOMINATOR := by
  obtain ⟨-, hr⟩ | ⟨hpos, value, units, hvalue, hunits, hr⟩ := seizeCollateral_units h
  · rw [hr]
    exact hink
  rw [hr]
  rcases Nat.le_total units ink with hle | hle
  · -- the collar binds: both its conversions round up
    rw [Nat.min_eq_left hle]
    have hv : debt * (BPS_DENOMINATOR + bonus) ≤ value * BPS_DENOMINATOR := hvalue.1
    have hu : value * RAY ≤ units * spot := hunits.1
    calc
      seizable * debt * RAY ≤ (BPS_DENOMINATOR + bonus) * debt * RAY :=
        Nat.mul_le_mul_right _ (Nat.mul_le_mul_right _ (hon hpos))
      _ = debt * (BPS_DENOMINATOR + bonus) * RAY := by rw [Nat.mul_comm debt]
      _ ≤ value * BPS_DENOMINATOR * RAY := Nat.mul_le_mul_right _ hv
      _ = value * RAY * BPS_DENOMINATOR := Nat.mul_right_comm _ _ _
      _ ≤ units * spot * BPS_DENOMINATOR := Nat.mul_le_mul_right _ hu
  · rw [Nat.min_eq_right hle]
    exact hink

end Rounding

theorem Market.seizableBps_le {m : Market} (h : 0 < m.liqBonusBps) :
    m.seizableBps ≤ BPS_DENOMINATOR + m.liqBonusBps := by
  rw [seizableBps, if_neg h.ne']
  exact Nat.min_le_left _ _

/-! ## The parts of a liquidation -/

/-- Where the collateral of a liquidated position goes, and the debt that the pool burns for its
part. -/
structure Spoils where
  gasComp : ℕ
  collSp : ℕ
  collR : ℕ
  surplus : ℕ
  offset : ℕ

/-- A liquidation in the market `m` of the position `p`, both brought current: the liquidator, the
Reactor Pool and the owner receive their parts of the collateral, and the remainder goes to the
other positions or to the protocol. -/
structure Liquidates (liquidator owner : Pubkey) (a a' : Accounts) (m : Market) (p : Position)
    (s : Spoils) : Prop where
  compensated : a'.state.coll.balance (.wallet liquidator) =
    a.state.coll.balance (.wallet liquidator) + s.gasComp
  pool : a'.state.coll.balance .reactorVault = a.state.coll.balance .reactorVault + s.collSp
  burned : a'.fusd.balance (.reactorVault a.state.mint) + s.offset =
    a.fusd.balance (.reactorVault a.state.mint)
  remainder : a'.state.market.totalCollateral + a'.state.market.protocolCollateral =
    m.totalCollateral - p.ink + m.protocolCollateral + s.collR
  closed : ∃ q, a'.state.positions.lookup owner = some q ∧ q.ink = 0 ∧ q.recordedDebt = 0 ∧
    q.collSurplus = p.collSurplus + s.surplus

/-- The parts of a liquidation lose nobody anything: after the gas compensation the collateral is
worth the debt, the pool's share is worth what it burns up to one unit, and all collateral is
accounted for.  With the collar on, what is seized is the least number of units that covers the
debt with the bonus, or all there is. -/
structure Spoils.Covers (m : Market) (p : Position) (s : Spoils) : Prop where
  debt : p.recordedDebt * RAY ≤ (s.collSp + s.collR) * m.debtSpot
  pool : s.offset * RAY < s.collSp * m.debtSpot + m.debtSpot
  ink : s.gasComp + s.collSp + s.collR + s.surplus = p.ink
  collar : 0 < m.liqBonusBps → ∃ value units,
    IsLeast {v | p.recordedDebt * (10 ^ 4 + m.liqBonusBps) ≤ v * 10 ^ 4} value ∧
    IsLeast {n | value * RAY ≤ n * m.debtSpot} units ∧
    s.gasComp + s.collSp + s.collR = min units p.ink

section Tiers

variable {mint : Pubkey} {coll coll' : TokenLedger CollHolder} {fusd fusd' : TokenLedger FusdHolder}

theorem payGasComp_received {liquidator : Pubkey} {gas : ℕ}
    (h : payGasComp coll liquidator gas = .ok coll') :
    coll'.balance (.wallet liquidator) = coll.balance (.wallet liquidator) + gas ∧
      coll'.balance .reactorVault = coll.balance .reactorVault := by
  rcases ite_eq_ok.mp h with ⟨-, h⟩ | ⟨hzero, h⟩
  · simp only [bind_eq_ok_iff, okOr_eq_ok, tryFit_eq_some, tokenCall_eq_ok] at h
    obtain ⟨_, ⟨-, rfl⟩, h⟩ := h
    constructor
    · simpa using TokenLedger.transfer_balance h (.wallet liquidator)
    · simpa using TokenLedger.transfer_balance h .reactorVault
  · cases h
    rw [Nat.eq_zero_of_not_pos hzero]
    exact ⟨rfl, rfl⟩

theorem reactorTier_received {rp rp' : ReactorPool} {off collSp : ℕ}
    (h : reactorTier mint rp coll fusd off collSp = .ok (rp', coll', fusd'))
    (hzero : off = 0 → collSp = 0) :
    coll'.balance .reactorVault = coll.balance .reactorVault + collSp ∧
      ∀ wallet, coll'.balance (.wallet wallet) = coll.balance (.wallet wallet) := by
  rcases ite_eq_ok.mp h with ⟨-, h⟩ | ⟨hoff, h⟩
  · simp only [bind_eq_ok_iff, okOr_eq_ok, pure_eq_ok, Prod.mk.injEq] at h
    obtain ⟨rp₁, -, _, -, fusd₁, -, coll₁, hcoll, -, rfl, -⟩ := h
    rcases ite_eq_ok.mp hcoll with ⟨-, hcoll⟩ | ⟨hsp, hcoll⟩
    · simp only [bind_eq_ok_iff, okOr_eq_ok, tryFit_eq_some, tokenCall_eq_ok] at hcoll
      obtain ⟨_, ⟨-, rfl⟩, hcoll⟩ := hcoll
      refine ⟨?_, fun wallet ↦ ?_⟩
      · simpa using TokenLedger.transfer_balance hcoll .reactorVault
      · simpa using TokenLedger.transfer_balance hcoll (.wallet wallet)
    · cases hcoll
      rw [Nat.eq_zero_of_not_pos hsp]
      exact ⟨rfl, fun _ ↦ rfl⟩
  · cases h
    rw [hzero (Nat.eq_zero_of_not_pos hoff)]
    exact ⟨rfl, fun _ ↦ rfl⟩

theorem Placed.remainder {m m' : Market} {redist collR : ℕ} (h : Placed m m' redist collR) :
    m'.totalCollateral + m'.protocolCollateral =
      m.totalCollateral + m.protocolCollateral + collR := by
  cases h with
  | redistributed st _ _ heq =>
    rw [heq]
    simp only [writeState]
    omega
  | kept _ _ _ _ heq =>
    rw [heq]
    dsimp only
    omega

end Tiers

section Handler

variable {clk : Clock} {liquidator owner : Pubkey} {withBackstop : Bool} {a a' : Accounts}
  {m : Market} {p₀ p : Position}

theorem seize_units {z : Seizure} (h : seize m p = .ok z) : ∃ surplus,
    seizeCollateral p.ink p.recordedDebt m.debtSpot m.liqBonusBps = some (z.seizeColl, surplus) ∧
      z.gasComp = z.seizeColl * m.liqGasCompBps / BPS_DENOMINATOR ∧
      z.position.collSurplus = p.collSurplus + surplus ∧
      z.market.totalCollateral = m.totalCollateral - p.ink ∧
      z.market.protocolCollateral = m.protocolCollateral := by
  simp only [seize, bind_eq_ok_iff, okOr_eq_ok, checkedSub_eq_some, checkedMul_eq_some,
    pure_eq_ok, Prod.exists] at h
  obtain ⟨_, ⟨-, rfl⟩, _, ⟨-, rfl⟩, seized, surplus, hseize, m₁, p₁, hsurplus, _, ⟨-, rfl⟩,
    rfl⟩ := h
  obtain ⟨rfl, rfl⟩ := bookSurplus_spec hsurplus
  exact ⟨surplus, hseize, rfl, rfl, rfl, rfl⟩

theorem liquidate_spoils (hm : accrue a.state.market clk.unixTimestamp = .ok m)
    (hp₀ : a.state.positions.lookup owner = some p₀)
    (hp : realize m p₀ clk.unixTimestamp = .ok p)
    (h : liquidate clk liquidator owner withBackstop a = .ok a') :
    0 < p.recordedDebt ∧ 0 < m.debtSpot ∧ ∃ seized s,
      Liquidates liquidator owner a a' m p s ∧
      seizeCollateral p.ink p.recordedDebt m.debtSpot m.liqBonusBps = some (seized, s.surplus) ∧
      s.gasComp = seized * m.liqGasCompBps / BPS_DENOMINATOR ∧
      s.collSp = (seized - s.gasComp) * s.offset / p.recordedDebt ∧
      s.collSp + s.collR = seized - s.gasComp := by
  obtain ⟨run, rfl⟩ := liquidate_run h
  obtain rfl := Option.some.inj (run.position_eq.symm.trans hp₀)
  obtain rfl := Except.ok.inj (run.accrue_eq.symm.trans hm)
  obtain rfl := Except.ok.inj (run.realize_eq.symm.trans hp)
  obtain ⟨⟨-, hspot⟩, -⟩ := liquidationGates_eq_ok.mp run.gates
  obtain ⟨surplus, hseize, hgasComp, hsurplus, htotal, hprotocol⟩ := seize_units run.seize_eq
  obtain ⟨hpaid, hcoll₁⟩ := payGasComp_received run.gasComp_eq
  obtain ⟨hpool, hwallets⟩ := reactorTier_received run.reactorTier_eq run.collSp_eq_zero
  obtain ⟨-, hburned, -⟩ := run.reactorTier_spec
  obtain ⟨hplaced, -, -⟩ := run.remainderTiers_spec
  have hvault := remainderTiers_balance run.remainderTiers_eq run.split_spec.2.2
    (.reactorVault a.state.mint)
  refine ⟨run.owes, hspot, run.z.seizeColl,
    ⟨run.z.gasComp, run.collSp, run.z.seizeColl - run.z.gasComp - run.collSp, surplus,
      run.split.reactor⟩,
    ⟨?_, ?_, ?_, ?_, ?_⟩, hseize, hgasComp, run.collSp_floor.symm, ?_⟩
  · exact (hwallets liquidator).trans hpaid
  · dsimp only [LiquidationRun.result]
    rw [hpool, hcoll₁]
  · simp only [reduceCtorEq, if_false, Nat.add_zero] at hvault
    dsimp only [LiquidationRun.result]
    rw [hvault]
    exact hburned
  · have hrest := hplaced.remainder
    dsimp only [LiquidationRun.result] at hrest ⊢
    rw [hrest, htotal, hprotocol]
  · refine ⟨_, AList.lookup_insert _, ?_, ?_, ?_⟩
    · simp [closedOut]
    · simp [closedOut]
    · simpa using hsurplus
  · exact Nat.add_sub_cancel' run.collSp_le

theorem liquidate_covered (hm : accrue a.state.market clk.unixTimestamp = .ok m)
    (hp₀ : a.state.positions.lookup owner = some p₀)
    (hp : realize m p₀ clk.unixTimestamp = .ok p) (hconsistent : m.toMarketParams.Consistent)
    (hratio : m.seizableBps * p.recordedDebt * RAY ≤ p.ink * m.debtSpot * 10 ^ 4)
    (h : liquidate clk liquidator owner withBackstop a = .ok a') :
    ∃ s, Liquidates liquidator owner a a' m p s ∧ s.Covers m p := by
  obtain ⟨hdebt, hspot, seized, s, hs, hseize, hgas, hsp, hrest⟩ := liquidate_spoils hm hp₀ hp h
  have hseized := seizable_le_seized hratio Market.seizableBps_le hseize
  have hcover : p.recordedDebt * RAY ≤ (seized - s.gasComp) * m.debtSpot := by
    rw [hgas]
    exact debt_le_distributable hconsistent.product hseized
  have hgasle : s.gasComp ≤ seized := by
    rw [hgas]
    refine Nat.div_le_of_le_mul ?_
    rw [Nat.mul_comm BPS_DENOMINATOR]
    exact Nat.mul_le_mul_left _ hconsistent.gas_le
  have hsum := seizeCollateral_spec hseize
  refine ⟨s, hs, ?_, ?_, ?_, ?_⟩
  · rw [hrest]
    exact hcover
  · have hshare := offset_lt_share hdebt hspot hcover s.offset
    rwa [← hsp, Nat.add_mul, Nat.one_mul] at hshare
  · dsimp only at hsum
    omega
  · intro hon
    obtain ⟨hoff, -⟩ | ⟨-, value, units, hvalue, hunits, htaken⟩ := seizeCollateral_units hseize
    · exact absurd hoff hon.ne'
    · refine ⟨value, units, hvalue, hunits, ?_⟩
      rw [← htaken]
      dsimp only
      omega

/-- A liquidation under an accepted configuration, of a position whose collateral is worth the
seizable part of its debt, covers the debt. -/
theorem liquidate_covers_debt (hm : accrue a.state.market clk.unixTimestamp = .ok m)
    (hp₀ : a.state.positions.lookup owner = some p₀)
    (hp : realize m p₀ clk.unixTimestamp = .ok p)
    (hconfig : validateMarketConfig m.mcrBps m.scrBps m.liqBonusBps m.liqGasCompBps = .ok ())
    (hratio : m.seizableBps * p.recordedDebt * RAY ≤ p.ink * m.debtSpot * 10 ^ 4)
    (h : liquidate clk liquidator owner withBackstop a = .ok a') :
    ∃ s, Liquidates liquidator owner a a' m p s ∧ s.Covers m p :=
  liquidate_covered hm hp₀ hp (validateMarketConfig_eq_ok.mp hconfig) hratio h

end Handler

/-- Governance keeps every market of a reached state configured, so there a liquidation covers the
debt of every position whose collateral is worth the seizable part of it. -/
theorem fusion_liquidation_covered {G : SystemEvent → SystemWorld → Prop} {w : SystemWorld}
    (h : fusion.Reachable G w) {clk : Clock} (hclk : w.clock.Le clk) {mint : Pubkey}
    {state : MarketState} (hl : w.system.protocol.markets.lookup mint = some state)
    {liquidator owner : Pubkey} {withBackstop : Bool} {a' : Accounts} {m : Market}
    {p₀ p : Position} (hm : accrue state.market clk.unixTimestamp = .ok m)
    (hp₀ : state.positions.lookup owner = some p₀) (hp : realize m p₀ clk.unixTimestamp = .ok p)
    (hratio : m.seizableBps * p.recordedDebt * RAY ≤ p.ink * m.debtSpot * 10 ^ 4)
    (hliq : liquidate clk liquidator owner withBackstop (w.system.accounts state) = .ok a') :
    ∃ s, Liquidates liquidator owner (w.system.accounts state) a' m p s ∧ s.Covers m p := by
  have hinv := fusion_market_inv h hclk hl
  obtain ⟨x, ts, hacc⟩ := accrue_spec hinv.book.clock hm
  have hconsistent : m.toMarketParams.Consistent := by
    rw [hacc.params]
    exact (fusion_sound h mint state hl).governed.consistent
  exact liquidate_covered (a := w.system.accounts state) hm hp₀ hp hconsistent hratio hliq

namespace Sample

/-- The sample market with a collar of five percent and a Reactor Pool deposit, after a fall of
the price from 150 to 110 dollars. -/
def collared : List Instr :=
  onboard 500 ++ [.market 7 (.mintCollateral 100 1000000000000), quote (15 * 10 ^ 25)] ++
    borrows 100 500 10000000000 ++ [.market 7 (.openReactorDeposit 100),
      .market 7 (.provideToReactor 100 100000000), quote (11 * 10 ^ 25)]

end Sample

/-- The liquidation of a position at 110 %, with the collar at 105 %. -/
theorem liquidate_covers_debt_sample : ∃ a a' m p s, 0 < m.liqBonusBps ∧
    m.seizableBps * p.recordedDebt * RAY ≤ p.ink * m.debtSpot * 10 ^ 4 ∧
    liquidate Sample.clock 5 100 false a = .ok a' ∧
    Liquidates 5 100 a a' m p s ∧ s.Covers m p := by
  have hrun : ((Sample.world Sample.collared).bind fun w ↦
      (w.protocol.markets.lookup 7).bind fun state ↦
      (state.positions.lookup 100).bind fun p₀ ↦
      (accrue state.market Sample.clock.unixTimestamp).toOption.bind fun m ↦
      (realize m p₀ Sample.clock.unixTimestamp).toOption.bind fun p ↦
      (liquidate Sample.clock 5 100 false
        ⟨state, w.protocol.fusd, w.protocol.backstop⟩).toOption.map fun _ ↦
        decide (0 < m.liqBonusBps ∧
          validateMarketConfig m.mcrBps m.scrBps m.liqBonusBps m.liqGasCompBps = .ok () ∧
          m.seizableBps * p.recordedDebt * RAY ≤ p.ink * m.debtSpot * 10 ^ 4)) = some true := by
    decide +kernel
  simp only [Option.bind_eq_some_iff, Option.map_eq_some_iff, decide_eq_true_eq,
    toOption_eq_some] at hrun
  obtain ⟨w, -, state, -, p₀, hp₀, m, hm, p, hp, a', hliq, hon, hconfig, hratio⟩ := hrun
  obtain ⟨s, hs, hcovers⟩ := liquidate_covers_debt
    (a := ⟨state, w.protocol.fusd, w.protocol.backstop⟩) hm hp₀ hp hconfig hratio hliq
  exact ⟨_, a', m, p, s, hon, hratio, hliq, hs, hcovers⟩

end FusionCore
