import FusionCore.Core.Protocol

/-!
# Solvency of the two ledgers of a market

In every reached state the aggregate debt covers what the positions owe, and the collateral
vault holds what the positions and the protocol own.  The checked subtractions of the handlers
are stated at the point where the handler makes them: everything before it has succeeded.
-/

namespace FusionCore

open Checked

/-! ## Points inside the redemption loops -/

/-- The redemption pass of `redeem`, at any time `clk`, has come to a position `p` with the loop
state `r`, and `amt` is what it is about to take. -/
def RedeemPass (clk : Clock) (s : MarketState) (r : Redemption) (p : Position) (amt : ℕ) :
    Prop :=
  ∃ m₁ lowest candidates v order mid amount e rest,
    accrue s.market clk.unixTimestamp = .ok m₁ ∧
    List.foldlM (validateCandidate clk.unixTimestamp lowest) ⟨s.accrued m₁, [], []⟩ candidates
      = .ok v ∧
    v.order.insertionSort OrderEntry.before = order ++ e :: rest ∧
    order.foldlM (redeemOne mid) ⟨v.state, amount, 0⟩ = .ok r ∧
    r.state.positions.lookup e.owner = some p ∧ redeemable p mid r.remaining = .ok amt

/-- The loop of `urgentRedeem` has come to a position that realises to `p`. -/
def UrgentPass (clk : Clock) (s : MarketState) (r : UrgentRedemption) (p : Position) (amt : ℕ) :
    Prop :=
  ∃ m₁ candidates mid amount owner q,
    accrue s.market clk.unixTimestamp = .ok m₁ ∧
    List.foldlM (urgentOne clk.unixTimestamp mid) ⟨⟨s.accrued m₁, amount, 0⟩, []⟩ candidates
      = .ok r ∧
    r.state.positions.lookup owner = some q ∧
    realize r.state.market q clk.unixTimestamp = .ok p ∧
    redeemable p mid r.remaining = .ok amt

section Passes

variable {clk : Clock} {s : MarketState} {p : Position} {amt : ℕ}

theorem RedeemPass.covered {r : Redemption} (h : RedeemPass clk s r p amt)
    (hb : Book clk.unixTimestamp s.market s.bitmap s.positions s.tally) :
    amt ≤ r.state.market.aggRecordedDebt ∧ p.ink ≤ r.state.market.totalCollateral := by
  obtain ⟨m₁, lowest, candidates, v, order, mid, amount, e, rest, hm₁, hv, hsort, hr, hp,
    hamt⟩ := h
  obtain ⟨x, ts, hacc⟩ := accrue_spec hb.clock hm₁
  have hmem : ∀ f ∈ order ++ e :: rest, f ∈ v.order := fun f hf ↦
    (List.perm_insertionSort _ _).mem_iff.mp (hsort ▸ hf)
  have hred := RedemptionInv.of_pass (ValidationInv.of_pass hb hacc hv)
    (fun f hf ↦ hmem f (List.mem_append_left _ hf)) hr
  -- the position was brought current when it was validated, and stays so
  have hcur : p.Current r.state.market := by
    obtain ⟨q, hq, hcur⟩ := hred.current e.owner (List.mem_map_of_mem (hmem e (by simp)))
    exact hred.loop.current_iff.mpr (Option.some.inj (hp.symm.trans hq) ▸ hcur)
  exact ⟨(redeemable_le hamt).2.trans (hred.loop.book.debt_le hp hcur.folded),
    hred.loop.book.coll_le hp hcur.folded⟩

theorem UrgentPass.covered {r : UrgentRedemption} (h : UrgentPass clk s r p amt)
    (hb : Book clk.unixTimestamp s.market s.bitmap s.positions s.tally) :
    amt ≤ r.state.market.aggRecordedDebt ∧ p.ink ≤ r.state.market.totalCollateral := by
  obtain ⟨m₁, candidates, mid, amount, owner, q, hm₁, hr, hq, hp, hamt⟩ := h
  obtain ⟨x, ts, hacc⟩ := accrue_spec hb.clock hm₁
  have hred := RedemptionInv.of_urgentPass hb hacc hr
  have hfold := (realize_spec (hred.loop.realizable hacc.realizable) hp).folded
  exact ⟨(redeemable_le hamt).2.trans (hred.loop.book.debt_le hq hfold),
    hred.loop.book.coll_le hq hfold⟩

end Passes

/-! ## Debt -/

/-- The subtractions of `agg_recorded_debt` succeed in every handler that makes one. -/
structure AggSubtractions (clk : Clock) (s : MarketState) : Prop where
  repay : ∀ owner p m₁ p₁ amount, s.positions.lookup owner = some p →
    accrue s.market clk.unixTimestamp = .ok m₁ → realize m₁ p clk.unixTimestamp = .ok p₁ →
    ∃ d, SupplyTransition.repay m₁.aggRecordedDebt p₁.recordedDebt amount = some d
  redeem : ∀ r p amt, RedeemPass clk s r p amt →
    ∃ d, SupplyTransition.redeemStep r.state.market.aggRecordedDebt amt = some d
  urgentRedeem : ∀ r p amt, UrgentPass clk s r p amt →
    ∃ d, SupplyTransition.redeemStep r.state.market.aggRecordedDebt amt = some d
  liquidate : ∀ owner p m₁ p₁ z deposits recipients buffer global,
    s.positions.lookup owner = some p → accrue s.market clk.unixTimestamp = .ok m₁ →
    realize m₁ p clk.unixTimestamp = .ok p₁ → seize m₁ p₁ = .ok z →
    let split := absorb p₁.recordedDebt deposits recipients buffer global
    ∃ a₁ a₂ a₃ a₄, checkedSub z.market.aggRecordedDebt split.reactor = some a₁ ∧
      checkedSub a₁ split.buffer = some a₂ ∧ checkedSub a₂ split.global = some a₃ ∧
      checkedSub a₃ split.unhomed = some a₄

theorem seize_aggRecordedDebt {m : Market} {p : Position} {z : Seizure}
    (h : seize m p = .ok z) : z.market.aggRecordedDebt = m.aggRecordedDebt := by
  simp only [seize, bind_eq_ok_iff, okOr_eq_ok, checkedSub_eq_some, checkedMul_eq_some,
    pure_eq_ok, Prod.exists] at h
  obtain ⟨_, ⟨-, rfl⟩, _, ⟨-, rfl⟩, seized, surplus, -, m₁, p₁, hsurplus, _, ⟨-, rfl⟩, rfl⟩ := h
  obtain ⟨rfl, rfl⟩ := bookSurplus_spec hsurplus
  rfl

theorem Book.aggSubtractions {clk : Clock} {s : MarketState}
    (hb : Book clk.unixTimestamp s.market s.bitmap s.positions s.tally) :
    AggSubtractions clk s where
  repay := by
    intro owner p m₁ p₁ amount hp hm₁ hp₁
    obtain ⟨x, ts, hacc⟩ := accrue_spec hb.clock hm₁
    have hle := (hb.accrue hacc).debt_le hp (realize_spec hacc.realizable hp₁).folded
    exact ⟨_, SupplyTransition.repay_eq_some.mpr ⟨(min_le_right _ _).trans hle, rfl⟩⟩
  redeem := fun _ _ _ hpass ↦
    ⟨_, SupplyTransition.redeemStep_eq_some.mpr ⟨(hpass.covered hb).1, rfl⟩⟩
  urgentRedeem := fun _ _ _ hpass ↦
    ⟨_, SupplyTransition.redeemStep_eq_some.mpr ⟨(hpass.covered hb).1, rfl⟩⟩
  liquidate := by
    intro owner p m₁ p₁ z deposits recipients buffer global hp hm₁ hp₁ hz
    obtain ⟨x, ts, hacc⟩ := accrue_spec hb.clock hm₁
    have hle := (hb.accrue hacc).debt_le hp (realize_spec hacc.realizable hp₁).folded
    obtain ⟨hparts, -⟩ := absorb_spec p₁.recordedDebt deposits recipients buffer global
    rw [seize_aggRecordedDebt hz]
    dsimp only
    set split := absorb p₁.recordedDebt deposits recipients buffer global
    simp only [checkedSub_eq_some]
    exact ⟨_, _, _, _, ⟨by omega, rfl⟩, ⟨by omega, rfl⟩, ⟨by omega, rfl⟩, by omega, rfl⟩

/-- In every reached state of a market the aggregate debt covers the recorded debt, the interest
up to the market's clock and the pending redistributed debt of all positions, and exceeds it by
rounding only; no handler fails to subtract from it. -/
theorem aggRecordedDebt_covers_positions {w : World} (h : fusdCore.Reach w) {mint : Pubkey}
    {state : MarketState} (hl : w.protocol.markets.lookup mint = some state) :
    state.positions.total (fun p ↦ p.recordedDebt
        + interestUntil p state.market.lastUpdateTs + pendingDebt state.market p)
      ≤ state.market.aggRecordedDebt ∧
    state.market.aggRecordedDebt ≤
      state.positions.total (fun p ↦ p.recordedDebt
        + interestUntil p state.market.lastUpdateTs + pendingDebt state.market p)
      + (state.tally.bookings + 2 * state.tally.realizes + 2 * state.positions.entries.length)
      + state.market.lastArtRedistError / 10 ^ 18 ∧
    ∀ clk, w.clock.Le clk → AggSubtractions clk state := by
  have hi := ((fusdCore_inv h).markets mint state hl).2
  exact ⟨hi.book.total_owedDebt_le, hi.book.aggRecordedDebt_le,
    fun clk hclk ↦ (fusdCore_market_inv h hclk hl).book.aggSubtractions⟩

/-- With interest and a redistribution still to be folded in. -/
theorem aggRecordedDebt_covers_positions_sample : ∃ w state,
    Sample.redistributed = some w ∧ w.protocol.markets.lookup 7 = some state ∧
    0 < state.positions.total (interestUntil · state.market.lastUpdateTs) ∧
    0 < state.positions.total (pendingDebt state.market) ∧
    state.positions.total (fun p ↦ p.recordedDebt
        + interestUntil p state.market.lastUpdateTs + pendingDebt state.market p)
      ≤ state.market.aggRecordedDebt ∧ AggSubtractions Sample.later state := by
  obtain ⟨w, state, hw, hreach, hl, hclk, hinterest, hdebt, -⟩ := Sample.redistributed_spec
  obtain ⟨hcov, -, hsub⟩ := aggRecordedDebt_covers_positions hreach hl
  exact ⟨w, state, hw, hl, hinterest, hdebt, hcov, hsub _ hclk⟩

/-! ## Collateral -/

/-- The subtractions of `total_collateral` succeed in every handler that makes one. -/
structure CollSubtractions (clk : Clock) (s : MarketState) : Prop where
  withdraw : ∀ owner p m₁ p₁ amount, s.positions.lookup owner = some p →
    accrue s.market clk.unixTimestamp = .ok m₁ → realize m₁ p clk.unixTimestamp = .ok p₁ →
    amount ≤ p₁.ink → ∃ d, checkedSub m₁.totalCollateral amount = some d
  redeem : ∀ r p amt units, RedeemPass clk s r p amt →
    ∃ d, checkedSub r.state.market.totalCollateral (min units p.ink) = some d
  urgentRedeem : ∀ r p amt units, UrgentPass clk s r p amt →
    ∃ d, checkedSub r.state.market.totalCollateral (min units p.ink) = some d
  liquidate : ∀ owner p m₁ p₁, s.positions.lookup owner = some p →
    accrue s.market clk.unixTimestamp = .ok m₁ → realize m₁ p clk.unixTimestamp = .ok p₁ →
    ∃ d, checkedSub m₁.totalCollateral p₁.ink = some d

theorem Book.collSubtractions {clk : Clock} {s : MarketState}
    (hb : Book clk.unixTimestamp s.market s.bitmap s.positions s.tally) :
    CollSubtractions clk s where
  withdraw := by
    intro owner p m₁ p₁ amount hp hm₁ hp₁ hamount
    obtain ⟨x, ts, hacc⟩ := accrue_spec hb.clock hm₁
    have hle := (hb.accrue hacc).coll_le hp (realize_spec hacc.realizable hp₁).folded
    exact ⟨_, checkedSub_eq_some.mpr ⟨hamount.trans hle, rfl⟩⟩
  redeem := fun _ _ _ _ hpass ↦
    ⟨_, checkedSub_eq_some.mpr ⟨(min_le_right _ _).trans (hpass.covered hb).2, rfl⟩⟩
  urgentRedeem := fun _ _ _ _ hpass ↦
    ⟨_, checkedSub_eq_some.mpr ⟨(min_le_right _ _).trans (hpass.covered hb).2, rfl⟩⟩
  liquidate := by
    intro owner p m₁ p₁ hp hm₁ hp₁
    obtain ⟨x, ts, hacc⟩ := accrue_spec hb.clock hm₁
    have hle := (hb.accrue hacc).coll_le hp (realize_spec hacc.realizable hp₁).folded
    exact ⟨_, checkedSub_eq_some.mpr ⟨hle, rfl⟩⟩

/-- The vault check at the end of a handler never reverts: with and without it every handler
does the same. -/
structure VaultChecks (cfg : Config) (clk : Clock) (a : Accounts) : Prop where
  deposit : ∀ owner amount, deposit clk owner amount a = depositUnchecked clk owner amount a
  withdraw : ∀ owner amount, withdraw clk owner amount a = withdrawUnchecked clk owner amount a
  claimCollSurplus : ∀ owner, claimCollSurplus owner a = claimCollSurplusUnchecked owner a
  redeem : ∀ redeemer (amount : UInt64) candidates,
    redeem clk redeemer amount.toNat candidates a =
      redeemUnchecked clk redeemer amount.toNat candidates a
  urgentRedeem : ∀ redeemer (amount : UInt64) candidates,
    urgentRedeem clk redeemer amount.toNat candidates a =
      urgentRedeemUnchecked clk redeemer amount.toNat candidates a
  liquidate : ∀ liquidator owner withBackstop,
    liquidate clk liquidator owner withBackstop a =
      liquidateUnchecked clk liquidator owner withBackstop a
  sweepProtocolCollateral : ∀ authority recipient amount,
    sweepProtocolCollateral cfg authority recipient amount a =
      sweepProtocolCollateralUnchecked cfg authority recipient amount a
  withdrawSurplus : ∀ authority recipient amount,
    withdrawSurplus cfg authority recipient amount a =
      withdrawSurplusUnchecked cfg authority recipient amount a

theorem Inv.tracked_le {now : ℕ} {a : Accounts} (hi : Inv now a) :
    tracked a.state.market ≤ a.state.coll.balance .vault := by
  rw [hi.vault]
  exact Nat.le_add_right _ _

theorem Inv.vaultChecks {cfg : Config} {clk : Clock} {a : Accounts}
    (hi : Inv clk.unixTimestamp a) : VaultChecks cfg clk a where
  deposit _ _ :=
    vaultChecked_eq fun _ h ↦ (depositUnchecked_effect hi h).inv.tracked_le
  withdraw _ _ :=
    vaultChecked_eq fun _ h ↦ (withdrawUnchecked_effect hi h).inv.tracked_le
  claimCollSurplus _ :=
    vaultChecked_eq fun _ h ↦ (claimCollSurplusUnchecked_effect hi h).inv.tracked_le
  redeem _ amount _ :=
    vaultChecked_eq fun _ h ↦ (redeemUnchecked_effect amount.toNat_lt hi h).inv.tracked_le
  urgentRedeem _ amount _ :=
    vaultChecked_eq fun _ h ↦ (urgentRedeemUnchecked_effect amount.toNat_lt hi h).inv.tracked_le
  liquidate _ _ _ :=
    vaultChecked_eq fun _ h ↦ (liquidateUnchecked_effect hi h).inv.tracked_le
  sweepProtocolCollateral _ _ _ :=
    vaultChecked_eq fun _ h ↦ (sweepProtocolCollateralUnchecked_effect hi h).inv.tracked_le
  withdrawSurplus _ _ _ :=
    vaultChecked_eq fun _ h ↦ (withdrawSurplusUnchecked_effect hi h).inv.tracked_le

theorem Inv.total_claims_le {now : ℕ} {a : Accounts} (hi : Inv now a) :
    a.state.positions.total (fun p ↦ ownedColl a.state.market p + p.collSurplus) ≤
      a.state.coll.balance .vault := by
  rw [Table.total_add, ← hi.book.surplus]
  have h1 := hi.book.total_ownedColl_le
  have h2 := hi.tracked_le
  simp only [tracked] at h2
  omega

/-- In every reached state of a market the vault holds exactly what the four counters track and
what was donated, the total collateral covers the collateral and the pending collateral of all
positions, no handler fails to subtract from it, no vault check reverts, and every owner can be
paid. -/
theorem vault_covers_positions {w : World} (h : fusdCore.Reach w) {mint : Pubkey}
    {state : MarketState} (hl : w.protocol.markets.lookup mint = some state) :
    state.coll.balance .vault = state.market.totalCollateral + state.market.surplusCollateral
      + state.market.totalCollSurplus + state.market.protocolCollateral + state.donated ∧
    state.positions.total (fun p ↦ p.ink + pendingColl state.market p)
      ≤ state.market.totalCollateral ∧
    (∀ clk, w.clock.Le clk → CollSubtractions clk state ∧
      VaultChecks w.protocol.config clk ⟨state, w.protocol.fusd, w.protocol.backstop⟩) ∧
    state.positions.total (fun p ↦ p.ink + pendingColl state.market p + p.collSurplus)
      ≤ state.coll.balance .vault ∧
    ∀ owner p, state.positions.lookup owner = some p →
      ∃ coll', state.coll.transfer .vault (.wallet owner) (p.ink + p.collSurplus)
        = .ok coll' := by
  have hi := ((fusdCore_inv h).markets mint state hl).2
  refine ⟨hi.vault, hi.book.total_ownedColl_le, fun clk hclk ↦ ?_, hi.total_claims_le, ?_⟩
  · have hlater := fusdCore_market_inv h hclk hl
    exact ⟨hlater.book.collSubtractions, hlater.vaultChecks⟩
  · intro owner p hp
    have hone : p.ink + pendingColl state.market p + p.collSurplus ≤
        state.positions.total (fun p ↦ ownedColl state.market p + p.collSurplus) :=
      Table.le_total (f := fun p ↦ ownedColl state.market p + p.collSurplus)
        (fun _ ↦ Nat.zero_le _) hp
    have hall := hi.total_claims_le
    exact TokenLedger.exists_transfer _ (by dsimp only at hall; omega)

theorem vault_covers_positions_sample : ∃ w state,
    Sample.redistributed = some w ∧ w.protocol.markets.lookup 7 = some state ∧
    0 < state.positions.total (pendingColl state.market) ∧
    state.coll.balance .vault = state.market.totalCollateral + state.market.surplusCollateral
      + state.market.totalCollSurplus + state.market.protocolCollateral + state.donated ∧
    state.positions.total (fun p ↦ p.ink + pendingColl state.market p)
      ≤ state.market.totalCollateral ∧
    CollSubtractions Sample.later state ∧
    ∀ owner p, state.positions.lookup owner = some p →
      ∃ coll', state.coll.transfer .vault (.wallet owner) (p.ink + p.collSurplus)
        = .ok coll' := by
  obtain ⟨w, state, hw, hreach, hl, hclk, -, -, hcoll⟩ := Sample.redistributed_spec
  obtain ⟨hvault, hcov, hsub, -, hpay⟩ := vault_covers_positions hreach hl
  exact ⟨w, state, hw, hl, hcoll, hvault, hcov, (hsub _ hclk).1, hpay⟩

end FusionCore
