import FusionCore.Core.Bookings

/-!
# What is burned against a market

Five instructions burn fUSD against the debt of a market; all others leave the supply alone or mint.
The supply identity turns this into a statement about the market's own share of the supply: only a
burn can bring it down.
-/

namespace FusionCore

open Checked

/-- The debt of a position with its interest and its redistributed share up to `now`. -/
def Accounts.debtAt (a : Accounts) (owner : Pubkey) (now : ℕ) : ℕ :=
  (((a.state.positions.lookup owner).bind fun p ↦
    (realize a.state.market p now).toOption).map Position.recordedDebt).getD 0

/-- The fUSD that an instruction burns against a market at most: what it asks for, or the debt that
it closes out.  The other instructions burn nothing. -/
def MarketInstr.burnLimit (now : ℕ) (a : Accounts) : MarketInstr → Option ℕ
  | .repay _ amount => some amount.toNat
  | .redeem _ amount _ => some amount.toNat
  | .urgentRedeem _ amount _ => some amount.toNat
  | .settleBadDebt _ amount => some amount.toNat
  | .liquidate _ owner _ => some (a.debtAt owner now)
  | _ => none

section Burns

variable {now x ts : ℕ} {clk : Clock} {owner : Pubkey} {amount : ℕ} {candidates : List Candidate}
  {m m₁ : Market} {a a' : Accounts}

theorem Accrued.eq_of_current (hacc : Accrued m m₁ now x ts) (hts : m.lastUpdateTs = now) :
    m₁ = m := by
  have hsame : ts = m.lastUpdateTs := by
    have := hacc.mono
    have := hacc.ts_le
    omega
  have hnone : x = 0 := by
    have h := hacc.tight
    rw [hsame, Nat.sub_self, Nat.mul_zero, Nat.zero_add] at h
    exact Nat.lt_one_iff.mp (Nat.lt_of_mul_lt_mul_right (h.trans_eq (Nat.one_mul _).symm))
  rw [hacc.eq, hsame, hnone]
  rfl

/-- An instruction that burns at most `limit` and books no interest but what accrues. -/
structure Burns (now limit : ℕ) (a a' : Accounts) : Prop where
  supply : a.fusd.supply ≤ a'.fusd.supply + limit
  unminted : a.state.market.lastUpdateTs = now →
    a'.state.market.unmintedInterest = a.state.market.unmintedInterest

theorem Burns.of_accrued {limit : ℕ} (hacc : Accrued a.state.market m₁ now x ts)
    (hsupply : a.fusd.supply ≤ a'.fusd.supply + limit)
    (hunminted : a'.state.market.unmintedInterest = m₁.unmintedInterest) :
    Burns now limit a a' where
  supply := hsupply
  unminted := by
    intro hts
    rw [hunminted, hacc.eq_of_current hts]

theorem repay_burns (hi : Inv clk.unixTimestamp a) (h : repay clk owner amount a = .ok a') :
    Burns clk.unixTimestamp amount a a' := by
  rcases repay_run h with ⟨run, rfl⟩ | ⟨run, rfl⟩
  · obtain ⟨x, ts, hacc⟩ := accrue_spec hi.book.clock run.accrue_eq
    exact .of_accrued hacc (Nat.le_add_right _ _) rfl
  · obtain ⟨x, ts, hacc⟩ := accrue_spec hi.book.clock run.visit.accrue_eq
    obtain ⟨rlAccrued, rlLastUpdate, hrestored⟩ := run.visit.market.restoreOutflow_eq
      clk.unixTimestamp (truncate 64 (min amount run.visit.p₁.recordedDebt))
    rw [RepayRun.result, hrestored]
    refine .of_accrued hacc ?_ rfl
    have hsum := TokenLedger.burn_supply run.burn_eq
    have hle : truncate 64 (min amount run.visit.p₁.recordedDebt) ≤ amount :=
      (Nat.mod_le _ _).trans (min_le_left _ _)
    dsimp only
    omega

theorem Burns.of_loop {paid drawn : ℕ} {s : MarketState} {redeemer : Pubkey}
    {fusd : TokenLedger FusdHolder} (hacc : Accrued a.state.market m₁ now x ts)
    (hl : LoopInv now (a.state.accrued m₁) s paid drawn) (hpaid : paid ≤ amount)
    (hburn : a.fusd.burn (.wallet redeemer) (truncate 64 paid) = .ok fusd)
    (hfusd : a'.fusd = fusd)
    (hunminted : a'.state.market.unmintedInterest = s.market.unmintedInterest) :
    Burns now amount a a' := by
  refine .of_accrued hacc ?_ ?_
  · have hsum := TokenLedger.burn_supply hburn
    have hle : truncate 64 paid ≤ paid := Nat.mod_le _ _
    rw [hfusd]
    omega
  · exact hunminted.trans (congrArg (fun s ↦ s.market.unmintedInterest) hl.rest)

theorem redeem_burns {redeemer : Pubkey} (hi : Inv clk.unixTimestamp a)
    (h : redeem clk redeemer amount candidates a = .ok a') :
    Burns clk.unixTimestamp amount a a' := by
  obtain ⟨run, rfl⟩ := redeem_run h
  obtain ⟨x, ts, hacc⟩ := accrue_spec hi.book.clock run.accrue_eq
  obtain ⟨baseRate, baseRateTs, hresult⟩ := run.result_eq
  rw [hresult]
  exact .of_loop hacc (run.redemptionInv hi).loop (Nat.sub_le _ _) run.burn_eq rfl rfl

theorem urgentRedeem_burns {redeemer : Pubkey} (hi : Inv clk.unixTimestamp a)
    (h : urgentRedeem clk redeemer amount candidates a = .ok a') :
    Burns clk.unixTimestamp amount a a' := by
  obtain ⟨run, rfl⟩ := urgentRedeem_run h
  obtain ⟨x, ts, hacc⟩ := accrue_spec hi.book.clock run.accrue_eq
  exact .of_loop hacc (run.redemptionInv hi).loop (Nat.sub_le _ _) run.burn_eq rfl rfl

theorem settleBadDebt_burns {cfg : Config} {authority : Pubkey}
    (h : settleBadDebt cfg authority amount a = .ok a') : Burns now amount a a' := by
  simp only [settleBadDebt, bind_eq_ok_iff, require_eq_ok, tokenCall_eq_ok, pure_eq_ok,
    exists_const] at h
  obtain ⟨-, -, -, fusd, hburn, _, -, rfl⟩ := h
  have hsum := TokenLedger.burn_supply hburn
  exact ⟨by dsimp only; omega, fun _ ↦ rfl⟩

theorem liquidate_burns {liquidator : Pubkey} {withBackstop : Bool} (hi : Inv clk.unixTimestamp a)
    (h : liquidate clk liquidator owner withBackstop a = .ok a') :
    Burns clk.unixTimestamp (a.debtAt owner clk.unixTimestamp) a a' := by
  have hsupply := (liquidate_effect hi h).supply
  obtain ⟨run, rfl⟩ := liquidate_run h
  obtain ⟨x, ts, hacc⟩ := accrue_spec hi.book.clock run.accrue_eq
  obtain ⟨surplus, -, -, hzm, -⟩ := run.seize_spec hi
  obtain ⟨hparts, -⟩ := run.split_spec
  have hagg := run.closed_le
  obtain ⟨hplaced, -, -⟩ := run.remainderTiers_spec
  rw [hzm] at hagg hplaced
  have hkept : run.r.market.unmintedInterest = run.m₁.unmintedInterest ∧
      run.r.market.badDebt = run.m₁.badDebt + run.split.unhomed ∧
      run.r.market.aggRecordedDebt = run.m₁.aggRecordedDebt -
        (run.split.reactor + run.split.buffer + run.split.global + run.split.unhomed) := by
    cases hplaced with
    | redistributed st _ _ heq =>
      rw [heq]
      exact ⟨rfl, rfl, rfl⟩
    | kept _ _ _ _ heq =>
      rw [heq]
      exact ⟨rfl, rfl, rfl⟩
  obtain ⟨hunminted, hbad, hagg'⟩ := hkept
  have hdebt : a.debtAt owner clk.unixTimestamp = run.p₁.recordedDebt := by
    have hp₁ := run.realize_eq
    rw [realize_accrued hacc] at hp₁
    simp [Accounts.debtAt, run.position_eq, hp₁, Except.toOption]
  have hnet := hacc.net
  refine .of_accrued hacc ?_ hunminted
  -- the burn is what the share of the market goes down by, and bad debt only grows
  simp only [net, LiquidationRun.result] at hsupply hnet
  dsimp only [LiquidationRun.result] at hagg hagg' hbad hunminted hsupply ⊢
  omega

end Burns

/-! ## The other instructions -/

section Share

variable {now : ℕ} {clk : Clock} {cfg : Config} {i : MarketInstr} {a a' : Accounts}

theorem refreshMarket_supply_le {cranker : Option FusdHolder} {withBackstop : Bool}
    (h : refreshMarket clk cranker withBackstop a = .ok a') : a.fusd.supply ≤ a'.fusd.supply := by
  simp only [refreshMarket, bind_eq_ok_iff, okOr_eq_ok, ite_eq_ok] at h
  obtain ⟨buf, -, bs, -, m₁, -, ⟨-, h⟩ | ⟨-, h⟩⟩ := h
  · cases h
    exact le_rfl
  · simp only [pure_eq_ok, Prod.exists] at h
    obtain ⟨d, hd, fusd₁, hbuf, fusd₂, hkeep, m₂, bs₁, fusd₃, hcon, _, -, rfl⟩ := h
    obtain ⟨hamt, hsplit, -⟩ := SupplyTransition.refresh_spec hd
    obtain ⟨hs₁, -⟩ := mintShare_spec (by omega) hbuf
    obtain ⟨hs₂, -⟩ := mintShare_spec (by omega) hkeep
    obtain ⟨-, hs₃, -⟩ := contribute_spec (by omega) hcon
    dsimp only
    omega

theorem transfer_supply_le {fusd : TokenLedger FusdHolder} {src dst : FusdHolder} {amount : ℕ} :
    Ensures (tokenCall (fusd.transfer src dst amount)) fun l ↦ fusd.supply ≤ l.supply :=
  fun _ h ↦ (TokenLedger.transfer_supply (tokenCall_eq_ok.mp h)).ge

theorem MarketInstr.run_supply_le (hnone : i.burnLimit now a = none) :
    Ensures (i.run cfg clk a) fun a' ↦ a.fusd.supply ≤ a'.fusd.supply := by
  cases i with
  | deposit =>
    intro a' h
    obtain ⟨run, rfl⟩ := exists_depositRun (of_vaultChecked h)
    exact le_rfl
  | withdraw =>
    intro a' h
    obtain ⟨run, rfl⟩ := exists_withdrawRun (of_vaultChecked h)
    exact le_rfl
  | borrow =>
    intro a' h
    obtain ⟨run, rfl⟩ := borrow_run h
    exact (TokenLedger.mintTo_supply run.mintTo_eq).symm ▸ Nat.le_add_right _ _
  | adjustRate =>
    intro a' h
    obtain ⟨run, rfl⟩ := adjustRate_run h
    exact le_rfl
  | closePosition =>
    exact .after fun _ ↦ .after fun _ ↦ .after fun _ ↦ .after fun _ ↦ .ok le_rfl
  | claimCollSurplus =>
    exact vaultChecked_ensures
      (.after fun _ ↦ .after fun _ ↦ .after fun _ ↦ .after fun _ ↦ .ok le_rfl)
  | sweepProtocolCollateral | withdrawSurplus =>
    exact vaultChecked_ensures
      (.after fun _ ↦ .after fun _ ↦ .after fun _ ↦ .after fun _ ↦ .after fun _ ↦ .ok le_rfl)
  | refreshMarket => exact fun _ ↦ refreshMarket_supply_le
  | provideToReactor =>
    exact .after fun _ ↦ .after fun _ ↦ .bind transfer_supply_le fun _ hle ↦ .ok hle
  | withdrawFromReactor =>
    refine .after fun _ ↦ .after fun _ ↦ .bind (.ite ?_ ?_) fun _ hle ↦ .ok hle
    · exact fun _ ↦ transfer_supply_le
    · exact fun _ ↦ .ok le_rfl
  | fundBuffer =>
    exact .after fun _ ↦ .after fun _ ↦ .bind transfer_supply_le fun _ hle ↦ .after fun _ ↦ .ok hle
  | repay | redeem | urgentRedeem | settleBadDebt | liquidate => cases hnone
  | updatePrice => exact .ok le_rfl
  | rebindFeeds | executeParamChange | mintCollateral | burnCollateral | transferCollateral =>
    exact .after fun _ ↦ .ok le_rfl
  | openPosition | openReactorDeposit | initReactorPool | initInsuranceBuffer | guardianDerisk =>
    exact .after fun _ ↦ .after fun _ ↦ .ok le_rfl
  | claimReactorGains | shutdown | initDebtCeilingLine | setDebtCeilingLine | bumpDebtCeiling =>
    exact .after fun _ ↦ .after fun _ ↦ .after fun _ ↦ .ok le_rfl

theorem MarketInstr.run_burns {limit : ℕ} (hi : Inv clk.unixTimestamp a)
    (hlimit : i.burnLimit clk.unixTimestamp a = some limit) (h : i.run cfg clk a = .ok a') :
    Burns clk.unixTimestamp limit a a' := by
  cases i with
  | repay =>
    cases hlimit
    exact repay_burns hi h
  | redeem =>
    cases hlimit
    exact redeem_burns hi h
  | urgentRedeem =>
    cases hlimit
    exact urgentRedeem_burns hi h
  | settleBadDebt =>
    cases hlimit
    exact settleBadDebt_burns h
  | liquidate =>
    cases hlimit
    exact liquidate_burns hi h
  | _ => cases hlimit

/-- A market carries no more unminted interest than debt and bad debt. -/
def Market.ShareNonneg (m : Market) : Prop :=
  m.unmintedInterest ≤ m.aggRecordedDebt + m.badDebt

/-- All interest up to `now` has been minted. -/
def Market.Refreshed (m : Market) (now : ℕ) : Prop :=
  m.unmintedInterest = 0 ∧ (m.shutdown = true ∨ m.lastUpdateTs = now)

/-- An instruction that may burn comes right after a refresh, or what it may burn is within the
share of the market in the supply. -/
def MarketInstr.Affordable (now : ℕ) (a : Accounts) (i : MarketInstr) : Prop :=
  ∀ limit ∈ i.burnLimit now a, a.state.market.Refreshed now ∨
    a.state.market.unmintedInterest + limit ≤
      a.state.market.aggRecordedDebt + a.state.market.badDebt

theorem MarketInstr.run_share (hi : Inv clk.unixTimestamp a)
    (hafford : i.Affordable clk.unixTimestamp a) (hshare : a.state.market.ShareNonneg)
    (h : i.run cfg clk a = .ok a') : a'.state.market.ShareNonneg := by
  have hsupply := (MarketInstr.run_effect hi h).supply
  simp only [net] at hsupply
  unfold Market.ShareNonneg at hshare ⊢
  cases hlimit : i.burnLimit clk.unixTimestamp a with
  | none =>
    have hle := MarketInstr.run_supply_le hlimit a' h
    omega
  | some limit =>
    have hburns := MarketInstr.run_burns hi hlimit h
    rcases hafford limit hlimit with ⟨hzero, hshut | hts⟩ | hle
    · have hfrozen := ((MarketInstr.run_booked hi h).frozen hshut).unminted_le
      omega
    · have hsame := hburns.unminted hts
      omega
    · have hburn := hburns.supply
      omega

end Share

end FusionCore
