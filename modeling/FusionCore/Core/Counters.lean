import FusionCore.Core.Moves

/-!
# The counters of redemptions and of the global backstop

A market keeps the base rate of its redemption fee with the clock it decays on, and what it has
given to the global backstop and drawn from it.  Three instructions move these counters, the
accounts of the backstop or its vault: a redemption, a liquidation and a refresh.  All others leave
them alone.
-/

namespace FusionCore

open Checked

/-- The counters of a market that redemptions and the global backstop write. -/
structure Counters where
  redemptionBaseRate : ℕ
  redemptionBaseRateTs : ℕ
  globalContributed : ℕ
  globalDrawn : ℕ

def Market.counters (m : Market) : Counters where
  redemptionBaseRate := m.redemptionBaseRate
  redemptionBaseRateTs := m.redemptionBaseRateTs
  globalContributed := m.globalContributed
  globalDrawn := m.globalDrawn

/-- The counters, the backstop's account and its vault are as they were. -/
structure Quiet (a a' : Accounts) : Prop where
  counters : a'.state.market.counters = a.state.market.counters
  backstop : a'.backstop = a.backstop
  vault : a'.fusd.balance .backstopVault = a.fusd.balance .backstopVault

/-! ## Parts of the handlers -/

section Parts

variable {m : Market} {p : Position} {now old amount : ℕ} {fusd : TokenLedger FusdHolder}

theorem accrue_counters : Ensures (accrue m now) fun m' ↦ m'.counters = m.counters := by
  unfold accrue
  refine .ite (fun _ ↦ .ok rfl) fun _ ↦ ?_
  refine .after fun _ ↦ .after fun _ ↦ ?_
  exact .ok rfl

theorem accrue_params : Ensures (accrue m now) fun m' ↦ m'.toMarketParams = m.toMarketParams := by
  unfold accrue
  refine .ite (fun _ ↦ .ok rfl) fun _ ↦ ?_
  refine .after fun _ ↦ .after fun _ ↦ ?_
  exact .ok rfl

theorem Market.restoreOutflow_counters : (m.restoreOutflow now amount).counters = m.counters := by
  unfold Market.restoreOutflow
  split <;> rfl

variable {src dst : FusdHolder}

theorem mintTo_vault (h : dst ≠ .backstopVault) : Ensures (tokenCall (fusd.mintTo dst amount))
    fun fusd' ↦ fusd'.balance .backstopVault = fusd.balance .backstopVault := by
  intro fusd' hmint
  rw [TokenLedger.mintTo_balance (tokenCall_eq_ok.mp hmint), if_neg h.symm, Nat.add_zero]

theorem burn_vault (h : src ≠ .backstopVault) : Ensures (tokenCall (fusd.burn src amount))
    fun fusd' ↦ fusd'.balance .backstopVault = fusd.balance .backstopVault := by
  intro fusd' hburn
  have hsum := TokenLedger.burn_balance (tokenCall_eq_ok.mp hburn) .backstopVault
  rwa [if_neg h.symm, Nat.add_zero] at hsum

theorem transfer_vault (hsrc : src ≠ .backstopVault) (hdst : dst ≠ .backstopVault) :
    Ensures (tokenCall (fusd.transfer src dst amount))
      fun fusd' ↦ fusd'.balance .backstopVault = fusd.balance .backstopVault := by
  intro fusd' htransfer
  have hsum := TokenLedger.transfer_balance (tokenCall_eq_ok.mp htransfer) .backstopVault
  rwa [if_neg hsrc.symm, if_neg hdst.symm, Nat.add_zero, Nat.add_zero] at hsum

end Parts

/-! ## Quiet handlers -/

section Handlers

variable {clk : Clock} {cfg : Config} {owner : Pubkey} {amount : ℕ} {a a' : Accounts}

theorem deposit_quiet : Ensures (deposit clk owner amount a) (Quiet a) := by
  intro a' h
  obtain ⟨run, rfl⟩ := exists_depositRun (of_vaultChecked h)
  exact ⟨accrue_counters run.visit.m₁ run.visit.accrue_eq, rfl, rfl⟩

theorem withdraw_quiet : Ensures (withdraw clk owner amount a) (Quiet a) := by
  intro a' h
  obtain ⟨run, rfl⟩ := exists_withdrawRun (of_vaultChecked h)
  exact ⟨accrue_counters run.visit.m₁ run.visit.accrue_eq, rfl, rfl⟩

theorem borrow_quiet : Ensures (borrow clk owner amount a) (Quiet a) := by
  intro a' h
  obtain ⟨run, rfl⟩ := borrow_run h
  exact ⟨accrue_counters run.visit.m₁ run.visit.accrue_eq, rfl,
    mintTo_vault (by simp) run.fusd (tokenCall_eq_ok.mpr run.mintTo_eq)⟩

theorem repay_quiet : Ensures (repay clk owner amount a) (Quiet a) := by
  intro a' h
  rcases repay_run h with ⟨run, rfl⟩ | ⟨run, rfl⟩
  · exact ⟨accrue_counters run.m₁ run.accrue_eq, rfl, rfl⟩
  · have haccrued := accrue_counters run.visit.m₁ run.visit.accrue_eq
    exact ⟨Market.restoreOutflow_counters.trans haccrued, rfl,
      burn_vault (by simp) run.fusd (tokenCall_eq_ok.mpr run.burn_eq)⟩

theorem adjustRate_quiet {newRateBps : ℕ} :
    Ensures (adjustRate clk owner newRateBps a) (Quiet a) := by
  intro a' h
  obtain ⟨run, rfl⟩ := adjustRate_run h
  exact ⟨accrue_counters run.visit.m₁ run.visit.accrue_eq, rfl, rfl⟩

theorem shutdown_quiet : Ensures (shutdown clk a) (Quiet a) := by
  unfold shutdown
  refine .after fun _ ↦ ?_
  refine .bind accrue_counters fun m₁ h₁ ↦ ?_
  refine .after fun _ ↦ ?_
  exact .ok ⟨h₁, rfl, rfl⟩

theorem storeLine_quiet {l : DebtCeilingLine} : Ensures (storeLine clk l a) (Quiet a) := by
  unfold storeLine
  refine .bind accrue_counters fun m₁ h₁ ↦ ?_
  exact .ok ⟨h₁, rfl, rfl⟩

theorem payFromCounter_quiet {authority : Pubkey} {counter : ℕ} {m' : Market}
    {recipient : CollHolder} (h : m'.counters = a.state.market.counters) :
    Ensures (payFromCounter cfg authority counter m' recipient amount a) (Quiet a) := by
  unfold payFromCounter
  refine .after fun _ ↦ .after fun _ ↦ .after fun _ ↦ .after fun _ ↦ .after fun _ ↦ ?_
  exact .ok ⟨h, rfl, rfl⟩

theorem updatePrice_quiet {commit : Option PriceCommit} :
    Ensures (updatePrice clk commit a) (Quiet a) := by
  unfold updatePrice
  refine .ok ⟨?_, rfl, rfl⟩
  dsimp only
  repeat' split
  all_goals rfl

theorem executeParamChange_quiet {param : MarketParam} {value : ℕ} :
    Ensures (executeParamChange clk param value a) (Quiet a) := by
  unfold executeParamChange
  refine .after fun _ ↦ .ok ⟨?_, rfl, rfl⟩
  dsimp only
  split <;> cases param <;> rfl

theorem withdrawFromReactor_quiet : Ensures (withdrawFromReactor owner amount a) (Quiet a) := by
  unfold withdrawFromReactor
  refine .after fun _ ↦ .after fun r ↦ ?_
  refine Ensures.bind (P := fun fusd : TokenLedger FusdHolder ↦
    fusd.balance .backstopVault = a.fusd.balance .backstopVault) ?_ fun fusd hfusd ↦ ?_
  · exact .ite (fun _ ↦ transfer_vault (by simp) (by simp)) fun _ ↦ .ok rfl
  exact .ok ⟨rfl, rfl, hfusd⟩

theorem LoopInv.counters {now paid drawn : ℕ} {s₀ s : MarketState}
    (h : LoopInv now s₀ s paid drawn) : s.market.counters = s₀.market.counters :=
  congrArg (fun s ↦ s.market.counters) h.rest

variable {redeemer : Pubkey} {candidates : List Candidate}

theorem urgentRedeem_quiet (hi : Inv clk.unixTimestamp a) :
    Ensures (urgentRedeem clk redeemer amount candidates a) (Quiet a) := by
  apply vaultChecked_ensures
  intro a' h
  obtain ⟨run, rfl⟩ := exists_urgentRun h
  have hloop := (run.redemptionInv hi).loop
  exact ⟨hloop.counters.trans (accrue_counters run.m₁ run.accrue_eq), rfl,
    burn_vault (by simp) run.fusd (tokenCall_eq_ok.mpr run.burn_eq)⟩

/-- A redemption of `redeemed` for `drawn` of collateral: the base rate is bumped in proportion to
the debt of the accrued market `m₁`, and the fee is charged at the new rate. -/
structure Redeemed (now : ℕ) (a a' : Accounts) (m₁ : Market) (redeemed drawn : ℕ) : Prop where
  accrued : accrue a.state.market now = .ok m₁
  pos : 0 < redeemed
  agg : a'.state.market.aggRecordedDebt + redeemed = m₁.aggRecordedDebt
  coll : a'.state.market.totalCollateral + drawn = a.state.market.totalCollateral
  counters : a'.state.market.counters =
    (a.state.market.storeBaseRate (m₁.bumpedBaseRate now redeemed) now).counters
  surplus : a'.state.market.surplusCollateral = a.state.market.surplusCollateral +
    drawn * effectiveFeeBps (m₁.bumpedBaseRate now redeemed) a.state.market.redemptionFeeBps
      a.state.market.redemptionBaseRateMaxBps MAX_REDEMPTION_FEE_BPS / BPS_DENOMINATOR
  backstop : a'.backstop = a.backstop
  vault : a'.fusd.balance .backstopVault = a.fusd.balance .backstopVault

theorem Market.storeBaseRate_counters {m m' : Market} (hc : m.counters = m'.counters)
    (hmax : m.redemptionBaseRateMaxBps = m'.redemptionBaseRateMaxBps) (rate now : ℕ) :
    (m.storeBaseRate rate now).counters = (m'.storeBaseRate rate now).counters := by
  have hts : m.redemptionBaseRateTs = m'.redemptionBaseRateTs :=
    congrArg Counters.redemptionBaseRateTs hc
  have hcontributed : m.globalContributed = m'.globalContributed :=
    congrArg Counters.globalContributed hc
  have hdrawn : m.globalDrawn = m'.globalDrawn := congrArg Counters.globalDrawn hc
  unfold Market.storeBaseRate
  rw [hmax, hts]
  split
  · simp only [Market.counters, hcontributed, hdrawn]
  · exact hc

theorem redeem_redeemed (hi : Inv clk.unixTimestamp a)
    (h : redeem clk redeemer amount candidates a = .ok a') :
    ∃ m₁ redeemed drawn, Redeemed clk.unixTimestamp a a' m₁ redeemed drawn := by
  obtain ⟨run, rfl⟩ := redeem_run h
  obtain ⟨x, ts, hacc⟩ := accrue_spec hi.book.clock run.accrue_eq
  have hloop := (run.redemptionInv hi).loop
  have hdrawn := LoopInv.drawn_lt hi hacc hloop
  have hcounters := hloop.counters.trans (accrue_counters run.m₁ run.accrue_eq)
  have hparams : run.r.state.market.toMarketParams = a.state.market.toMarketParams :=
    (congrArg (fun s ↦ s.market.toMarketParams) hloop.rest).trans hacc.params
  have hfloor : run.r.state.market.redemptionFeeBps = a.state.market.redemptionFeeBps :=
    congrArg MarketParams.redemptionFeeBps hparams
  have hmax : run.r.state.market.redemptionBaseRateMaxBps =
      a.state.market.redemptionBaseRateMaxBps :=
    congrArg MarketParams.redemptionBaseRateMaxBps hparams
  have hmax₁ : run.m₁.redemptionBaseRateMaxBps = a.state.market.redemptionBaseRateMaxBps :=
    congrArg MarketParams.redemptionBaseRateMaxBps hacc.params
  have hsurplus : run.r.state.market.surplusCollateral = a.state.market.surplusCollateral :=
    (congrArg (fun s ↦ s.market.surplusCollateral) hloop.rest).trans
      (congrArg Market.surplusCollateral hacc.eq)
  obtain ⟨baseRate, baseRateTs, hresult⟩ := run.result_eq
  refine ⟨run.m₁, amount - run.r.remaining, run.r.drawn, run.accrue_eq, run.redeemed_pos, ?_, ?_,
    ?_, ?_, rfl, burn_vault (by simp) run.fusd (tokenCall_eq_ok.mpr run.burn_eq)⟩
  · rw [hresult]
    exact hloop.agg
  · rw [hresult]
    have hcoll : run.m₁.totalCollateral = a.state.market.totalCollateral := by rw [hacc.eq]
    exact hloop.coll.trans hcoll
  · exact Market.storeBaseRate_counters hcounters hmax run.rate clk.unixTimestamp
  · dsimp only [RedeemRun.result]
    rw [truncate_of_lt (run.fee_le.trans_lt hdrawn), RedeemRun.fee, RedeemRun.rate, hsurplus,
      hfloor, hmax₁]

/-- The instructions that write the counters, the backstop's account or its vault. -/
def MarketInstr.stirs : MarketInstr → Bool
  | .redeem _ _ _ => true
  | .liquidate _ _ _ => true
  | .refreshMarket _ _ => true
  | _ => false

theorem MarketInstr.run_quiet {i : MarketInstr} (hi : Inv clk.unixTimestamp a)
    (hstirs : i.stirs = false) : Ensures (i.run cfg clk a) (Quiet a) := by
  cases i with
  | redeem | liquidate | refreshMarket => cases hstirs
  | deposit => exact deposit_quiet
  | withdraw => exact withdraw_quiet
  | borrow => exact borrow_quiet
  | repay => exact repay_quiet
  | adjustRate => exact adjustRate_quiet
  | urgentRedeem => exact urgentRedeem_quiet hi
  | withdrawFromReactor => exact withdrawFromReactor_quiet
  | shutdown => exact shutdown_quiet
  | updatePrice => exact updatePrice_quiet
  | executeParamChange => exact executeParamChange_quiet
  | initDebtCeilingLine | setDebtCeilingLine | bumpDebtCeiling =>
    exact .after fun _ ↦ .after fun _ ↦ storeLine_quiet
  | sweepProtocolCollateral | withdrawSurplus =>
    exact vaultChecked_ensures (payFromCounter_quiet rfl)
  | claimCollSurplus =>
    apply vaultChecked_ensures
    unfold claimCollSurplusUnchecked
    refine .after fun _ ↦ .after fun _ ↦ .after fun _ ↦ .after fun _ ↦ ?_
    exact .ok ⟨rfl, rfl, rfl⟩
  | provideToReactor =>
    unfold MarketInstr.run FusionCore.provideToReactor
    refine .after fun _ ↦ .after fun _ ↦ ?_
    refine .bind (transfer_vault (by simp) (by simp)) fun fusd hfusd ↦ ?_
    exact .ok ⟨rfl, rfl, hfusd⟩
  | fundBuffer =>
    unfold MarketInstr.run FusionCore.fundBuffer
    refine .after fun _ ↦ .after fun _ ↦ ?_
    refine .bind (transfer_vault (by simp) (by simp)) fun fusd hfusd ↦ ?_
    exact .after fun _ ↦ .ok ⟨rfl, rfl, hfusd⟩
  | settleBadDebt =>
    unfold MarketInstr.run FusionCore.settleBadDebt
    refine .after fun _ ↦ .after fun _ ↦ .after fun _ ↦ ?_
    refine .bind (burn_vault (by simp)) fun fusd hfusd ↦ ?_
    exact .after fun _ ↦ .ok ⟨rfl, rfl, hfusd⟩
  | openPosition | openReactorDeposit | initReactorPool | initInsuranceBuffer | guardianDerisk =>
    exact .after fun _ ↦ .after fun _ ↦ .ok ⟨rfl, rfl, rfl⟩
  | closePosition =>
    exact .after fun _ ↦ .after fun _ ↦ .after fun _ ↦ .after fun _ ↦ .ok ⟨rfl, rfl, rfl⟩
  | claimReactorGains =>
    exact .after fun _ ↦ .after fun _ ↦ .after fun _ ↦ .ok ⟨rfl, rfl, rfl⟩
  | rebindFeeds =>
    unfold MarketInstr.run FusionCore.rebindFeeds
    refine .after fun _ ↦ .ok ⟨?_, rfl, rfl⟩
    simp only [Market.counters]
  | mintCollateral => exact .after fun _ ↦ .ok ⟨rfl, rfl, rfl⟩
  | burnCollateral => exact .after fun _ ↦ .ok ⟨rfl, rfl, rfl⟩
  | transferCollateral => exact .after fun _ ↦ .ok ⟨rfl, rfl, rfl⟩

end Handlers

end FusionCore
