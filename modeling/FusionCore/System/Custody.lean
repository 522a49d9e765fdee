import FusionCore.Core.Burns
import FusionCore.Core.RedemptionFairness
import FusionCore.System.MarketRuns

/-!
# Custody

The signer of an instruction bounds what it may take.  Whoever has not signed loses no tokens and
keeps their Reactor Pool deposit as it is; their position changes only if it is liquidated or
redeemed, and both have their conditions.
-/

namespace FusionCore

open Checked

/-! ## Signers -/

/-- The user or authority whose signature an instruction carries; cranks have none that matters. -/
def MarketInstr.signer : MarketInstr → Option Pubkey
  | .openPosition owner _ | .closePosition owner | .claimCollSurplus owner | .adjustRate owner _
  | .deposit owner _ | .withdraw owner _ | .borrow owner _ | .repay owner _
  | .openReactorDeposit owner | .claimReactorGains owner | .provideToReactor owner _
  | .withdrawFromReactor owner _ | .burnCollateral owner _ | .transferCollateral owner _ _ =>
    some owner
  | .redeem redeemer _ _ | .urgentRedeem redeemer _ _ => some redeemer
  | .liquidate liquidator _ _ => some liquidator
  | .fundBuffer funder _ => some funder
  | .settleBadDebt authority _ | .sweepProtocolCollateral authority _ _
  | .withdrawSurplus authority _ _ | .initReactorPool authority | .initInsuranceBuffer authority
  | .initDebtCeilingLine authority _ _ _ | .setDebtCeilingLine authority _ _ _
  | .guardianDerisk authority _ | .rebindFeeds authority => some authority
  | _ => none

def Instr.signer : Instr → Option Pubkey
  | .market _ i => i.signer
  | .initMarket authority _ _ _ | .initGlobalBackstop authority
  | .initSupplyReconciliation authority | .withdrawBackstopExcess authority _ _ => some authority
  | .fundBackstop funder _ => some funder
  | .transferFusd owner _ _ => some owner
  | _ => none

def SystemInstr.signer : SystemInstr → Option Pubkey
  | .core i _ => i.signer
  | .initMarketOracle authority _ _ _ | .setOracleProgramIds authority _ _ _
  | .rebindMarketOracleFeeds authority _ _ | .migrateGovAuthority authority _
  | .migrateInboundAuthority authority _ | .setGuardian authority _
  | .initGovernanceGate authority _ _ | .queueParamChange authority _ _ _ _
  | .queueGlobalParamChange authority _ _ | .cancelParamChange authority _
  | .cancelGlobalParamChange authority _ => some authority
  | .acceptGovAuthority signer | .acceptInboundAuthority signer => some signer
  | _ => none

/-! ## What an instruction of somebody else can do -/

/-- The Reactor Pool deposit of an owner. -/
def MarketState.depositOf (s : MarketState) (o : Pubkey) : Option ReactorDeposit :=
  s.reactor.bind fun rp ↦ rp.deposits.lookup o

/-- What becomes of the position of `o`.  A liquidation finds it unhealthy at the high price with
all gates open, and leaves it without debt; a redemption takes collateral worth at most the debt
that it takes with it. -/
inductive Forced (clk : Clock) (o : Pubkey) (s s' : MarketState) : Prop where
  | kept (h : s'.positions.lookup o = s.positions.lookup o)
  | liquidated (m : Market) (p p₁ q : Position) (hm : accrue s.market clk.unixTimestamp = .ok m)
      (hgates : liquidationGates m clk.slot = .ok ()) (hp : s.positions.lookup o = some p)
      (hp₁ : realize m p clk.unixTimestamp = .ok p₁) (howes : 0 < p₁.recordedDebt)
      (hunhealthy : isHealthy p₁.ink p₁.recordedDebt m.debtSpot m.mcrBps = false)
      (hq : s'.positions.lookup o = some q) (hclosed : q.recordedDebt = 0 ∧ q.ink = 0)
  | redeemed (m : Market) (mid stake : ℕ) (p p₁ q : Position)
      (hm : accrue s.market clk.unixTimestamp = .ok m) (hmid : midPrice m = .ok mid)
      (hp : s.positions.lookup o = some p) (hp₁ : realize m p clk.unixTimestamp = .ok p₁)
      (hq : s'.positions.lookup o = some q) (hfair : Draw.Fair mid ⟨o, { p₁ with stake }, q⟩)

/-- The tokens of `o` do not get fewer and their deposit is as it was. -/
structure Spared (clk : Clock) (o : Pubkey) (a a' : Accounts) : Prop where
  fusd : a.fusd.balance (.wallet o) ≤ a'.fusd.balance (.wallet o)
  coll : a.state.coll.balance (.wallet o) ≤ a'.state.coll.balance (.wallet o)
  deposit : a'.state.depositOf o = a.state.depositOf o
  position : Forced clk o a.state a'.state

section Rules

variable {A : Type} [DecidableEq A] {l : TokenLedger A} {src dst : A} {amount : ℕ}

theorem paid (k : A) (hk : k ≠ src) :
    Ensures (tokenCall (l.transfer src dst amount)) fun l' ↦ l.balance k ≤ l'.balance k := by
  intro l' h
  obtain ⟨m, hburn, hmint⟩ := bind_eq_ok_iff.mp (tokenCall_eq_ok.mp h)
  have hle := TokenLedger.burn_balance hburn k
  rw [if_neg hk] at hle
  rw [TokenLedger.mintTo_balance hmint]
  omega

theorem burned (k : A) (hk : k ≠ src) :
    Ensures (tokenCall (l.burn src amount)) fun l' ↦ l.balance k ≤ l'.balance k := by
  intro l' h
  have hle := TokenLedger.burn_balance (tokenCall_eq_ok.mp h) k
  rw [if_neg hk] at hle
  exact hle.ge

theorem minted (k : A) :
    Ensures (tokenCall (l.mintTo dst amount)) fun l' ↦ l.balance k ≤ l'.balance k := by
  intro l' h
  rw [TokenLedger.mintTo_balance (tokenCall_eq_ok.mp h)]
  exact Nat.le_add_right _ _

theorem mintShare_ensures {fusd : TokenLedger FusdHolder} {dst : Option FusdHolder}
    (k : FusdHolder) :
    Ensures (mintShare fusd dst amount) fun l' ↦ fusd.balance k ≤ l'.balance k :=
  .ite (fun _ ↦ .after fun _ ↦ minted k) fun _ ↦ .ok le_rfl

variable {o owner redeemer : Pubkey} {a a' : Accounts} {clk : Clock}

theorem Spared.of_eq (hps : a'.state.positions.lookup o = a.state.positions.lookup o)
    (hfusd : a'.fusd = a.fusd) (hcoll : a'.state.coll = a.state.coll)
    (hreactor : a'.state.reactor = a.state.reactor) : Spared clk o a a' where
  fusd := by rw [hfusd]
  coll := by rw [hcoll]
  deposit := by rw [MarketState.depositOf, hreactor]; rfl
  position := .kept hps

theorem depositOf_eq {rp rp' : ReactorPool} {s s' : MarketState} (hs : s.reactor = some rp)
    (hs' : s'.reactor = some rp') (h : rp'.deposits.lookup o = rp.deposits.lookup o) :
    s'.depositOf o = s.depositOf o := by
  simp only [MarketState.depositOf, hs, hs', Option.bind_some, h]

theorem refreshMarket_spared {cranker : Option FusdHolder} {withBackstop : Bool} :
    Ensures (refreshMarket clk cranker withBackstop a) (Spared clk o a) := by
  refine .after fun buf ↦ .after fun bs ↦ .after fun m₁ ↦ .ite (fun _ ↦ ?_) fun _ ↦ ?_
  · exact .ok (.of_eq rfl rfl rfl rfl)
  · refine .after fun d ↦ .bind (mintShare_ensures (.wallet o)) fun fusd₁ h₁ ↦
      .bind (mintShare_ensures (.wallet o)) fun fusd₂ h₂ ↦
      .bind (P := fun x ↦ fusd₂.balance (.wallet o) ≤ x.2.2.balance (.wallet o)) ?_ ?_
    · refine .bind (mintShare_ensures (.wallet o)) fun fusd₃ h₃ ↦ .ite (fun _ ↦ ?_) fun _ ↦ .ok h₃
      exact .after fun _ ↦ .after fun _ ↦ .after fun _ ↦ .ok h₃
    · rintro ⟨m₂, bs₁, fusd₃⟩ h₃
      exact .after fun _ ↦ .ok ⟨(h₁.trans h₂).trans h₃, le_rfl, rfl, .kept rfl⟩

theorem reactorTier_spared {mint : Pubkey} {rp : ReactorPool} {off collSp : ℕ}
    {coll : TokenLedger CollHolder} {fusd : TokenLedger FusdHolder} :
    Ensures (reactorTier mint rp coll fusd off collSp) fun x ↦ x.1.deposits = rp.deposits ∧
      coll.balance (.wallet o) ≤ x.2.1.balance (.wallet o) ∧
      fusd.balance (.wallet o) ≤ x.2.2.balance (.wallet o) := by
  refine .ite (fun _ ↦ .bind (P := fun x ↦ x.deposits = rp.deposits) ?_ fun rp₁ hrp ↦ ?_)
    fun _ ↦ .ok ⟨rfl, le_rfl, le_rfl⟩
  · intro rp₁ h
    obtain ⟨st, grid, -, rfl⟩ := Pool.offset_eq_ok.mp h
    rfl
  · refine .after fun _ ↦ .bind (burned (.wallet o) (by simp)) fun fusd₁ hfusd ↦
      .bind ?_ fun coll₁ hcoll ↦ .ok ⟨hrp, hcoll, hfusd⟩
    exact .ite (fun _ ↦ .after fun _ ↦ paid _ (by simp)) fun _ ↦ .ok le_rfl

theorem liquidate_spared {liquidator : Pubkey} {withBackstop : Bool} :
    Ensures (liquidate clk liquidator owner withBackstop a) (Spared clk o a) := by
  intro a' h
  obtain ⟨run, rfl⟩ := liquidate_run h
  obtain ⟨hdeposits, hcoll, hfusd⟩ := reactorTier_spared (o := o) _ run.reactorTier_eq
  have hrest := remainderTiers_balance run.remainderTiers_eq run.split_spec.2.2 (.wallet o)
  have hgas : Ensures (payGasComp a.state.coll liquidator run.z.gasComp) fun l ↦
      a.state.coll.balance (.wallet o) ≤ l.balance (.wallet o) :=
    .ite (fun _ ↦ .after fun _ ↦ paid _ (by simp)) fun _ ↦ .ok le_rfl
  refine ⟨?_, (hgas _ run.gasComp_eq).trans hcoll, ?_, ?_⟩
  · simp only [reduceCtorEq, if_false, Nat.add_zero] at hrest
    exact hfusd.trans hrest.ge
  · exact depositOf_eq run.reactor_eq rfl (congrArg (AList.lookup o) hdeposits)
  · by_cases ho : o = owner
    · subst ho
      exact .liquidated _ _ _ _ run.accrue_eq run.gates run.position_eq run.realize_eq run.owes
        run.unhealthy (AList.lookup_insert _) (by simp [closedOut])
    · exact .kept (AList.lookup_insert_ne ho)

theorem Spared.of_redemption {m : Market} {mid units : ℕ} {draws : List Draw} (ho : o ≠ redeemer)
    (hburn : a.fusd.burn (.wallet redeemer) units = .ok a'.fusd)
    (hpay : payOut a.state.coll redeemer amount = .ok a'.state.coll)
    (hreactor : a'.state.reactor = a.state.reactor)
    (hm : accrue a.state.market clk.unixTimestamp = .ok m) (hmid : midPrice m = .ok mid)
    (hr : Redeems clk.unixTimestamp mid m a.state a'.state draws) : Spared clk o a a' := by
  have hpaid : Ensures (payOut a.state.coll redeemer amount) fun l ↦
      a.state.coll.balance (.wallet o) ≤ l.balance (.wallet o) :=
    .ite (fun _ ↦ paid _ (by simp)) fun _ ↦ .ok le_rfl
  refine ⟨burned _ ?_ _ (tokenCall_eq_ok.mpr hburn), hpaid _ hpay, ?_, ?_⟩
  · simpa using ho
  · rw [MarketState.depositOf, hreactor]
    rfl
  · by_cases hmem : o ∈ draws.map Draw.owner
    · obtain ⟨⟨_, current, left⟩, hd, rfl⟩ := List.mem_map.mp hmem
      obtain ⟨p, p₁, stake, hp, hp₁, rfl, hq⟩ := hr.touched _ hd
      exact .redeemed m mid stake p p₁ left hm hmid hp hp₁ hq (hr.fair _ hd)
    · exact .kept (hr.untouched o hmem)

theorem payFromCounter_spared {cfg : Config} {authority : Pubkey} {counter : ℕ} {m' : Market}
    {recipient : CollHolder} :
    Ensures (payFromCounter cfg authority counter m' recipient amount a) (Spared clk o a) :=
  .after fun _ ↦ .after fun _ ↦ .after fun _ ↦ .after fun _ ↦
    .bind (paid (.wallet o) (by simp)) fun _ hle ↦ .ok ⟨le_rfl, hle, rfl, .kept rfl⟩

theorem storeLine_spared {line : DebtCeilingLine} :
    Ensures (storeLine clk line a) (Spared clk o a) :=
  .after fun _ ↦ .ok (.of_eq rfl rfl rfl rfl)

end Rules

/-! ## All instructions -/

theorem MarketInstr.run_spared {o : Pubkey} {clk : Clock} {cfg : Config} {i : MarketInstr}
    {a : Accounts} (hi : Inv clk.unixTimestamp a) (hsigner : i.signer ≠ some o) :
    Ensures (i.run cfg clk a) (Spared clk o a) := by
  have hne : ∀ {x}, i.signer = some x → o ≠ x := fun hx heq ↦ hsigner (heq ▸ hx)
  cases i with
  | openPosition =>
    exact .after fun _ ↦ .after fun _ ↦ .ok (.of_eq (AList.lookup_insert_ne (hne rfl)) rfl rfl rfl)
  | closePosition =>
    refine .after fun _ ↦ .after fun _ ↦ .after fun _ ↦ .after fun _ ↦ .ok ?_
    exact .of_eq (AList.lookup_erase_ne (hne rfl)) rfl rfl rfl
  | deposit =>
    intro a' h
    obtain ⟨run, rfl⟩ := exists_depositRun (of_vaultChecked h)
    refine ⟨le_rfl, paid _ ?_ _ (tokenCall_eq_ok.mpr run.transfer_eq), rfl,
      .kept (AList.lookup_insert_ne (hne rfl))⟩
    simpa using hne rfl
  | withdraw =>
    intro a' h
    obtain ⟨run, rfl⟩ := exists_withdrawRun (of_vaultChecked h)
    exact ⟨le_rfl, paid (.wallet o) (by simp) _ (tokenCall_eq_ok.mpr run.transfer_eq), rfl,
      .kept (AList.lookup_insert_ne (hne rfl))⟩
  | borrow =>
    intro a' h
    obtain ⟨run, rfl⟩ := borrow_run h
    exact ⟨minted (.wallet o) _ (tokenCall_eq_ok.mpr run.mintTo_eq), le_rfl, rfl,
      .kept (AList.lookup_insert_ne (hne rfl))⟩
  | repay =>
    intro a' h
    rcases repay_run h with ⟨run, rfl⟩ | ⟨run, rfl⟩
    · exact .of_eq (AList.lookup_insert_ne (hne rfl)) rfl rfl rfl
    · refine ⟨burned _ ?_ _ (tokenCall_eq_ok.mpr run.burn_eq), le_rfl, rfl,
        .kept (AList.lookup_insert_ne (hne rfl))⟩
      simpa using hne rfl
  | adjustRate =>
    intro a' h
    obtain ⟨run, rfl⟩ := adjustRate_run h
    exact .of_eq (AList.lookup_insert_ne (hne rfl)) rfl rfl rfl
  | claimCollSurplus =>
    intro a' h
    refine Ensures.after (fun _ ↦ .after fun _ ↦ .bind (paid (.wallet o) (by simp)) fun _ hle ↦ ?_)
      a' (of_vaultChecked h)
    exact .after fun _ ↦ .ok ⟨le_rfl, hle, rfl, .kept (AList.lookup_insert_ne (hne rfl))⟩
  | redeem _ amount =>
    intro a' h
    obtain ⟨mid, draws, payout, fee, m, hm, hmid, hr, -⟩ := redeem_redeemsAt amount.toNat_lt hi h
    obtain ⟨run, rfl⟩ := redeem_run h
    exact .of_redemption (hne rfl) run.burn_eq run.payOut_eq
      (congrArg (fun s ↦ s.reactor) (run.redemptionInv hi).loop.rest) hm hmid hr
  | urgentRedeem _ amount =>
    intro a' h
    obtain ⟨mid, draws, payout, m, hm, hmid, hr, -⟩ := urgentRedeem_redeemsAt amount.toNat_lt hi h
    obtain ⟨run, rfl⟩ := urgentRedeem_run h
    exact .of_redemption (hne rfl) run.burn_eq run.payOut_eq
      (congrArg (fun s ↦ s.reactor) (run.redemptionInv hi).loop.rest) hm hmid hr
  | liquidate => exact liquidate_spared
  | openReactorDeposit =>
    refine .bind okOr_ensures fun rp hrp ↦
      .bind (P := fun x ↦ x.deposits.lookup o = rp.deposits.lookup o) ?_ ?_
    · exact .after fun _ ↦ .ok (AList.lookup_insert_ne (hne rfl))
    · exact fun rp' hrp' ↦ .ok ⟨le_rfl, le_rfl, depositOf_eq hrp rfl hrp', .kept rfl⟩
  | provideToReactor =>
    refine .bind okOr_ensures fun rp hrp ↦
      .bind (P := fun x ↦ x.deposits.lookup o = rp.deposits.lookup o) ?_ ?_
    · refine .after fun _ ↦ .after fun _ ↦ .after ?_
      rintro ⟨c, dep₁⟩
      exact .after fun _ ↦ .after fun _ ↦ .after fun _ ↦ .ok (AList.lookup_insert_ne (hne rfl))
    · refine fun rp' hrp' ↦ .bind (paid (.wallet o) (by simpa using hne rfl)) fun _ hle ↦ .ok ?_
      exact ⟨hle, le_rfl, depositOf_eq hrp rfl hrp', .kept rfl⟩
  | withdrawFromReactor =>
    refine .bind okOr_ensures fun rp hrp ↦
      .bind (P := fun x ↦ x.1.deposits.lookup o = rp.deposits.lookup o) ?_ ?_
    · refine .after fun _ ↦ .after fun _ ↦ .after ?_
      rintro ⟨c, dep₁⟩
      exact .after fun _ ↦ .after fun _ ↦ .ok (AList.lookup_insert_ne (hne rfl))
    · rintro ⟨rp', out⟩ hrp'
      refine .bind ?_ fun _ hle ↦ .ok ⟨hle, le_rfl, depositOf_eq hrp rfl hrp', .kept rfl⟩
      exact .ite (fun _ ↦ paid _ (by simp)) fun _ ↦ .ok le_rfl
  | claimReactorGains =>
    refine .bind okOr_ensures fun rp hrp ↦
      .bind (P := fun x ↦ x.1.deposits.lookup o = rp.deposits.lookup o) ?_ ?_
    · refine .after fun _ ↦ .after ?_
      rintro ⟨c, dep₁⟩
      exact .after fun _ ↦ .ok (AList.lookup_insert_ne (hne rfl))
    · rintro ⟨rp', out⟩ hrp'
      refine .bind ?_ fun _ hle ↦ .ok ⟨le_rfl, hle, depositOf_eq hrp rfl hrp', .kept rfl⟩
      exact .ite (fun _ ↦ paid _ (by simp)) fun _ ↦ .ok le_rfl
  | refreshMarket => exact refreshMarket_spared
  | settleBadDebt =>
    refine .after fun _ ↦ .after fun _ ↦ .after fun _ ↦ .bind (burned (.wallet o) ?_) fun _ hle ↦
      .after fun _ ↦ .ok ⟨hle, le_rfl, rfl, .kept rfl⟩
    simpa using hne rfl
  | fundBuffer =>
    refine .after fun _ ↦ .after fun _ ↦ .bind (paid (.wallet o) ?_) fun _ hle ↦
      .after fun _ ↦ .ok ⟨hle, le_rfl, rfl, .kept rfl⟩
    simpa using hne rfl
  | sweepProtocolCollateral | withdrawSurplus =>
    exact fun a' h ↦ payFromCounter_spared a' (of_vaultChecked h)
  | initReactorPool =>
    intro a' h
    simp only [MarketInstr.run, FusionCore.initReactorPool, bind_eq_ok_iff, require_eq_ok,
      pure_eq_ok, exists_const] at h
    obtain ⟨-, hnone, rfl⟩ := h
    refine ⟨le_rfl, le_rfl, ?_, .kept rfl⟩
    rw [MarketState.depositOf, MarketState.depositOf, Option.isNone_iff_eq_none.mp hnone]
    rfl
  | initInsuranceBuffer | guardianDerisk =>
    exact .after fun _ ↦ .after fun _ ↦ .ok (.of_eq rfl rfl rfl rfl)
  | initDebtCeilingLine | setDebtCeilingLine | bumpDebtCeiling =>
    exact .after fun _ ↦ .after fun _ ↦ storeLine_spared
  | shutdown => exact .after fun _ ↦ .after fun _ ↦ .after fun _ ↦ .ok (.of_eq rfl rfl rfl rfl)
  | updatePrice => exact .ok (.of_eq rfl rfl rfl rfl)
  | rebindFeeds | executeParamChange => exact .after fun _ ↦ .ok (.of_eq rfl rfl rfl rfl)
  | mintCollateral => exact .bind (minted (.wallet o)) fun _ hle ↦ .ok ⟨le_rfl, hle, rfl, .kept rfl⟩
  | burnCollateral =>
    refine .bind (burned (.wallet o) ?_) fun _ hle ↦ .ok ⟨le_rfl, hle, rfl, .kept rfl⟩
    simpa using hne rfl
  | transferCollateral =>
    refine .bind (paid (.wallet o) ?_) fun _ hle ↦ .ok ⟨le_rfl, hle, rfl, .kept rfl⟩
    simpa using hne rfl

/-! ## The protocol -/

section Protocol

variable {clk : Clock} {o : Pubkey} {s s' : Protocol}

/-- Whoever has not signed is spared in every market. -/
structure Protocol.Spares (clk : Clock) (o : Pubkey) (s s' : Protocol) : Prop where
  fusd : s.fusd.balance (.wallet o) ≤ s'.fusd.balance (.wallet o)
  markets : ∀ k state, s.markets.lookup k = some state → ∃ state',
    s'.markets.lookup k = some state' ∧
      Spared clk o ⟨state, s.fusd, s.backstop⟩ ⟨state', s'.fusd, s'.backstop⟩

theorem Protocol.Spares.of_markets
    (hfusd : s.fusd.balance (.wallet o) ≤ s'.fusd.balance (.wallet o))
    (h : ∀ k state, s.markets.lookup k = some state → s'.markets.lookup k = some state) :
    s.Spares clk o s' :=
  ⟨hfusd, fun k state hl ↦ ⟨state, h k state hl, hfusd, le_rfl, rfl, .kept rfl⟩⟩

theorem Protocol.Spares.of_eq (hfusd : s'.fusd = s.fusd) (hmarkets : s'.markets = s.markets) :
    s.Spares clk o s' :=
  .of_markets (hfusd ▸ le_rfl) fun _ _ hl ↦ hmarkets ▸ hl

theorem Instr.run_spares {i : Instr} (hi : s.Inv clk.unixTimestamp) (hsigner : i.signer ≠ some o)
    (h : i.run clk s = .ok s') : s.Spares clk o s' := by
  have hne : ∀ {x}, i.signer = some x → FusdHolder.wallet o ≠ .wallet x := by
    intro x hx heq
    exact hsigner (FusdHolder.wallet.inj heq ▸ hx)
  cases i with
  | market mint j =>
    obtain ⟨state, a', hl, ha', rfl⟩ := Protocol.onMarket_cases h
    have hj := j.run_spared (hi.markets mint state hl).2 hsigner a' ha'
    refine ⟨hj.fusd, fun k before hbefore ↦ ?_⟩
    by_cases hk : k = mint
    · subst hk
      obtain rfl := Option.some.inj (hl.symm.trans hbefore)
      exact ⟨a'.state, AList.lookup_insert _, hj⟩
    · refine ⟨before, (AList.lookup_insert_ne hk).trans hbefore, ?_⟩
      exact ⟨hj.fusd, le_rfl, rfl, .kept rfl⟩
  | initMarket authority mint freeze args =>
    simp only [Instr.run, bind_eq_ok_iff, require_eq_ok, pure_eq_ok, exists_const] at h
    obtain ⟨hnone, state, -, rfl⟩ := h
    refine .of_markets le_rfl fun k before hbefore ↦ ?_
    have hk : k ≠ mint := by
      rintro rfl
      rw [hnone] at hbefore
      cases hbefore
    exact (AList.lookup_insert_ne hk).trans hbefore
  | fundBackstop =>
    exact Ensures.after (fun _ ↦ .after fun _ ↦ .bind (paid _ (hne rfl)) fun _ hle ↦
      .after fun _ ↦ .ok (.of_markets hle fun _ _ hl ↦ hl)) s' h
  | withdrawBackstopExcess =>
    exact Ensures.after (fun _ ↦ .after fun _ ↦ .after fun _ ↦ .after fun _ ↦ .after fun _ ↦
      .bind (paid (.wallet o) (by simp)) fun _ hle ↦ .after fun _ ↦
      .ok (.of_markets hle fun _ _ hl ↦ hl)) s' h
  | transferFusd =>
    exact Ensures.bind (paid _ (hne rfl)) (fun _ hle ↦ .ok (.of_markets hle fun _ _ hl ↦ hl)) s' h
  | initGlobalBackstop | executeGlobalParamChange | initSupplyReconciliation =>
    exact Ensures.after (fun _ ↦ .after fun _ ↦ .ok (.of_eq rfl rfl)) s' h
  | reconcileSupply =>
    exact Ensures.after (fun _ ↦ .after fun _ ↦ .after fun _ ↦ .ok (.of_eq rfl rfl)) s' h

end Protocol

/-! ## Runs -/

/-- A step carries no signature but that of the instruction it runs. -/
theorem SystemMove.spares {clk : Clock} {o : Pubkey} {s s' : System} {i : SystemInstr}
    (h : SystemMove clk s i s') (hi : s.protocol.Inv clk.unixTimestamp)
    (hsigner : i.signer ≠ some o) : s.protocol.Spares clk o s'.protocol := by
  cases h with
  | core j hplain p hrun => exact j.run_spares hi hsigner hrun
  | updatePrice mint accs acc commit oracle p hacc hprice hrun =>
    exact Instr.run_spares hi (by simp [Instr.signer, MarketInstr.signer]) hrun
  | rebind authority mint b acc oracle p hacc hrun hrebind =>
    exact Instr.run_spares (i := .market mint (.rebindFeeds authority)) hi hsigner hrun
  | executeMarket nonce mint withOracle op param p hop hparam hmint heta hrun =>
    exact Instr.run_spares hi (by simp [Instr.signer, MarketInstr.signer]) hrun
  | executeGlobal nonce op p hop heta hrun =>
    exact Instr.run_spares hi (by simp [Instr.signer]) hrun
  | _ => exact .of_eq rfl rfl

theorem fusion_spares {G : SystemEvent → SystemWorld → Prop} {o : Pubkey} {e : SystemEvent}
    {w w' : SystemWorld} (h : fusion.Reachable G w) (hstep : fusion.step e w w')
    (hsigner : e.instr.signer ≠ some o) :
    w.system.protocol.Spares e.clock o w'.system.protocol :=
  (SystemInstr.run_cases hstep.2.1).spares ((fusion_inv h).mono hstep.1.unixTimestamp) hsigner

/-- From `w` to `w'`, in every market, `o` loses no fUSD and no collateral from their wallets, and
their Reactor Pool deposits stay as they are. -/
structure KeepsHoldings (o : Pubkey) (w w' : SystemWorld) : Prop where
  fusd : w.system.protocol.fusd.balance (.wallet o) ≤ w'.system.protocol.fusd.balance (.wallet o)
  markets : ∀ mint state, w.system.protocol.markets.lookup mint = some state → ∃ state',
    w'.system.protocol.markets.lookup mint = some state' ∧
      state.coll.balance (.wallet o) ≤ state'.coll.balance (.wallet o) ∧
      state'.depositOf o = state.depositOf o

/-- Every run that carries no signature of `o` keeps the holdings of `o`. -/
theorem fusion_custody {o : Pubkey} {w w' : SystemWorld} (h : fusion.Reach w)
    (hrun : fusion.Leads (fun e _ ↦ e.instr.signer ≠ some o) w w') : KeepsHoldings o w w' := by
  refine hrun.keeps (P := KeepsHoldings o w) h
    ⟨le_rfl, fun mint state hl ↦ ⟨state, hl, le_rfl, rfl⟩⟩ ?_
  rintro e t t' ht ⟨hfusd, hmarkets⟩ hsigner hstep
  have hspares := fusion_spares ht hstep hsigner
  refine ⟨hfusd.trans hspares.fusd, fun mint state hl ↦ ?_⟩
  obtain ⟨state₁, hl₁, hcoll₁, hdeposit₁⟩ := hmarkets mint state hl
  obtain ⟨state₂, hl₂, hspared⟩ := hspares.markets mint state₁ hl₁
  exact ⟨state₂, hl₂, hcoll₁.trans hspared.coll, hspared.deposit.trans hdeposit₁⟩

namespace Sample

/-- The price falls by a third, and somebody else liquidates the owner. -/
def liquidation : SystemEvent :=
  ⟨⟨1100, 1000040, 5⟩, .core (.market 7 (.liquidate 200 100 false)) rfl⟩

theorem liquidation_step : ∃ w w' state, fusion.Reach w ∧ fusion.step liquidation w w' ∧
    w.system.protocol.markets.lookup 7 = some state ∧
    w.system.protocol.fusd.balance (.wallet 100) = 1000000000 ∧
    (state.positions.lookup 100).map Position.recordedDebt = some 1000000000 := by
  have hrun : testLast (at_ ⟨1000, 1000000, 5⟩ (launch ++ drawn ⟨1000, 1000000, 5⟩ 15000 1000000000)
      ++ at_ liquidation.clock [.updatePrice 7 (feeds liquidation.clock 10000)]) liquidation
      (fun w _ ↦ (w.system.protocol.markets.lookup 7).any fun state ↦
        decide (w.system.protocol.fusd.balance (.wallet 100) = 1000000000 ∧
          (state.positions.lookup 100).map Position.recordedDebt = some 1000000000)) =
      some true := by decide +kernel
  obtain ⟨w, w', hw, hstep, hP⟩ := of_testLast hrun
  obtain ⟨state, hl, hstate⟩ := Option.any_eq_true _ _ |>.mp hP
  exact ⟨w, w', state, hw, hstep, hl, of_decide_eq_true hstate⟩

end Sample

/-- A liquidated owner keeps the fUSD that they have borrowed. -/
theorem fusion_custody_liquidation : ∃ w w', fusion.step Sample.liquidation w w' ∧
    1000000000 ≤ w'.system.protocol.fusd.balance (.wallet 100) := by
  obtain ⟨w, w', state, hw, hstep, -, hfusd, -⟩ := Sample.liquidation_step
  have hkept := fusion_custody (o := 100) hw (.step Sample.liquidation .refl (by decide) hstep)
  exact ⟨w, w', hstep, hfusd ▸ hkept.fusd⟩

/-- A step from a reached state that `o` has not signed leaves the position of `o` in each market
as it is, liquidates it below the minimum ratio, or redeems it at a fair price. -/
theorem fusion_position_custody {o mint : Pubkey} {e : SystemEvent} {w w' : SystemWorld}
    (h : fusion.Reach w) (hstep : fusion.step e w w') (hsigner : e.instr.signer ≠ some o)
    {state : MarketState} (hl : w.system.protocol.markets.lookup mint = some state) :
    ∃ state', w'.system.protocol.markets.lookup mint = some state' ∧
      Forced e.clock o state state' := by
  obtain ⟨state', hl', hspared⟩ := (fusion_spares h hstep hsigner).markets mint state hl
  exact ⟨state', hl', hspared.position⟩

theorem fusion_position_custody_liquidation : ∃ w w' state state',
    fusion.step Sample.liquidation w w' ∧ w.system.protocol.markets.lookup 7 = some state ∧
    (state.positions.lookup 100).map Position.recordedDebt = some 1000000000 ∧
    w'.system.protocol.markets.lookup 7 = some state' ∧
    Forced Sample.liquidation.clock 100 state state' := by
  obtain ⟨w, w', state, hw, hstep, hl, -, hdebt⟩ := Sample.liquidation_step
  obtain ⟨state', hl', hforced⟩ := fusion_position_custody (o := 100) hw hstep (by decide) hl
  exact ⟨w, w', state, state', hstep, hl, hdebt, hl', hforced⟩

end FusionCore
