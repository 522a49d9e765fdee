import FusionCore.Core.Admin

/-!
# Onboarding and governed parameters

Every parameter has bounds of its own; the four that decide whether a liquidation pays for
itself are also checked together.
-/

namespace FusionCore

open Checked

def MIN_SCR_BPS : ℕ := 10500

def MAX_SCR_BPS : ℕ := 15000

def DEFAULT_SCR_BPS : ℕ := 11000

def MIN_CCR_BPS : ℕ := 10000

def MAX_CCR_BPS : ℕ := 30000

def MAX_RESERVE_LAMPORTS : ℕ := 1000000000

def MAX_LIQ_BONUS_BPS : ℕ := 2000

def MIN_BUCKET_WIDTH_BPS : ℕ := 1

def MAX_BUCKET_WIDTH_BPS : ℕ := 100

def MAX_REDEMPTION_BASE_RATE_BPS : ℕ := 500

def MAX_BORROW_FEE_BPS : ℕ := 500

def MAX_BAD_DEBT_PAYDOWN_BPS : ℕ := 10000

def MAX_MIN_DEBT : ℕ := 10000 * 1000000

def MAX_RATE_ADJUST_COOLDOWN_SECS : ℕ := 2592000

def MAX_KEEPER_REWARD_BPS : ℕ := 1000

/-- The parameters of a market that governance can move. -/
inductive MarketParam where
  | mcr
  | debtCeiling
  | redemptionFee
  | liqGasComp
  | rateLimitCap
  | ccr
  | liqBonus
  | minDebt
  | rateAdjustCooldown
  | keeperReward
  | borrowFee
  | badDebtPaydown
  | redemptionBaseRateMax
  | scr
  deriving DecidableEq, Repr

/-- The bounds of each parameter on its own. -/
def MarketParam.InBounds (value : ℕ) : MarketParam → Prop
  | .mcr => MIN_MCR_BPS ≤ value ∧ value ≤ MAX_MCR_BPS
  | .debtCeiling => True
  | .redemptionFee => value ≤ MAX_REDEMPTION_FEE_BPS
  | .liqGasComp => value ≤ MAX_LIQ_GAS_COMP_BPS
  | .rateLimitCap => True
  | .ccr => value = 0 ∨ MIN_CCR_BPS ≤ value ∧ value ≤ MAX_CCR_BPS
  | .liqBonus => value ≤ MAX_LIQ_BONUS_BPS
  | .minDebt => value ≤ MAX_MIN_DEBT
  | .rateAdjustCooldown => value ≤ MAX_RATE_ADJUST_COOLDOWN_SECS
  | .keeperReward => value ≤ MAX_KEEPER_REWARD_BPS
  | .borrowFee => value ≤ MAX_BORROW_FEE_BPS
  | .badDebtPaydown => value ≤ MAX_BAD_DEBT_PAYDOWN_BPS
  | .redemptionBaseRateMax => value ≤ MAX_REDEMPTION_BASE_RATE_BPS
  | .scr => MIN_SCR_BPS ≤ value ∧ value ≤ MAX_SCR_BPS

instance (value : ℕ) (param : MarketParam) : Decidable (param.InBounds value) := by
  cases param <;> unfold MarketParam.InBounds <;> infer_instance

def validateParam (param : MarketParam) (value : ℕ) : Except ProgramError Unit :=
  require (param.InBounds value) .paramOutOfBounds

/-- The joint check: the collar fits under the minimum ratio, a seizure at the threshold covers
the debt net of the gas compensation, and shutdown does not precede liquidation. -/
def validateMarketConfig (mcrBps scrBps liqBonusBps liqGasCompBps : ℕ) :
    Except ProgramError Unit := do
  require (liqBonusBps = 0 ∨ BPS_DENOMINATOR + liqBonusBps ≤ mcrBps) .collarExceedsMcr
  let seizableBps :=
    if liqBonusBps = 0 then mcrBps else min (BPS_DENOMINATOR + liqBonusBps) mcrBps
  require (100000000 ≤ seizableBps * (BPS_DENOMINATOR - liqGasCompBps)) .paramCombinationInvalid
  require (scrBps ≤ mcrBps) .paramCombinationInvalid

def validateParamForMarket (m : Market) (param : MarketParam) (value : ℕ) :
    Except ProgramError Unit := do
  validateParam param value
  match param with
  | .mcr => validateMarketConfig value m.scrBps m.liqBonusBps m.liqGasCompBps
  | .scr => validateMarketConfig m.mcrBps value m.liqBonusBps m.liqGasCompBps
  | .liqBonus => validateMarketConfig m.mcrBps m.scrBps value m.liqGasCompBps
  | .liqGasComp => validateMarketConfig m.mcrBps m.scrBps m.liqBonusBps value
  | _ => pure ()

def applyParam (m : Market) (param : MarketParam) (value : ℕ) : Market :=
  match param with
  | .mcr => { m with mcrBps := truncate 16 value }
  | .debtCeiling => { m with debtCeiling := value }
  | .redemptionFee => { m with redemptionFeeBps := truncate 16 value }
  | .liqGasComp => { m with liqGasCompBps := truncate 16 value }
  | .rateLimitCap => { m with rlCap := value, rlAccrued := min m.rlAccrued value }
  | .ccr => { m with ccrBps := truncate 16 value }
  | .liqBonus => { m with liqBonusBps := truncate 16 value }
  | .minDebt => { m with minDebt := value }
  | .rateAdjustCooldown => { m with rateAdjustCooldownSecs := value }
  | .keeperReward => { m with keeperRewardBps := truncate 16 value }
  | .borrowFee => { m with borrowFeeBps := truncate 16 value }
  | .badDebtPaydown => { m with badDebtPaydownBps := truncate 16 value }
  | .redemptionBaseRateMax => { m with redemptionBaseRateMaxBps := truncate 16 value }
  | .scr => { m with scrBps := truncate 16 value }

/-- Apply a queued change whose time has come.  Raising the minimum ratio arms the liquidation
grace first. -/
def executeParamChange (clk : Clock) (param : MarketParam) (value : ℕ) (a : Accounts) :
    Except ProgramError Accounts := do
  let m := a.state.market
  validateParamForMarket m param value
  let m₁ :=
    if param = .mcr ∧ m.mcrBps < truncate 16 value then
      { m with
        liqGraceUntil :=
          max m.liqGraceUntil (saturatingAdd 64 clk.slot MCR_RAISE_GRACE_SLOTS) }
    else m
  pure { a with state := { a.state with market := applyParam m₁ param value } }

/-! ## Onboarding a market -/

structure InitMarketArgs where
  mcrBps : ℕ
  debtCeiling : ℕ
  reserveLamports : ℕ
  liqGasCompBps : ℕ
  liqBonusBps : ℕ
  bucketWidthBps : ℕ
  redemptionFeeBps : ℕ
  deriving DecidableEq, Repr

/-- A market at birth: empty, frozen for minting and gated on its infrastructure. -/
def Market.birth (args : InitMarketArgs) (now : ℕ) : Market where
  mcrBps := args.mcrBps
  debtCeiling := args.debtCeiling
  reserveLamports := args.reserveLamports
  liqGasCompBps := args.liqGasCompBps
  liqBonusBps := args.liqBonusBps
  bucketWidthBps := args.bucketWidthBps
  redemptionFeeBps := args.redemptionFeeBps
  scrBps := DEFAULT_SCR_BPS
  rlCap := 0
  ccrBps := 0
  minDebt := 0
  rateAdjustCooldownSecs := 0
  keeperRewardBps := 0
  borrowFeeBps := 0
  badDebtPaydownBps := 0
  redemptionBaseRateMaxBps := 0
  spot := 0
  spotUpdatedSlot := 0
  debtSpot := 0
  mintFrozen := true
  guardianPausedUntil := 0
  liqGraceUntil := 0
  liqDivergenceUntil := 0
  liqInfraFlags := ⟨true, false, false⟩
  shutdownReason := .none
  rlAccrued := 0
  rlLastUpdate := 0
  redemptionBaseRate := 0
  redemptionBaseRateTs := now
  aggRecordedDebt := 0
  aggWeightedDebtSum := 0
  unmintedInterest := 0
  lastUpdateTs := now
  shutdown := false
  badDebt := 0
  lColl := 0
  lArt := 0
  lastCollRedistError := 0
  lastArtRedistError := 0
  totalStakes := 0
  totalCollateral := 0
  totalStakesSnapshot := 0
  totalCollateralSnapshot := 0
  totalCollSurplus := 0
  surplusCollateral := 0
  protocolCollateral := 0
  globalContributed := 0
  globalDrawn := 0

/-- Create the accounts of a market. -/
def initMarket (cfg : Config) (authority : Pubkey) (clk : Clock) (mint : Pubkey)
    (freezeAuthority : Option Pubkey) (args : InitMarketArgs) :
    Except ProgramError MarketState := do
  require (authority = cfg.govAuthority) .unauthorized
  require (freezeAuthority.isNone) .collateralHasFreezeAuthority
  require (MIN_MCR_BPS ≤ args.mcrBps ∧ args.mcrBps ≤ MAX_MCR_BPS) .paramOutOfBounds
  require (args.reserveLamports ≤ MAX_RESERVE_LAMPORTS) .paramOutOfBounds
  require (args.liqGasCompBps ≤ MAX_LIQ_GAS_COMP_BPS) .paramOutOfBounds
  require (args.liqBonusBps ≤ MAX_LIQ_BONUS_BPS) .paramOutOfBounds
  validateMarketConfig args.mcrBps DEFAULT_SCR_BPS args.liqBonusBps args.liqGasCompBps
  require (MIN_BUCKET_WIDTH_BPS ≤ args.bucketWidthBps ∧
    args.bucketWidthBps ≤ MAX_BUCKET_WIDTH_BPS) .paramOutOfBounds
  require (MAX_USER_RATE_BPS ≤ args.bucketWidthBps * NUM_RATE_BUCKETS) .paramOutOfBounds
  require (args.redemptionFeeBps ≤ MAX_REDEMPTION_FEE_BPS) .paramOutOfBounds
  pure
    { mint
      market := Market.birth args clk.unixTimestamp
      bitmap := .zeroed
      positions := ∅
      reactor := none
      buffer := none
      line := none
      coll := .empty
      donated := 0
      tally := ⟨0, 0⟩ }

/-! ## Effects -/

section Effects

variable {now : ℕ} {a a' : Accounts}

theorem validateParam_eq_ok {param : MarketParam} {value : ℕ} {u : Unit} :
    validateParam param value = .ok u ↔ param.InBounds value :=
  require_eq_ok

theorem applyParam_valid {m : Market} {param : MarketParam} {value : ℕ}
    (hm : m.toMarketParams.Valid) (h : param.InBounds value) :
    (applyParam m param value).toMarketParams.Valid := by
  cases param with
  | mcr =>
    obtain ⟨hge, hle⟩ := h
    have hfit : truncate 16 value = value := truncate_of_lt (hle.trans_lt (by decide))
    exact { hm with mcr_ge := hge.trans_eq hfit.symm }
  | liqGasComp =>
    have hfit : truncate 16 value = value := truncate_of_lt (lt_of_le_of_lt h (by decide))
    exact { hm with gas_le := hfit.trans_le h }
  | _ => exact { hm with }

theorem applyParam_eq (m : Market) (param : MarketParam) (value : ℕ) :
    ∃ gates : MarketGates, applyParam m param value =
      { m with
        toMarketParams := (applyParam m param value).toMarketParams
        toMarketGates := gates } := by
  cases param <;> exact ⟨_, rfl⟩

theorem executeParamChange_effect {clk : Clock} {param : MarketParam} {value : ℕ}
    (hi : Inv now a) (h : executeParamChange clk param value a = .ok a') :
    Effect now a a' := by
  simp only [executeParamChange, validateParamForMarket, bind_eq_ok_iff, pure_eq_ok] at h
  obtain ⟨_, ⟨_, hbounds, -⟩, rfl⟩ := h
  rw [validateParam_eq_ok] at hbounds
  obtain ⟨grace, hm₁⟩ : ∃ grace, (if param = .mcr ∧ a.state.market.mcrBps < truncate 16 value then
      { a.state.market with
        liqGraceUntil :=
          max a.state.market.liqGraceUntil (saturatingAdd 64 clk.slot MCR_RAISE_GRACE_SLOTS) }
      else a.state.market) = { a.state.market with liqGraceUntil := grace } := by
    split
    · exact ⟨_, rfl⟩
    · exact ⟨a.state.market.liqGraceUntil, rfl⟩
  rw [hm₁]
  obtain ⟨gates, heq⟩ := applyParam_eq { a.state.market with liqGraceUntil := grace } param value
  rw [heq]
  have hvalid : ({ a.state.market with liqGraceUntil := grace } : Market).toMarketParams.Valid :=
    hi.valid
  exact Effect.of_reset hi (applyParam_valid hvalid hbounds) gates a.state.market.shutdown

theorem initMarket_eq {cfg : Config} {authority mint : Pubkey} {clk : Clock}
    {freeze : Option Pubkey} {args : InitMarketArgs} {s : MarketState}
    (h : initMarket cfg authority clk mint freeze args = .ok s) :
    s = { mint
          market := Market.birth args clk.unixTimestamp
          bitmap := .zeroed
          positions := ∅
          reactor := none
          buffer := none
          line := none
          coll := .empty
          donated := 0
          tally := ⟨0, 0⟩ } := by
  simp only [initMarket, bind_eq_ok_iff, require_eq_ok, pure_eq_ok, exists_const] at h
  obtain ⟨-, -, -, -, -, -, _, -, -, -, -, rfl⟩ := h
  rfl

/-- A market at birth satisfies the invariant whatever the fUSD ledger holds. -/
theorem initMarket_inv {cfg : Config} {authority mint : Pubkey} {clk : Clock}
    {freeze : Option Pubkey} {args : InitMarketArgs} {s : MarketState}
    (fusd : TokenLedger FusdHolder) (bs : Option GlobalBackstopReserve)
    (h : initMarket cfg authority clk mint freeze args = .ok s) :
    s.mint = mint ∧ net s.market = 0 ∧ s.positions = ∅ ∧ s.reactor = none ∧
      Inv clk.unixTimestamp ⟨s, fusd, bs⟩ := by
  simp only [initMarket, bind_eq_ok_iff, require_eq_ok, pure_eq_ok, exists_const] at h
  obtain ⟨-, -, ⟨hmcr, -⟩, -, hgas, -, -, -, -, -, -, rfl⟩ := h
  have hnone : ∀ P : Position → Prop, Table.All P (∅ : Table Pubkey Position) := by
    intro P k v hv
    cases hv
  exact ⟨rfl, rfl, rfl, rfl,
    { book :=
        { weights := rfl
          weights_lt := Nat.two_pow_pos 128
          stakes := rfl
          surplus := rfl
          stake_le := hnone _
          snapshot_le := .inl rfl
          size := fun j _ ↦ RedemptionBitmap.size_zeroed j
          coupled := RedemptionBitmap.coupled_zeroed
          label := hnone _
          clock := le_rfl
          interest_behind := hnone _
          art_behind := hnone _
          coll_behind := hnone _
          debt_covered := by simp [Market.birth]
          debt_tight := by simp [Market.birth]
          coll_covered := by simp [Market.birth] }
      vault := rfl
      pool := by rintro _ ⟨⟩
      valid := ⟨hmcr, hgas⟩ }⟩

end Effects

end FusionCore
