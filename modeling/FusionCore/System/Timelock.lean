import FusionCore.Core.Protocol
import FusionCore.Oracle.Setup

/-!
# Governed changes

A change of a market parameter or of an oracle threshold is checked twice: when it is queued,
and again, against the configuration of that moment, when its time has come.  The second check
makes the order of queued changes irrelevant.
-/

namespace FusionCore

open Checked Oracle

def MIN_GOV_TIMELOCK_SECS : ℕ := 0

def MAX_GOV_TIMELOCK_SECS : ℕ := 2592000

/-- Everything that a market's governance can move, on the market or on its oracle. -/
inductive GovernedParam where
  | market (param : MarketParam)
  | oracle (param : OracleParam)
  deriving DecidableEq, Repr

/-- A threshold needs the oracle in scope.  The pause of liquidations stays at least as loose as
the two freezes of minting. -/
def validateOracleParam (oracle : Option MarketOracle) (param : OracleParam) (value : ℕ) :
    Except ProgramError Unit := do
  require (param.InBounds value) .paramOutOfBounds
  let o ← okOr oracle .paramCombinationInvalid
  match param with
  | .twapDivergence | .maxDeviation =>
    require (o.liqMaxDivergenceBps = 0 ∨ value ≤ o.liqMaxDivergenceBps) .paramCombinationInvalid
  | .liqDivergence =>
    require (value = 0 ∨ o.twapMaxDivergenceBps ≤ value ∧ o.maxDeviationBps ≤ value)
      .paramCombinationInvalid
  | _ => pure ()

def applyOracleParam (o : MarketOracle) (param : OracleParam) (value : ℕ) : MarketOracle :=
  match param with
  | .maxConf => { o with maxConfBps := truncate 16 value }
  | .maxDeviation => { o with maxDeviationBps := truncate 16 value }
  | .twapDivergence => { o with twapMaxDivergenceBps := truncate 16 value }
  | .liqDivergence => { o with liqMaxDivergenceBps := truncate 16 value }
  | .maxAge => { o with maxAgeSecs := value }
  | .k => { o with kBps := truncate 16 value }
  | .twapStaleness => { o with twapMaxStalenessSecs := value }

def validateGovernedParam (m : Market) (oracle : Option MarketOracle) (param : GovernedParam)
    (value : ℕ) : Except ProgramError Unit :=
  match param with
  | .market param => validateParamForMarket m param value
  | .oracle param => validateOracleParam oracle param value

/-- The gate that the queues of all markets share; the live authority is the one of the
configuration. -/
structure GovernanceGate where
  pendingInboundAuthority : Pubkey
  timelockSecs : ℕ
  queueNonce : ℕ
  deriving DecidableEq, Repr

/-- When a change queued at `now` may be executed. -/
def GovernanceGate.eta (g : GovernanceGate) (now : ℕ) : ℕ :=
  min (now + g.timelockSecs) (2 ^ 63 - 1)

/-- A queued change; its account is derived from its nonce. -/
structure TimelockedParam where
  eta : ℕ
  market : Pubkey
  param : GovernedParam
  value : UInt64
  deriving DecidableEq, Repr

structure TimelockedGlobalParam where
  eta : ℕ
  param : GlobalParam
  value : UInt64
  deriving DecidableEq, Repr

/-! ## Joint validity -/

/-- The three relations between the parameters that decide a liquidation. -/
structure MarketParams.Consistent (p : MarketParams) : Prop where
  collar : p.liqBonusBps = 0 ∨ BPS_DENOMINATOR + p.liqBonusBps ≤ p.mcrBps
  product : 100000000 ≤ (if p.liqBonusBps = 0 then p.mcrBps
    else min (BPS_DENOMINATOR + p.liqBonusBps) p.mcrBps) * (BPS_DENOMINATOR - p.liqGasCompBps)
  ordered : p.scrBps ≤ p.mcrBps

def MarketParams.current (p : MarketParams) : MarketParam → ℕ
  | .mcr => p.mcrBps
  | .debtCeiling => p.debtCeiling
  | .redemptionFee => p.redemptionFeeBps
  | .liqGasComp => p.liqGasCompBps
  | .rateLimitCap => p.rlCap
  | .ccr => p.ccrBps
  | .liqBonus => p.liqBonusBps
  | .minDebt => p.minDebt
  | .rateAdjustCooldown => p.rateAdjustCooldownSecs
  | .keeperReward => p.keeperRewardBps
  | .borrowFee => p.borrowFeeBps
  | .badDebtPaydown => p.badDebtPaydownBps
  | .redemptionBaseRateMax => p.redemptionBaseRateMaxBps
  | .scr => p.scrBps

/-- A market configuration that initialisation and governance can produce: every governed
parameter within its bounds, the two that are fixed at birth as well, and the relations. -/
structure MarketParams.Governed (p : MarketParams) : Prop where
  bounds : ∀ param : MarketParam, param.InBounds (p.current param)
  reserve_le : p.reserveLamports ≤ MAX_RESERVE_LAMPORTS
  bucketWidth : MIN_BUCKET_WIDTH_BPS ≤ p.bucketWidthBps ∧ p.bucketWidthBps ≤ MAX_BUCKET_WIDTH_BPS
  rates : MAX_USER_RATE_BPS ≤ p.bucketWidthBps * NUM_RATE_BUCKETS
  consistent : p.Consistent

section Results

variable {m : Market} {param : MarketParam} {value : ℕ} {u : Unit}

theorem validateMarketConfig_eq_ok {p : MarketParams} :
    validateMarketConfig p.mcrBps p.scrBps p.liqBonusBps p.liqGasCompBps = .ok u ↔
      p.Consistent := by
  simp only [validateMarketConfig, bind_eq_ok_iff, require_eq_ok, exists_const]
  constructor
  · rintro ⟨h₁, h₂, h₃⟩
    exact ⟨h₁, h₂, h₃⟩
  · rintro ⟨h₁, h₂, h₃⟩
    exact ⟨h₁, h₂, h₃⟩

theorem applyParam_current (h : param.InBounds value) :
    (applyParam m param value).toMarketParams.current =
      Function.update m.toMarketParams.current param value := by
  have hfit : ∀ {bound : ℕ}, value ≤ bound → bound < 2 ^ 16 → truncate 16 value = value :=
    fun hle hlt ↦ truncate_of_lt (hle.trans_lt hlt)
  have hstored : (applyParam m param value).toMarketParams.current param = value := by
    cases param with
    | mcr => exact hfit h.2 (by decide)
    | redemptionFee => exact hfit h (by decide)
    | liqGasComp => exact hfit h (by decide)
    | ccr =>
      rcases h with rfl | h
      · rfl
      · exact hfit h.2 (by decide)
    | liqBonus => exact hfit h (by decide)
    | keeperReward => exact hfit h (by decide)
    | borrowFee => exact hfit h (by decide)
    | badDebtPaydown => exact hfit h (by decide)
    | redemptionBaseRateMax => exact hfit h (by decide)
    | scr => exact hfit h.2 (by decide)
    | debtCeiling | rateLimitCap | minDebt | rateAdjustCooldown => rfl
  funext q
  by_cases hq : q = param
  · subst hq
    rw [Function.update_self]
    exact hstored
  · rw [Function.update_of_ne hq]
    cases param <;> cases q <;> first | rfl | exact absurd rfl hq

theorem applyParam_governed (hm : m.toMarketParams.Governed)
    (h : validateParamForMarket m param value = .ok u) :
    (applyParam m param value).toMarketParams.Governed := by
  simp only [validateParamForMarket, bind_eq_ok_iff, validateParam_eq_ok, exists_const] at h
  obtain ⟨hbounds, hrel⟩ := h
  have hcurrent := applyParam_current (m := m) hbounds
  have hstored : (applyParam m param value).toMarketParams.current param = value := by
    rw [hcurrent, Function.update_self]
  refine ⟨?_, ?_, ?_, ?_, ?_⟩
  · intro q
    rw [hcurrent]
    by_cases hq : q = param
    · rw [hq, Function.update_self]
      exact hbounds
    · rw [Function.update_of_ne hq]
      exact hm.bounds q
  · cases param <;> exact hm.reserve_le
  · cases param <;> exact hm.bucketWidth
  · cases param <;> exact hm.rates
  · -- the relations are checked again exactly when one of their four fields moves
    cases param with
    | mcr =>
      refine (validateMarketConfig_eq_ok (u := u)).mp ?_
      change truncate 16 value = value at hstored
      change validateMarketConfig (truncate 16 value) _ _ _ = _
      rw [hstored]
      exact hrel
    | scr =>
      refine (validateMarketConfig_eq_ok (u := u)).mp ?_
      change truncate 16 value = value at hstored
      change validateMarketConfig _ (truncate 16 value) _ _ = _
      rw [hstored]
      exact hrel
    | liqBonus =>
      refine (validateMarketConfig_eq_ok (u := u)).mp ?_
      change truncate 16 value = value at hstored
      change validateMarketConfig _ _ (truncate 16 value) _ = _
      rw [hstored]
      exact hrel
    | liqGasComp =>
      refine (validateMarketConfig_eq_ok (u := u)).mp ?_
      change truncate 16 value = value at hstored
      change validateMarketConfig _ _ _ (truncate 16 value) = _
      rw [hstored]
      exact hrel
    | _ => exact { hm.consistent with }

/-- The ceiling has no bounds and is in no relation. -/
theorem MarketParams.Governed.of_eq {p p' : MarketParams} (hp : p.Governed)
    (heq : { p' with debtCeiling := 0 } = { p with debtCeiling := 0 }) : p'.Governed := by
  have hfield : ∀ f : MarketParams → ℕ, f { p' with debtCeiling := 0 } =
      f { p with debtCeiling := 0 } := fun f ↦ congrArg f heq
  have hcurrent : ∀ param, param ≠ .debtCeiling → p'.current param = p.current param := by
    intro param hne
    have hcur := hfield fun q ↦ q.current param
    cases param <;> first | exact hcur | exact absurd rfl hne
  have hmcr := hcurrent .mcr (by simp)
  have hscr := hcurrent .scr (by simp)
  have hbonus := hcurrent .liqBonus (by simp)
  have hgas := hcurrent .liqGasComp (by simp)
  have hreserve : p'.reserveLamports = p.reserveLamports := hfield MarketParams.reserveLamports
  have hwidth : p'.bucketWidthBps = p.bucketWidthBps := hfield MarketParams.bucketWidthBps
  simp only [MarketParams.current] at hmcr hscr hbonus hgas
  refine ⟨?_, hreserve ▸ hp.reserve_le, hwidth ▸ hp.bucketWidth, hwidth ▸ hp.rates, ?_⟩
  · intro param
    by_cases hceil : param = .debtCeiling
    · subst hceil
      trivial
    · rw [hcurrent param hceil]
      exact hp.bounds param
  · obtain ⟨hcollar, hproduct, hordered⟩ := hp.consistent
    constructor
    · rw [hmcr, hbonus]
      exact hcollar
    · rw [hmcr, hbonus, hgas]
      exact hproduct
    · rw [hmcr, hscr]
      exact hordered

theorem initMarket_governed {cfg : Config} {authority mint : Pubkey} {clk : Clock}
    {freeze : Option Pubkey} {args : InitMarketArgs} {s : MarketState}
    (h : initMarket cfg authority clk mint freeze args = .ok s) :
    s.market.toMarketParams.Governed := by
  simp only [initMarket, bind_eq_ok_iff, require_eq_ok, pure_eq_ok, exists_const] at h
  obtain ⟨-, -, hmcr, hreserve, hgas, hbonus, _, hconfig, hwidth, hrates, hfee, rfl⟩ := h
  refine ⟨?_, hreserve, hwidth, hrates, validateMarketConfig_eq_ok.mp hconfig⟩
  intro param
  cases param with
  | mcr => exact hmcr
  | redemptionFee => exact hfee
  | liqGasComp => exact hgas
  | liqBonus => exact hbonus
  | ccr => exact .inl rfl
  | scr =>
    change MIN_SCR_BPS ≤ DEFAULT_SCR_BPS ∧ DEFAULT_SCR_BPS ≤ MAX_SCR_BPS
    decide
  | debtCeiling | rateLimitCap => trivial
  | minDebt | rateAdjustCooldown | keeperReward | borrowFee | badDebtPaydown
  | redemptionBaseRateMax => exact Nat.zero_le _

theorem applyOracleParam_valid {o : MarketOracle} {param : OracleParam} (ho : o.Valid)
    (h : validateOracleParam (some o) param value = .ok u) :
    (applyOracleParam o param value).Valid := by
  simp only [validateOracleParam, bind_eq_ok_iff, require_eq_ok, okOr_eq_ok, exists_const,
    Option.some.injEq, exists_eq_left'] at h
  obtain ⟨hbounds, hrel⟩ := h
  have hfit : ∀ {bound : ℕ}, value ≤ bound → bound < 2 ^ 16 → truncate 16 value = value :=
    fun hle hlt ↦ truncate_of_lt (hle.trans_lt hlt)
  have hstored : (applyOracleParam o param value).current param = value := by
    cases param with
    | maxConf => exact hfit hbounds.2 (by decide)
    | maxDeviation => exact hfit hbounds.2 (by decide)
    | twapDivergence => exact hfit hbounds.2 (by decide)
    | liqDivergence => exact hfit hbounds (by decide)
    | k => exact hfit hbounds.2 (by decide)
    | maxAge | twapStaleness => rfl
  refine ⟨?_, ?_, ?_, ?_, ?_, ?_⟩
  · intro q
    by_cases hq : q = param
    · rw [hq, hstored]
      exact hbounds
    · have hkeep : (applyOracleParam o param value).current q = o.current q := by
        cases param <;> cases q <;> first | rfl | exact absurd rfl hq
      rw [hkeep]
      exact ho.bounds q
  · cases param with
    | twapDivergence =>
      change truncate 16 value = value at hstored
      change PauseLooser _ (truncate 16 value) _
      rw [hstored]
      rcases require_eq_ok.mp hrel with hoff | hle
      · exact .inl hoff
      · exact ho.looser.imp_right fun hold ↦ ⟨hle, hold.2⟩
    | maxDeviation =>
      change truncate 16 value = value at hstored
      change PauseLooser _ _ (truncate 16 value)
      rw [hstored]
      rcases require_eq_ok.mp hrel with hoff | hle
      · exact .inl hoff
      · exact ho.looser.imp_right fun hold ↦ ⟨hold.1, hle⟩
    | liqDivergence =>
      change truncate 16 value = value at hstored
      change PauseLooser (truncate 16 value) _ _
      rw [hstored]
      exact require_eq_ok.mp hrel
    | _ => exact ho.looser
  · cases param <;> exact ho.window
  · cases param <;> exact ho.samples
  · cases param <;> exact ho.band
  · cases param <;> exact ho.haircut

end Results

end FusionCore
