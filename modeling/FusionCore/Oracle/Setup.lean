import FusionCore.Core.Governance
import FusionCore.Oracle.Feeds

/-!
# Binding and sampling the feeds of a market

Creating the oracle account of a market, rebinding its feeds, and the sampler of the observation
ring.  The thresholds have bounds of their own; the one that pauses liquidations is also bounded
below by the two that freeze minting.
-/

namespace FusionCore
namespace Oracle

open Checked

/-! ## Governed thresholds -/

def MAX_ORACLE_CONF_BPS : ℕ := 500

def MAX_ORACLE_DEVIATION_BPS : ℕ := 500

def MAX_TWAP_DIVERGENCE_BPS : ℕ := 1000

def MAX_LIQ_DIVERGENCE_BPS : ℕ := 10000

def MAX_ORACLE_MAX_AGE_SECS : ℕ := 3600

def MIN_ORACLE_K_BPS : ℕ := 10000

def MAX_ORACLE_K_BPS : ℕ := 30000

def MAX_TWAP_STALENESS_SECS : ℕ := 3600

/-- The thresholds that governance can move. -/
inductive OracleParam where
  | maxConf
  | maxDeviation
  | twapDivergence
  | liqDivergence
  | maxAge
  | k
  | twapStaleness
  deriving DecidableEq, Repr

def OracleParam.InBounds (value : ℕ) : OracleParam → Prop
  | .maxConf => 0 < value ∧ value ≤ MAX_ORACLE_CONF_BPS
  | .maxDeviation => 0 < value ∧ value ≤ MAX_ORACLE_DEVIATION_BPS
  | .twapDivergence => 0 < value ∧ value ≤ MAX_TWAP_DIVERGENCE_BPS
  | .liqDivergence => value ≤ MAX_LIQ_DIVERGENCE_BPS
  | .maxAge => 0 < value ∧ value ≤ MAX_ORACLE_MAX_AGE_SECS
  | .k => MIN_ORACLE_K_BPS ≤ value ∧ value ≤ MAX_ORACLE_K_BPS
  | .twapStaleness => 0 < value ∧ value ≤ MAX_TWAP_STALENESS_SECS

instance (value : ℕ) (param : OracleParam) : Decidable (param.InBounds value) := by
  cases param <;> unfold OracleParam.InBounds <;> infer_instance

def MarketOracle.current (o : MarketOracle) : OracleParam → ℕ
  | .maxConf => o.maxConfBps
  | .maxDeviation => o.maxDeviationBps
  | .twapDivergence => o.twapMaxDivergenceBps
  | .liqDivergence => o.liqMaxDivergenceBps
  | .maxAge => o.maxAgeSecs
  | .k => o.kBps
  | .twapStaleness => o.twapMaxStalenessSecs

/-- The pause of liquidations is off, or not twitchier than either freeze of minting. -/
def PauseLooser (liq twap deviation : ℕ) : Prop := liq = 0 ∨ twap ≤ liq ∧ deviation ≤ liq

instance (liq twap deviation : ℕ) : Decidable (PauseLooser liq twap deviation) :=
  inferInstanceAs (Decidable (_ ∨ _))

/-! ## Creating an oracle -/

def MIN_TWAP_WINDOW_SECS : ℕ := 300

def MAX_TWAP_WINDOW_SECS : ℕ := 86400

def MIN_TWAP_MIN_SAMPLES : ℕ := 3

def MIN_PRICE_BAND_RATIO : ℕ := 4

def MAX_LIQUIDITY_HAIRCUT_BPS : ℕ := 2000

/-- The four bindings of feeds. -/
structure FeedBindings where
  pythFeedId : Pubkey
  switchboardFeed : Pubkey
  orcaPool : Pubkey
  raydiumPool : Pubkey
  deriving DecidableEq, Repr

structure InitMarketOracleArgs extends FeedBindings where
  maxConfBps : ℕ
  maxDeviationBps : ℕ
  twapMaxDivergenceBps : ℕ
  maxAgeSecs : ℕ
  kBps : ℕ
  twapWindowSecs : ℕ
  twapMinSamples : ℕ
  twapMaxStalenessSecs : ℕ
  priceBandLowerRay : ℕ
  priceBandUpperRay : ℕ
  liqMaxDivergenceBps : ℕ
  lstStakePool : Pubkey
  canonicalPrimary : Bool
  liquidityHaircutBps : ℕ
  deriving DecidableEq, Repr

/-- Two pools that are both bound are distinct. -/
def FeedBindings.PoolsDistinct (b : FeedBindings) : Prop :=
  b.orcaPool = 0 ∨ b.raydiumPool = 0 ∨ b.orcaPool ≠ b.raydiumPool

instance (b : FeedBindings) : Decidable b.PoolsDistinct :=
  inferInstanceAs (Decidable (_ ∨ _))

/-- What each of the two modes demands of its bindings. -/
def InitMarketOracleArgs.checkMode (args : InitMarketOracleArgs) : Except ProgramError Unit :=
  if args.canonicalPrimary then do
    require (args.pythFeedId = PYTH_SOL_USD_FEED_ID) .paramOutOfBounds
    require (args.lstStakePool ≠ 0) .paramOutOfBounds
    require (args.orcaPool = 0 ∧ args.raydiumPool = 0) .paramOutOfBounds
    require (0 < args.liquidityHaircutBps ∧
      args.liquidityHaircutBps ≤ MAX_LIQUIDITY_HAIRCUT_BPS) .paramOutOfBounds
  else do
    require (args.orcaPool ≠ 0 ∨ args.raydiumPool ≠ 0) .paramOutOfBounds
    require (args.liquidityHaircutBps = 0) .paramOutOfBounds

/-- A band with both bounds is at least four times as wide as its lower bound. -/
def InitMarketOracleArgs.checkBand (args : InitMarketOracleArgs) : Except ProgramError Unit :=
  if args.priceBandLowerRay ≠ 0 ∧ args.priceBandUpperRay ≠ 0 then do
    let minUpper ← okOr (checkedMul 128 args.priceBandLowerRay MIN_PRICE_BAND_RATIO) .mathOverflow
    require (minUpper ≤ args.priceBandUpperRay) .paramOutOfBounds
  else pure ()

def InitMarketOracleArgs.oracle (args : InitMarketOracleArgs) (decimals : ℕ) (quoteMint : Pubkey)
    (quoteDecimals : ℕ) : MarketOracle where
  pythFeedId := args.pythFeedId
  switchboardFeed := args.switchboardFeed
  orcaPool := args.orcaPool
  raydiumPool := args.raydiumPool
  collateralDecimals := decimals
  quoteMint := quoteMint
  quoteDecimals := quoteDecimals
  maxConfBps := args.maxConfBps
  maxDeviationBps := args.maxDeviationBps
  twapMaxDivergenceBps := args.twapMaxDivergenceBps
  maxAgeSecs := args.maxAgeSecs
  kBps := args.kBps
  twapWindowSecs := args.twapWindowSecs
  twapMinSamples := args.twapMinSamples
  twapMaxStalenessSecs := args.twapMaxStalenessSecs
  priceBandLowerRay := args.priceBandLowerRay
  priceBandUpperRay := args.priceBandUpperRay
  liqMaxDivergenceBps := args.liqMaxDivergenceBps
  lstStakePool := args.lstStakePool
  canonicalPrimary := args.canonicalPrimary
  liquidityHaircutBps := args.liquidityHaircutBps
  lastCanonicalRateRay := 0

def initMarketOracle (cfg : Config) (authority mint : Pubkey) (decimals : ℕ) (quoteMint : Pubkey)
    (quoteDecimals : ℕ) (args : InitMarketOracleArgs) : Except ProgramError MarketOracle := do
  require (authority = cfg.govAuthority) .unauthorized
  require (args.pythFeedId ≠ 0) .paramOutOfBounds
  require (args.switchboardFeed ≠ 0) .paramOutOfBounds
  args.checkMode
  require args.PoolsDistinct .paramOutOfBounds
  require (quoteMint ≠ mint) .paramOutOfBounds
  require (OracleParam.maxConf.InBounds args.maxConfBps) .paramOutOfBounds
  require (OracleParam.maxDeviation.InBounds args.maxDeviationBps) .paramOutOfBounds
  require (OracleParam.twapDivergence.InBounds args.twapMaxDivergenceBps) .paramOutOfBounds
  require (OracleParam.maxAge.InBounds args.maxAgeSecs) .paramOutOfBounds
  require (OracleParam.k.InBounds args.kBps) .paramOutOfBounds
  require (MIN_TWAP_WINDOW_SECS ≤ args.twapWindowSecs ∧
    args.twapWindowSecs ≤ MAX_TWAP_WINDOW_SECS) .paramOutOfBounds
  require (MIN_TWAP_MIN_SAMPLES ≤ args.twapMinSamples ∧
    args.twapMinSamples ≤ TWAP_RING_CAPACITY) .paramOutOfBounds
  require (OracleParam.twapStaleness.InBounds args.twapMaxStalenessSecs) .paramOutOfBounds
  args.checkBand
  require (OracleParam.liqDivergence.InBounds args.liqMaxDivergenceBps) .paramOutOfBounds
  require (PauseLooser args.liqMaxDivergenceBps args.twapMaxDivergenceBps args.maxDeviationBps)
    .paramOutOfBounds
  require (args.lstStakePool = 0 ∨ decimals = 9) .paramOutOfBounds
  pure (args.oracle decimals quoteMint quoteDecimals)

/-! ## Rebinding -/

/-- Move the feed sources.  The checks are those of a market-feed oracle, whatever the mode. -/
def MarketOracle.rebind (o : MarketOracle) (b : FeedBindings) :
    Except ProgramError MarketOracle := do
  require (b.pythFeedId ≠ 0) .paramOutOfBounds
  require (b.switchboardFeed ≠ 0) .paramOutOfBounds
  require (b.orcaPool ≠ 0 ∨ b.raydiumPool ≠ 0) .paramOutOfBounds
  require b.PoolsDistinct .paramOutOfBounds
  pure { o with
    pythFeedId := b.pythFeedId
    switchboardFeed := b.switchboardFeed
    orcaPool := b.orcaPool
    raydiumPool := b.raydiumPool }

/-- A field that is `none` stays; only the alternative receiver may be switched off. -/
def OraclePrograms.update (ids : OraclePrograms) (pyth pythAlt switchboard : Option Pubkey) :
    Except ProgramError OraclePrograms := do
  require (∀ p ∈ pyth, p ≠ 0) .paramOutOfBounds
  require (∀ s ∈ switchboard, s ≠ 0) .paramOutOfBounds
  pure
    { pythReceiver := pyth.getD ids.pythReceiver
      pythReceiverAlt := pythAlt.getD ids.pythReceiverAlt
      switchboard := switchboard.getD ids.switchboard }

/-! ## Sampling -/

def SQRT_PRICE_MIN : ℕ := 4295048016

def SQRT_PRICE_MAX : ℕ := 79226673515401279992447579055

/-- The fields read from a pool; only one of the two venues stores the decimals. -/
structure PoolSample where
  sqrtPrice : ℕ
  mintA : Pubkey
  mintB : Pubkey
  decimals : Option (ℕ × ℕ)
  deriving DecidableEq, Repr

/-- The program that must own the pool, if the pool is one of the two bound ones. -/
def MarketOracle.venue (o : MarketOracle) (pool : Pubkey) : Option Pubkey :=
  if o.orcaPool ≠ 0 ∧ pool = o.orcaPool then some ORCA_WHIRLPOOL_PROGRAM_ID
  else if o.raydiumPool ≠ 0 ∧ pool = o.raydiumPool then some RAYDIUM_CLMM_PROGRAM_ID
  else none

/-- Dollars per collateral token, from whichever side of the pool the collateral is on. -/
def MarketOracle.poolPrice (o : MarketOracle) (mint : Pubkey) (s : PoolSample) :
    Except ProgramError ℕ := do
  require (s.mintA = mint ∧ s.mintB = o.quoteMint ∨ s.mintA = o.quoteMint ∧ s.mintB = mint)
    .invalidClmmPool
  let configured :=
    if s.mintA = mint then (o.collateralDecimals, o.quoteDecimals)
    else (o.quoteDecimals, o.collateralDecimals)
  require (∀ d ∈ s.decimals, d = configured) .invalidClmmPool
  let price ← okOr (sqrtPriceQ64ToRay s.sqrtPrice configured.1 configured.2) .mathOverflow
  if s.mintA = mint then pure price else okOr (rayDiv RAY price) .mathOverflow

/-- The least distance of two samples: a full ring then spans the window. -/
def MarketOracle.minInterval (o : MarketOracle) : ℕ :=
  (o.twapWindowSecs + (TWAP_RING_CAPACITY - 1) - 1) / (TWAP_RING_CAPACITY - 1)

def sampleTwap (clk : Clock) (mint : Pubkey) (pool : FeedAccount PoolSample) (o : MarketOracle)
    (ring : DexTwap) : Except ProgramError DexTwap := do
  let venue ← okOr (o.venue pool.key) .invalidClmmPool
  require (pool.owner = venue) .invalidClmmPool
  let sample ← okOr pool.data .invalidClmmPool
  require (SQRT_PRICE_MIN ≤ sample.sqrtPrice ∧ sample.sqrtPrice ≤ SQRT_PRICE_MAX) .invalidClmmPool
  let usdRay ← o.poolPrice mint sample
  require (0 < usdRay) .invalidClmmPool
  require (∀ last ∈ ring.last, (o.minInterval : ℤ) ≤ clk.unixTimestamp - last.ts)
    .twapSampleRejected
  (ring.push usdRay clk.unixTimestamp).mapError fun _ ↦ .twapSampleRejected

/-! ## The configuration at birth and after a rebind -/

/-- A configuration that initialisation and governance can produce: every governed threshold within
its bounds, the pause looser than the freezes, and the settings that stay as they were at birth. -/
structure MarketOracle.Valid (o : MarketOracle) : Prop where
  bounds : ∀ param : OracleParam, param.InBounds (o.current param)
  looser : PauseLooser o.liqMaxDivergenceBps o.twapMaxDivergenceBps o.maxDeviationBps
  window : MIN_TWAP_WINDOW_SECS ≤ o.twapWindowSecs ∧ o.twapWindowSecs ≤ MAX_TWAP_WINDOW_SECS
  samples : MIN_TWAP_MIN_SAMPLES ≤ o.twapMinSamples ∧ o.twapMinSamples ≤ TWAP_RING_CAPACITY
  band : o.priceBandLowerRay ≠ 0 ∧ o.priceBandUpperRay ≠ 0 →
    o.priceBandLowerRay * MIN_PRICE_BAND_RATIO ≤ o.priceBandUpperRay
  haircut : o.liquidityHaircutBps ≤ MAX_LIQUIDITY_HAIRCUT_BPS

/-- The settings that no instruction changes after birth. -/
def MarketOracle.fixed (o : MarketOracle) : ℕ × ℕ × ℕ × ℕ × ℕ :=
  (o.twapWindowSecs, o.twapMinSamples, o.priceBandLowerRay, o.priceBandUpperRay,
    o.liquidityHaircutBps)

section Results

variable {o o' : MarketOracle}

theorem InitMarketOracleArgs.checkMode_haircut {args : InitMarketOracleArgs} {u : Unit}
    (h : args.checkMode = .ok u) : args.liquidityHaircutBps ≤ MAX_LIQUIDITY_HAIRCUT_BPS := by
  rcases ite_eq_ok.mp h with ⟨-, h⟩ | ⟨-, h⟩
  · simp only [bind_eq_ok_iff, require_eq_ok, exists_const] at h
    exact h.2.2.2.2
  · simp only [bind_eq_ok_iff, require_eq_ok, exists_const] at h
    rw [h.2]
    exact Nat.zero_le _

theorem InitMarketOracleArgs.checkBand_width {args : InitMarketOracleArgs} {u : Unit}
    (h : args.checkBand = .ok u) (hset : args.priceBandLowerRay ≠ 0 ∧ args.priceBandUpperRay ≠ 0) :
    args.priceBandLowerRay * MIN_PRICE_BAND_RATIO ≤ args.priceBandUpperRay := by
  rcases ite_eq_ok.mp h with ⟨-, h⟩ | ⟨hnot, -⟩
  · simp only [bind_eq_ok_iff, okOr_eq_ok, checkedMul_eq_some, require_eq_ok] at h
    obtain ⟨_, ⟨-, rfl⟩, hle⟩ := h
    exact hle
  · exact absurd hset hnot

theorem initMarketOracle_valid {cfg : Config} {authority mint quoteMint : Pubkey}
    {decimals quoteDecimals : ℕ} {args : InitMarketOracleArgs}
    (h : initMarketOracle cfg authority mint decimals quoteMint quoteDecimals args = .ok o) :
    o.Valid := by
  simp only [initMarketOracle, bind_eq_ok_iff, require_eq_ok, pure_eq_ok, exists_const] at h
  obtain ⟨-, -, -, _, hmode, -, -, hconf, hdev, htwap, hage, hk, hwindow, hsamples, hstale, _,
    hband, hliq, hlooser, -, rfl⟩ := h
  refine ⟨fun param ↦ ?_, hlooser, hwindow, hsamples,
    InitMarketOracleArgs.checkBand_width hband, InitMarketOracleArgs.checkMode_haircut hmode⟩
  cases param with
  | maxConf => exact hconf
  | maxDeviation => exact hdev
  | twapDivergence => exact htwap
  | liqDivergence => exact hliq
  | maxAge => exact hage
  | k => exact hk
  | twapStaleness => exact hstale

theorem MarketOracle.Valid.of_current (h : o.Valid) (hcur : o'.current = o.current)
    (hfixed : o'.fixed = o.fixed) : o'.Valid := by
  have hliq : o'.liqMaxDivergenceBps = o.liqMaxDivergenceBps := congrFun hcur .liqDivergence
  have htwap : o'.twapMaxDivergenceBps = o.twapMaxDivergenceBps := congrFun hcur .twapDivergence
  have hdev : o'.maxDeviationBps = o.maxDeviationBps := congrFun hcur .maxDeviation
  simp only [MarketOracle.fixed, Prod.mk.injEq] at hfixed
  obtain ⟨hwindow, hsamples, hlower, hupper, hhaircut⟩ := hfixed
  constructor
  · intro param
    rw [hcur]
    exact h.bounds param
  · rw [hliq, htwap, hdev]
    exact h.looser
  · rw [hwindow]
    exact h.window
  · rw [hsamples]
    exact h.samples
  · rw [hlower, hupper]
    exact h.band
  · rw [hhaircut]
    exact h.haircut

theorem MarketOracle.rebind_spec {b : FeedBindings} (h : o.rebind b = .ok o') :
    o'.current = o.current ∧ o'.fixed = o.fixed ∧
      o'.lastCanonicalRateRay = o.lastCanonicalRateRay := by
  simp only [MarketOracle.rebind, bind_eq_ok_iff, require_eq_ok, pure_eq_ok, exists_const] at h
  obtain ⟨-, -, -, -, rfl⟩ := h
  refine ⟨?_, rfl, rfl⟩
  funext param
  cases param <;> rfl

theorem MarketOracle.remember_current (o : MarketOracle) (price : Option (ℕ × ℕ))
    (rate : Option ℕ) : (o.remember price rate).current = o.current ∧
      (o.remember price rate).fixed = o.fixed := by
  unfold MarketOracle.remember
  split
  · split
    · refine ⟨?_, rfl⟩
      funext param
      cases param <;> rfl
    · exact ⟨rfl, rfl⟩
  · exact ⟨rfl, rfl⟩

end Results

end Oracle
end FusionCore
