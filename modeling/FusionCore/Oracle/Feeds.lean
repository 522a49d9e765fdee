import FusionCore.Core.Admin
import FusionCore.Math.OracleScale
import FusionCore.Oracle.Aggregate
import FusionCore.Oracle.Twap

/-!
# Feeds and the price crank

The accounts a price update reads, how each of them is verified and normalised, and what the
update hands to the market.  The contents of foreign accounts are inputs: `none` stands for data
that does not parse.
-/

namespace FusionCore
namespace Oracle

open Checked

/-! ## Constants -/

/-- Names of the foreign programs and of the shared feed. -/
def SPL_STAKE_POOL_PROGRAM_ID : Pubkey := 9001

def FUSION_STAKE_POOL_PROGRAM_ID : Pubkey := 9002

def ORCA_WHIRLPOOL_PROGRAM_ID : Pubkey := 9003

def RAYDIUM_CLMM_PROGRAM_ID : Pubkey := 9004

def PYTH_SOL_USD_FEED_ID : Pubkey := 9005

def TWAP_RING_CAPACITY : ℕ := 64

def MAX_STAKE_POOL_EPOCH_LAG : ℕ := 2

def POOL_UPDATE_GRACE_DIVISOR : ℕ := 16

instance : NeZero TWAP_RING_CAPACITY := ⟨by decide⟩

/-! ## Accounts -/

/-- The oracle program ids of the configuration; a zero alternative receiver is off. -/
structure OraclePrograms where
  pythReceiver : Pubkey
  pythReceiverAlt : Pubkey
  switchboard : Pubkey
  deriving DecidableEq, Repr

/-- Feed bindings, thresholds and the rate memory of one market.  A zero key is unset. -/
structure MarketOracle where
  pythFeedId : Pubkey
  switchboardFeed : Pubkey
  orcaPool : Pubkey
  raydiumPool : Pubkey
  collateralDecimals : ℕ
  quoteMint : Pubkey
  quoteDecimals : ℕ
  maxConfBps : ℕ
  maxDeviationBps : ℕ
  twapMaxDivergenceBps : ℕ
  maxAgeSecs : ℕ
  kBps : ℕ
  twapWindowSecs : ℕ
  twapMinSamples : ℕ
  twapMaxStalenessSecs : ℕ
  priceBandLowerRay : ℕ
  priceBandUpperRay : ℕ
  liqMaxDivergenceBps : ℕ
  lstStakePool : Pubkey
  canonicalPrimary : Bool
  liquidityHaircutBps : ℕ
  lastCanonicalRateRay : ℕ
  deriving DecidableEq, Repr

abbrev DexTwap := ObservationRing TWAP_RING_CAPACITY

/-- A foreign account as the runtime hands it over. -/
structure FeedAccount (α : Type) where
  key : Pubkey
  owner : Pubkey
  data : Option α
  deriving DecidableEq, Repr

/-- A posted Pyth update; `full` is the verification level. -/
structure PythUpdate where
  full : Bool
  feedId : Pubkey
  price : ℤ
  conf : ℕ
  exponent : ℤ
  publishTime : ℤ
  deriving DecidableEq, Repr

structure SwitchboardResult where
  value : ℤ
  stdDev : ℤ
  slot : ℕ
  lastUpdateTimestamp : ℤ
  numSamples : ℕ
  minResponses : ℕ
  deriving DecidableEq, Repr

structure StakePoolSample where
  poolMint : Pubkey
  totalLamports : ℕ
  poolTokenSupply : ℕ
  lastUpdateEpoch : ℕ
  deriving DecidableEq, Repr

/-- The current epoch, as the epoch schedule describes it. -/
structure EpochSlots where
  firstSlot : ℕ
  slotsInEpoch : ℕ
  deriving DecidableEq, Repr

/-- What the caller of a price update passes. -/
structure PriceAccounts where
  pyth : FeedAccount PythUpdate
  switchboard : Option (FeedAccount SwitchboardResult)
  solUsd : Option (FeedAccount PythUpdate)
  stakePool : Option (FeedAccount StakePoolSample)
  epochSlots : EpochSlots
  deriving DecidableEq, Repr

/-! ## Parsing -/

/-- A wrong or unverified primary reverts; its age is left to the aggregate. -/
def parsePyth (acc : FeedAccount PythUpdate) (feedId : Pubkey) (ids : OraclePrograms) :
    Except ProgramError PriceView := do
  require (acc.owner = ids.pythReceiver ∨
    ids.pythReceiverAlt ≠ 0 ∧ acc.owner = ids.pythReceiverAlt) .invalidPriceUpdate
  let update ← okOr acc.data .invalidPriceUpdate
  require (update.full = true) .invalidPriceUpdate
  require (update.feedId = feedId) .invalidPriceUpdate
  require (0 < update.price) .invalidPriceUpdate
  let price ← okOr (pxToRay update.price.toNat update.exponent) .mathOverflow
  let conf ← okOr (pxToRay update.conf update.exponent) .mathOverflow
  pure ⟨price, conf, 0, update.publishTime⟩

/-- A wrong secondary account reverts; a degraded value counts as absent. -/
def parseSwitchboard (acc : FeedAccount SwitchboardResult) (expected : Pubkey)
    (ids : OraclePrograms) : Except ProgramError (Option PriceView) := do
  require (acc.owner = ids.switchboard) .invalidSwitchboardFeed
  require (acc.key = expected) .invalidSwitchboardFeed
  let feed ← okOr acc.data .invalidSwitchboardFeed
  pure <|
    if feed.slot = 0 ∨ feed.value ≤ 0 then none
    else if feed.numSamples < max feed.minResponses 1 then none
    else do
      let price ← pxToRay feed.value.toNat (-18)
      let conf ← pxToRay (max feed.stdDev 0).toNat (-18)
      pure ⟨price, conf, 0, feed.lastUpdateTimestamp⟩

/-- A pool with an empty side has no rate. -/
def StakePoolSample.nonDegenerate (s : StakePoolSample) : Bool :=
  decide (s.poolTokenSupply ≠ 0) && decide (s.totalLamports ≠ 0)

/-- A wrong pool account reverts; an absent, unreadable, lagging or foreign pool is unavailable. -/
def parseBoundStakePool (acc : Option (FeedAccount StakePoolSample)) (expected owner mint : Pubkey)
    (epoch : ℕ) : Except ProgramError (Option StakePoolSample) :=
  match acc with
  | none => pure none
  | some acc => do
    require (acc.owner = owner) .invalidStakePool
    require (acc.key = expected) .invalidStakePool
    pure (acc.data.filter fun s ↦ s.nonDegenerate &&
      decide (epoch - s.lastUpdateEpoch ≤ MAX_STAKE_POOL_EPOCH_LAG) && decide (s.poolMint = mint))

/-- The pool was finalised in this epoch, or in the last one while this epoch is young. -/
def withinPoolUpdateGrace (lastUpdateEpoch : ℕ) (clk : Clock) (epochSlots : EpochSlots) : Bool :=
  decide (clk.epoch ≤ lastUpdateEpoch) ||
    (decide (saturatingAdd 64 lastUpdateEpoch 1 = clk.epoch) &&
      decide (clk.slot - epochSlots.firstSlot ≤
        epochSlots.slotsInEpoch / POOL_UPDATE_GRACE_DIVISOR))

/-- A SOL price turned into the price of a pool token. -/
def scaleView (v : PriceView) (totalLamports poolTokenSupply : ℕ) : Option PriceView :=
  if totalLamports = 0 ∨ poolTokenSupply = 0 then none
  else do
    let price ← mulDivFloor v.price totalLamports poolTokenSupply
    let conf ← mulDivFloor v.conf totalLamports poolTokenSupply
    pure { v with price, conf }

/-- The canonical valuation of a liquid-staking token, if both of its legs are available. -/
def computeCanonical (ids : OraclePrograms) (clk : Clock) (mint : Pubkey) (accs : PriceAccounts)
    (o : MarketOracle) : Except ProgramError (Option ℕ) :=
  match accs.solUsd with
  | none => pure none
  | some acc => do
    let sol ← parsePyth acc PYTH_SOL_USD_FEED_ID ids
    if sol.isStale clk.unixTimestamp o.maxAgeSecs then pure none
    else do
      let sample ← parseBoundStakePool accs.stakePool o.lstStakePool SPL_STAKE_POOL_PROGRAM_ID mint
        clk.epoch
      pure (sample.bind fun s ↦ mulDivFloor sol.price s.totalLamports s.poolTokenSupply)

/-! ## The crank -/

def MarketOracle.config (o : MarketOracle) : OracleConfig where
  maxConfBps := o.maxConfBps
  maxDeviationBps := o.maxDeviationBps
  twapMaxDivergenceBps := o.twapMaxDivergenceBps
  maxAgeSecs := o.maxAgeSecs
  kBps := o.kBps
  bandLowerRay := o.priceBandLowerRay
  bandUpperRay := o.priceBandUpperRay
  liqMaxDivergenceBps := o.liqMaxDivergenceBps
  canonicalRequired := !o.canonicalPrimary && decide (o.lstStakePool ≠ 0)
  twapCorridorOptional := o.canonicalPrimary

def MarketOracle.corridor (o : MarketOracle) (ring : DexTwap) (now : ℤ) : Option ℕ :=
  ring.twap now o.twapWindowSecs ⟨o.twapMinSamples, o.twapMaxStalenessSecs⟩

/-- The haircut of a canonical-primary market lowers the low price only. -/
def MarketOracle.haircut (o : MarketOracle) (price : ℕ) : Option ℕ :=
  if o.canonicalPrimary = true ∧ 0 < o.liquidityHaircutBps then
    mulDivFloor price (BPS_DENOMINATOR - o.liquidityHaircutBps) BPS_DENOMINATOR
  else some price

/-- The views an update aggregates, and the pool rate it composed into them. -/
structure Views where
  pyth : PriceView
  switchboard : Option PriceView
  canonical : Option ℕ
  rate : Option ℕ
  deriving DecidableEq, Repr

/-- Compose the pool rate into both views; without a rate there is nothing to aggregate. -/
def composeViews (clk : Clock) (mint : Pubkey) (accs : PriceAccounts) (o : MarketOracle)
    (pyth : PriceView) (switchboard : Option PriceView) : Except ProgramError (Option Views) := do
  let sample ← parseBoundStakePool accs.stakePool o.lstStakePool FUSION_STAKE_POOL_PROGRAM_ID mint
    clk.epoch
  match sample.filter fun s ↦ withinPoolUpdateGrace s.lastUpdateEpoch clk accs.epochSlots with
  | none => pure none
  | some s => do
    let rate ← okOr (mulDivFloor RAY s.totalLamports s.poolTokenSupply) .mathOverflow
    let pyth ← okOr (scaleView pyth s.totalLamports s.poolTokenSupply) .mathOverflow
    let switchboard ← (match switchboard with
      | none => pure none
      | some v => do
        let v ← okOr (scaleView v s.totalLamports s.poolTokenSupply) .mathOverflow
        pure (some v))
    pure (some ⟨pyth, switchboard, none, some rate⟩)

def readViews (ids : OraclePrograms) (clk : Clock) (mint : Pubkey) (accs : PriceAccounts)
    (o : MarketOracle) : Except ProgramError (Option Views) := do
  let pyth ← parsePyth accs.pyth o.pythFeedId ids
  let switchboard ← (match accs.switchboard with
    | none => pure none
    | some acc => parseSwitchboard acc o.switchboardFeed ids)
  if o.canonicalPrimary then composeViews clk mint accs o pyth switchboard
  else do
    let canonical ← (if o.lstStakePool ≠ 0 then computeCanonical ids clk mint accs o
      else pure none)
    pure (some ⟨pyth, switchboard, canonical, none⟩)

/-- The aggregate an update computes from its views. -/
def MarketOracle.assess (o : MarketOracle) (ring : DexTwap) (now : ℤ) (v : Views) : OracleResult :=
  aggregate v.pyth v.switchboard (o.corridor ring now) v.canonical now o.config

/-- The low and the high price of a fresh and plausible aggregate. -/
def MarketOracle.priceOf (o : MarketOracle) (decimals : ℕ) (r : OracleResult) :
    Except ProgramError (Option (ℕ × ℕ)) :=
  if r.fresh = true ∧ r.isPlausible = true then do
    let low ← okOr (o.haircut r.collateralPrice) .mathOverflow
    let spot ← okOr (usdRayToSpot low decimals FUSD_DECIMALS) .mathOverflow
    let debtSpot ← okOr (usdRayToSpot r.debtPrice decimals FUSD_DECIMALS) .mathOverflow
    pure (some (spot, debtSpot))
  else pure none

/-- The pool rate is below the one stored before. -/
def MarketOracle.rateFell (o : MarketOracle) (rate : Option ℕ) : Bool :=
  rate.any fun new ↦ decide (0 < o.lastCanonicalRateRay) && decide (new < o.lastCanonicalRateRay)

/-- A committed price stores the rate it was composed with. -/
def MarketOracle.remember (o : MarketOracle) (price : Option (ℕ × ℕ)) (rate : Option ℕ) :
    MarketOracle :=
  match price, rate with
  | some (spot, _), some new => if 0 < spot then { o with lastCanonicalRateRay := new } else o
  | _, _ => o

/-- What an update hands to the market, and the oracle after it. -/
def priceUpdate (ids : OraclePrograms) (clk : Clock) (mint : Pubkey) (decimals : ℕ)
    (accs : PriceAccounts) (o : MarketOracle) (ring : DexTwap) :
    Except ProgramError (Option PriceCommit × MarketOracle) := do
  match ← readViews ids clk mint accs o with
  | none => pure (none, o)
  | some v => do
    let r := o.assess ring clk.unixTimestamp v
    let price ← o.priceOf decimals r
    pure (some ⟨decide (r.mode ≠ .ok), r.liqDivergent, price, o.rateFell v.rate⟩,
      o.remember price v.rate)

/-! ## What an update commits -/

section Results

variable {ids : OraclePrograms} {clk : Clock} {mint : Pubkey} {decimals : ℕ}
  {accs : PriceAccounts} {o o' : MarketOracle} {ring : DexTwap}

theorem parsePyth_lt {acc : FeedAccount PythUpdate} {feedId : Pubkey} {v : PriceView}
    (h : parsePyth acc feedId ids = .ok v) : v.price < 2 ^ 128 := by
  simp only [parsePyth, bind_eq_ok_iff, okOr_eq_ok, require_eq_ok, pure_eq_ok, exists_const] at h
  obtain ⟨-, update, -, -, -, -, price, hprice, conf, -, rfl⟩ := h
  exact pxToRay_lt hprice

theorem parseSwitchboard_lt {acc : FeedAccount SwitchboardResult} {expected : Pubkey}
    {r : Option PriceView} (h : parseSwitchboard acc expected ids = .ok r) :
    ∀ v ∈ r, v.price < 2 ^ 128 := by
  simp only [parseSwitchboard, bind_eq_ok_iff, okOr_eq_ok, require_eq_ok, pure_eq_ok,
    exists_const] at h
  obtain ⟨-, -, feed, -, rfl⟩ := h
  intro v hv
  split at hv
  · cases hv
  · split at hv
    · cases hv
    · simp only [Option.bind_eq_bind, Option.mem_def, Option.bind_eq_some_iff, Option.pure_def,
        Option.some.injEq] at hv
      obtain ⟨price, hprice, conf, -, rfl⟩ := hv
      exact pxToRay_lt hprice

theorem scaleView_lt {v v' : PriceView} {lamports supply : ℕ}
    (h : scaleView v lamports supply = some v') : v'.price < 2 ^ 128 := by
  unfold scaleView at h
  split at h
  · cases h
  · simp only [Option.bind_eq_bind, Option.bind_eq_some_iff, Option.pure_def,
      Option.some.injEq, mulDivFloor_eq_some] at h
    obtain ⟨price, ⟨-, hfit, -⟩, conf, -, rfl⟩ := h
    exact hfit

theorem readViews_lt {v : Views} (h : readViews ids clk mint accs o = .ok (some v)) :
    v.pyth.price < 2 ^ 128 ∧ ∀ s ∈ v.switchboard, s.price < 2 ^ 128 := by
  simp only [readViews, bind_eq_ok_iff] at h
  obtain ⟨pyth, hpyth, sb, hsb, h⟩ := h
  have hsecond : ∀ s ∈ sb, s.price < 2 ^ 128 := by
    cases hacc : accs.switchboard with
    | none =>
      rw [hacc] at hsb
      obtain rfl := pure_eq_ok.mp hsb
      rintro s ⟨⟩
    | some acc =>
      rw [hacc] at hsb
      exact parseSwitchboard_lt hsb
  rcases ite_eq_ok.mp h with ⟨-, h⟩ | ⟨-, h⟩
  · simp only [composeViews, bind_eq_ok_iff] at h
    obtain ⟨sample, -, h⟩ := h
    split at h
    next =>
      cases pure_eq_ok.mp h
    next s _ =>
      simp only [bind_eq_ok_iff, okOr_eq_ok, pure_eq_ok, Option.some.injEq] at h
      obtain ⟨rate, -, pyth', hscale, sb', hmap, rfl⟩ := h
      refine ⟨scaleView_lt hscale, ?_⟩
      intro w hw
      cases sb with
      | none =>
        obtain rfl := pure_eq_ok.mp hmap
        cases hw
      | some u =>
        simp only [bind_eq_ok_iff, okOr_eq_ok, pure_eq_ok] at hmap
        obtain ⟨u', hu', rfl⟩ := hmap
        obtain rfl := Option.some.inj hw
        exact scaleView_lt hu'
  · simp only [bind_eq_ok_iff, pure_eq_ok, Option.some.injEq] at h
    obtain ⟨canonical, -, rfl⟩ := h
    exact ⟨parsePyth_lt hpyth, hsecond⟩

theorem MarketOracle.haircut_le {price low : ℕ} (h : o.haircut price = some low) : low ≤ price := by
  unfold MarketOracle.haircut at h
  split at h
  · obtain ⟨-, -, rfl⟩ := mulDivFloor_eq_some.mp h
    apply Nat.div_le_of_le_mul
    rw [Nat.mul_comm]
    exact Nat.mul_le_mul_right price (Nat.sub_le _ _)
  · exact (Option.some.inj h).ge

/-- Everything an update can do. -/
inductive PriceMove (ids : OraclePrograms) (clk : Clock) (mint : Pubkey) (decimals : ℕ)
    (accs : PriceAccounts) (o : MarketOracle) (ring : DexTwap) :
    Option PriceCommit → MarketOracle → Prop where
  | withheld (hviews : readViews ids clk mint accs o = .ok none) :
      PriceMove ids clk mint decimals accs o ring none o
  | assessed (v : Views) (price : Option (ℕ × ℕ))
      (hviews : readViews ids clk mint accs o = .ok (some v))
      (hprice : o.priceOf decimals (o.assess ring clk.unixTimestamp v) = .ok price) :
      PriceMove ids clk mint decimals accs o ring
        (some ⟨decide ((o.assess ring clk.unixTimestamp v).mode ≠ .ok),
          (o.assess ring clk.unixTimestamp v).liqDivergent, price, o.rateFell v.rate⟩)
        (o.remember price v.rate)

theorem priceUpdate_cases {c : Option PriceCommit}
    (h : priceUpdate ids clk mint decimals accs o ring = .ok (c, o')) :
    PriceMove ids clk mint decimals accs o ring c o' := by
  simp only [priceUpdate, bind_eq_ok_iff] at h
  obtain ⟨views, hviews, h⟩ := h
  cases views with
  | none =>
    obtain ⟨rfl, rfl⟩ := Prod.mk.inj (pure_eq_ok.mp h)
    exact .withheld hviews
  | some v =>
    simp only [bind_eq_ok_iff, pure_eq_ok, Prod.mk.injEq] at h
    obtain ⟨price, hprice, rfl, rfl⟩ := h
    exact .assessed v price hviews hprice

/-- The low price committed never exceeds the high one, which fits its field. -/
theorem priceUpdate_ordered {c : PriceCommit} {spot debtSpot : ℕ}
    (h : priceUpdate ids clk mint decimals accs o ring = .ok (some c, o'))
    (hc : c.price = some (spot, debtSpot)) : spot ≤ debtSpot ∧ debtSpot < 2 ^ 128 := by
  cases priceUpdate_cases h with
  | assessed v price hviews hprice =>
    obtain ⟨hpyth, hsb⟩ := readViews_lt hviews
    obtain rfl : price = some (spot, debtSpot) := hc
    rcases ite_eq_ok.mp hprice with ⟨-, hprice⟩ | ⟨-, hprice⟩
    · simp only [bind_eq_ok_iff, okOr_eq_ok, pure_eq_ok, Option.some.injEq, Prod.mk.injEq]
        at hprice
      obtain ⟨low, hlow, _, hspot, _, hdebt, rfl, rfl⟩ := hprice
      refine ⟨usdRayToSpot_mono ?_ hspot hdebt, usdRayToSpot_lt hdebt⟩
      exact (MarketOracle.haircut_le hlow).trans (aggregate_collateralPrice_le hpyth hsb)
    · cases pure_eq_ok.mp hprice

end Results

end Oracle
end FusionCore
