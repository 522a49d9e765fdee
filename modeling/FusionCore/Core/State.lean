import FusionCore.Lib.TokenLedger
import FusionCore.Math.Redistribution
import FusionCore.Math.RateBucket
import FusionCore.Math.ReactorPool

/-!
# Accounts of the fusd-core program

The on-chain accounts that the instructions read and write.  Amounts are natural
numbers; the width of each field is the one of the source and is enforced by the
checked operations of the handlers.  Timestamps and slots are non-negative, as the
cluster clock delivers them.
-/

namespace FusionCore

abbrev Pubkey := ℕ

/-- The cluster clock an instruction reads. -/
structure Clock where
  slot : ℕ
  unixTimestamp : ℕ
  epoch : ℕ
  deriving DecidableEq, Repr

/-- Failures of an instruction: the program's own error codes, followed by the failures of the
token program and of account loading. -/
inductive ProgramError where
  | unauthorized
  | paramOutOfBounds
  | oracleUnavailable
  | stalePrice
  | belowMinCollateralRatio
  | debtCeilingExceeded
  | zeroAmount
  | insufficientCollateral
  | positionHealthy
  | reactorPoolTooSmall
  | reactorGridExhausted
  | mathOverflow
  | noRedistributionRecipients
  | redistributionAccumulatorOverflow
  | positionNotEmpty
  | nothingToRedeem
  | duplicateRedemptionTarget
  | timelockNotElapsed
  | timelockMarketMismatch
  | noPendingAuthority
  | mintFrozen
  | invalidPriceUpdate
  | invalidSwitchboardFeed
  | invalidClmmPool
  | twapSampleRejected
  | guardianPaused
  | marketShutdown
  | marketNotShutdown
  | shutdownConditionNotMet
  | rateLimitExceeded
  | ccrRestricted
  | liquidationGracePeriod
  | interestRateOutOfBounds
  | noCollateralSurplus
  | debtBelowMinimum
  | tooManyRedemptionCandidates
  | insufficientProtocolCollateral
  | collarExceedsMcr
  | paramCombinationInvalid
  | vaultReconciliationFailed
  | invalidRecipient
  | insufficientBackstopExcess
  | oracleDivergent
  | invalidStakePool
  | liquidationInfraNotReady
  | collateralHasFreezeAuthority
  | token (e : TokenError)
  | accountNotInitialized
  | accountAlreadyInUse
  | accountDiscriminatorMismatch
  | indexOutOfBounds
  deriving DecidableEq, Repr

/-! ## Constants -/

def REACTOR_MAX_EPOCHS : ℕ := 32

def REACTOR_MAX_SCALES : ℕ := 16

def REACTOR_GRID_LEN : ℕ := REACTOR_MAX_EPOCHS * REACTOR_MAX_SCALES

def MAX_RECONCILE_MARKETS : ℕ := 24

def MAX_PRICE_STALENESS_SLOTS : ℕ := 250

def LIQ_RESUME_GRACE_SLOTS : ℕ := 750

def MCR_RAISE_GRACE_SLOTS : ℕ := 9000

def LIQ_DIVERGENCE_GRACE_SLOTS : ℕ := 750

def SHUTDOWN_ORACLE_STALENESS_SLOTS : ℕ := 9000

def RATELIMIT_WINDOW_SECS : ℕ := 86400

def NUM_RATE_BUCKETS : ℕ := 256

def BITMAP_WORDS : ℕ := 4

def ZOMBIE_BUCKET : ℕ := NUM_RATE_BUCKETS

def MAX_REDEMPTION_CANDIDATES : ℕ := 20

def MAX_REDEMPTION_FEE_BPS : ℕ := 500

def MIN_USER_RATE_BPS : ℕ := 50

def MAX_USER_RATE_BPS : ℕ := 2550

def MIN_MCR_BPS : ℕ := 10000

def MAX_MCR_BPS : ℕ := 30000

def MAX_LIQ_GAS_COMP_BPS : ℕ := 1000

/-- Why a market was shut down. -/
inductive ShutdownReason where
  | none
  | scr
  | oracleFailure
  | unhomedBadDebt
  deriving DecidableEq, Repr

/-- The bits of `liq_infra_flags`. -/
structure LiqInfraFlags where
  gated : Bool
  reactorPool : Bool
  insuranceBuffer : Bool
  deriving DecidableEq, Repr

/-- Borrowing is open on an unmarked market and on one whose infrastructure is complete. -/
def LiqInfraFlags.ready (f : LiqInfraFlags) : Bool :=
  (!f.gated && !f.reactorPool && !f.insuranceBuffer) || (f.reactorPool && f.insuranceBuffer)

/-! ## Market -/

/-- The governed parameters of a market. -/
structure MarketParams where
  mcrBps : ℕ
  debtCeiling : ℕ
  reserveLamports : ℕ
  liqGasCompBps : ℕ
  liqBonusBps : ℕ
  bucketWidthBps : ℕ
  redemptionFeeBps : ℕ
  scrBps : ℕ
  rlCap : ℕ
  ccrBps : ℕ
  minDebt : ℕ
  rateAdjustCooldownSecs : ℕ
  keeperRewardBps : ℕ
  borrowFeeBps : ℕ
  badDebtPaydownBps : ℕ
  redemptionBaseRateMaxBps : ℕ
  deriving DecidableEq, Repr

/-- Price, pauses and the other fields that no ledger depends on. -/
structure MarketGates where
  spot : ℕ
  spotUpdatedSlot : ℕ
  debtSpot : ℕ
  mintFrozen : Bool
  guardianPausedUntil : ℕ
  liqGraceUntil : ℕ
  liqDivergenceUntil : ℕ
  liqInfraFlags : LiqInfraFlags
  shutdownReason : ShutdownReason
  rlAccrued : ℕ
  rlLastUpdate : ℕ
  redemptionBaseRate : ℕ
  redemptionBaseRateTs : ℕ
  deriving DecidableEq, Repr

/-- One collateral market.  The inherited structures only group the fields. -/
structure Market extends MarketParams, MarketGates where
  aggRecordedDebt : ℕ
  aggWeightedDebtSum : ℕ
  unmintedInterest : ℕ
  lastUpdateTs : ℕ
  shutdown : Bool
  badDebt : ℕ
  lColl : ℕ
  lArt : ℕ
  lastCollRedistError : ℕ
  lastArtRedistError : ℕ
  totalStakes : ℕ
  totalCollateral : ℕ
  totalStakesSnapshot : ℕ
  totalCollateralSnapshot : ℕ
  totalCollSurplus : ℕ
  surplusCollateral : ℕ
  protocolCollateral : ℕ
  globalContributed : ℕ
  globalDrawn : ℕ
  deriving DecidableEq, Repr

/-! ## Positions -/

/-- A borrower's position; the table that holds it is keyed by the owner.  `reserveLamports` is
the bond, held by the position account itself. -/
structure Position where
  ink : ℕ
  recordedDebt : ℕ
  userRateBps : ℕ
  lastDebtUpdate : ℕ
  stake : ℕ
  redistLCollSnapshot : ℕ
  redistLArtSnapshot : ℕ
  reserveLamports : ℕ
  bucket : ℕ
  collSurplus : ℕ
  lastRateAdjustTs : ℕ
  inkNonce : ℕ
  deriving DecidableEq, Repr

/-- The only way to change `ink`: the nonce moves exactly when the value does. -/
def Position.setInk (p : Position) (newInk : ℕ) : Position :=
  if newInk ≠ p.ink then
    { p with ink := newInk, inkNonce := Checked.saturatingAdd 64 p.inkNonce 1 }
  else p

/-- Member counts of the rate buckets, the bitmap of the non-empty ones, and the zombie pen. -/
structure RedemptionBitmap where
  words : RateBucket.Words BITMAP_WORDS
  counts : Fin NUM_RATE_BUCKETS → ℕ
  zombieCount : ℕ

def RedemptionBitmap.zeroed : RedemptionBitmap := ⟨fun _ ↦ 0#64, fun _ ↦ 0, 0⟩

/-! ## Reactor Pool, insurance and backstop -/

structure ReactorDeposit where
  depositedFusd : ℕ
  snapshot : Snapshot
  pendingCollateralGain : ℕ
  deriving DecidableEq, Repr

/-- A Reactor Pool account with its grid of sums and the deposit accounts opened on it. -/
structure Pool (len : ℕ) where
  state : PoolState
  grid : Grid len
  deposits : Table Pubkey ReactorDeposit

/-- The pools of the program: the grid is the `EpochToScaleToSum` account. -/
abbrev ReactorPool := Pool REACTOR_GRID_LEN

structure InsuranceBuffer where
  totalFunded : ℕ
  totalAbsorbed : ℕ
  deriving DecidableEq, Repr

structure DebtCeilingLine where
  line : ℕ
  gap : ℕ
  ttl : ℕ
  lastBumpTs : ℕ
  deriving DecidableEq, Repr

structure GlobalBackstopReserve where
  cutBps : ℕ
  reserveCap : ℕ
  drawBaseAllowance : ℕ
  drawKBps : ℕ
  drawCeilingShareBps : ℕ
  drawDebtShareBps : ℕ
  totalContributed : ℕ
  totalAbsorbed : ℕ
  totalWithdrawn : ℕ
  deriving DecidableEq, Repr

/-- The keys the privileged instructions check: two of the configuration account, and the
inbound authority of the governance gate. -/
structure Config where
  govAuthority : Pubkey
  guardian : Pubkey
  inboundAuthority : Pubkey
  deriving DecidableEq, Repr

/-! ## Token accounts -/

/-- Accounts of a collateral mint. -/
inductive CollHolder where
  | wallet (owner : Pubkey)
  | vault
  | reactorVault
  deriving DecidableEq, Repr

/-- Accounts of the fUSD mint. -/
inductive FusdHolder where
  | wallet (owner : Pubkey)
  | reactorVault (mint : Pubkey)
  | bufferVault (mint : Pubkey)
  | backstopVault
  deriving DecidableEq, Repr

/-! ## One market with everything that belongs to it -/

/-- How often `accrue` booked interest and how often a position was realised.  No handler reads
these counters; the bounds on rounding are stated with them. -/
structure Tally where
  bookings : ℕ
  realizes : ℕ
  deriving DecidableEq, Repr

structure MarketState where
  mint : Pubkey
  market : Market
  bitmap : RedemptionBitmap
  positions : Table Pubkey Position
  reactor : Option ReactorPool
  buffer : Option InsuranceBuffer
  line : Option DebtCeilingLine
  coll : TokenLedger CollHolder
  /-- Collateral that reached the vault outside the handlers. -/
  donated : ℕ
  tally : Tally

/-- The accounts one instruction on one market may touch. -/
structure Accounts where
  state : MarketState
  fusd : TokenLedger FusdHolder
  backstop : Option GlobalBackstopReserve

end FusionCore
