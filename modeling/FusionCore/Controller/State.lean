import FusionCore.Core.State
import FusionCore.Math.CapacityRound

/-!
# Accounts of the stake controller

The crank state, one record per vote account, one preference per Fusion position, and the
fields of the stake pool that the controller reads.  An account that the program derives from
a vote account or a position is named by that key.
-/

namespace FusionCore
namespace StakeController

open StakeMath

/-! ## Errors -/

/-- Failures of the stake pool that a CPI of the controller can meet. -/
inductive PoolError where
  | stakeListAndPoolOutOfDate
  | stakeListOutOfDate
  | invalidSlice
  | accountDataTooSmall
  | tooManyValidatorsInPool
  | validatorAlreadyAdded
  | validatorNotFound
  | invalidPreferredValidator
  | transientAccountInUse
  | accountNotRentExempt
  | insufficientDelegation
  | insufficientFunds
  | reserveDepleted
  | calculationFailure
  | stakeLamportsNotEqualToMinimum
  deriving DecidableEq, Repr

inductive ControllerError where
  | mathOverflow
  | invalidVoteAccount
  | invalidValidatorListEntry
  | wrongPhase
  | epochNotAdvanced
  | invalidRemainingAccounts
  | staleValidatorRecord
  | recordAlreadyPlanned
  | preferenceWindowClosed
  | preferenceWindowStillOpen
  | preferenceNotCountable
  | preferenceChangeLimit
  | preferenceOwnerMismatch
  | invalidPositionAccount
  | validatorNotEligibleForPreference
  | directedSharesExceedSupply
  | planConservationViolated
  | neutralRoundInconsistent
  | rebalanceComplete
  | wrongActionTarget
  | epochNotFinished
  | positionStillOpen
  | invalidRentRecipient
  | invalidRewardRecipient
  | preferenceChangeLimit2
  | zeroAmount
  | validatorNotInPool
  | validatorCapExceeded
  | addressMismatch
  | invalidUserStakeAccount
  | stakeDelegationMismatch
  -- a CPI to the native stake program
  | stakeAuthorize
  | pool (e : PoolError)
  | accountNotInitialized
  | accountAlreadyInUse
  deriving DecidableEq, Repr

/-! ## Constants -/

def LAMPORTS_PER_SOL : ℕ := 1000000000

def RESERVE_TARGET_BPS : ℕ := 200

def RESERVE_MINIMUM_LAMPORTS : ℕ := 10 * LAMPORTS_PER_SOL

def ACTIVE_VALIDATOR_CAP_BPS : ℕ := 200

def CANDIDATE_CAP_BPS : ℕ := 25

def MIN_ACTIVATION_TARGET_LAMPORTS : ℕ := 500 * LAMPORTS_PER_SOL

def COMMISSION_CAP_PERCENT : ℕ := 10

def GLOBAL_CHURN_CAP_BPS : ℕ := 300

def VALIDATOR_MOVE_CAP_BPS : ℕ := 50

def HYSTERESIS_MIN_LAMPORTS : ℕ := 50 * LAMPORTS_PER_SOL

def HYSTERESIS_BPS : ℕ := 5

def REMOVAL_DELAY_EPOCHS : ℕ := 2

def VOTE_FRESHNESS_WINDOW_DIVISOR : ℕ := 8

def PREFERENCE_WINDOW_SLOT_DIVISOR : ℕ := 32

def CRANK_REWARD_RECONCILE_BATCH : ℕ := 1000000

def CRANK_REWARD_FINALIZE_POOL : ℕ := 1000000

def CRANK_REWARD_PLAN_BATCH : ℕ := 1000000

def CRANK_REWARD_REBALANCE_ACTION : ℕ := 2000000

def CRANK_EPOCH_PAYOUT_BUDGET : ℕ := 500000000

def UPSTREAM_MINIMUM_DELEGATION : ℕ := 1000000

/-- The capacity at which the stake pool itself refuses another validator. -/
def MAX_VALIDATORS_IN_POOL : ℕ := 20000

/-! ## What the runtime supplies -/

/-- The sysvars and the answer of the stake program that an instruction reads.  `stakeRent` is the
rent-exempt minimum of a stake account; the reserve is one. -/
structure Sysvars where
  clock : Clock
  slotsInEpoch : ℕ
  stakeRent : ℕ
  minimumDelegation : ℕ
  deriving DecidableEq, Repr

def Sysvars.effectiveMinimumDelegation (sys : Sysvars) : ℕ :=
  max sys.minimumDelegation UPSTREAM_MINIMUM_DELEGATION

/-- What a vote account shows about the last completed epoch. -/
structure VoteSample where
  commission : ℕ
  priorEpochCreditGrowth : Bool
  freshnessSlot : ℕ
  deriving DecidableEq, Repr

/-! ## Crank state -/

inductive Phase where
  | idle
  | reconcile
  | finalize
  | preferences
  | planDirected
  | planNeutral
  | planFinalize
  | rebalance
  deriving DecidableEq, Repr

structure EpochState where
  controllerEpoch : ℕ
  reconcileCursor : ℕ
  planDirectedCursor : ℕ
  rebalanceActionsDone : ℕ
  preferenceWindowCloseSlot : ℕ
  navTotalLamports : ℕ
  navFusolSupply : ℕ
  productiveLamports : ℕ
  reserveTarget : ℕ
  totalDirectedShares : ℕ
  neutralTotal : ℕ
  unsaturatedActiveCount : ℕ
  capacityShortfall : ℕ
  churnBudgetTotal : ℕ
  churnBudgetUsed : ℕ
  healthyDelegatedLamports : ℕ
  totalDelegatedLamports : ℕ
  epochPayoutBudgetUsed : ℕ
  neutralRound : NeutralRound
  neutralRoundNumber : ℕ
  neutralCursor : ℕ
  sumDirectedTargets : ℕ
  neutralGrantedTotal : ℕ
  rebalanceCursor : ℕ
  preferredWithdrawSurplus : ℕ
  preferredWithdrawVote : Pubkey
  phase : Phase
  deriving DecidableEq, Repr

namespace EpochState

/-- The all-zero account: epoch 0, idle. -/
def zeroed : EpochState :=
  ⟨0, 0, 0, 0, 0, 0, 0, 0, 0, 0, 0, 0, 0, 0, 0, 0, 0, 0, .zeroed, 0, 0, 0, 0, 0, 0, 0, .idle⟩

def resetPlanState (es : EpochState) : EpochState :=
  { es with
    planDirectedCursor := 0
    totalDirectedShares := 0
    sumDirectedTargets := 0
    neutralTotal := 0
    neutralGrantedTotal := 0
    unsaturatedActiveCount := 0
    capacityShortfall := 0
    neutralRound := .zeroed
    neutralRoundNumber := 0
    neutralCursor := 0
    rebalanceCursor := 0
    rebalanceActionsDone := 0
    preferredWithdrawSurplus := 0
    preferredWithdrawVote := 0 }

/-- The finalized NAV snapshot survives. -/
def resetForNewEpoch (es : EpochState) : EpochState :=
  { es.resetPlanState with
    reconcileCursor := 0
    preferenceWindowCloseSlot := 0
    churnBudgetUsed := 0
    healthyDelegatedLamports := 0
    totalDelegatedLamports := 0
    epochPayoutBudgetUsed := 0 }

/-- Strictly greater wins, so ties go to the first candidate of the walk. -/
def foldPreferredWithdraw (es : EpochState) (vote : Pubkey) (surplus : ℕ) : EpochState :=
  if es.preferredWithdrawSurplus < surplus then
    { es with preferredWithdrawSurplus := surplus, preferredWithdrawVote := vote }
  else es

end EpochState

/-! ## The stake pool, as the controller sees it -/

inductive StakeStatus where
  | active
  | deactivatingTransient
  | readyForRemoval
  | deactivatingValidator
  | deactivatingAll
  deriving DecidableEq, Repr

/-- The changing part of a validator-list entry. -/
structure StakeInfo where
  activeStakeLamports : ℕ
  transientStakeLamports : ℕ
  lastUpdateEpoch : ℕ
  status : StakeStatus
  deriving DecidableEq, Repr

structure ValidatorEntry extends StakeInfo where
  voteAccountAddress : Pubkey
  deriving DecidableEq, Repr

/-- A list account: no more entries than its capacity, which is a `u32`, and no validator twice. -/
structure ValidatorList where
  entries : List ValidatorEntry
  maxValidators : ℕ
  fits : entries.length ≤ maxValidators
  indexed : maxValidators < 2 ^ 32
  distinct : (entries.map ValidatorEntry.voteAccountAddress).Nodup

structure StakePool where
  totalLamports : ℕ
  poolTokenSupply : ℕ
  lastUpdateEpoch : ℕ
  validators : ValidatorList
  reserveLamports : ℕ
  preferredWithdraw : Option Pubkey

/-! ## Records and preferences -/

/-- `validatorListIndex` is `none` for `VALIDATOR_LIST_INDEX_UNSET`, `poolEntryStatus` is `none`
for `POOL_ENTRY_STATUS_NONE`. -/
structure ValidatorRecord where
  validatorListIndex : Option ℕ
  status : ValidatorStatus
  consecutiveLivenessFailures : ℕ
  consecutiveHealthyEpochs : ℕ
  hasPoolStake : Bool
  lastActiveLamports : ℕ
  lastTransientLamports : ℕ
  directedSharesEpoch : ℕ
  directedShares : ℕ
  directedTarget : ℕ
  neutralGranted : ℕ
  finalTarget : ℕ
  remainingCapacity : ℕ
  saturatedThisRound : Bool
  saturatedRound : ℕ
  lastIncreaseEpoch : ℕ
  lastDecreaseEpoch : ℕ
  removalDelayStart : ℕ
  observedEpoch : ℕ
  observedCommissionOk : Bool
  observedLivenessOk : Bool
  planEpoch : ℕ
  poolEntryStatus : Option StakeStatus
  deriving DecidableEq, Repr

/-- A new record: every counter is zero, no list slot. -/
def ValidatorRecord.registered : ValidatorRecord :=
  ⟨none, .registered, 0, 0, false, 0, 0, 0, 0, 0, 0, 0, 0, false, 0, 0, 0, 0, 0, false, false, 0,
    some .active⟩

structure Preference where
  owner : Pubkey
  voteAccount : Pubkey
  observedInkNonce : ℕ
  observedInk : ℕ
  eligibleFromEpoch : ℕ
  lastCountedEpoch : ℕ
  changeEpoch : ℕ
  deriving DecidableEq, Repr

/-- A parsed fusd-core position. -/
structure PositionView where
  owner : Pubkey
  collateralMint : Pubkey
  ink : ℕ
  inkNonce : ℕ
  deriving DecidableEq, Repr

structure ControllerConfig where
  fusolCollateralMint : Pubkey
  maintenanceVault : Pubkey
  deriving DecidableEq, Repr

/-- The accounts of the controller with the pool it drives; `vault` is the fuSOL in the
maintenance vault. -/
structure Controller where
  config : ControllerConfig
  epochState : EpochState
  records : Table Pubkey ValidatorRecord
  preferences : Table Pubkey Preference
  pool : StakePool
  vault : ℕ

end StakeController
end FusionCore
