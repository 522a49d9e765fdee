import FusionCore.Controller.Plan

/-!
# The rebalance walk

Two passes over the planned list ordinals from a start that rotates with the epoch: first the
draining validators, then ordinary moves.  Every call performs the one action that the slot, the
plan and the live balances determine, or skips; admission of a planned candidate is independent
of the walk.
-/

namespace FusionCore
namespace StakeController

open Checked StakeMath

structure RebalanceSlot where
  pass : ℕ
  index : ℕ
  deriving DecidableEq, Repr

def rebalanceSlot (cursor plannedLen epoch : ℕ) : Option RebalanceSlot :=
  if plannedLen = 0 ∨ saturatingMul 64 plannedLen 2 ≤ cursor then none
  else
    let ordinal := cursor % plannedLen
    let start := rotationStart epoch plannedLen
    some ⟨truncate 8 (cursor / plannedLen), truncate 64 (start % plannedLen + ordinal) % plannedLen⟩

inductive Action where
  | skip
  | remove
  | decrease (lamports : ℕ)
  | increase (lamports : ℕ)
  deriving DecidableEq, Repr

structure ActionInputs where
  pass : ℕ
  status : ValidatorStatus
  activeLamports : ℕ
  transientLamports : ℕ
  finalTarget : ℕ
  drainedFloor : ℕ
  hysteresisThreshold : ℕ
  budgetRemaining : ℕ
  validatorMoveCap : ℕ
  reserveAvailableForIncrease : ℕ
  reserveLamports : ℕ
  stakeRent : ℕ
  minDelegation : ℕ
  increasesAllowed : Bool
  actedThisEpoch : Bool
  deriving DecidableEq, Repr

def Action.decreaseOrSkip (amount : ℕ) : Action := if amount = 0 then .skip else .decrease amount

def Action.increaseOrSkip (amount : ℕ) : Action := if amount = 0 then .skip else .increase amount

/-- Drains are exempt from hysteresis; the retention floor is already off the deviation. -/
def decideDrain (i : ActionInputs) : Action :=
  if i.reserveLamports < i.stakeRent then .skip
  else
    let deviation := i.activeLamports - i.drainedFloor
    .decreaseOrSkip
      (actionAmount deviation i.budgetRemaining i.validatorMoveCap deviation i.minDelegation false)

def decideIncrease (i : ActionInputs) : Action :=
  let deviation := i.finalTarget - i.activeLamports
  if !exceedsHysteresis deviation i.hysteresisThreshold || !i.increasesAllowed then .skip
  else
    .increaseOrSkip
      (actionAmount deviation i.budgetRemaining i.validatorMoveCap i.reserveAvailableForIncrease
        i.minDelegation false)

def decideDecrease (i : ActionInputs) : Action :=
  let deviation := i.activeLamports - i.finalTarget
  if !exceedsHysteresis deviation i.hysteresisThreshold then .skip
  else if i.reserveLamports < i.stakeRent then .skip
  else
    .decreaseOrSkip
      (actionAmount deviation i.budgetRemaining i.validatorMoveCap
        (i.activeLamports - i.drainedFloor) i.minDelegation false)

def decideAction (i : ActionInputs) : Action :=
  if 0 < i.transientLamports || i.actedThisEpoch then .skip
  else
    match i.pass, i.status with
    | 0, .removable => .remove
    | 0, .draining => decideDrain i
    | 1, .candidate | 1, .active =>
      if i.activeLamports < i.finalTarget then decideIncrease i else decideDecrease i
    | _, _ => .skip

/-- What one call did, as its event reports it. -/
inductive Executed where
  | add
  | walk (slot : RebalanceSlot) (action : Action)
  deriving DecidableEq, Repr

/-- Whether this epoch's counted shares and observations admit a record. -/
def admissible (es : EpochState) (r : ValidatorRecord) : Prop :=
  (r.observedEpoch = es.controllerEpoch ∧ r.observedLivenessOk ∧ r.observedCommissionOk) ∧
    0 < es.navFusolSupply ∧
    MIN_ACTIVATION_TARGET_LAMPORTS ≤
      es.productiveLamports * r.sharesAt es.controllerEpoch / es.navFusolSupply

instance (es : EpochState) (r : ValidatorRecord) : Decidable (admissible es r) :=
  inferInstanceAs (Decidable (_ ∧ _))

def executeAdmission (sys : Sysvars) (vote crank : Pubkey) (record : ValidatorRecord)
    (c : Controller) : Except ControllerError Controller := do
  require (record.status = .candidate) .wrongActionTarget
  require (admissible c.epochState record) .wrongActionTarget
  let newIndex := c.pool.validators.entries.length
  let pool ← poolCall (c.pool.addValidatorToPool sys vote)
  let record := { record with validatorListIndex := some newIndex, poolEntryStatus := some .active }
  payCrankReward CRANK_REWARD_REBALANCE_ACTION crank
    { c with
      pool
      records := c.records.insert vote record
      epochState :=
        { c.epochState with rebalanceActionsDone := c.epochState.rebalanceActionsDone + 1 } }

def actionInputs (sys : Sysvars) (es : EpochState) (slot : RebalanceSlot) (record : ValidatorRecord)
    (entry : StakeInfo) (reserveLamports : ℕ) : ActionInputs where
  pass := slot.pass
  status := record.status
  activeLamports := entry.activeStakeLamports
  transientLamports := entry.transientStakeLamports
  finalTarget := record.finalTarget
  drainedFloor := saturatingAdd 64 sys.stakeRent sys.effectiveMinimumDelegation
  hysteresisThreshold := hysteresis es.navTotalLamports HYSTERESIS_MIN_LAMPORTS HYSTERESIS_BPS
  budgetRemaining := es.churnBudgetTotal - es.churnBudgetUsed
  validatorMoveCap := StakeMath.validatorMoveCap es.navTotalLamports VALIDATOR_MOVE_CAP_BPS
  reserveAvailableForIncrease := reserveLamports - es.reserveTarget - sys.stakeRent
  reserveLamports := reserveLamports
  stakeRent := sys.stakeRent
  minDelegation := sys.effectiveMinimumDelegation
  increasesAllowed := record.observedEpoch = es.controllerEpoch && record.observedLivenessOk
  actedThisEpoch := record.lastIncreaseEpoch = es.controllerEpoch ||
    record.lastDecreaseEpoch = es.controllerEpoch

/-- The CPI of an action with what it writes to the record and to the used budget. -/
def perform (sys : Sysvars) (vote : Pubkey) (action : Action) (record : ValidatorRecord)
    (c : Controller) : Except ControllerError Controller := do
  let es := c.epochState
  match action with
  | .skip => pure c
  | .remove =>
    let pool ← poolCall (c.pool.removeValidatorFromPool sys vote)
    let record := { record with poolEntryStatus := some .deactivatingValidator }
    pure { c with pool, records := c.records.insert vote record }
  | .decrease amount =>
    let pool ← poolCall (c.pool.decreaseValidatorStakeWithReserve sys vote amount)
    let record := { record with lastDecreaseEpoch := es.controllerEpoch }
    let used ← okOr (checkedAdd 64 es.churnBudgetUsed amount) .mathOverflow
    pure { c with
      pool
      records := c.records.insert vote record
      epochState := { es with churnBudgetUsed := used } }
  | .increase amount =>
    let pool ← poolCall (c.pool.increaseValidatorStake sys vote amount)
    let record := { record with lastIncreaseEpoch := es.controllerEpoch }
    let used ← okOr (checkedAdd 64 es.churnBudgetUsed amount) .mathOverflow
    pure { c with
      pool
      records := c.records.insert vote record
      epochState := { es with churnBudgetUsed := used } }

/-- The slot the walk is at and the action it determines for the record of `vote`. -/
def nextAction (sys : Sysvars) (vote : Pubkey) (record : ValidatorRecord) (c : Controller) :
    Except ControllerError (RebalanceSlot × Action) := do
  let es := c.epochState
  let slot ← okOr (rebalanceSlot es.rebalanceCursor es.planDirectedCursor es.controllerEpoch)
    .rebalanceComplete
  require (record.validatorListIndex = some slot.index) .wrongActionTarget
  let entry ← okOr c.pool.validators.entries[slot.index]? .invalidValidatorListEntry
  require (entry.voteAccountAddress = vote) .invalidValidatorListEntry
  pure (slot,
    decideAction (actionInputs sys es slot record entry.toStakeInfo c.pool.reserveLamports))

def executeWalk (sys : Sysvars) (vote crank : Pubkey) (record : ValidatorRecord) (c : Controller) :
    Except ControllerError (Controller × RebalanceSlot × Action) := do
  let next ← nextAction sys vote record c
  let c ← perform sys vote next.2 record c
  let es := { c.epochState with rebalanceCursor := c.epochState.rebalanceCursor + 1 }
  if next.2 = .skip then pure ({ c with epochState := es }, next)
  else
    let c ← payCrankReward CRANK_REWARD_REBALANCE_ACTION crank
      { c with epochState := { es with rebalanceActionsDone := es.rebalanceActionsDone + 1 } }
    pure (c, next)

def executeNextAction (sys : Sysvars) (vote crank : Pubkey) (c : Controller) :
    Except ControllerError (Controller × Executed) := do
  let record ← okOr (c.records.lookup vote) .accountNotInitialized
  require (c.epochState.phase = .rebalance) .wrongPhase
  require (record.planEpoch = c.epochState.controllerEpoch) .staleValidatorRecord
  if record.validatorListIndex = none then
    let c ← executeAdmission sys vote crank record c
    pure (c, .add)
  else
    let walked ← executeWalk sys vote crank record c
    pure (walked.1, .walk walked.2.1 walked.2.2)

end StakeController
end FusionCore
