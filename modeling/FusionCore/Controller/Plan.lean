import FusionCore.Controller.Crank

/-!
# The epoch plan

The directed pass walks the validator list, advances every lifecycle from one snapshot and
fixes directed targets; records without a list slot may ride along at its end.  The neutral pass
deals the rest out in capacity rounds over the planned list ordinals.  Both stop and resume at
persisted cursors, and the plan is accepted only if its accumulators add up.
-/

namespace FusionCore
namespace StakeController

open Checked StakeMath

/-! ## Directed pass -/

/-- The accounts of one planned record: the record and the vote account, named by their keys, with
what the vote account contains. -/
structure Pair where
  record : Pubkey
  vote : Pubkey
  sample : Option VoteSample
  deriving DecidableEq, Repr

structure PlanAcc where
  epochState : EpochState
  records : Table Pubkey ValidatorRecord

/-- What the directed pass knows about a record before it plans it. -/
structure Sighting where
  record : ValidatorRecord
  observation : VoteObservation
  entryStatus : Option StakeStatus
  inList : Bool

/-- The entry at the cursor must be the record's, with the observations of this epoch. -/
def sightListed (entry : ValidatorEntry) (es : EpochState) (p : Pair) (record : ValidatorRecord) :
    Except ControllerError Sighting := do
  require (entry.voteAccountAddress = p.vote) .invalidRemainingAccounts
  require (record.observedEpoch = es.controllerEpoch) .staleValidatorRecord
  pure
    { record := { record with validatorListIndex := some es.planDirectedCursor }
      observation := ⟨record.observedCommissionOk, record.observedLivenessOk⟩
      entryStatus := some entry.status
      inList := true }

/-- A record without a list slot is observed now. -/
def sightExtra (sys : Sysvars) (es : EpochState) (p : Pair) (record : ValidatorRecord) :
    Except ControllerError Sighting := do
  require (record.validatorListIndex = none) .invalidRemainingAccounts
  let obs := observeVote p.sample COMMISSION_CAP_PERCENT sys.clock.slot sys.freshnessWindow
  pure
    { record :=
        { record with
          observedEpoch := es.controllerEpoch
          observedCommissionOk := obs.commissionOk
          observedLivenessOk := obs.livenessOk
          hasPoolStake := false }
      observation := obs
      entryStatus := none
      inList := false }

/-- The first pairs are those of the list from the cursor on, the others are extras. -/
def sight (sys : Sysvars) (list : ValidatorList) (es : EpochState) (p : Pair)
    (record : ValidatorRecord) : Except ControllerError Sighting :=
  match list.entries[es.planDirectedCursor]? with
  | some entry => sightListed entry es p record
  | none => sightExtra sys es p record

/-- Directed shares count only with the stamp of the planned epoch. -/
def ValidatorRecord.sharesAt (r : ValidatorRecord) (epoch : ℕ) : ℕ :=
  if r.directedSharesEpoch = epoch then r.directedShares else 0

def lifecycleOutcome (es : EpochState) (drainedThreshold : ℕ) (s : Sighting) : LifecycleOutcome :=
  let r := s.record
  advanceLifecycle r.status
    { commissionOk := s.observation.commissionOk
      livenessOk := s.observation.livenessOk
      consecutiveFailures := r.consecutiveLivenessFailures
      consecutiveHealthy := r.consecutiveHealthyEpochs
      hasPoolStake := r.hasPoolStake
      guardActive := globalLivenessGuard es.healthyDelegatedLamports es.totalDelegatedLamports
      zeroStakeAndTarget := r.lastTransientLamports = 0 && r.lastActiveLamports < drainedThreshold
      removalDelayElapsed := 0 < r.removalDelayStart &&
        saturatingAdd 64 r.removalDelayStart REMOVAL_DELAY_EPOCHS ≤ es.controllerEpoch }

/-- The status after one epoch: the lifecycle, then admission by directed support. -/
def plannedStatus (es : EpochState) (s : Sighting) (outcome : LifecycleOutcome) :
    ValidatorStatus :=
  if outcome.status = .registered && s.observation.commissionOk && s.observation.livenessOk &&
      0 < es.navFusolSupply &&
      MIN_ACTIVATION_TARGET_LAMPORTS ≤
        es.productiveLamports * s.record.sharesAt es.controllerEpoch / es.navFusolSupply then
    .candidate
  else outcome.status

def EpochState.capOf (es : EpochState) (status : ValidatorStatus) : ℕ :=
  lifecycleCap status es.navTotalLamports CANDIDATE_CAP_BPS ACTIVE_VALIDATOR_CAP_BPS

/-- The record as the directed pass leaves it. -/
def planRecord (es : EpochState) (drainedThreshold : ℕ) (s : Sighting) : ValidatorRecord :=
  let outcome := lifecycleOutcome es drainedThreshold s
  let status := plannedStatus es s outcome
  let cap := es.capOf status
  let target :=
    StakeMath.directedTarget es.productiveLamports (s.record.sharesAt es.controllerEpoch)
    es.navFusolSupply cap
  { s.record with
    consecutiveLivenessFailures := outcome.consecutiveFailures
    consecutiveHealthyEpochs := outcome.consecutiveHealthy
    removalDelayStart :=
      if status ≠ s.record.status ∧ status = .draining then es.controllerEpoch
      else s.record.removalDelayStart
    status
    poolEntryStatus := s.entryStatus
    directedTarget := target
    neutralGranted := 0
    finalTarget := target
    remainingCapacity := if s.inList then neutralCapacity status cap target else 0
    saturatedThisRound := false
    saturatedRound := 0
    planEpoch := es.controllerEpoch }

/-- Fold a record into the choice of the withdraw validator; only entries the pool holds active
take part. -/
def EpochState.noteWithdraw (es : EpochState) (vote : Pubkey) (r : ValidatorRecord) : EpochState :=
  if r.poolEntryStatus = some .active then
    es.foldPreferredWithdraw vote (r.lastActiveLamports - r.finalTarget)
  else es

/-- The plan aggregates after one more record. -/
def EpochState.bookPlanned (es : EpochState) (inList : Bool) (shares targets : ℕ)
    (planned : ValidatorRecord) : EpochState :=
  { es with
    planDirectedCursor := es.planDirectedCursor + if inList then 1 else 0
    totalDirectedShares := shares
    sumDirectedTargets := targets
    unsaturatedActiveCount :=
      es.unsaturatedActiveCount + if 0 < planned.remainingCapacity then 1 else 0 }

def planDirectedOne (sys : Sysvars) (list : ValidatorList) (drainedThreshold : ℕ) (acc : PlanAcc)
    (p : Pair) : Except ControllerError PlanAcc := do
  let es := acc.epochState
  let record ← okOr (acc.records.lookup p.record) .accountNotInitialized
  require (p.record = p.vote) .invalidRemainingAccounts
  require (record.planEpoch ≠ es.controllerEpoch) .recordAlreadyPlanned
  let sighting ← sight sys list es p record
  let planned := planRecord es drainedThreshold sighting
  let shares ← okOr
    (checkedAdd 64 es.totalDirectedShares (sighting.record.sharesAt es.controllerEpoch))
    .mathOverflow
  let targets ← okOr (checkedAdd 64 es.sumDirectedTargets planned.directedTarget) .mathOverflow
  pure
    { epochState :=
        (es.bookPlanned sighting.inList shares targets planned).noteWithdraw p.record planned
      records := acc.records.insert p.record planned }

/-- The guard of the plan, when the list is covered. -/
def closeDirected (listLen : ℕ) (es : EpochState) : Except ControllerError EpochState := do
  if es.planDirectedCursor = listLen then
    let neutral ← okOr
      (StakeMath.neutralTotal es.productiveLamports es.sumDirectedTargets es.totalDirectedShares
        es.navFusolSupply) .directedSharesExceedSupply
    require (phaseTransitionAllowed es.phase .planNeutral) .wrongPhase
    pure { es with neutralTotal := neutral, phase := .planNeutral }
  else pure es

def planDirectedBatch (sys : Sysvars) (pairs : List Pair) (crank : Pubkey) (c : Controller) :
    Except ControllerError Controller := do
  let drainedThreshold ← okOr
    (checkedAdd 64 sys.stakeRent (saturatingMul 64 sys.effectiveMinimumDelegation 2)) .mathOverflow
  let es := c.epochState
  require (es.phase = .planDirected) .wrongPhase
  let listLen := c.pool.validators.entries.length
  require (pairs ≠ [] ∨ es.planDirectedCursor = listLen) .invalidRemainingAccounts
  let acc ← pairs.foldlM (planDirectedOne sys c.pool.validators drainedThreshold) ⟨es, c.records⟩
  let es ← closeDirected listLen acc.epochState
  let c := { c with records := acc.records, epochState := es }
  if pairs ≠ [] then payCrankReward CRANK_REWARD_PLAN_BATCH crank c else pure c

/-! ## Neutral pass -/

/-- Enter a capacity round from its first ordinal. -/
def EpochState.enterRound (es : EpochState) (round : NeutralRound) (number : ℕ) : EpochState :=
  { es with
    neutralRound := round
    neutralRoundNumber := number
    neutralCursor := 0
    preferredWithdrawSurplus := 0
    preferredWithdrawVote := 0 }

/-- Open round one on the first call; the flag says that there is nothing to deal out. -/
def openNeutral (es : EpochState) : EpochState × Bool :=
  if es.neutralRoundNumber = 0 then
    match beginRound es.neutralTotal es.unsaturatedActiveCount es.controllerEpoch with
    | none => ({ es with capacityShortfall := es.neutralTotal }, true)
    | some round => (es.enterRound round 1, false)
  else (es, false)

/-- The first call of the pass opens the first round or finds nothing to deal out; later calls find
a round open. -/
theorem openNeutral_cases (es : EpochState) :
    (es.neutralRoundNumber = 0 ∧
        beginRound es.neutralTotal es.unsaturatedActiveCount es.controllerEpoch = none ∧
        openNeutral es = ({ es with capacityShortfall := es.neutralTotal }, true)) ∨
      (∃ round, es.neutralRoundNumber = 0 ∧
        beginRound es.neutralTotal es.unsaturatedActiveCount es.controllerEpoch = some round ∧
        openNeutral es = (es.enterRound round 1, false)) ∨
      (0 < es.neutralRoundNumber ∧ openNeutral es = (es, false)) := by
  unfold openNeutral
  split
  next hzero =>
    split
    next hnone => exact .inl ⟨hzero, hnone, rfl⟩
    next round hsome => exact .inr (.inl ⟨round, hzero, hsome, rfl⟩)
  next hopen => exact .inr (.inr ⟨Nat.pos_of_ne_zero hopen, rfl⟩)

/-- A record after its grant of round `number`. -/
def ValidatorRecord.grantedBy (r : ValidatorRecord) (number grant neutralGranted finalTarget
    remainingCapacity : ℕ) : ValidatorRecord :=
  let saturates := 0 < grant ∧ remainingCapacity = 0
  { r with
    neutralGranted
    finalTarget
    remainingCapacity
    saturatedThisRound := saturates || r.saturatedThisRound
    saturatedRound := if saturates then number else r.saturatedRound }

def EpochState.bookGrant (es : EpochState) (round : NeutralRound) (grantedTotal : ℕ) : EpochState :=
  { es with
    neutralRound := round
    neutralGrantedTotal := grantedTotal
    neutralCursor := es.neutralCursor + 1 }

def planNeutralOne (acc : PlanAcc) (vote : Pubkey) : Except ControllerError PlanAcc := do
  let es := acc.epochState
  let record ← okOr (acc.records.lookup vote) .accountNotInitialized
  require
    (record.planEpoch = es.controllerEpoch ∧ record.validatorListIndex = some es.neutralCursor)
    .invalidRemainingAccounts
  let isMember := record.status = .active ∧ 0 < record.remainingCapacity
  let dealt := if isMember then StakeMath.step es.neutralRound record.remainingCapacity
    else (es.neutralRound, 0)
  let grant := dealt.2
  let neutralGranted ← okOr (checkedAdd 64 record.neutralGranted grant) .mathOverflow
  let finalTarget ← okOr (checkedAdd 64 record.finalTarget grant) .mathOverflow
  let remainingCapacity ← okOr (checkedSub record.remainingCapacity grant) .mathOverflow
  let grantedTotal ← okOr (checkedAdd 64 es.neutralGrantedTotal grant) .mathOverflow
  let record := record.grantedBy es.neutralRoundNumber grant neutralGranted finalTarget
    remainingCapacity
  pure
    { epochState := (es.bookGrant dealt.1 grantedTotal).noteWithdraw vote record
      records := acc.records.insert vote record }

/-- Account for a round whose last ordinal was visited; the flag says that it was the last. -/
def closeRound (es : EpochState) : Except ControllerError (EpochState × Bool) := do
  let round := es.neutralRound
  require round.isComplete .neutralRoundInconsistent
  let remaining := round.remainingAfter
  let nextUnsaturated ← okOr (checkedSub round.nUnsaturated round.saturated)
    .neutralRoundInconsistent
  let es := { es with neutralTotal := remaining, unsaturatedActiveCount := nextUnsaturated }
  if remaining = 0 ∨ nextUnsaturated = 0 then
    pure ({ es with capacityShortfall := remaining }, true)
  else
    require (es.neutralRoundNumber < MAX_NEUTRAL_ROUNDS) .neutralRoundInconsistent
    let next ← okOr (beginRound remaining nextUnsaturated es.controllerEpoch)
      .neutralRoundInconsistent
    pure (es.enterRound next (es.neutralRoundNumber + 1), false)

/-- The visited slice of one call. -/
def dealNeutral (votes : List Pubkey) (acc : PlanAcc) :
    Except ControllerError (PlanAcc × Bool) := do
  let plannedLen := acc.epochState.planDirectedCursor
  require (acc.epochState.neutralCursor + votes.length ≤ plannedLen) .invalidRemainingAccounts
  require (votes ≠ [] ∨ plannedLen = 0) .invalidRemainingAccounts
  let acc ← votes.foldlM planNeutralOne acc
  if acc.epochState.neutralCursor = plannedLen then
    let closed ← closeRound acc.epochState
    pure ({ acc with epochState := closed.1 }, closed.2)
  else pure (acc, false)

def neutralPass (votes : List Pubkey) (c : Controller) : Except ControllerError (PlanAcc × Bool) :=
  let opened := openNeutral c.epochState
  if opened.2 then pure (⟨opened.1, c.records⟩, true) else dealNeutral votes ⟨opened.1, c.records⟩

def planNeutralBatch (votes : List Pubkey) (crank : Pubkey) (c : Controller) :
    Except ControllerError Controller := do
  require (c.epochState.phase = .planNeutral) .wrongPhase
  let dealt ← neutralPass votes c
  let acc := dealt.1
  let phase ← advanceIf dealt.2 acc.epochState.phase .planFinalize
  let visited := (openNeutral c.epochState).2 = false ∧ votes ≠ []
  let c := { c with records := acc.records, epochState := { acc.epochState with phase } }
  if visited then payCrankReward CRANK_REWARD_PLAN_BATCH crank c else pure c

/-! ## Acceptance -/

def finalizePlan (crank : Pubkey) (c : Controller) : Except ControllerError Controller := do
  let es := c.epochState
  require (es.phase = .planFinalize) .wrongPhase
  let directed ← okOr (checkedAdd 64 es.sumDirectedTargets es.neutralGrantedTotal) .mathOverflow
  let assigned ← okOr (checkedAdd 64 directed es.capacityShortfall) .mathOverflow
  require (assigned = es.productiveLamports) .planConservationViolated
  let preferred :=
    if 0 < es.preferredWithdrawSurplus then some es.preferredWithdrawVote else none
  let pool ← poolCall (c.pool.setPreferredWithdrawValidator preferred)
  require (phaseTransitionAllowed es.phase .rebalance) .wrongPhase
  payCrankReward CRANK_REWARD_PLAN_BATCH crank
    { c with
      pool
      epochState :=
        { es with phase := .rebalance, rebalanceCursor := 0, rebalanceActionsDone := 0 } }

end StakeController
end FusionCore
