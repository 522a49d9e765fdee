import FusionCore.Controller.Pool

/-!
# The crank: phases, observations and the pool snapshot

The phase machine, the pass that brings the validator list up to date and records what it finds,
and the snapshot of the pool that the plan is made from.  Anyone may send each instruction; a
batch names the accounts of consecutive list entries from a cursor on.
-/

namespace FusionCore
namespace StakeController

open Checked StakeMath

/-- The failure of a CPI is the failure of the instruction. -/
def poolCall {α : Type} (x : Except PoolError α) : Except ControllerError α :=
  match x with
  | .ok a => .ok a
  | .error e => .error (.pool e)

@[simp] theorem poolCall_eq_ok {α : Type} {x : Except PoolError α} {a : α} :
    poolCall x = .ok a ↔ x = .ok a := by
  cases x <;> simp [poolCall]

theorem poolCall_error {α : Type} {x : Except PoolError α} {e : ControllerError}
    (h : poolCall x = .error e) : ∃ e', e = .pool e' := by
  cases x with
  | error e' => exact ⟨e', (Except.error.inj h).symm⟩
  | ok _ => cases h

/-! ## Phases -/

def phaseTransitionAllowed : Phase → Phase → Bool
  | _, .reconcile => true
  | .reconcile, .finalize => true
  | .finalize, .preferences => true
  | .preferences, .planDirected => true
  | .planDirected, .planNeutral => true
  | .planNeutral, .planFinalize => true
  | .planFinalize, .rebalance => true
  | .rebalance, .idle => true
  | _, _ => false

/-- Move on when the work of a phase is done. -/
def advanceIf (done : Prop) [Decidable done] (src dst : Phase) : Except ControllerError Phase :=
  if done then do
    require (phaseTransitionAllowed src dst) .wrongPhase
    pure dst
  else pure src

theorem advanceIf_eq_ok {done : Prop} [Decidable done] {src dst phase : Phase}
    (h : advanceIf done src dst = .ok phase) :
    (done ∧ phase = dst ∧ phaseTransitionAllowed src dst) ∨ (¬done ∧ phase = src) := by
  unfold advanceIf at h
  split at h
  next hd =>
    simp only [bind_eq_ok_iff, require_eq_ok, pure_eq_ok, exists_const] at h
    exact .inl ⟨hd, h.2.symm, h.1⟩
  next hd => exact .inr ⟨hd, (pure_eq_ok.mp h).symm⟩

theorem advanceIf_error {done : Prop} [Decidable done] {src dst : Phase} {e : ControllerError}
    (h : advanceIf done src dst = .error e) : e = .wrongPhase := by
  unfold advanceIf at h
  split at h
  next =>
    simp only [bind_eq_error_iff, require_eq_error, pure_ne_error, and_false, exists_false,
      or_false] at h
    exact h.2.symm
  next => exact absurd h pure_ne_error

/-! ## Observations -/

structure VoteObservation where
  commissionOk : Bool
  livenessOk : Bool
  deriving DecidableEq, Repr

/-- An unreadable vote account counts as a liveness failure, never as a commission breach. -/
def observeVote (sample : Option VoteSample) (commissionCapPercent currentSlot
    freshnessWindowSlots : ℕ) : VoteObservation :=
  match sample with
  | none => ⟨true, false⟩
  | some s =>
    ⟨s.commission ≤ commissionCapPercent,
      s.priorEpochCreditGrowth && currentSlot - s.freshnessSlot ≤ freshnessWindowSlots⟩

def Sysvars.freshnessWindow (sys : Sysvars) : ℕ := sys.slotsInEpoch / VOTE_FRESHNESS_WINDOW_DIVISOR

/-! ## Rewards -/

def payCrankReward (taskReward : ℕ) (crank : Pubkey) (c : Controller) :
    Except ControllerError Controller := do
  require (crank ≠ c.config.maintenanceVault) .invalidRewardRecipient
  let remaining := CRANK_EPOCH_PAYOUT_BUDGET - c.epochState.epochPayoutBudgetUsed
  let amount := payout taskReward remaining c.vault
  if amount = 0 then pure c
  else
    let used ← okOr (checkedAdd 64 c.epochState.epochPayoutBudgetUsed amount) .mathOverflow
    pure { c with
      vault := c.vault - amount
      epochState := { c.epochState with epochPayoutBudgetUsed := used } }

theorem payCrankReward_eq {taskReward : ℕ} {crank : Pubkey} {c c' : Controller}
    (h : payCrankReward taskReward crank c = .ok c') :
    ∃ vault used, c' =
      { c with vault, epochState := { c.epochState with epochPayoutBudgetUsed := used } } := by
  simp only [payCrankReward, bind_eq_ok_iff, require_eq_ok, exists_const] at h
  obtain ⟨-, h⟩ := h
  split at h
  next => exact ⟨c.vault, c.epochState.epochPayoutBudgetUsed, (pure_eq_ok.mp h).symm⟩
  next =>
    simp only [bind_eq_ok_iff, okOr_eq_ok, pure_eq_ok] at h
    obtain ⟨used, -, rfl⟩ := h
    exact ⟨_, used, rfl⟩

theorem rewarded_eq {P : Prop} [Decidable P] {taskReward : ℕ} {crank : Pubkey} {c c' : Controller}
    (h : (if P then payCrankReward taskReward crank c else pure c) = .ok c') :
    ∃ vault used, c' =
      { c with vault, epochState := { c.epochState with epochPayoutBudgetUsed := used } } := by
  split at h
  · exact payCrankReward_eq h
  · exact ⟨c.vault, c.epochState.epochPayoutBudgetUsed, (pure_eq_ok.mp h).symm⟩

/-- The payout budget keeps a reward from overflowing its counter, so only the recipient can be
refused. -/
theorem payCrankReward_error {taskReward : ℕ} {crank : Pubkey} {c : Controller}
    {e : ControllerError} (h : payCrankReward taskReward crank c = .error e) :
    crank = c.config.maintenanceVault ∧ e = .invalidRewardRecipient := by
  simp only [payCrankReward, bind_eq_error_iff, require_eq_error] at h
  obtain ⟨hvault, h⟩ | ⟨-, -, h⟩ := h
  · exact ⟨not_not.mp hvault, h.symm⟩
  · split at h
    next => exact absurd h pure_ne_error
    next hpos =>
      simp only [bind_eq_error_iff, okOr_eq_error, pure_ne_error, and_false, exists_false,
        or_false, payout] at h hpos
      have hfits : c.epochState.epochPayoutBudgetUsed +
          min (min taskReward (CRANK_EPOCH_PAYOUT_BUDGET - c.epochState.epochPayoutBudgetUsed))
            c.vault < 2 ^ 64 :=
        lt_of_le_of_lt (b := CRANK_EPOCH_PAYOUT_BUDGET) (by omega) (by decide)
      rw [checkedAdd, if_pos hfits] at h
      cases h.1

/-! ## Instructions -/

def startEpoch (sys : Sysvars) (c : Controller) : Except ControllerError Controller := do
  let es := c.epochState
  require (es.controllerEpoch < sys.clock.epoch) .epochNotAdvanced
  require (phaseTransitionAllowed es.phase .reconcile) .wrongPhase
  pure { c with
    epochState :=
      { es.resetForNewEpoch with
        controllerEpoch := sys.clock.epoch
        -- from the previous snapshot; finalizing refreshes it
        churnBudgetTotal := globalChurnBudget es.navTotalLamports GLOBAL_CHURN_CAP_BPS
        phase := .reconcile } }

/-- The four accounts a caller passes for one list entry: the record and the vote account, named
by their keys, with what the vote account and the pair of stake accounts contain. -/
structure Quad where
  record : Pubkey
  vote : Pubkey
  sample : Option VoteSample
  observation : StakeObservation
  deriving DecidableEq, Repr

def bindQuad (list : ValidatorList) (q : Quad × ℕ) : Except ControllerError Unit := do
  let entry ← okOr list.entries[q.2]? .invalidValidatorListEntry
  require (q.1.vote = entry.voteAccountAddress) .invalidRemainingAccounts

structure ReconcileAcc where
  epochState : EpochState
  records : Table Pubkey ValidatorRecord
  anyBecameCurrent : Bool

/-- Record what reconcile sees of one entry. -/
def ValidatorRecord.observed (r : ValidatorRecord) (epoch index : ℕ) (s : StakeInfo)
    (obs : VoteObservation) : ValidatorRecord :=
  { r with
    lastActiveLamports := s.activeStakeLamports
    lastTransientLamports := s.transientStakeLamports
    hasPoolStake := 0 < s.activeStakeLamports || 0 < s.transientStakeLamports
    validatorListIndex := some index
    observedEpoch := epoch
    observedCommissionOk := obs.commissionOk
    observedLivenessOk := obs.livenessOk }

def healthyAfter (es : EpochState) (obs : VoteObservation) (delegated : ℕ) :
    Except ControllerError ℕ :=
  if obs.livenessOk then okOr (checkedAdd 64 es.healthyDelegatedLamports delegated) .mathOverflow
  else pure es.healthyDelegatedLamports

def reconcileOne (sys : Sysvars) (before after : ValidatorList) (acc : ReconcileAcc)
    (q : Quad × ℕ) : Except ControllerError ReconcileAcc := do
  let es := acc.epochState
  let was ← okOr before.entries[q.2]? .invalidValidatorListEntry
  let entry ← okOr after.entries[q.2]? .invalidValidatorListEntry
  let record ← okOr (acc.records.lookup q.1.record) .accountNotInitialized
  require (q.1.record = q.1.vote) .invalidRemainingAccounts
  let obs := observeVote q.1.sample COMMISSION_CAP_PERCENT sys.clock.slot sys.freshnessWindow
  let delegated ← okOr (checkedAdd 64 entry.activeStakeLamports entry.transientStakeLamports)
    .mathOverflow
  let total ← okOr (checkedAdd 64 es.totalDelegatedLamports delegated) .mathOverflow
  let healthy ← healthyAfter es obs delegated
  pure
    { epochState :=
        { es with totalDelegatedLamports := total, healthyDelegatedLamports := healthy }
      records := acc.records.insert q.1.record
        (record.observed es.controllerEpoch q.2 entry.toStakeInfo obs)
      anyBecameCurrent := acc.anyBecameCurrent ||
        (was.lastUpdateEpoch < sys.clock.epoch && entry.lastUpdateEpoch = sys.clock.epoch) }

def reconcileBatch (sys : Sysvars) (quads : List Quad) (crank : Pubkey) (c : Controller) :
    Except ControllerError Controller := do
  let es := c.epochState
  require (es.phase = .reconcile) .wrongPhase
  let cursor := es.reconcileCursor
  let listLen := c.pool.validators.entries.length
  require (cursor + quads.length ≤ listLen) .invalidRemainingAccounts
  require (quads ≠ [] ∨ cursor = listLen) .invalidRemainingAccounts
  (quads.zipIdx cursor).forM (bindQuad c.pool.validators)
  let pool ← poolCall (c.pool.updateValidatorListBalance sys.clock.epoch cursor
    (quads.map Quad.observation))
  let acc ← (quads.zipIdx cursor).foldlM
    (reconcileOne sys c.pool.validators pool.validators) ⟨es, c.records, false⟩
  let covered := cursor + quads.length
  let phase ← advanceIf (covered = listLen) es.phase .finalize
  let c :=
    { c with
      pool
      records := acc.records
      epochState := { acc.epochState with reconcileCursor := covered, phase } }
  if acc.anyBecameCurrent then payCrankReward CRANK_REWARD_RECONCILE_BATCH crank c else pure c

/-- `mintSupply` and `fee` are the supply of the pool mint after the epoch fee, and the fee. -/
def finalizePool (sys : Sysvars) (mintSupply fee : ℕ) (crank : Pubkey) (c : Controller) :
    Except ControllerError Controller := do
  require (c.epochState.phase = .finalize) .wrongPhase
  let preUpdateEpoch := c.pool.lastUpdateEpoch
  let pool ← poolCall (c.pool.updateStakePoolBalance sys mintSupply)
  let pool := pool.cleanupRemovedValidatorEntries
  let windowCloseSlot ← okOr
    (checkedAdd 64 sys.clock.slot (sys.slotsInEpoch / PREFERENCE_WINDOW_SLOT_DIVISOR)) .mathOverflow
  let reserve := StakeMath.reserveTarget pool.totalLamports RESERVE_MINIMUM_LAMPORTS
    RESERVE_TARGET_BPS
  require (phaseTransitionAllowed c.epochState.phase .preferences) .wrongPhase
  let c :=
    { c with
      pool
      vault := c.vault + fee
      epochState :=
        { c.epochState with
          navTotalLamports := pool.totalLamports
          navFusolSupply := pool.poolTokenSupply
          reserveTarget := reserve
          productiveLamports := StakeMath.productiveLamports pool.totalLamports reserve
          churnBudgetTotal := globalChurnBudget pool.totalLamports GLOBAL_CHURN_CAP_BPS
          preferenceWindowCloseSlot := windowCloseSlot
          phase := .preferences } }
  if preUpdateEpoch < sys.clock.epoch then payCrankReward CRANK_REWARD_FINALIZE_POOL crank c
  else pure c

def closePreferenceWindow (sys : Sysvars) (c : Controller) : Except ControllerError Controller := do
  let es := c.epochState
  require (es.phase = .preferences) .wrongPhase
  require (es.preferenceWindowCloseSlot ≤ sys.clock.slot) .preferenceWindowStillOpen
  require (phaseTransitionAllowed es.phase .planDirected) .wrongPhase
  pure { c with epochState := { es.resetPlanState with phase := .planDirected } }

def finishEpoch (sys : Sysvars) (crank : Pubkey) (c : Controller) :
    Except ControllerError Controller := do
  let es := c.epochState
  require (es.phase = .rebalance) .wrongPhase
  let walkComplete := saturatingMul 64 es.planDirectedCursor 2 ≤ es.rebalanceCursor
  let budgetExhausted :=
    es.churnBudgetTotal - es.churnBudgetUsed < sys.effectiveMinimumDelegation
  require (walkComplete ∨ budgetExhausted) .epochNotFinished
  require (phaseTransitionAllowed es.phase .idle) .wrongPhase
  payCrankReward CRANK_REWARD_FINALIZE_POOL crank
    { c with epochState := { es with phase := .idle } }

end StakeController
end FusionCore
