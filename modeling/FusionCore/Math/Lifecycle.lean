import FusionCore.Math.FixedPoint

/-!
# Stake allocation: reserve, validator lifecycle, churn and preferences

The pure rules of the allocation controller.  All quantities are lamports or fuSOL
shares; a share of the pool in basis points saturates at the width of the field that
stores it.
-/

namespace FusionCore
namespace StakeMath

open Checked

def bpsOf (amount bps : ℕ) : ℕ := min (amount * bps / BPS_DENOMINATOR) (2 ^ 64 - 1)

/-! ## Reserve -/

def reserveTarget (totalLamports reserveMinLamports reserveTargetBps : ℕ) : ℕ :=
  min totalLamports (max reserveMinLamports (bpsOf totalLamports reserveTargetBps))

def productiveLamports (totalLamports reserve : ℕ) : ℕ := totalLamports - reserve

/-! ## Validator lifecycle -/

def LIVENESS_FAILURE_EPOCHS : ℕ := 2

def CANDIDATE_HEALTHY_EPOCHS : ℕ := 2

inductive ValidatorStatus where
  | registered
  | candidate
  | active
  | draining
  | removable
  deriving DecidableEq, Repr

/-- The observations of one completed epoch. -/
structure LifecycleInput where
  commissionOk : Bool
  livenessOk : Bool
  consecutiveFailures : ℕ
  consecutiveHealthy : ℕ
  hasPoolStake : Bool
  guardActive : Bool
  zeroStakeAndTarget : Bool
  removalDelayElapsed : Bool
  deriving DecidableEq, Repr

structure LifecycleOutcome where
  status : ValidatorStatus
  consecutiveFailures : ℕ
  consecutiveHealthy : ℕ
  increasesFrozen : Bool
  deriving DecidableEq, Repr

def advanceLifecycle (current : ValidatorStatus) (input : LifecycleInput) : LifecycleOutcome :=
  let consecutiveFailures :=
    if input.livenessOk then 0 else saturatingAdd 8 input.consecutiveFailures 1
  let consecutiveHealthy :=
    if input.livenessOk && input.hasPoolStake then saturatingAdd 8 input.consecutiveHealthy 1
    else 0
  let status : ValidatorStatus :=
    match current with
    | .registered => .registered
    | .removable => .removable
    | .draining =>
      if input.zeroStakeAndTarget && input.removalDelayElapsed then .removable else .draining
    | .candidate | .active =>
      -- a commission breach drains at once; the guard only holds back liveness failures
      if !input.commissionOk then .draining
      else if LIVENESS_FAILURE_EPOCHS ≤ consecutiveFailures && !input.guardActive then .draining
      else if current = .candidate && CANDIDATE_HEALTHY_EPOCHS ≤ consecutiveHealthy then .active
      else current
  { status, consecutiveFailures, consecutiveHealthy, increasesFrozen := !input.livenessOk }

section

variable {current : ValidatorStatus} {input : LifecycleInput} {outcome : LifecycleOutcome}

/-- A failure counter is positive after a failure only, and two after a second one. -/
theorem advanceLifecycle_failures (h : advanceLifecycle current input = outcome) :
    (0 < outcome.consecutiveFailures → input.livenessOk = false) ∧
      (LIVENESS_FAILURE_EPOCHS ≤ outcome.consecutiveFailures →
        0 < input.consecutiveFailures) := by
  subst h
  simp only [advanceLifecycle, LIVENESS_FAILURE_EPOCHS, saturatingAdd]
  cases input.livenessOk with
  | true => simp
  | false =>
    refine ⟨fun _ ↦ rfl, ?_⟩
    simp only [Bool.false_eq_true, if_false]
    omega

/-- The same for healthy epochs spent with pool stake. -/
theorem advanceLifecycle_healthy (h : advanceLifecycle current input = outcome) :
    (0 < outcome.consecutiveHealthy → input.livenessOk = true ∧ input.hasPoolStake = true) ∧
      (CANDIDATE_HEALTHY_EPOCHS ≤ outcome.consecutiveHealthy → 0 < input.consecutiveHealthy) := by
  subst h
  simp only [advanceLifecycle, CANDIDATE_HEALTHY_EPOCHS, saturatingAdd, ← Bool.and_eq_true]
  cases input.livenessOk && input.hasPoolStake with
  | false => simp
  | true =>
    refine ⟨fun _ ↦ rfl, ?_⟩
    simp only [if_true]
    omega

/-- The rules for a validator that holds stake, in terms of the counters they leave. -/
theorem advanceLifecycle_status (hcurrent : current = .candidate ∨ current = .active)
    (h : advanceLifecycle current input = outcome) :
    outcome.status =
      if input.commissionOk = false then .draining
      else if LIVENESS_FAILURE_EPOCHS ≤ outcome.consecutiveFailures ∧
        input.guardActive = false then .draining
      else if current = .candidate ∧ CANDIDATE_HEALTHY_EPOCHS ≤ outcome.consecutiveHealthy then
        .active
      else current := by
  subst h
  obtain rfl | rfl := hcurrent
  all_goals simp [advanceLifecycle]

theorem advanceLifecycle_drains (hcurrent : current ≠ .draining)
    (hcommission : input.commissionOk = true)
    (h : (advanceLifecycle current input).status = .draining) :
    (current = .candidate ∨ current = .active) ∧ input.guardActive = false ∧
      0 < input.consecutiveFailures ∧ 0 < (advanceLifecycle current input).consecutiveFailures := by
  have hholds : current = .candidate ∨ current = .active := by
    cases current with
    | registered | removable => cases h
    | draining => exact absurd rfl hcurrent
    | candidate => exact .inl rfl
    | active => exact .inr rfl
  generalize ho : advanceLifecycle current input = outcome at h ⊢
  rw [advanceLifecycle_status hholds ho, hcommission, if_neg (by decide)] at h
  split at h
  next hfail =>
    exact ⟨hholds, hfail.2, (advanceLifecycle_failures ho).2 hfail.1,
      lt_of_lt_of_le (by decide) hfail.1⟩
  next =>
    split at h
    · cases h
    · exact absurd h hcurrent

theorem advanceLifecycle_promotes (hcurrent : current ≠ .active)
    (h : (advanceLifecycle current input).status = .active) :
    current = .candidate ∧ 0 < input.consecutiveHealthy ∧
      0 < (advanceLifecycle current input).consecutiveHealthy := by
  have hholds : current = .candidate := by
    cases current with
    | registered | removable => cases h
    | active => exact absurd rfl hcurrent
    | candidate => rfl
    | draining =>
      simp only [advanceLifecycle] at h
      split at h
      · cases h
      · cases h
  generalize ho : advanceLifecycle current input = outcome at h ⊢
  rw [advanceLifecycle_status (.inl hholds) ho] at h
  split at h
  · cases h
  · split at h
    · cases h
    · split at h
      next hhealthy =>
        exact ⟨hholds, (advanceLifecycle_healthy ho).2 hhealthy.2,
          lt_of_lt_of_le (by decide) hhealthy.2⟩
      next => exact absurd h hcurrent

theorem advanceLifecycle_removes (hcurrent : current ≠ .removable)
    (h : (advanceLifecycle current input).status = .removable) :
    current = .draining ∧ input.zeroStakeAndTarget = true ∧ input.removalDelayElapsed = true := by
  cases current with
  | registered => cases h
  | removable => exact absurd rfl hcurrent
  | draining =>
    simp only [advanceLifecycle, Bool.and_eq_true] at h
    split at h
    next hdone => exact ⟨rfl, hdone⟩
    next => cases h
  | candidate | active =>
    rw [advanceLifecycle_status (by simp) rfl] at h
    split_ifs at h

end

def globalLivenessGuard (healthyDelegatedLamports totalDelegatedLamports : ℕ) : Bool :=
  healthyDelegatedLamports * 2 < totalDelegatedLamports

/-- The largest final target a status allows. -/
def lifecycleCap (status : ValidatorStatus) (totalPoolLamports candidateCapBps activeCapBps : ℕ) :
    ℕ :=
  match status with
  | .registered | .draining | .removable => 0
  | .candidate => bpsOf totalPoolLamports candidateCapBps
  | .active => bpsOf totalPoolLamports activeCapBps

/-! ## Churn -/

def hysteresis (totalLamports minAbsLamports bps : ℕ) : ℕ :=
  max minAbsLamports (bpsOf totalLamports bps)

def exceedsHysteresis (deviationAbs threshold : ℕ) : Bool := threshold < deviationAbs

def globalChurnBudget (totalLamports globalChurnCapBps : ℕ) : ℕ :=
  bpsOf totalLamports globalChurnCapBps

def validatorMoveCap (totalLamports validatorMoveCapBps : ℕ) : ℕ :=
  bpsOf totalLamports validatorMoveCapBps

/-- The lamports one rebalance action may move; below the minimum action it is not worth a stake
account, unless it finishes a drain. -/
def actionAmount (deviation remainingGlobalBudget perValidatorMoveCap sourceCapacity minAction : ℕ)
    (deviationIsFullDrain : Bool) : ℕ :=
  let amount :=
    min (min (min deviation remainingGlobalBudget) perValidatorMoveCap) sourceCapacity
  if amount < minAction && !deviationIsFullDrain then 0 else amount

/-- The bounds on an amount that is acted on. -/
structure ActionBounds (amount deviation budget cap source minAction : ℕ) : Prop where
  deviation : amount ≤ deviation
  budget : amount ≤ budget
  cap : amount ≤ cap
  source : amount ≤ source
  minAction : minAction ≤ amount

theorem actionAmount_cases (deviation budget cap source minAction : ℕ) :
    actionAmount deviation budget cap source minAction false = 0 ∨
      ActionBounds (actionAmount deviation budget cap source minAction false)
        deviation budget cap source minAction := by
  unfold actionAmount
  simp only [Bool.not_false, Bool.and_true, decide_eq_true_eq]
  split
  next => exact .inl rfl
  next hmin => exact .inr ⟨by omega, by omega, by omega, by omega, by omega⟩

/-! ## Crank rewards -/

def payout (taskReward epochBudgetRemaining vaultBalance : ℕ) : ℕ :=
  min (min taskReward epochBudgetRemaining) vaultBalance

end StakeMath
end FusionCore
