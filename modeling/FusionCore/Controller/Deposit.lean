import FusionCore.Controller.Crank

/-!
# Deposits

The controller holds the deposit authorities of the pool, so every deposit passes through it.  SOL
goes to the reserve.  Stake goes to the validator it is delegated to, within the cap of that
validator's lifecycle status over the live pool total.
-/

namespace FusionCore
namespace StakeController

open Checked StakeMath

/-- What a user's stake account contains: who may withdraw it, the vote account it is delegated to
(`none` if it is not delegated stake) and its whole balance. -/
structure UserStake where
  withdrawer : Pubkey
  delegationVoter : Option Pubkey
  lamports : ℕ
  deriving DecidableEq, Repr

/-- `tokens` is what the pool mints for the deposit. -/
def depositSol (sys : Sysvars) (lamports tokens : ℕ) (c : Controller) :
    Except ControllerError Controller := do
  require (0 < lamports) .zeroAmount
  let pool ← poolCall (c.pool.depositSol sys lamports tokens)
  pure { c with pool }

/-- The cap of the status over the live total, against the live entry and the whole account. -/
def checkDepositCap (pool : StakePool) (status : ValidatorStatus) (entry : StakeInfo)
    (lamports : ℕ) : Except ControllerError Unit := do
  let physical ← okOr (checkedAdd 64 entry.activeStakeLamports entry.transientStakeLamports)
    .mathOverflow
  let physicalAfter ← okOr (checkedAdd 64 physical lamports) .mathOverflow
  require
    (physicalAfter ≤
      lifecycleCap status pool.totalLamports CANDIDATE_CAP_BPS ACTIVE_VALIDATOR_CAP_BPS)
    .validatorCapExceeded

/-- `validatorStake` names the validator stake account that is passed on to the pool by the vote
account it is derived from. -/
def depositStake (sys : Sysvars) (depositor vote : Pubkey) (stake : UserStake)
    (validatorStake : Pubkey) (tokens : ℕ) (c : Controller) :
    Except ControllerError Controller := do
  let record ← okOr (c.records.lookup vote) .accountNotInitialized
  require (record.status = .candidate ∨ record.status = .active) .validatorNotInPool
  let index ← okOr record.validatorListIndex .validatorNotInPool
  let voter ← okOr stake.delegationVoter .invalidUserStakeAccount
  require (voter = vote) .stakeDelegationMismatch
  let entry ← okOr c.pool.validators.entries[index]? .invalidValidatorListEntry
  require (entry.voteAccountAddress = vote) .invalidValidatorListEntry
  require (0 < stake.lamports) .zeroAmount
  checkDepositCap c.pool record.status entry.toStakeInfo stake.lamports
  require (validatorStake = vote) .addressMismatch
  -- both authorities go to the controller before the pool takes the account
  require (depositor = stake.withdrawer) .stakeAuthorize
  let pool ← poolCall (c.pool.depositStake sys vote stake.lamports tokens)
  pure { c with pool }

theorem depositSol_spec {sys : Sysvars} {lamports tokens : ℕ} {c c' : Controller}
    (h : depositSol sys lamports tokens c = .ok c') :
    ∃ pool, c.pool.depositSol sys lamports tokens = .ok pool ∧ c' = { c with pool } := by
  simp only [depositSol, bind_eq_ok_iff, require_eq_ok, exists_const, poolCall_eq_ok,
    pure_eq_ok] at h
  obtain ⟨-, pool, hpool, rfl⟩ := h
  exact ⟨pool, hpool, rfl⟩

theorem depositStake_spec {sys : Sysvars} {depositor vote : Pubkey} {stake : UserStake}
    {validatorStake : Pubkey} {tokens : ℕ} {c c' : Controller}
    (h : depositStake sys depositor vote stake validatorStake tokens c = .ok c') :
    ∃ record pool, c.records.lookup vote = some record ∧
      (record.status = .candidate ∨ record.status = .active) ∧
      c.pool.depositStake sys vote stake.lamports tokens = .ok pool ∧ c' = { c with pool } := by
  simp only [depositStake, bind_eq_ok_iff, okOr_eq_ok, require_eq_ok, exists_const, poolCall_eq_ok,
    pure_eq_ok] at h
  obtain ⟨record, hrecord, hstatus, _, -, _, -, -, _, -, -, -, -, -, -, -, pool, hpool, rfl⟩ := h
  exact ⟨record, pool, hrecord, hstatus, hpool, rfl⟩

end StakeController
end FusionCore
