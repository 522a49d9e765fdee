import FusionCore.Controller.State

/-!
# The stake pool

The instructions of the vendored stake-pool program that the controller calls, and those that
anyone may send.  The balances that an update finds in the stake accounts, and the supply of the
pool mint, come from outside and are parameters.
-/

namespace FusionCore
namespace StakeController

open Checked

/-! ## The validator list -/

theorem map_vote_mapIdx (f : ℕ → ValidatorEntry → StakeInfo) (l : List ValidatorEntry) :
    (l.mapIdx fun i e ↦ (⟨f i e, e.voteAccountAddress⟩ : ValidatorEntry)).map
      ValidatorEntry.voteAccountAddress = l.map ValidatorEntry.voteAccountAddress := by
  refine List.ext_getElem (by simp) ?_
  intro i _ _
  simp only [List.getElem_map, List.getElem_mapIdx]

namespace ValidatorList

def votes (l : ValidatorList) : List Pubkey := l.entries.map ValidatorEntry.voteAccountAddress

def find (l : ValidatorList) (vote : Pubkey) : Option ValidatorEntry :=
  l.entries.find? fun e ↦ e.voteAccountAddress = vote

/-- Rewrite the balances and the status of the entries in place. -/
def refresh (l : ValidatorList) (f : ℕ → ValidatorEntry → StakeInfo) : ValidatorList where
  entries := l.entries.mapIdx fun i e ↦ ⟨f i e, e.voteAccountAddress⟩
  maxValidators := l.maxValidators
  fits := by
    rw [List.length_mapIdx]
    exact l.fits
  indexed := l.indexed
  distinct := by
    rw [map_vote_mapIdx]
    exact l.distinct

def update (l : ValidatorList) (vote : Pubkey) (f : StakeInfo → StakeInfo) : ValidatorList :=
  l.refresh fun _ e ↦ if e.voteAccountAddress = vote then f e.toStakeInfo else e.toStakeInfo

def retain (l : ValidatorList) (keep : ValidatorEntry → Bool) : ValidatorList where
  entries := l.entries.filter keep
  maxValidators := l.maxValidators
  fits := (List.length_filter_le _ _).trans l.fits
  indexed := l.indexed
  distinct := l.distinct.sublist (List.filter_sublist.map _)

def push (l : ValidatorList) (e : ValidatorEntry) (hroom : l.entries.length < l.maxValidators)
    (hnew : e.voteAccountAddress ∉ l.votes) : ValidatorList where
  entries := l.entries ++ [e]
  maxValidators := l.maxValidators
  fits := by
    rw [List.length_append, List.length_singleton]
    exact hroom
  indexed := l.indexed
  distinct := by
    rw [List.map_append, List.nodup_append]
    refine ⟨l.distinct, List.nodup_singleton _, ?_⟩
    rintro v hv w hw rfl
    obtain rfl : v = e.voteAccountAddress := by simpa using hw
    exact hnew hv

@[simp] theorem votes_refresh (l : ValidatorList) (f : ℕ → ValidatorEntry → StakeInfo) :
    (l.refresh f).votes = l.votes := map_vote_mapIdx f l.entries

@[simp] theorem votes_update (l : ValidatorList) (vote : Pubkey) (f : StakeInfo → StakeInfo) :
    (l.update vote f).votes = l.votes := l.votes_refresh _

theorem votes_retain_sublist (l : ValidatorList) (keep : ValidatorEntry → Bool) :
    (l.retain keep).votes.Sublist l.votes := List.filter_sublist.map _

theorem length_lt (l : ValidatorList) : l.entries.length < 2 ^ 32 :=
  lt_of_le_of_lt l.fits l.indexed

end ValidatorList

/-! ## Statuses -/

namespace StakeStatus

def removeValidatorStake : StakeStatus → StakeStatus
  | .deactivatingAll => .deactivatingTransient
  | .deactivatingValidator => .readyForRemoval
  | s => s

def removeTransientStake : StakeStatus → StakeStatus
  | .deactivatingAll => .deactivatingValidator
  | .deactivatingTransient => .readyForRemoval
  | s => s

end StakeStatus

/-- What an update finds in one pair of stake accounts: the balances that stay with the entry,
what the reserve absorbs, and which of the two accounts it absorbs whole.  `destaked` is a
validator stake that is no longer delegated. -/
structure StakeObservation where
  activeLamports : ℕ
  transientLamports : ℕ
  reserveGain : ℕ
  transientAbsorbed : Bool
  validatorAbsorbed : Bool
  destaked : Bool
  deriving DecidableEq, Repr

def StakeInfo.settle (epoch : ℕ) (o : StakeObservation) (s : StakeInfo) : StakeInfo where
  activeStakeLamports := o.activeLamports
  transientStakeLamports := o.transientLamports
  lastUpdateEpoch := epoch
  status :=
    let status := if o.transientAbsorbed then s.status.removeTransientStake else s.status
    if o.destaked then
      if o.transientLamports ≠ 0 then .deactivatingTransient else .readyForRemoval
    else if o.validatorAbsorbed then status.removeValidatorStake
    else status

def StakeInfo.isRemoved (s : StakeInfo) : Bool :=
  s.status = .readyForRemoval && s.activeStakeLamports = 0 && s.transientStakeLamports = 0

def StakeInfo.stakeLamports (s : StakeInfo) : ℕ := s.activeStakeLamports + s.transientStakeLamports

namespace StakePool

/-! ## Permissionless maintenance -/

def updateValidatorListBalance (epoch startIndex : ℕ) (obs : List StakeObservation)
    (p : StakePool) : Except PoolError StakePool := do
  require (startIndex + obs.length ≤ p.validators.entries.length) .invalidSlice
  pure { p with
    validators := p.validators.refresh fun i e ↦
      if i < startIndex then e.toStakeInfo
      else
        match obs[i - startIndex]? with
        | some o => e.toStakeInfo.settle epoch o
        | none => e.toStakeInfo
    reserveLamports := p.reserveLamports + (obs.map StakeObservation.reserveGain).sum }

/-- `mintSupply` is the supply of the pool mint after the epoch fee. -/
def updateStakePoolBalance (sys : Sysvars) (mintSupply : ℕ) (p : StakePool) :
    Except PoolError StakePool := do
  require (∀ e ∈ p.validators.entries, sys.clock.epoch ≤ e.lastUpdateEpoch) .stakeListOutOfDate
  let totalLamports ← okOr
    (tryFit 64 (p.reserveLamports - sys.stakeRent +
      (p.validators.entries.map fun e ↦ e.toStakeInfo.stakeLamports).sum)) .calculationFailure
  pure { p with
    totalLamports
    poolTokenSupply := mintSupply
    lastUpdateEpoch := max p.lastUpdateEpoch sys.clock.epoch }

def cleanupRemovedValidatorEntries (p : StakePool) : StakePool :=
  let validators := p.validators.retain fun e ↦ !e.toStakeInfo.isRemoved
  { p with
    validators
    preferredWithdraw := p.preferredWithdraw.filter fun vote ↦
      (validators.find vote).any fun e ↦ e.status = .active }

/-! ## Instructions of the staker -/

def requireFresh (sys : Sysvars) (p : StakePool) : Except PoolError Unit :=
  require (sys.clock.epoch ≤ p.lastUpdateEpoch) .stakeListAndPoolOutOfDate

def addValidatorToPool (sys : Sysvars) (vote : Pubkey) (p : StakePool) :
    Except PoolError StakePool := do
  p.requireFresh sys
  if hroom : p.validators.entries.length < p.validators.maxValidators then
    require (p.validators.entries.length < MAX_VALIDATORS_IN_POOL) .tooManyValidatorsInPool
    if hnew : vote ∉ p.validators.votes then
      let required := saturatingAdd 64 sys.effectiveMinimumDelegation sys.stakeRent
      require (sys.stakeRent ≤ p.reserveLamports - required) .insufficientFunds
      pure { p with
        validators := p.validators.push ⟨⟨required, 0, sys.clock.epoch, .active⟩, vote⟩ hroom hnew
        reserveLamports := p.reserveLamports - required }
    else .error .validatorAlreadyAdded
  else .error .accountDataTooSmall

def removeValidatorFromPool (sys : Sysvars) (vote : Pubkey) (p : StakePool) :
    Except PoolError StakePool := do
  p.requireFresh sys
  let entry ← okOr (p.validators.find vote) .validatorNotFound
  require (entry.status = .active) .validatorNotFound
  pure { p with
    validators := p.validators.update vote fun s ↦
      { s with
        status :=
          if 0 < s.transientStakeLamports then .deactivatingAll else .deactivatingValidator }
    preferredWithdraw := p.preferredWithdraw.filter fun v ↦ v ≠ vote }

/-- The rent of the transient account is paid from the reserve, which must keep its own. -/
def decreaseValidatorStakeWithReserve (sys : Sysvars) (vote : Pubkey) (lamports : ℕ)
    (p : StakePool) : Except PoolError StakePool := do
  p.requireFresh sys
  let entry ← okOr (p.validators.find vote) .validatorNotFound
  require (entry.transientStakeLamports = 0) .transientAccountInUse
  require (entry.status = .active) .validatorNotFound
  require (sys.effectiveMinimumDelegation ≤ lamports) .accountNotRentExempt
  require (lamports ≤ entry.activeStakeLamports) .insufficientFunds
  require (saturatingAdd 64 sys.stakeRent sys.effectiveMinimumDelegation ≤
    entry.activeStakeLamports - lamports) .insufficientFunds
  require (sys.stakeRent < p.reserveLamports) .reserveDepleted
  require (sys.stakeRent + sys.stakeRent ≤ p.reserveLamports) .insufficientFunds
  pure { p with
    validators := p.validators.update vote fun s ↦
      { s with
        activeStakeLamports := s.activeStakeLamports - lamports
        transientStakeLamports := lamports + sys.stakeRent }
    reserveLamports := p.reserveLamports - sys.stakeRent }

def increaseValidatorStake (sys : Sysvars) (vote : Pubkey) (lamports : ℕ) (p : StakePool) :
    Except PoolError StakePool := do
  p.requireFresh sys
  let entry ← okOr (p.validators.find vote) .validatorNotFound
  require (entry.transientStakeLamports = 0) .transientAccountInUse
  require (entry.status = .active) .validatorNotFound
  require (sys.effectiveMinimumDelegation ≤ lamports) .insufficientDelegation
  let total := saturatingAdd 64 lamports sys.stakeRent
  require (sys.stakeRent ≤ p.reserveLamports - total) .insufficientFunds
  pure { p with
    validators := p.validators.update vote fun s ↦ { s with transientStakeLamports := total }
    reserveLamports := p.reserveLamports - total }

def checkPreferred (p : StakePool) : Option Pubkey → Except PoolError Unit
  | some vote => do
    let entry ← okOr (p.validators.find vote) .validatorNotFound
    require (entry.status = .active) .invalidPreferredValidator
  | none => pure ()

def setPreferredWithdrawValidator (vote : Option Pubkey) (p : StakePool) :
    Except PoolError StakePool := do
  p.checkPreferred vote
  pure { p with preferredWithdraw := vote }

end StakePool

/-! ## Deposits and withdrawals -/

/-- Who the stake of a withdrawal is split from. -/
inductive WithdrawSource where
  | active
  | transient
  | validatorRemoval
  deriving DecidableEq, Repr

/-- What anyone may take from the pool.  Deposits need the signature of the controller. -/
inductive UserOp where
  | withdrawSol (lamports tokens : ℕ)
  | withdrawStake (source : WithdrawSource) (vote : Pubkey) (lamports tokens : ℕ)
  deriving DecidableEq, Repr

/-- Take `lamports` of stake from an entry; a whole account leaves the entry ready for removal. -/
def StakeInfo.withdrawn (source : WithdrawSource) (lamports : ℕ) (s : StakeInfo) : StakeInfo :=
  match source with
  | .active => { s with activeStakeLamports := s.activeStakeLamports - lamports }
  | .transient => { s with transientStakeLamports := s.transientStakeLamports - lamports }
  | .validatorRemoval => { s with activeStakeLamports := 0, status := .readyForRemoval }

/-- What must stay behind, or that nothing does. -/
def checkSource (sys : Sysvars) (source : WithdrawSource) (lamports : ℕ) (s : StakeInfo) :
    Except PoolError Unit :=
  let kept := saturatingAdd 64 sys.stakeRent sys.effectiveMinimumDelegation
  match source with
  | .active => require (kept + lamports ≤ s.activeStakeLamports) .stakeLamportsNotEqualToMinimum
  | .transient =>
    require (kept + lamports ≤ s.transientStakeLamports) .stakeLamportsNotEqualToMinimum
  | .validatorRemoval =>
    require (s.transientStakeLamports = 0 ∧ s.activeStakeLamports = lamports)
      .stakeLamportsNotEqualToMinimum

namespace StakePool

def depositSol (sys : Sysvars) (lamports tokens : ℕ) (p : StakePool) :
    Except PoolError StakePool := do
  p.requireFresh sys
  let totalLamports ← okOr (checkedAdd 64 p.totalLamports lamports) .calculationFailure
  let poolTokenSupply ← okOr (checkedAdd 64 p.poolTokenSupply tokens) .calculationFailure
  pure { p with totalLamports, poolTokenSupply, reserveLamports := p.reserveLamports + lamports }

def depositStake (sys : Sysvars) (vote : Pubkey) (lamports tokens : ℕ) (p : StakePool) :
    Except PoolError StakePool := do
  p.requireFresh sys
  let entry ← okOr (p.validators.find vote) .validatorNotFound
  require (entry.status = .active) .validatorNotFound
  let totalLamports ← okOr (checkedAdd 64 p.totalLamports lamports) .calculationFailure
  let poolTokenSupply ← okOr (checkedAdd 64 p.poolTokenSupply tokens) .calculationFailure
  pure { p with
    totalLamports
    poolTokenSupply
    validators := p.validators.update vote fun s ↦
      { s with activeStakeLamports := s.activeStakeLamports + lamports } }

def user (sys : Sysvars) (op : UserOp) (p : StakePool) : Except PoolError StakePool := do
  p.requireFresh sys
  match op with
  | .withdrawSol lamports tokens =>
    require (sys.stakeRent + lamports ≤ p.reserveLamports) .insufficientFunds
    let totalLamports ← okOr (checkedSub p.totalLamports lamports) .calculationFailure
    let poolTokenSupply ← okOr (checkedSub p.poolTokenSupply tokens) .calculationFailure
    pure { p with totalLamports, poolTokenSupply, reserveLamports := p.reserveLamports - lamports }
  | .withdrawStake source vote lamports tokens =>
    let entry ← okOr (p.validators.find vote) .validatorNotFound
    require (entry.status = .active) .validatorNotFound
    checkSource sys source lamports entry.toStakeInfo
    let totalLamports ← okOr (checkedSub p.totalLamports lamports) .calculationFailure
    let poolTokenSupply ← okOr (checkedSub p.poolTokenSupply tokens) .calculationFailure
    pure { p with
      totalLamports
      poolTokenSupply
      validators := p.validators.update vote (StakeInfo.withdrawn source lamports)
      preferredWithdraw :=
        if source = .validatorRemoval then p.preferredWithdraw.filter fun v ↦ v ≠ vote
        else p.preferredWithdraw }

end StakePool

end StakeController
end FusionCore
