import FusionCore.Controller.Rebalance

/-!
# Registration and preferences

A position's owner directs the stake behind its collateral to a validator.  A preference counts
in an epoch only if the position's collateral has not changed since the preference was last
written, and only from the epoch after that.
-/

namespace FusionCore
namespace StakeController

open Checked StakeMath

def registerValidator (vote : Pubkey) (sample : Option VoteSample) (c : Controller) :
    Except ControllerError Controller := do
  require (c.records.lookup vote = none) .accountAlreadyInUse
  require sample.isSome .invalidVoteAccount
  pure { c with records := c.records.insert vote .registered }

/-- The five clauses under which a preference counts. -/
def countable (pref : Preference) (pos : PositionView) (fusolMint : Pubkey) (currentEpoch : ℕ) :
    Prop :=
  pos.collateralMint = fusolMint ∧ pos.owner = pref.owner ∧
    pos.inkNonce = pref.observedInkNonce ∧ pref.eligibleFromEpoch ≤ currentEpoch ∧
    pref.lastCountedEpoch ≠ currentEpoch

instance (pref : Preference) (pos : PositionView) (fusolMint : Pubkey) (epoch : ℕ) :
    Decidable (countable pref pos fusolMint epoch) :=
  inferInstanceAs (Decidable (_ ∧ _))

/-- A status that directed stake can never reach. -/
def deadEnd (status : ValidatorStatus) : Prop := status = .draining ∨ status = .removable

instance (status : ValidatorStatus) : Decidable (deadEnd status) :=
  inferInstanceAs (Decidable (_ ∨ _))

/-- A preference may change once an epoch; what it was last counted in survives. -/
def lastCounted (epoch : ℕ) : Option Preference → Except ControllerError ℕ
  | none => pure 0
  | some pref => do
    require (pref.changeEpoch ≠ epoch) .preferenceChangeLimit
    pure pref.lastCountedEpoch

/-- `position` is what the account parses to, `none` if it is no fusd-core position. -/
def setPreference (sys : Sysvars) (owner key : Pubkey) (position : Option PositionView)
    (vote : Pubkey) (c : Controller) : Except ControllerError Controller := do
  let record ← okOr (c.records.lookup vote) .accountNotInitialized
  let pos ← okOr position .invalidPositionAccount
  require (pos.collateralMint = c.config.fusolCollateralMint) .invalidPositionAccount
  require (pos.owner = owner) .preferenceOwnerMismatch
  require (¬deadEnd record.status) .validatorNotEligibleForPreference
  let epoch := sys.clock.epoch
  let lastCountedEpoch ← lastCounted epoch (c.preferences.lookup key)
  let eligibleFromEpoch ← okOr (checkedAdd 64 epoch 1) .mathOverflow
  pure { c with
    preferences := c.preferences.insert key
      { owner
        voteAccount := vote
        observedInkNonce := pos.inkNonce
        observedInk := pos.ink
        eligibleFromEpoch
        lastCountedEpoch
        changeEpoch := epoch } }

def syncPreference (sys : Sysvars) (key : Pubkey) (position : Option PositionView)
    (c : Controller) : Except ControllerError Controller := do
  let pref ← okOr (c.preferences.lookup key) .accountNotInitialized
  let pos ← okOr position .invalidPositionAccount
  require (pos.collateralMint = c.config.fusolCollateralMint) .invalidPositionAccount
  if pos.inkNonce = pref.observedInkNonce ∧ pos.owner = pref.owner then pure c
  else
    let eligibleFromEpoch ← okOr (checkedAdd 64 sys.clock.epoch 1) .mathOverflow
    pure { c with
      preferences := c.preferences.insert key
        { pref with
          owner := pos.owner
          observedInkNonce := pos.inkNonce
          observedInk := pos.ink
          eligibleFromEpoch } }

/-- Add the shares of a counted preference; a stale stamp starts from zero. -/
def ValidatorRecord.direct (r : ValidatorRecord) (epoch shares : ℕ) : ValidatorRecord :=
  { r with directedSharesEpoch := epoch, directedShares := shares }

def snapshotPreference (sys : Sysvars) (key : Pubkey) (position : Option PositionView)
    (c : Controller) : Except ControllerError Controller := do
  let es := c.epochState
  let pref ← okOr (c.preferences.lookup key) .accountNotInitialized
  let record ← okOr (c.records.lookup pref.voteAccount) .accountNotInitialized
  require (es.phase = .preferences) .preferenceWindowClosed
  require (sys.clock.slot < es.preferenceWindowCloseSlot) .preferenceWindowClosed
  let pos ← okOr position .invalidPositionAccount
  require (countable pref pos c.config.fusolCollateralMint es.controllerEpoch)
    .preferenceNotCountable
  require (¬deadEnd record.status) .validatorNotEligibleForPreference
  let shares ← okOr (checkedAdd 64 (record.sharesAt es.controllerEpoch) pos.ink) .mathOverflow
  pure { c with
    records := c.records.insert pref.voteAccount (record.direct es.controllerEpoch shares)
    preferences := c.preferences.insert key
      { pref with lastCountedEpoch := es.controllerEpoch } }

def closePreference (sys : Sysvars) (closer rentRecipient key : Pubkey)
    (position : Option PositionView) (c : Controller) : Except ControllerError Controller := do
  let pref ← okOr (c.preferences.lookup key) .accountNotInitialized
  require (rentRecipient = pref.owner) .invalidRentRecipient
  let liveInk := (position.map PositionView.ink).getD 0
  require (0 < liveInk → closer = pref.owner) .positionStillOpen
  require (0 < liveInk → pref.changeEpoch ≠ sys.clock.epoch) .preferenceChangeLimit2
  pure { c with preferences := c.preferences.erase key }

end StakeController
end FusionCore
