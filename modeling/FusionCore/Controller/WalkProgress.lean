import FusionCore.Controller.Walk

/-!
# Progress of the walk

The action of a slot is decided from live balances, and the pool checks it again.  The call
succeeds, and the cursor moves on, exactly when the guards of the decision imply the checks of the
pool: the decision never looks at the status of the entry, and it lets a decrease take the reserve
below its own rent-exempt minimum.
-/

namespace FusionCore
namespace StakeController

open Checked StakeMath

/-! ## When an action is due -/

namespace ActionInputs

variable (i : ActionInputs)

/-- Nothing is in flight and nothing was done this epoch. -/
def free : Prop := i.transientLamports = 0 ∧ i.actedThisEpoch = false

/-- The lamports of a move under all of its caps. -/
def size (deviation source : ℕ) : ℕ :=
  min (min (min deviation i.budgetRemaining) i.validatorMoveCap) source

def drainSize : ℕ := i.size (i.activeLamports - i.drainedFloor) (i.activeLamports - i.drainedFloor)

def surplusSize : ℕ := i.size (i.activeLamports - i.finalTarget) (i.activeLamports - i.drainedFloor)

def deficitSize : ℕ := i.size (i.finalTarget - i.activeLamports) i.reserveAvailableForIncrease

def removalDue : Prop := i.free ∧ i.pass = 0 ∧ i.status = .removable

def drainDue : Prop :=
  i.free ∧ i.pass = 0 ∧ i.status = .draining ∧ i.stakeRent ≤ i.reserveLamports ∧
    i.minDelegation ≤ i.drainSize

def surplusDue : Prop :=
  i.free ∧ i.pass = 1 ∧ (i.status = .candidate ∨ i.status = .active) ∧
    i.finalTarget ≤ i.activeLamports ∧ i.hysteresisThreshold < i.activeLamports - i.finalTarget ∧
    i.stakeRent ≤ i.reserveLamports ∧ i.minDelegation ≤ i.surplusSize

def deficitDue : Prop :=
  i.free ∧ i.pass = 1 ∧ (i.status = .candidate ∨ i.status = .active) ∧
    i.activeLamports < i.finalTarget ∧ i.hysteresisThreshold < i.finalTarget - i.activeLamports ∧
    i.increasesAllowed = true ∧ i.minDelegation ≤ i.deficitSize

end ActionInputs

section Decision

variable {i : ActionInputs} (hmin : 0 < i.minDelegation)

theorem actionAmount_eq (deviation source : ℕ) :
    actionAmount deviation i.budgetRemaining i.validatorMoveCap source i.minDelegation false =
      if i.minDelegation ≤ i.size deviation source then i.size deviation source else 0 := by
  change (if decide (i.size deviation source < i.minDelegation) && !false then 0
    else i.size deviation source) = _
  by_cases hle : i.minDelegation ≤ i.size deviation source
  · rw [if_pos hle, if_neg (by simpa using hle)]
  · rw [if_neg hle, if_pos (by simpa using hle)]

include hmin

theorem decreaseOrSkip_eq (deviation source : ℕ) :
    Action.decreaseOrSkip (actionAmount deviation i.budgetRemaining i.validatorMoveCap source
        i.minDelegation false) =
      if i.minDelegation ≤ i.size deviation source then .decrease (i.size deviation source)
      else .skip := by
  rw [actionAmount_eq]
  split
  next hle => exact if_neg (by omega)
  next => exact if_pos rfl

theorem increaseOrSkip_eq (deviation source : ℕ) :
    Action.increaseOrSkip (actionAmount deviation i.budgetRemaining i.validatorMoveCap source
        i.minDelegation false) =
      if i.minDelegation ≤ i.size deviation source then .increase (i.size deviation source)
      else .skip := by
  rw [actionAmount_eq]
  split
  next hle => exact if_neg (by omega)
  next => exact if_pos rfl

theorem decideDrain_eq :
    decideDrain i = if i.stakeRent ≤ i.reserveLamports ∧ i.minDelegation ≤ i.drainSize
      then .decrease i.drainSize else .skip := by
  simp only [decideDrain]
  by_cases hrent : i.stakeRent ≤ i.reserveLamports
  · rw [if_neg (by omega), decreaseOrSkip_eq hmin]
    simp only [hrent, true_and]
    rfl
  · rw [if_pos (by omega), if_neg (fun h ↦ hrent h.1)]

theorem decideDecrease_eq :
    decideDecrease i = if i.hysteresisThreshold < i.activeLamports - i.finalTarget ∧
        i.stakeRent ≤ i.reserveLamports ∧ i.minDelegation ≤ i.surplusSize
      then .decrease i.surplusSize else .skip := by
  simp only [decideDecrease, exceedsHysteresis, Bool.not_eq_true', decide_eq_false_iff_not]
  by_cases hhyst : i.hysteresisThreshold < i.activeLamports - i.finalTarget
  · rw [if_neg (not_not.mpr hhyst)]
    by_cases hrent : i.stakeRent ≤ i.reserveLamports
    · rw [if_neg (by omega), decreaseOrSkip_eq hmin]
      simp only [hhyst, hrent, true_and]
      rfl
    · rw [if_pos (by omega), if_neg (fun h ↦ hrent h.2.1)]
  · rw [if_pos hhyst, if_neg (fun h ↦ hhyst h.1)]

theorem decideIncrease_eq :
    decideIncrease i = if i.hysteresisThreshold < i.finalTarget - i.activeLamports ∧
        i.increasesAllowed = true ∧ i.minDelegation ≤ i.deficitSize
      then .increase i.deficitSize else .skip := by
  simp only [decideIncrease, exceedsHysteresis, Bool.or_eq_true, Bool.not_eq_true',
    decide_eq_false_iff_not]
  by_cases hhyst : i.hysteresisThreshold < i.finalTarget - i.activeLamports
  · by_cases hallow : i.increasesAllowed = true
    · rw [if_neg (by simp [hhyst, hallow]), increaseOrSkip_eq hmin]
      simp only [hhyst, hallow, true_and]
      rfl
    · rw [if_pos (.inr (by simpa using hallow)), if_neg (fun h ↦ hallow h.2.1)]
  · rw [if_pos (.inl hhyst), if_neg (fun h ↦ hhyst h.1)]

omit hmin in
theorem decideAction_of_not_free (hfree : ¬i.free) : decideAction i = .skip := by
  unfold decideAction
  rw [if_pos]
  by_contra hgo
  simp only [Bool.or_eq_true, decide_eq_true_eq, not_or, Bool.not_eq_true] at hgo
  exact hfree ⟨by omega, hgo.2⟩

omit hmin in
theorem decideAction_of_free (hfree : i.free) :
    decideAction i = match i.pass, i.status with
      | 0, .removable => .remove
      | 0, .draining => decideDrain i
      | 1, .candidate | 1, .active =>
        if i.activeLamports < i.finalTarget then decideIncrease i else decideDecrease i
      | _, _ => .skip := by
  unfold decideAction
  have hgo : ¬((decide (0 < i.transientLamports) || i.actedThisEpoch) = true) := by
    simp [hfree.1, hfree.2]
  exact if_neg hgo

/-- What the pool asks of an entry and of the reserve before it carries an action out. -/
def Accepts (i : ActionInputs) (status : StakeStatus) : Action → Prop
  | .skip => True
  | .remove => status = .active
  | .decrease _ => status = .active ∧ 2 * i.stakeRent ≤ i.reserveLamports
  | .increase x => status = .active ∧ x + 2 * i.stakeRent ≤ i.reserveLamports

/-- The action that is due at a slot, if any, meets the checks of the pool. -/
structure Unblocked (i : ActionInputs) (status : StakeStatus) : Prop where
  removal : i.removalDue → status = .active
  decrease : i.drainDue ∨ i.surplusDue → status = .active ∧ 2 * i.stakeRent ≤ i.reserveLamports
  increase : i.deficitDue → status = .active ∧
    i.deficitSize + 2 * i.stakeRent ≤ i.reserveLamports

omit hmin in
theorem unblocked_of_not_due {status : StakeStatus} (hremoval : ¬i.removalDue)
    (hdrain : ¬i.drainDue)
    (hsurplus : ¬i.surplusDue) (hdeficit : ¬i.deficitDue) : Unblocked i status :=
  ⟨fun h ↦ absurd h hremoval, fun h ↦ (not_or.mpr ⟨hdrain, hsurplus⟩ h).elim,
    fun h ↦ absurd h hdeficit⟩

/-- In the second pass a surplus and a deficit exclude each other. -/
theorem unblocked_iff_second {status : StakeStatus} (hfree : i.free) (hpass : i.pass = 1)
    (hstatus : i.status = .candidate ∨ i.status = .active) :
    Unblocked i status ↔ Accepts i status
      (if i.activeLamports < i.finalTarget then decideIncrease i else decideDecrease i) := by
  have hremoval : ¬i.removalDue := fun h ↦ absurd (hpass.symm.trans h.2.1) (by decide)
  have hdrain : ¬i.drainDue := fun h ↦ absurd (hpass.symm.trans h.2.1) (by decide)
  split
  next hlt =>
    have hsurplus : ¬i.surplusDue := fun h ↦ absurd h.2.2.2.1 (by omega)
    rw [decideIncrease_eq hmin]
    split
    next hdue =>
      refine ⟨fun h ↦ h.increase ⟨hfree, hpass, hstatus, hlt, hdue⟩, fun h ↦ ?_⟩
      exact ⟨fun h ↦ absurd h hremoval, fun h ↦ (not_or.mpr ⟨hdrain, hsurplus⟩ h).elim, fun _ ↦ h⟩
    next hdue =>
      refine ⟨fun _ ↦ trivial, fun _ ↦ unblocked_of_not_due hremoval hdrain hsurplus ?_⟩
      exact fun h ↦ hdue h.2.2.2.2
  next hge =>
    have hdeficit : ¬i.deficitDue := fun h ↦ absurd h.2.2.2.1 hge
    rw [decideDecrease_eq hmin]
    split
    next hdue =>
      refine ⟨fun h ↦ h.decrease (.inr ⟨hfree, hpass, hstatus, not_lt.mp hge, hdue⟩), fun h ↦ ?_⟩
      exact ⟨fun h ↦ absurd h hremoval, fun _ ↦ h, fun h ↦ absurd h hdeficit⟩
    next hdue =>
      refine ⟨fun _ ↦ trivial, fun _ ↦ unblocked_of_not_due hremoval hdrain ?_ hdeficit⟩
      exact fun h ↦ hdue h.2.2.2.2

/-- A slot is unblocked exactly when the pool accepts what is decided for it. -/
theorem unblocked_iff {status : StakeStatus} :
    Unblocked i status ↔ Accepts i status (decideAction i) := by
  by_cases hfree : i.free
  · rw [decideAction_of_free hfree]
    split
    next hpass hstatus =>
      refine ⟨fun h ↦ h.removal ⟨hfree, hpass, hstatus⟩, fun h ↦ ⟨fun _ ↦ h, ?_, ?_⟩⟩
      · rintro (hdue | hdue)
        · exact absurd (hstatus.symm.trans hdue.2.2.1) (by decide)
        · exact absurd (hpass.symm.trans hdue.2.1) (by decide)
      · exact fun hdue ↦ absurd (hpass.symm.trans hdue.2.1) (by decide)
    next hpass hstatus =>
      have hremoval : ¬i.removalDue := fun h ↦ absurd (hstatus.symm.trans h.2.2) (by decide)
      have hsurplus : ¬i.surplusDue := fun h ↦ absurd (hpass.symm.trans h.2.1) (by decide)
      have hdeficit : ¬i.deficitDue := fun h ↦ absurd (hpass.symm.trans h.2.1) (by decide)
      rw [decideDrain_eq hmin]
      split
      next hdue =>
        refine ⟨fun h ↦ h.decrease (.inl ⟨hfree, hpass, hstatus, hdue⟩), fun h ↦ ?_⟩
        exact ⟨fun h ↦ absurd h hremoval, fun _ ↦ h, fun h ↦ absurd h hdeficit⟩
      next hdue =>
        refine ⟨fun _ ↦ trivial, fun _ ↦ unblocked_of_not_due hremoval ?_ hsurplus hdeficit⟩
        exact fun h ↦ hdue h.2.2.2
    next hpass hstatus => exact unblocked_iff_second hmin hfree hpass (.inl hstatus)
    next hpass hstatus => exact unblocked_iff_second hmin hfree hpass (.inr hstatus)
    next hnone₁ hnone₂ hnone₃ hnone₄ =>
      refine ⟨fun _ ↦ trivial, fun _ ↦ unblocked_of_not_due ?_ ?_ ?_ ?_⟩
      · exact fun h ↦ hnone₁ h.2.1 h.2.2
      · exact fun h ↦ hnone₂ h.2.1 h.2.2.1
      · exact fun h ↦ h.2.2.1.elim (hnone₃ h.2.1) (hnone₄ h.2.1)
      · exact fun h ↦ h.2.2.1.elim (hnone₃ h.2.1) (hnone₄ h.2.1)
  · rw [decideAction_of_not_free hfree]
    refine ⟨fun _ ↦ trivial, fun _ ↦ unblocked_of_not_due ?_ ?_ ?_ ?_⟩
    all_goals exact fun h ↦ hfree h.1

/-- An action, with the condition that makes it due. -/
inductive Decided (i : ActionInputs) : Action → Prop where
  | skip : Decided i .skip
  | removal (h : i.removalDue) : Decided i .remove
  | drain (h : i.drainDue) : Decided i (.decrease i.drainSize)
  | surplus (h : i.surplusDue) : Decided i (.decrease i.surplusSize)
  | deficit (h : i.deficitDue) : Decided i (.increase i.deficitSize)

theorem decided_second (hfree : i.free) (hpass : i.pass = 1)
    (hstatus : i.status = .candidate ∨ i.status = .active) :
    Decided i (if i.activeLamports < i.finalTarget then decideIncrease i
      else decideDecrease i) := by
  split
  next hlt =>
    rw [decideIncrease_eq hmin]
    split
    next hdue => exact .deficit ⟨hfree, hpass, hstatus, hlt, hdue⟩
    next => exact .skip
  next hge =>
    rw [decideDecrease_eq hmin]
    split
    next hdue => exact .surplus ⟨hfree, hpass, hstatus, not_lt.mp hge, hdue⟩
    next => exact .skip

theorem decided_decideAction : Decided i (decideAction i) := by
  by_cases hfree : i.free
  · rw [decideAction_of_free hfree]
    split
    next hpass hstatus => exact .removal ⟨hfree, hpass, hstatus⟩
    next hpass hstatus =>
      rw [decideDrain_eq hmin]
      split
      next hdue => exact .drain ⟨hfree, hpass, hstatus, hdue⟩
      next => exact .skip
    next hpass hstatus => exact decided_second hmin hfree hpass (.inl hstatus)
    next hpass hstatus => exact decided_second hmin hfree hpass (.inr hstatus)
    next => exact .skip
  · rw [decideAction_of_not_free hfree]
    exact .skip

theorem decideAction_decrease {x : ℕ} (h : decideAction i = .decrease x) :
    i.free ∧ i.minDelegation ≤ x ∧ x + i.drainedFloor ≤ i.activeLamports ∧
      x ≤ i.budgetRemaining := by
  have hdecided := decided_decideAction hmin
  rw [h] at hdecided
  cases hdecided with
  | drain hdue =>
    obtain ⟨hfree, -, -, -, hle⟩ := hdue
    refine ⟨hfree, hle, ?_⟩
    simp only [ActionInputs.drainSize, ActionInputs.size] at hle ⊢
    omega
  | surplus hdue =>
    obtain ⟨hfree, -, -, -, -, -, hle⟩ := hdue
    refine ⟨hfree, hle, ?_⟩
    simp only [ActionInputs.surplusSize, ActionInputs.size] at hle ⊢
    omega

theorem decideAction_increase {x : ℕ} (h : decideAction i = .increase x) :
    i.free ∧ i.minDelegation ≤ x ∧ x ≤ i.reserveAvailableForIncrease ∧ x ≤ i.budgetRemaining := by
  have hdecided := decided_decideAction hmin
  rw [h] at hdecided
  cases hdecided with
  | deficit hdue =>
    obtain ⟨hfree, -, -, -, -, -, hle⟩ := hdue
    refine ⟨hfree, hle, min_le_right _ _, ?_⟩
    simp only [ActionInputs.deficitSize, ActionInputs.size]
    omega

end Decision

/-! ## The call at a slot -/

/-- The caller supplies the accounts of the slot that the walk is at, and the pool is up to date. -/
structure AtSlot (sys : Sysvars) (vote crank : Pubkey) (c : Controller) (slot : RebalanceSlot)
    (record : ValidatorRecord) (entry : ValidatorEntry) : Prop where
  phase : c.epochState.phase = .rebalance
  epoch : sys.clock.epoch = c.epochState.controllerEpoch
  updated : c.pool.lastUpdateEpoch = sys.clock.epoch
  slotAt : rebalanceSlot c.epochState.rebalanceCursor c.epochState.planDirectedCursor
    c.epochState.controllerEpoch = some slot
  recordAt : c.records.lookup vote = some record
  planned : record.planEpoch = c.epochState.controllerEpoch
  index : record.validatorListIndex = some slot.index
  entryAt : c.pool.validators.entries[slot.index]? = some entry
  voteAt : entry.voteAccountAddress = vote
  recipient : crank ≠ c.config.maintenanceVault
  rent : 0 < sys.stakeRent
  reserve : c.pool.reserveLamports < 2 ^ 64
  budget : c.epochState.churnBudgetTotal < 2 ^ 64

theorem ValidatorList.find_of_getElem? {l : ValidatorList} {i : ℕ} {e : ValidatorEntry}
    (h : l.entries[i]? = some e) : l.find e.voteAccountAddress = some e := by
  obtain ⟨hi, he⟩ := List.getElem?_eq_some_iff.mp h
  refine List.find?_eq_some_iff_getElem.mpr ⟨by simp, i, hi, he, ?_⟩
  intro j hj
  have hne : l.entries[j].voteAccountAddress ≠ e.voteAccountAddress := by
    intro heq
    have hj' : j < (l.entries.map ValidatorEntry.voteAccountAddress).length := by
      simpa using hj.trans hi
    have hi' : i < (l.entries.map ValidatorEntry.voteAccountAddress).length := by simpa using hi
    have hidx :=
      (@List.Nodup.getElem_inj_iff _ _ l.distinct j hj' i hi').mp (by simpa [he] using heq)
    exact absurd hidx hj.ne
  simpa using hne

namespace AtSlot

variable {sys : Sysvars} {vote crank : Pubkey} {c : Controller} {slot : RebalanceSlot}
  {record : ValidatorRecord} {entry : ValidatorEntry}

/-- What the action of the slot is decided from. -/
abbrev inputs (_ : AtSlot sys vote crank c slot record entry) : ActionInputs :=
  actionInputs sys c.epochState slot record entry.toStakeInfo c.pool.reserveLamports

variable (h : AtSlot sys vote crank c slot record entry)

include h

theorem find : c.pool.validators.find vote = some entry := by
  rw [← h.voteAt]
  exact ValidatorList.find_of_getElem? h.entryAt

theorem minDelegation_pos : 0 < h.inputs.minDelegation :=
  lt_of_lt_of_le (by decide : 0 < UPSTREAM_MINIMUM_DELEGATION) (le_max_right _ _)

theorem checkedAdd_used {x : ℕ} (hx : x ≤ h.inputs.budgetRemaining)
    (hpos : h.inputs.minDelegation ≤ x) :
    checkedAdd 64 c.epochState.churnBudgetUsed x = some (c.epochState.churnBudgetUsed + x) := by
  refine checkedAdd_eq_some.mpr ⟨lt_of_le_of_lt ?_ h.budget, rfl⟩
  have hmin := h.minDelegation_pos
  have hx' : x ≤ c.epochState.churnBudgetTotal - c.epochState.churnBudgetUsed := hx
  omega

/-- The call of the pool succeeds exactly when the pool accepts the action. -/
theorem perform_isOk_iff : (∃ d, perform sys vote (decideAction h.inputs) record c = .ok d) ↔
    Accepts h.inputs entry.status (decideAction h.inputs) := by
  have hfresh : sys.clock.epoch ≤ c.pool.lastUpdateEpoch := h.updated.ge
  cases haction : decideAction h.inputs with
  | skip => exact ⟨fun _ ↦ trivial, fun _ ↦ ⟨c, rfl⟩⟩
  | remove =>
    simp only [perform, bind_eq_ok_iff, poolCall_eq_ok, pure_eq_ok, StakePool.requireFresh,
      StakePool.removeValidatorFromPool, okOr_eq_ok, require_eq_ok, exists_const, h.find,
      Option.some.injEq, hfresh, true_and, Accepts]
    constructor
    · rintro ⟨_, _, ⟨_, rfl, hactive, -⟩, -⟩
      exact hactive
    · exact fun hactive ↦ ⟨_, _, ⟨_, rfl, hactive, rfl⟩, rfl⟩
  | decrease x =>
    obtain ⟨hfree, hmin, hkeep, hbudget⟩ := decideAction_decrease h.minDelegation_pos haction
    have htransient : entry.transientStakeLamports = 0 := hfree.1
    have hmin' : sys.effectiveMinimumDelegation ≤ x := hmin
    have hkeep' : x + saturatingAdd 64 sys.stakeRent sys.effectiveMinimumDelegation ≤
      entry.activeStakeLamports := hkeep
    have hused := h.checkedAdd_used hbudget hmin
    have hrent := h.rent
    simp only [perform, bind_eq_ok_iff, poolCall_eq_ok, pure_eq_ok, StakePool.requireFresh,
      StakePool.decreaseValidatorStakeWithReserve, okOr_eq_ok, require_eq_ok, exists_const, h.find,
      Option.some.injEq, hfresh, true_and, hused, Accepts]
    constructor
    · rintro ⟨_, _, ⟨_, rfl, -, hactive, -, -, -, -, hreserve, -⟩, -⟩
      refine ⟨hactive, ?_⟩
      change 2 * sys.stakeRent ≤ c.pool.reserveLamports
      omega
    · rintro ⟨hactive, hreserve⟩
      have hreserve' : 2 * sys.stakeRent ≤ c.pool.reserveLamports := hreserve
      exact ⟨_, _,
        ⟨_, rfl, htransient, hactive, hmin', by omega, by omega, by omega, by omega, rfl⟩,
        _, rfl, rfl⟩
  | increase x =>
    obtain ⟨hfree, hmin, havailable, hbudget⟩ :=
      decideAction_increase h.minDelegation_pos haction
    have htransient : entry.transientStakeLamports = 0 := hfree.1
    have hmin' : sys.effectiveMinimumDelegation ≤ x := hmin
    have hpos := h.minDelegation_pos
    have havailable' : x ≤ c.pool.reserveLamports - c.epochState.reserveTarget - sys.stakeRent :=
      havailable
    have hused := h.checkedAdd_used hbudget hmin
    -- the lamports of an increase come from the reserve, so their sum with the rent fits
    have hsum : saturatingAdd 64 x sys.stakeRent = x + sys.stakeRent :=
      saturatingAdd_of_lt (lt_of_le_of_lt (by omega) h.reserve)
    simp only [perform, bind_eq_ok_iff, poolCall_eq_ok, pure_eq_ok, StakePool.requireFresh,
      StakePool.increaseValidatorStake, okOr_eq_ok, require_eq_ok, exists_const, h.find,
      Option.some.injEq, hfresh, true_and, hused, hsum, Accepts]
    constructor
    · rintro ⟨_, _, ⟨_, rfl, -, hactive, -, hreserve, -⟩, -⟩
      refine ⟨hactive, ?_⟩
      change x + 2 * sys.stakeRent ≤ c.pool.reserveLamports
      omega
    · rintro ⟨hactive, hreserve⟩
      have hreserve' : x + 2 * sys.stakeRent ≤ c.pool.reserveLamports := hreserve
      exact ⟨_, _, ⟨_, rfl, htransient, hactive, hmin', by omega, rfl⟩, _, rfl, rfl⟩

theorem nextAction_eq : nextAction sys vote record c = .ok (slot, decideAction h.inputs) := by
  simp only [nextAction, h.slotAt, h.entryAt, okOr_some, ok_bind, require_of h.index,
    require_of h.voteAt]
  rfl

omit h in
theorem config_of_perform {action : Action} {d : Controller}
    (hd : perform sys vote action record c = .ok d) : d.config = c.config := by
  cases action with
  | skip =>
    obtain rfl := pure_eq_ok.mp hd
    rfl
  | remove =>
    simp only [perform, bind_eq_ok_iff, pure_eq_ok] at hd
    obtain ⟨_, -, rfl⟩ := hd
    rfl
  | decrease x =>
    simp only [perform, bind_eq_ok_iff, pure_eq_ok] at hd
    obtain ⟨_, -, _, -, rfl⟩ := hd
    rfl
  | increase x =>
    simp only [perform, bind_eq_ok_iff, pure_eq_ok] at hd
    obtain ⟨_, -, _, -, rfl⟩ := hd
    rfl

theorem executeNextAction_eq : executeNextAction sys vote crank c = (do
    let walked ← executeWalk sys vote crank record c
    pure (walked.1, .walk walked.2.1 walked.2.2)) := by
  have hindex : record.validatorListIndex ≠ none := by
    rw [h.index]
    exact Option.some_ne_none _
  simp only [executeNextAction, h.recordAt, okOr_some, ok_bind, require_of h.phase,
    require_of h.planned, if_neg hindex]

/-- Nothing but the call of the pool can fail. -/
theorem executeWalk_isOk_iff : (∃ walked, executeWalk sys vote crank record c = .ok walked) ↔
    ∃ d, perform sys vote (decideAction h.inputs) record c = .ok d := by
  simp only [executeWalk, h.nextAction_eq, ok_bind, bind_eq_ok_iff]
  constructor
  · rintro ⟨walked, d, hd, -⟩
    exact ⟨d, hd⟩
  · rintro ⟨d, hd⟩
    by_cases hskip : decideAction h.inputs = .skip
    · exact ⟨_, d, hd, if_pos hskip⟩
    · cases hpay : payCrankReward CRANK_REWARD_REBALANCE_ACTION crank
          { d with epochState := { d.epochState with
            rebalanceCursor := d.epochState.rebalanceCursor + 1
            rebalanceActionsDone := d.epochState.rebalanceActionsDone + 1 } } with
      | error e =>
        have hvault : crank = d.config.maintenanceVault := (payCrankReward_error hpay).1
        rw [config_of_perform hd] at hvault
        exact absurd hvault h.recipient
      | ok d' =>
        refine ⟨(d', slot, decideAction h.inputs), d, hd, ?_⟩
        rw [if_neg hskip]
        exact bind_eq_ok_iff.mpr ⟨d', hpay, rfl⟩

end AtSlot

/-- A call with the accounts of the slot succeeds and advances the cursor exactly when the action
that is due, if any, meets the checks of the pool. -/
theorem walk_advances_iff {sys : Sysvars} {vote crank : Pubkey} {c : Controller}
    {slot : RebalanceSlot} {record : ValidatorRecord} {entry : ValidatorEntry}
    (h : AtSlot sys vote crank c slot record entry) :
    (∃ c' what, executeNextAction sys vote crank c = .ok (c', what) ∧
      c'.epochState.rebalanceCursor = c.epochState.rebalanceCursor + 1) ↔
    Unblocked (actionInputs sys c.epochState slot record entry.toStakeInfo c.pool.reserveLamports)
      entry.status := by
  rw [unblocked_iff h.minDelegation_pos, ← h.perform_isOk_iff, ← h.executeWalk_isOk_iff]
  constructor
  · rintro ⟨c', what, hrun, -⟩
    rw [h.executeNextAction_eq] at hrun
    obtain ⟨walked, hwalk, -⟩ := bind_eq_ok_iff.mp hrun
    exact ⟨walked, hwalk⟩
  · rintro ⟨walked, hwalk⟩
    have hrun : executeNextAction sys vote crank c =
        .ok (walked.1, .walk walked.2.1 walked.2.2) := by
      rw [h.executeNextAction_eq, hwalk]
      rfl
    refine ⟨walked.1, _, hrun, ?_⟩
    obtain ⟨-, -, ⟨hadd, -⟩ | ⟨_, _, _, -, -, _, -, -, hcursor, -⟩⟩ := executeNextAction_spec hrun
    · cases hadd
    · exact hcursor

namespace WalkSample

/-- The first slot of the sample walk, with another reserve, status of the draining validator and
status of its entry. -/
def stopped (reserve : ℕ) (status : ValidatorStatus) (entryStatus : StakeStatus) : Controller :=
  { start with
    records := start.records.insert 12 (record status 1 0)
    pool := { start.pool with
      reserveLamports := reserve
      validators := list.update 12 fun s ↦ { s with status := entryStatus } } }

theorem atSlot_stopped {reserve : ℕ} {status : ValidatorStatus} {entryStatus : StakeStatus}
    (hreserve : reserve < 2 ^ 64) :
    AtSlot sys 12 100 (stopped reserve status entryStatus) ⟨0, 1⟩ (record status 1 0)
      ⟨⟨200 * LAMPORTS_PER_SOL, 0, 5, entryStatus⟩, 12⟩ where
  phase := rfl
  epoch := rfl
  updated := rfl
  slotAt := (by decide +kernel : rebalanceSlot 0 2 5 = some ⟨0, 1⟩)
  recordAt := AList.lookup_insert _
  planned := rfl
  index := rfl
  entryAt := rfl
  voteAt := rfl
  recipient := (by decide : 100 ≠ 70)
  rent := by decide
  reserve := hreserve
  budget := (by decide : 3000 * LAMPORTS_PER_SOL < 2 ^ 64)

end WalkSample

/-- With an active entry and a reserve of one SOL the drain goes through. -/
theorem walk_advances_sample : ∃ c' what,
    executeNextAction WalkSample.sys 12 100
      (WalkSample.stopped LAMPORTS_PER_SOL .draining .active) = .ok (c', what) ∧
    c'.epochState.rebalanceCursor = 1 :=
  (walk_advances_iff (WalkSample.atSlot_stopped (by decide))).mpr
    ⟨fun _ ↦ rfl, fun _ ↦ ⟨rfl, by decide⟩, fun _ ↦ ⟨rfl, by decide⟩⟩

/-- The walk wedges on a reserve between one and two rent-exempt minima, and on a removal whose
entry is already deactivating. -/
theorem walk_wedges :
    (∃ record entry, AtSlot WalkSample.sys 12 100
        (WalkSample.stopped 3000000 .draining .active) ⟨0, 1⟩ record entry ∧
      executeNextAction WalkSample.sys 12 100 (WalkSample.stopped 3000000 .draining .active) =
        .error (.pool .insufficientFunds)) ∧
    ∃ record entry, AtSlot WalkSample.sys 12 100
        (WalkSample.stopped LAMPORTS_PER_SOL .removable .deactivatingValidator) ⟨0, 1⟩ record
          entry ∧
      executeNextAction WalkSample.sys 12 100
          (WalkSample.stopped LAMPORTS_PER_SOL .removable .deactivatingValidator) =
        .error (.pool .validatorNotFound) :=
  ⟨⟨_, _, WalkSample.atSlot_stopped (by decide), by decide +kernel⟩,
    _, _, WalkSample.atSlot_stopped (by decide), by decide +kernel⟩

end StakeController
end FusionCore
