import FusionCore.Controller.Draining

/-!
# A draining validator is drained in the end

The walk decreases a draining validator as long as one minimum delegation can leave it and one can
stay; the plan calls it drained as soon as that is no longer so.  Between the two bounds there is no
gap, so an epoch in which the walk reaches the validator takes away at least a minimum delegation or
finds it drained.
-/

namespace FusionCore
namespace StakeController

open Checked StakeMath

/-- The plan treats the record as drained. -/
def Drained (sys : Sysvars) (r : ValidatorRecord) : Prop :=
  r.lastTransientLamports = 0 ∧ ∃ threshold, sys.drainedThreshold = some threshold ∧
    r.lastActiveLamports < threshold

/-- The walk may decrease a draining validator that holds `a` lamports: the first pass, no stake in
transit, no move yet in this epoch, the rent in the reserve, and a minimum delegation within the
budget and within the cap. -/
structure MayDrain (rent minimum a : ℕ) (i : ActionInputs) : Prop where
  pass : i.pass = 0
  status : i.status = .draining
  active : i.activeLamports = a
  transient : i.transientLamports = 0
  acted : i.actedThisEpoch = false
  rent_eq : i.stakeRent = rent
  minimum_eq : i.minDelegation = minimum
  floor : i.drainedFloor = saturatingAdd 64 rent minimum
  reserve : rent ≤ i.reserveLamports
  budget : minimum ≤ i.budgetRemaining
  cap : minimum ≤ i.validatorMoveCap

section Decision

variable {rent minimum a : ℕ} {i : ActionInputs}

theorem MayDrain.decideAction_eq (h : MayDrain rent minimum a i) :
    decideAction i = .decreaseOrSkip (actionAmount (a - saturatingAdd 64 rent minimum)
      i.budgetRemaining i.validatorMoveCap (a - saturatingAdd 64 rent minimum) minimum false) := by
  have hidle : ¬((decide (0 < i.transientLamports) || i.actedThisEpoch) = true) := by
    simp [h.transient, h.acted]
  have hreserve : ¬i.reserveLamports < i.stakeRent := by
    rw [h.rent_eq]
    exact not_lt.mpr h.reserve
  rw [decideAction, if_neg hidle, h.pass, h.status]
  simp only [decideDrain]
  rw [if_neg hreserve, h.active, h.floor, h.minimum_eq]

theorem MayDrain.decreases (h : MayDrain rent minimum a i) (hpos : 1 ≤ minimum)
    (hfits : rent + 2 * minimum < 2 ^ 64) (hle : rent + 2 * minimum ≤ a) :
    ∃ x, decideAction i = .decrease x ∧ minimum ≤ x ∧ rent + minimum ≤ a - x := by
  have hbudget := h.budget
  have hcap := h.cap
  rw [h.decideAction_eq, saturatingAdd_of_lt (by omega)]
  set deviation := a - (rent + minimum) with hdeviation
  have hamount : actionAmount deviation i.budgetRemaining i.validatorMoveCap deviation minimum
      false = min (min deviation i.budgetRemaining) i.validatorMoveCap := by
    simp only [actionAmount, Bool.not_false, Bool.and_true, decide_eq_true_eq]
    rw [if_neg (by omega)]
    omega
  refine ⟨min (min deviation i.budgetRemaining) i.validatorMoveCap, ?_, by omega, by omega⟩
  rw [hamount, Action.decreaseOrSkip, if_neg (by omega)]

theorem MayDrain.skips (h : MayDrain rent minimum a i) (hpos : 1 ≤ minimum)
    (hfits : rent + 2 * minimum < 2 ^ 64) (hlt : a < rent + 2 * minimum) :
    decideAction i = .skip := by
  rw [h.decideAction_eq, saturatingAdd_of_lt (by omega)]
  have hamount : actionAmount (a - (rent + minimum)) i.budgetRemaining i.validatorMoveCap
      (a - (rent + minimum)) minimum false = 0 := by
    simp only [actionAmount, Bool.not_false, Bool.and_true, decide_eq_true_eq]
    exact if_pos (by omega)
  rw [hamount]
  rfl

theorem MayDrain.skip_iff (h : MayDrain rent minimum a i) (hpos : 1 ≤ minimum)
    (hfits : rent + 2 * minimum < 2 ^ 64) : decideAction i = .skip ↔ a < rent + 2 * minimum := by
  constructor
  · intro hskip
    by_contra hle
    obtain ⟨x, hdecrease, -⟩ := h.decreases hpos hfits (not_lt.mp hle)
    rw [hdecrease] at hskip
    cases hskip
  · exact h.skips hpos hfits

end Decision

theorem drained_iff {sys : Sysvars} {r : ValidatorRecord}
    (hfits : sys.stakeRent + 2 * sys.effectiveMinimumDelegation < 2 ^ 64)
    (htransient : r.lastTransientLamports = 0) :
    Drained sys r ↔ r.lastActiveLamports < sys.stakeRent + 2 * sys.effectiveMinimumDelegation := by
  have hthreshold : sys.drainedThreshold =
      some (sys.stakeRent + 2 * sys.effectiveMinimumDelegation) := by
    rw [Sysvars.drainedThreshold, checkedAdd_eq_some, saturatingMul]
    omega
  simp [Drained, hthreshold, htransient]

/-! ## Epochs -/

/-- The walk reaches the validator in `w`, where it holds `a`, and leaves it with `b`. -/
structure Visit (v : Pubkey) (rent minimum a b : ℕ) (w : CrankWorld) (sys : Sysvars)
    (r : ValidatorRecord) (slot : RebalanceSlot) (entry : ValidatorEntry) (action : Action) :
    Prop where
  rent_eq : sys.stakeRent = rent
  minimum_eq : sys.effectiveMinimumDelegation = minimum
  lookup : w.controller.records.lookup v = some r
  next : nextAction sys v r w.controller = .ok (slot, action)
  pass : slot.pass = 0
  entry_eq : w.controller.pool.validators.entries[slot.index]? = some entry
  active : entry.activeStakeLamports = a
  transient : entry.transientStakeLamports = 0
  increased : r.lastIncreaseEpoch ≠ w.epoch
  decreased : r.lastDecreaseEpoch ≠ w.epoch
  reserve : rent ≤ w.controller.pool.reserveLamports
  budget : minimum ≤
    w.controller.epochState.churnBudgetTotal - w.controller.epochState.churnBudgetUsed
  cap : minimum ≤
    StakeMath.validatorMoveCap w.controller.epochState.navTotalLamports VALIDATOR_MOVE_CAP_BPS
  balance : b = a - action.moved

/-- Nothing plans the record of `v`. -/
def Unplanned (v : Pubkey) (e : CrankEvent) (_ : CrankWorld) : Prop := e.instr.plans v = false

/-- Epochs in each of which the validator is planned with its balance, the walk reaches it, and
nothing else changes its balance: `n` of them lead from `a` lamports in `w₀` to `b` in `w`. -/
inductive DrainEpochs (v : Pubkey) (rent minimum a : ℕ) (w₀ : CrankWorld) :
    ℕ → ℕ → CrankWorld → Prop where
  | none : DrainEpochs v rent minimum a w₀ 0 a w₀
  | epoch {n b b' : ℕ} {w w₁ w₂ w₃ : CrankWorld} {e : CrankEvent} {sys : Sysvars}
      {r r₂ : ValidatorRecord} {slot : RebalanceSlot} {entry : ValidatorEntry} {action : Action}
      (h : DrainEpochs v rent minimum a w₀ n b w)
      (hlookup : w.controller.records.lookup v = some r) (hactive : r.lastActiveLamports = b)
      (hrent : e.sys.stakeRent = rent) (hminimum : e.sys.effectiveMinimumDelegation = minimum)
      (hplans : e.instr.plans v = true) (hplan : crank.step e w w₁)
      (hwalk : crank.Leads (Unplanned v) w₁ w₂)
      (hvisit : Visit v rent minimum b b' w₂ sys r₂ slot entry action)
      (hrest : crank.Leads (Unplanned v) w₂ w₃) :
      DrainEpochs v rent minimum a w₀ (n + 1) b' w₃

section Epochs

variable {v : Pubkey} {rent minimum a b : ℕ} {w w' : CrankWorld} {sys : Sysvars}
  {r r' : ValidatorRecord} {slot : RebalanceSlot} {entry : ValidatorEntry} {action : Action}
  {e : CrankEvent} {start : ℕ}

theorem Visit.action_eq (h : Visit v rent minimum a b w sys r slot entry action) :
    action = decideAction (actionInputs sys w.controller.epochState slot r entry.toStakeInfo
      w.controller.pool.reserveLamports) := by
  have hnext := h.next
  simp only [nextAction, bind_eq_ok_iff, okOr_eq_ok, require_eq_ok, pure_eq_ok, exists_const,
    Prod.mk.injEq] at hnext
  obtain ⟨_, -, -, found, hfound, -, rfl, haction⟩ := hnext
  obtain rfl := Option.some.inj (hfound.symm.trans h.entry_eq)
  exact haction.symm

theorem Visit.mayDrain (h : Visit v rent minimum a b w sys r slot entry action)
    (hstatus : r.status = .draining) :
    MayDrain rent minimum a (actionInputs sys w.controller.epochState slot r entry.toStakeInfo
      w.controller.pool.reserveLamports) where
  pass := h.pass
  status := hstatus
  active := h.active
  transient := h.transient
  acted := by
    simp only [actionInputs, Bool.or_eq_false_iff, decide_eq_false_iff_not]
    exact ⟨h.increased, h.decreased⟩
  rent_eq := h.rent_eq
  minimum_eq := h.minimum_eq
  floor := by rw [← h.rent_eq, ← h.minimum_eq]; rfl
  reserve := h.reserve
  budget := h.budget
  cap := h.cap

theorem Visit.moved_of_removable (h : Visit v rent minimum a b w sys r slot entry action)
    (hstatus : r.status = .removable) : action.moved = 0 := by
  rw [h.action_eq]
  unfold decideAction
  split
  · rfl
  · simp only [actionInputs, h.pass, hstatus]
    rfl

theorem status_of_leads (h : crank.Leads (Unplanned v) w w')
    (hr : w.controller.records.lookup v = some r) :
    ∃ r', w'.controller.records.lookup v = some r' ∧ r'.status = r.status := by
  induction h with
  | refl => exact ⟨r, hr, rfl⟩
  | step e _ hunplanned hs ih =>
    obtain ⟨r₁, hr₁, hstatus⟩ := ih
    obtain ⟨r₂, hr₂, hmove⟩ := crank_record_kept hs hr₁
    refine ⟨r₂, hr₂, ?_⟩
    rw [← hstatus]
    by_contra hne
    obtain ⟨hplans, -⟩ := hmove.plannedFrom hne
    rw [hunplanned] at hplans
    cases hplans

theorem PlannedFrom.balances {list : ValidatorList} {es₀ : EpochState} {threshold : ℕ}
    (h : PlannedFrom sys list es₀ threshold r r') :
    r'.lastActiveLamports = r.lastActiveLamports ∧
      r'.lastTransientLamports = r.lastTransientLamports := by
  obtain ⟨-, p, es, s, -, hsight, rfl⟩ := h
  obtain ⟨entry, -, -, rfl⟩ | ⟨-, -, obs, rfl⟩ := sight_eq hsight
  · exact ⟨rfl, rfl⟩
  · exact ⟨rfl, rfl⟩

/-- What the validator holds after `n` epochs, and that it drains still unless it is drained. -/
structure DrainState (v : Pubkey) (start limit minimum a n b : ℕ) (w : CrankWorld)
    (r : ValidatorRecord) : Prop where
  lookup : w.controller.records.lookup v = some r
  drains : DrainsSince start r
  progress : b < limit ∨ (r.status = .draining ∧ b + n * minimum ≤ a)

theorem DrainState.plan {limit n : ℕ} (hlimit : limit = rent + 2 * minimum)
    (h : DrainState v start limit minimum a n b w r) (hactive : r.lastActiveLamports = b)
    (hrent : e.sys.stakeRent = rent) (hminimum : e.sys.effectiveMinimumDelegation = minimum)
    (hs : crank.step e w w') : ∃ r', DrainState v start limit minimum a n b w' r' := by
  obtain ⟨r', hr', hmove⟩ := crank_record_kept hs h.lookup
  refine ⟨r', hr', h.drains.move hmove, ?_⟩
  obtain hless | ⟨hdraining, hle⟩ := h.progress
  · exact .inl hless
  · by_cases hstay : r'.status = .draining
    · exact .inr ⟨hstay, hle⟩
    · have hremovable : r'.status = .removable := (h.drains.move hmove).status.resolve_left hstay
      obtain ⟨-, -, -, hbelow⟩ := h.drains.removes hmove hdraining hremovable
      obtain ⟨-, -, threshold, -, hplanned⟩ :=
        hmove.plannedFrom (by rw [hremovable, hdraining]; decide)
      rw [hplanned.balances.1, hactive, hrent, hminimum, ← hlimit] at hbelow
      exact .inl hbelow

theorem DrainState.leads {limit n : ℕ} (h : DrainState v start limit minimum a n b w r)
    (hl : crank.Leads (Unplanned v) w w') : ∃ r', DrainState v start limit minimum a n b w' r' := by
  obtain ⟨r', hr', hstatus⟩ := status_of_leads hl h.lookup
  obtain ⟨r'', hr'', hdrains⟩ := DrainsSince.leads hl ⟨r, h.lookup, h.drains⟩
  obtain rfl := Option.some.inj (hr'.symm.trans hr'')
  refine ⟨r', hr', hdrains, ?_⟩
  rw [hstatus]
  exact h.progress

theorem DrainState.visit {limit n b' : ℕ} (hlimit : limit = rent + 2 * minimum)
    (hpos : 1 ≤ minimum) (hfits : limit < 2 ^ 64)
    (h : DrainState v start limit minimum a n b w r)
    (hvisit : Visit v rent minimum b b' w sys r' slot entry action) :
    DrainState v start limit minimum a (n + 1) b' w r := by
  obtain rfl := Option.some.inj (h.lookup.symm.trans hvisit.lookup)
  subst hlimit
  have hbalance := hvisit.balance
  refine ⟨h.lookup, h.drains, ?_⟩
  by_cases hless : b < rent + 2 * minimum
  · -- nothing moves any more
    have hmoved : action.moved = 0 := by
      obtain hdraining | hremovable := h.drains.status
      · rw [hvisit.action_eq, (hvisit.mayDrain hdraining).skips hpos hfits hless]
        rfl
      · exact hvisit.moved_of_removable hremovable
    exact .inl (by omega)
  · obtain ⟨hdraining, hle⟩ := h.progress.resolve_left hless
    obtain ⟨x, haction, hx, hrest⟩ :=
      (hvisit.mayDrain hdraining).decreases hpos hfits (not_lt.mp hless)
    rw [← hvisit.action_eq] at haction
    have hmoved : action.moved = x := by
      rw [haction]
      rfl
    refine .inr ⟨hdraining, ?_⟩
    rw [Nat.add_one_mul]
    omega

theorem DrainEpochs.state {n : ℕ} {w₀ : CrankWorld} (hpos : 1 ≤ minimum)
    (hfits : rent + 2 * minimum < 2 ^ 64) (hr : w₀.controller.records.lookup v = some r)
    (hdrains : DrainsSince start r) (hstatus : r.status = .draining)
    (h : DrainEpochs v rent minimum a w₀ n b w) :
    ∃ r', DrainState v start (rent + 2 * minimum) minimum a n b w r' := by
  induction h with
  | none => exact ⟨r, hr, hdrains, .inr ⟨hstatus, by omega⟩⟩
  | epoch _ hlookup hactive hrent hminimum _ hplan hwalk hvisit hrest ih =>
    obtain ⟨r₀, h₀⟩ := ih
    obtain rfl := Option.some.inj (hlookup.symm.trans h₀.lookup)
    obtain ⟨r₁, h₁⟩ := h₀.plan rfl hactive hrent hminimum hplan
    obtain ⟨r₂, h₂⟩ := h₁.leads hwalk
    exact (h₂.visit rfl hpos hfits hvisit).leads hrest

/-- In as many epochs as the balance has minimum delegations the validator is drained. -/
theorem DrainState.drained {limit n : ℕ} (hlimit : 0 < limit) (hn : a ≤ n * minimum)
    (h : DrainState v start limit minimum a n b w r) : b < limit := by
  obtain hless | ⟨-, hle⟩ := h.progress
  · exact hless
  · omega

theorem DrainsSince.becomes_removable (h : DrainsSince start r)
    (hr : w.controller.records.lookup v = some r) (hs : crank.step e w w')
    (hplans : e.instr.plans v = true) (hdrained : Drained e.sys r) (hstart : 0 < start)
    (hdelay : saturatingAdd 64 start REMOVAL_DELAY_EPOCHS ≤ w.epoch) :
    ∃ r', w'.controller.records.lookup v = some r' ∧ r'.status = .removable := by
  obtain ⟨r', hr', hmove⟩ := crank_record_kept hs hr
  refine ⟨r', hr', ?_⟩
  have hplanned : ∃ threshold, e.sys.drainedThreshold = some threshold ∧
      PlannedFrom e.sys w.controller.pool.validators w.controller.epochState threshold r r' := by
    generalize e.instr = instr at hmove hplans
    cases hmove with
    | kept _ hnot =>
      rw [hnot] at hplans
      cases hplans
    | observed | directed | granted | acted => cases hplans
    | planned _ _ hthreshold hplanned => exact ⟨_, hthreshold, hplanned⟩
  obtain ⟨threshold, hthreshold, -, p, es, s, hsame, hsight, rfl⟩ := hplanned
  obtain ⟨htransient, threshold', hthreshold', hactive⟩ := hdrained
  obtain rfl := Option.some.inj (hthreshold.symm.trans hthreshold')
  obtain ⟨hstatus, hsince⟩ := sight_keeps hsight
  obtain ⟨hlast, hin⟩ : s.record.lastActiveLamports = r.lastActiveLamports ∧
      s.record.lastTransientLamports = r.lastTransientLamports := by
    obtain ⟨entry, -, -, rfl⟩ | ⟨-, -, obs, rfl⟩ := sight_eq hsight
    · exact ⟨rfl, rfl⟩
    · exact ⟨rfl, rfl⟩
  have hepoch : es.controllerEpoch = w.epoch := hsame.epoch
  have hout : (lifecycleOutcome es threshold s).status = .removable := by
    obtain hdraining | hremovable := h.status
    · have hdone : (decide (s.record.lastTransientLamports = 0) &&
          decide (s.record.lastActiveLamports < threshold) &&
          (decide (0 < s.record.removalDelayStart) &&
            decide (saturatingAdd 64 s.record.removalDelayStart REMOVAL_DELAY_EPOCHS ≤
              es.controllerEpoch))) = true := by
        rw [hlast, hin, hsince, h.since, hepoch]
        simp [htransient, hactive, hstart, hdelay]
      simp only [lifecycleOutcome, hstatus.trans hdraining, advanceLifecycle]
      exact if_pos hdone
    · simp only [lifecycleOutcome, hstatus.trans hremovable]
      rfl
  obtain heq | ⟨hregistered, -⟩ := plannedStatus_cases es s (lifecycleOutcome es threshold s)
  · exact heq.trans hout
  · cases hregistered.symm.trans hout

end Epochs

instance (v : Pubkey) (e : CrankEvent) (w : CrankWorld) : Decidable (Unplanned v e w) :=
  inferInstanceAs (Decidable (_ = _))

namespace CrankSample

/-- The cycle of an epoch up to the plan, in which the pool finds `o` for the first validator. -/
def observedAs (o : StakeObservation) (epoch : ℕ) : List CrankEvent :=
  observe epoch [{ quad 11 epoch with observation := o }, quad 12 epoch] ++
    [⟨at_ epoch 20000, .closePreferenceWindow⟩]

/-- From the plan of an epoch to the next plan; the first world is the one in which the walk reaches
the validator, after the moves of `others`. -/
def cycle (epoch : ℕ) (others : List Pubkey) (rest : List CrankEvent) (w : CrankWorld) :
    Option (CrankWorld × CrankWorld) := do
  let w₁ ← w.next (planBoth epoch)
  let w₂ ← Machine.execute (Unplanned 11) CrankWorld.next w₁
    ((plan epoch [] [11, 12]).drop 2 ++ rebalance epoch 20040 others)
  let w₃ ← Machine.execute (Unplanned 11) CrankWorld.next w₂ rest
  some (w₂, w₃)

/-- The validator is planned with `b` lamports in `w`, and the walk reaches it in `w₂` and leaves it
`b'`. -/
def reached (epoch b b' : ℕ) (w w₂ : CrankWorld) : Prop :=
  (∃ r ∈ w.controller.records.lookup 11, r.lastActiveLamports = b) ∧
    ∃ r ∈ w₂.controller.records.lookup 11,
      ∃ y ∈ (nextAction (at_ epoch 20040) 11 r w₂.controller).toOption,
        ∃ entry ∈ w₂.controller.pool.validators.entries[y.1.index]?,
          (y.1.pass = 0 ∧ b' = b - y.2.moved) ∧
          (entry.activeStakeLamports = b ∧ entry.transientStakeLamports = 0) ∧
          (r.lastIncreaseEpoch ≠ w₂.epoch ∧ r.lastDecreaseEpoch ≠ w₂.epoch) ∧
          2282880 ≤ w₂.controller.pool.reserveLamports ∧
          LAMPORTS_PER_SOL ≤
            w₂.controller.epochState.churnBudgetTotal - w₂.controller.epochState.churnBudgetUsed ∧
          LAMPORTS_PER_SOL ≤ StakeMath.validatorMoveCap w₂.controller.epochState.navTotalLamports
            VALIDATOR_MOVE_CAP_BPS

instance (epoch b b' : ℕ) (w w₂ : CrankWorld) : Decidable (reached epoch b b' w w₂) :=
  inferInstanceAs (Decidable (_ ∧ _))

theorem drainEpochs_cycle {epoch a b b' n : ℕ} {others : List Pubkey} {rest : List CrankEvent}
    {w₀ w w₂ w₃ : CrankWorld} (h : DrainEpochs 11 2282880 LAMPORTS_PER_SOL a w₀ n b w)
    (hrun : cycle epoch others rest w = some (w₂, w₃)) (hreached : reached epoch b b' w w₂) :
    DrainEpochs 11 2282880 LAMPORTS_PER_SOL a w₀ (n + 1) b' w₃ := by
  obtain ⟨⟨r, hr, hactive⟩, r₂, hr₂, y, hy, entry, hentry, ⟨hpass, hbalance⟩, ⟨hlive, htransit⟩,
    ⟨hincreased, hdecreased⟩, hreserve, hbudget, hcap⟩ := hreached
  simp only [cycle, Option.bind_eq_bind, Option.bind_eq_some_iff, Option.some.injEq,
    Prod.mk.injEq] at hrun
  obtain ⟨w₁, hplan, _, hwalk, _, hrest, rfl, rfl⟩ := hrun
  exact .epoch h hr hactive rfl rfl rfl hplan (Machine.Leads.refl.execute (fun _ _ _ hs ↦ hs) hwalk)
    ⟨rfl, rfl, hr₂, toOption_eq_some.mp hy, hpass, hentry, hlive, htransit, hincreased, hdecreased,
      hreserve, hbudget, hcap, hbalance⟩ (Machine.Leads.refl.execute (fun _ _ _ hs ↦ hs) hrest)

/-- A validator of three SOL is drained from epoch 3 on: it is decreased in epoch 4, and holds no
more than a minimum delegation and its rent when the walks of epochs 5 and 6 reach it. -/
def wholeDrain : Option (List CrankWorld) := do
  let w₀ ← run ClusterClock breached
  let w₁ ← w₀.next (planBoth 3)
  let w₂ ← Machine.execute (Unplanned 11) CrankWorld.next w₁
    (observedAs (steady (3 * LAMPORTS_PER_SOL) 0) 4)
  let (v₁, w₃) ← cycle 4 [] (rebalance 4 20040 [11] ++
    observedAs ⟨minimum, 0, 2 * LAMPORTS_PER_SOL, true, false, false⟩ 5) w₂
  let (v₂, w₄) ← cycle 5 [12] (observedAs (steady minimum 0) 6) w₃
  let (v₃, w₅) ← cycle 6 [] (observedAs (steady minimum 0) 7) w₄
  let w₆ ← w₅.next (planBoth 7)
  some [w₀, w₁, w₂, v₁, w₃, v₂, w₄, v₃, w₅, w₆]

/-- What the sample shows of the validator, world by world. -/
def drainFacts : List CrankWorld → Prop
  | [w₀, w₁, w₂, v₁, w₃, v₂, w₄, v₃, w₅, _] =>
    statusIs 11 w₀ .candidate ∧ statusIs 11 w₁ .draining ∧ statusIs 11 w₂ .draining ∧
      reached 4 (3 * LAMPORTS_PER_SOL) minimum w₂ v₁ ∧ reached 5 minimum minimum w₃ v₂ ∧
      reached 6 minimum minimum w₄ v₃ ∧
      (∃ r ∈ w₅.controller.records.lookup 11,
        r.lastActiveLamports = minimum ∧ r.lastTransientLamports = 0) ∧
      w₀.epoch = 3 ∧ w₅.epoch = 7
  | _ => False

instance : DecidablePred drainFacts := fun ws ↦ by
  unfold drainFacts
  split <;> infer_instance

end CrankSample

end StakeController
end FusionCore
