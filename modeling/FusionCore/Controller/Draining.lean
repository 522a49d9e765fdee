import FusionCore.Controller.RecordMoves

/-!
# A draining validator only loses stake

The stored status is the only link between the plan that drains a validator and everything that
happens to it later.  From that plan on the status is draining or removable, the targets of every
plan are zero, and no increase, no deposit of stake and no preference is accepted for it.
-/

namespace FusionCore
namespace StakeController

open Checked StakeMath

/-- The least number of slots the runtime gives an epoch. -/
def MINIMUM_SLOTS_PER_EPOCH : ℕ := 32

/-- A clock that a cluster can show: slots are counted in 64 bits. -/
def ClusterClock (e : CrankEvent) (_ : CrankWorld) : Prop :=
  e.sys.clock.slot < 2 ^ 64 ∧ MINIMUM_SLOTS_PER_EPOCH * e.sys.clock.epoch ≤ e.sys.clock.slot

instance (e : CrankEvent) (w : CrankWorld) : Decidable (ClusterClock e w) :=
  inferInstanceAs (Decidable (_ ∧ _))

/-- A record that drains since the epoch `start`. -/
structure DrainsSince (start : ℕ) (r : ValidatorRecord) : Prop where
  status : deadEnd r.status
  since : r.removalDelayStart = start
  directed : r.directedTarget = 0
  neutral : r.neutralGranted = 0
  final : r.finalTarget = 0

/-! ## Plans -/

theorem advanceLifecycle_deadEnd {status : ValidatorStatus} {input : LifecycleInput}
    (h : deadEnd status) : deadEnd (advanceLifecycle status input).status := by
  obtain rfl | rfl := h
  · simp only [advanceLifecycle]
    split
    · exact .inr rfl
    · exact .inl rfl
  · exact .inr rfl

theorem plannedStatus_deadEnd {es : EpochState} {threshold : ℕ} {s : Sighting}
    (h : deadEnd s.record.status) :
    deadEnd (plannedStatus es s (lifecycleOutcome es threshold s)) := by
  have hout : deadEnd (lifecycleOutcome es threshold s).status := advanceLifecycle_deadEnd h
  obtain heq | ⟨hregistered, -⟩ := plannedStatus_cases es s (lifecycleOutcome es threshold s)
  · rw [heq]
    exact hout
  · rw [hregistered] at hout
    simp [deadEnd] at hout

/-- The cap of the status is zero, and with it every target. -/
theorem planRecord_targets {es : EpochState} {threshold : ℕ} {s : Sighting}
    (h : deadEnd (planRecord es threshold s).status) :
    (planRecord es threshold s).directedTarget = 0 ∧
      (planRecord es threshold s).neutralGranted = 0 ∧
      (planRecord es threshold s).finalTarget = 0 := by
  have hcap : es.capOf (planRecord es threshold s).status = 0 := by
    obtain heq | heq := h
    · rw [heq]
      rfl
    · rw [heq]
      rfl
  have htarget : (planRecord es threshold s).directedTarget ≤
      es.capOf (planRecord es threshold s).status := directedTarget_le_cap _ _ _ _
  rw [hcap] at htarget
  exact ⟨Nat.le_zero.mp htarget, rfl, Nat.le_zero.mp htarget⟩

theorem sight_keeps {sys : Sysvars} {list : ValidatorList} {es : EpochState} {p : Pair}
    {r : ValidatorRecord} {s : Sighting} (h : sight sys list es p r = .ok s) :
    s.record.status = r.status ∧ s.record.removalDelayStart = r.removalDelayStart := by
  obtain ⟨entry, -, -, rfl⟩ | ⟨-, -, obs, rfl⟩ := sight_eq h
  · exact ⟨rfl, rfl⟩
  · exact ⟨rfl, rfl⟩

/-! ## Steps -/

section

variable {sys : Sysvars} {c : Controller} {v : Pubkey} {instr : CrankInstr}
  {r r' : ValidatorRecord} {start : ℕ}

theorem DrainsSince.of_drains (h : RecordMove sys c v instr r r') (hfrom : r.status ≠ .draining)
    (hto : r'.status = .draining) : DrainsSince c.epochState.controllerEpoch r' := by
  obtain ⟨-, -, threshold, -, -, p, es, s, hsame, hsight, rfl⟩ :=
    h.plannedFrom (by rw [hto]; exact hfrom.symm)
  have hdead : deadEnd (planRecord es threshold s).status := .inl hto
  obtain ⟨hdirected, hneutral, hfinal⟩ := planRecord_targets hdead
  refine ⟨hdead, ?_, hdirected, hneutral, hfinal⟩
  have hchanged : (planRecord es threshold s).status ≠ s.record.status := by
    rw [hto, (sight_keeps hsight).1]
    exact hfrom.symm
  exact (if_pos ⟨hchanged, hto⟩).trans hsame.epoch

theorem DrainsSince.planned {list : ValidatorList} {es₀ : EpochState} {threshold : ℕ}
    (h : DrainsSince start r) (hplan : PlannedFrom sys list es₀ threshold r r') :
    DrainsSince start r' := by
  obtain ⟨-, p, es, s, -, hsight, rfl⟩ := hplan
  obtain ⟨hstatus, hsince⟩ := sight_keeps hsight
  have hdead : deadEnd (planRecord es threshold s).status :=
    plannedStatus_deadEnd (hstatus ▸ h.status)
  obtain ⟨hdirected, hneutral, hfinal⟩ := planRecord_targets hdead
  refine ⟨hdead, ?_, hdirected, hneutral, hfinal⟩
  -- the start is written only on a change to draining, and this record was draining before
  have hkept : ¬((planRecord es threshold s).status ≠ s.record.status ∧
      (planRecord es threshold s).status = .draining) := by
    rintro ⟨hchanged, hto⟩
    rw [hto, hstatus] at hchanged
    obtain hdraining | hremovable := h.status
    · exact hchanged hdraining.symm
    · have hout : plannedStatus es s (lifecycleOutcome es threshold s) = .removable := by
        have hold : (lifecycleOutcome es threshold s).status = .removable := by
          simp only [lifecycleOutcome, hstatus.trans hremovable]
          rfl
        obtain heq | ⟨hregistered, -⟩ :=
          plannedStatus_cases es s (lifecycleOutcome es threshold s)
        · exact heq.trans hold
        · cases hregistered.symm.trans hold
      cases hto.symm.trans hout
  exact (if_neg hkept).trans (hsince.trans h.since)

theorem DrainsSince.move (h : DrainsSince start r) (hmove : RecordMove sys c v instr r r') :
    DrainsSince start r' := by
  cases hmove with
  | kept => exact h
  | observed => exact ⟨h.status, h.since, h.directed, h.neutral, h.final⟩
  | directed _ hstatus => exact absurd h.status hstatus
  | planned _ _ _ hplan => exact h.planned hplan
  | granted _ hgranted =>
    obtain ⟨_, _, _, _, _, hidle, rfl⟩ := hgranted
    obtain ⟨hneutral, hfinal⟩ := hidle (by obtain heq | heq := h.status <;> simp [heq])
    exact ⟨h.status, h.since, h.directed, hneutral.trans h.neutral, hfinal.trans h.final⟩
  | acted _ hacted =>
    obtain ⟨_, _, _, _, rfl⟩ := hacted
    exact ⟨h.status, h.since, h.directed, h.neutral, h.final⟩

theorem drainedThreshold_le {threshold : ℕ} (h : sys.drainedThreshold = some threshold) :
    threshold ≤ sys.stakeRent + 2 * sys.effectiveMinimumDelegation := by
  obtain ⟨-, rfl⟩ := checkedAdd_eq_some.mp h
  unfold saturatingMul
  omega

theorem DrainsSince.removes (h : DrainsSince start r) (hmove : RecordMove sys c v instr r r')
    (hfrom : r.status = .draining) (hto : r'.status = .removable) :
    instr.plans v = true ∧
      saturatingAdd 64 start REMOVAL_DELAY_EPOCHS ≤ c.epochState.controllerEpoch ∧
      r'.lastTransientLamports = 0 ∧
      r'.lastActiveLamports < sys.stakeRent + 2 * sys.effectiveMinimumDelegation := by
  obtain ⟨hplans, -, threshold, hthreshold, -, p, es, s, hsame, hsight, rfl⟩ :=
    hmove.plannedFrom (by rw [hto, hfrom]; decide)
  obtain ⟨hstatus, hsince⟩ := sight_keeps hsight
  have hout : (lifecycleOutcome es threshold s).status = .removable := by
    obtain heq | ⟨-, heq⟩ := plannedStatus_cases es s (lifecycleOutcome es threshold s)
    · exact heq.symm.trans hto
    · cases heq.symm.trans hto
  obtain ⟨-, hdrained, helapsed⟩ := advanceLifecycle_removes (by rw [hstatus, hfrom]; decide) hout
  simp only [Bool.and_eq_true, decide_eq_true_eq] at hdrained helapsed
  rw [hsince, h.since, hsame.epoch] at helapsed
  exact ⟨hplans, helapsed.2, hdrained.1, lt_of_lt_of_le hdrained.2 (drainedThreshold_le hthreshold)⟩

end

/-! ## What is refused -/

theorem decideAction_of_deadEnd {i : ActionInputs} (h : deadEnd i.status) (x : ℕ) :
    decideAction i ≠ .increase x := by
  unfold decideAction
  split
  · simp
  · split
    next => simp
    next =>
      unfold decideDrain Action.decreaseOrSkip
      split
      · simp
      · dsimp only
        split
        · simp
        · simp
    next heq => simp [deadEnd, heq] at h
    next heq => simp [deadEnd, heq] at h
    next => simp

section

variable {c c' : Controller} {v : Pubkey} {r : ValidatorRecord}
  (hr : c.records.lookup v = some r) (hdead : deadEnd r.status)
include hr hdead

theorem executeNextAction_ne_increase (sys : Sysvars) (crank : Pubkey) (slot : RebalanceSlot)
    (x : ℕ) : executeNextAction sys v crank c ≠ .ok (c', .walk slot (.increase x)) := by
  intro h
  obtain ⟨-, -, ⟨hadd, -⟩ | ⟨record, _, entry, hrecord, -, action, haction, hwhat, -⟩⟩ :=
    executeNextAction_spec h
  · cases hadd
  · obtain rfl := Option.some.inj (hrecord.symm.trans hr)
    simp only [Executed.walk.injEq] at hwhat
    exact decideAction_of_deadEnd hdead x (haction.symm.trans hwhat.2.symm)

theorem depositStake_ne_ok (sys : Sysvars) (depositor : Pubkey) (stake : UserStake)
    (validatorStake : Pubkey) (tokens : ℕ) :
    depositStake sys depositor v stake validatorStake tokens c ≠ .ok c' := by
  intro h
  obtain ⟨record, pool, hrecord, hstatus, -⟩ := depositStake_spec h
  obtain rfl := Option.some.inj (hrecord.symm.trans hr)
  obtain hdraining | hremovable := hdead
  · simp [hdraining] at hstatus
  · simp [hremovable] at hstatus

theorem snapshotPreference_ne_ok (sys : Sysvars) {key : Pubkey} {pref : Preference}
    (hpref : c.preferences.lookup key = some pref) (hvote : pref.voteAccount = v)
    (position : Option PositionView) : snapshotPreference sys key position c ≠ .ok c' := by
  intro h
  simp only [snapshotPreference, bind_eq_ok_iff, okOr_eq_ok, require_eq_ok, exists_const] at h
  obtain ⟨pref', hpref', record, hrecord, -, -, _, -, -, hstatus, -⟩ := h
  obtain rfl := Option.some.inj (hpref'.symm.trans hpref)
  rw [hvote] at hrecord
  obtain rfl := Option.some.inj (hrecord.symm.trans hr)
  exact hstatus hdead

end

/-! ## Runs -/

/-- The epochs of a cluster stay far below the limit of their counter. -/
theorem epoch_lt_of_reachable {w : CrankWorld} (h : crank.Reachable ClusterClock w) :
    w.epoch + REMOVAL_DELAY_EPOCHS < 2 ^ 64 := by
  induction h with
  | init hgenesis =>
    rw [CrankWorld.epoch, hgenesis.epochState]
    decide
  | step e _ hg hs ih =>
    obtain ⟨-, hepoch, -⟩ | ⟨hsame, -, -⟩ := crank_epoch_step hs
    · obtain ⟨hslot, hle⟩ := hg
      rw [hepoch]
      unfold MINIMUM_SLOTS_PER_EPOCH at hle
      unfold REMOVAL_DELAY_EPOCHS
      omega
    · rw [hsame]
      exact ih

theorem DrainsSince.leads {G : CrankEvent → CrankWorld → Prop} {w w' : CrankWorld} {v : Pubkey}
    {start : ℕ} (h : crank.Leads G w w')
    (hr : ∃ r, w.controller.records.lookup v = some r ∧ DrainsSince start r) :
    ∃ r, w'.controller.records.lookup v = some r ∧ DrainsSince start r := by
  induction h with
  | refl => exact hr
  | step e _ _ hs ih =>
    obtain ⟨r, hr, hdrains⟩ := ih
    obtain ⟨r', hr', hmove⟩ := crank_record_kept hs hr
    exact ⟨r', hr', hdrains.move hmove⟩

/-- From the plan that drains a validator on: the status is draining or removable and every target
is zero; it becomes removable only in a plan, after the delay, with no transient stake and too
little active stake to decrease further; and the controller refuses every increase, every deposit of
stake and every preference for it. -/
theorem draining_only_loses {e : CrankEvent} {w₀ w w' : CrankWorld} {v : Pubkey}
    {r₀ r₁ : ValidatorRecord} (h : crank.Reachable ClusterClock w₀) (hs : crank.step e w₀ w)
    (hr₀ : w₀.controller.records.lookup v = some r₀)
    (hr₁ : w.controller.records.lookup v = some r₁) (hfrom : r₀.status ≠ .draining)
    (hto : r₁.status = .draining) (hl : crank.Leads (fun _ _ ↦ True) w w') :
    ∃ r, w'.controller.records.lookup v = some r ∧
      (r.status = .draining ∨ r.status = .removable) ∧
      (r.directedTarget = 0 ∧ r.neutralGranted = 0 ∧ r.finalTarget = 0) ∧
      (∀ e' w'' r', crank.step e' w' w'' → w''.controller.records.lookup v = some r' →
        r.status = .draining → r'.status = .removable →
          e'.instr.plans v = true ∧ w₀.epoch + REMOVAL_DELAY_EPOCHS ≤ w'.epoch ∧
          r'.lastTransientLamports = 0 ∧
          r'.lastActiveLamports <
            e'.sys.stakeRent + 2 * e'.sys.effectiveMinimumDelegation) ∧
      (∀ sys payee c' slot x,
        executeNextAction sys v payee w'.controller ≠ .ok (c', .walk slot (.increase x))) ∧
      (∀ sys depositor stake validatorStake tokens c',
        depositStake sys depositor v stake validatorStake tokens w'.controller ≠ .ok c') ∧
      ∀ sys key position pref c', w'.controller.preferences.lookup key = some pref →
        pref.voteAccount = v → snapshotPreference sys key position w'.controller ≠ .ok c' := by
  have hstart : DrainsSince w₀.epoch r₁ := .of_drains (crank_record_move hs hr₀ hr₁) hfrom hto
  obtain ⟨r, hr, hdrains⟩ := DrainsSince.leads hl ⟨r₁, hr₁, hstart⟩
  refine ⟨r, hr, hdrains.status, ⟨hdrains.directed, hdrains.neutral, hdrains.final⟩, ?_, ?_, ?_, ?_⟩
  · intro e' w'' r' hs' hr' hdraining hremovable
    obtain ⟨hplans, hdelay, htransient, hactive⟩ :=
      hdrains.removes (crank_record_move hs' hr hr') hdraining hremovable
    rw [saturatingAdd_of_lt (epoch_lt_of_reachable h)] at hdelay
    exact ⟨hplans, hdelay, htransient, hactive⟩
  · exact fun sys payee c' slot x ↦ executeNextAction_ne_increase hr hdrains.status sys payee slot x
  · exact fun sys depositor stake validatorStake tokens c' ↦
      depositStake_ne_ok hr hdrains.status sys depositor stake validatorStake tokens
  · exact fun sys key position pref c' hpref hvote ↦
      snapshotPreference_ne_ok hr hdrains.status sys hpref hvote position

namespace CrankSample

/-- The first validator raises its commission in epoch 3. -/
def breached : List CrankEvent :=
  admitted ++ observe 3 [{ quad 11 3 with sample := some ⟨50, true, 1296010⟩ }, quad 12 3] ++
    [⟨at_ 3 20000, .closePreferenceWindow⟩]

/-- Two epochs later it still holds the minimum delegation and its rent. -/
def drained : List CrankEvent :=
  observe 5 [quad 11 5, quad 12 5] ++ [⟨at_ 5 20000, .closePreferenceWindow⟩]

/-- The worlds before and after the plan of epoch 3, and before and after the plan of epoch 5. -/
def drain : Option (CrankWorld × CrankWorld × CrankWorld × CrankWorld) := do
  let w₀ ← run ClusterClock breached
  let w ← w₀.next (planBoth 3)
  let w' ← Machine.execute (fun _ _ ↦ True) CrankWorld.next w drained
  let w'' ← w'.next (planBoth 5)
  some (w₀, w, w', w'')

def statusIs (v : Pubkey) (w : CrankWorld) (status : ValidatorStatus) : Prop :=
  ∃ r ∈ w.controller.records.lookup v, r.status = status

instance (v : Pubkey) (w : CrankWorld) (status : ValidatorStatus) :
    Decidable (statusIs v w status) :=
  inferInstanceAs (Decidable (∃ r ∈ w.controller.records.lookup v, _))

theorem drain_eq_some {w₀ w w' w'' : CrankWorld} (h : drain = some (w₀, w, w', w'')) :
    crank.Reachable ClusterClock w₀ ∧ crank.step (planBoth 3) w₀ w ∧
      crank.Leads (fun _ _ ↦ True) w w' ∧ crank.step (planBoth 5) w' w'' := by
  simp only [drain, Option.bind_eq_bind, Option.bind_eq_some_iff, Option.some.injEq,
    Prod.mk.injEq] at h
  obtain ⟨w₀, hw₀, w, hw, w', hw', w'', hw'', rfl, rfl, rfl, rfl⟩ := h
  exact ⟨reachable_run hw₀, hw, Machine.Leads.refl.execute (fun _ _ _ hs ↦ hs) hw', hw''⟩

end CrankSample

/-- A validator that drains in epoch 3 is removable in the plan of epoch 5 and no sooner. -/
theorem draining_only_loses_sample : ∃ w₀ w w' w'' r r',
    CrankSample.drain = some (w₀, w, w', w'') ∧
      CrankSample.statusIs 11 w₀ .candidate ∧ CrankSample.statusIs 11 w .draining ∧
      w'.controller.records.lookup 11 = some r ∧ r.status = .draining ∧
      w''.controller.records.lookup 11 = some r' ∧ r'.status = .removable ∧
      r.finalTarget = 0 ∧ w₀.epoch + REMOVAL_DELAY_EPOCHS ≤ w'.epoch ∧
      r'.lastTransientLamports = 0 ∧ r'.lastActiveLamports < 2282880 + 2 * 1000000000 := by
  have hrun : CrankSample.drain.map (fun y ↦ decide (CrankSample.statusIs 11 y.1 .candidate ∧
      CrankSample.statusIs 11 y.2.1 .draining ∧ CrankSample.statusIs 11 y.2.2.1 .draining ∧
      CrankSample.statusIs 11 y.2.2.2 .removable)) = some true := by decide +kernel
  obtain ⟨⟨w₀, w, w', w''⟩, hdrain, hfacts⟩ := Option.map_eq_some_iff.mp hrun
  obtain ⟨h₀, h₁, h₂, h₃⟩ := of_decide_eq_true hfacts
  obtain ⟨r₀, hr₀, hfrom⟩ := id h₀
  obtain ⟨r₁, hr₁, hto⟩ := id h₁
  obtain ⟨r₂, hr₂, hdraining⟩ := h₂
  obtain ⟨r', hr', hremovable⟩ := h₃
  obtain ⟨hreach, hs, hl, hs'⟩ := CrankSample.drain_eq_some hdrain
  obtain ⟨r, hr, -, ⟨-, -, hfinal⟩, hremoves, -⟩ :=
    draining_only_loses hreach hs hr₀ hr₁ (by simp [hfrom]) hto hl
  obtain rfl := Option.some.inj (hr₂.symm.trans hr)
  obtain ⟨-, hdelay, htransient, hactive⟩ := hremoves _ _ _ hs' hr' hdraining hremovable
  exact ⟨w₀, w, w', w'', r₂, r', hdrain, h₀, h₁, hr, hdraining, hr', hremovable, hfinal, hdelay,
    htransient, hactive⟩

end StakeController
end FusionCore
