import FusionCore.Controller.Preferences

/-!
# What the instructions of the cycle change

One lemma for each instruction says from which phase it runs, where it leads, and which fields of
the crank state, of the pool and of the records it leaves alone.
-/

namespace FusionCore
namespace StakeController

open Checked StakeMath

variable {sys : Sysvars} {list before after : ValidatorList} {es : EpochState} {p : Pair}
  {threshold : ℕ} {acc acc' : PlanAcc} {crank : Pubkey} {c c' : Controller} {votes : List Pubkey}

/-! ## Starting and closing -/

theorem startEpoch_eq (h : startEpoch sys c = .ok c') :
    c.epochState.controllerEpoch < sys.clock.epoch ∧ c' = { c with
      epochState := { c.epochState.resetForNewEpoch with
        controllerEpoch := sys.clock.epoch
        churnBudgetTotal := globalChurnBudget c.epochState.navTotalLamports GLOBAL_CHURN_CAP_BPS
        phase := .reconcile } } := by
  simp only [startEpoch, bind_eq_ok_iff, require_eq_ok, pure_eq_ok, exists_const] at h
  obtain ⟨hlt, -, rfl⟩ := h
  exact ⟨hlt, rfl⟩

theorem closePreferenceWindow_eq (h : closePreferenceWindow sys c = .ok c') :
    c.epochState.phase = .preferences ∧ c' = { c with
      epochState := { c.epochState.resetPlanState with phase := .planDirected } } := by
  simp only [closePreferenceWindow, bind_eq_ok_iff, require_eq_ok, pure_eq_ok, exists_const] at h
  obtain ⟨hphase, -, -, rfl⟩ := h
  exact ⟨hphase, rfl⟩

/-! ## Planning -/

/-- What the passes of the plan leave alone. -/
structure SamePass (es es' : EpochState) : Prop where
  phase : es'.phase = es.phase
  epoch : es'.controllerEpoch = es.controllerEpoch
  nav : es'.navTotalLamports = es.navTotalLamports
  budget : es'.churnBudgetTotal = es.churnBudgetTotal
  used : es'.churnBudgetUsed = es.churnBudgetUsed
  supply : es'.navFusolSupply = es.navFusolSupply

namespace SamePass

variable {es es' es'' : EpochState}

theorem refl (es : EpochState) : SamePass es es := ⟨rfl, rfl, rfl, rfl, rfl, rfl⟩

theorem trans (h : SamePass es es') (h' : SamePass es' es'') : SamePass es es'' where
  phase := h'.phase.trans h.phase
  epoch := h'.epoch.trans h.epoch
  nav := h'.nav.trans h.nav
  budget := h'.budget.trans h.budget
  used := h'.used.trans h.used
  supply := h'.supply.trans h.supply

end SamePass

theorem EpochState.noteWithdraw_eq (es : EpochState) (vote : Pubkey) (r : ValidatorRecord) :
    ∃ surplus v, es.noteWithdraw vote r =
      { es with preferredWithdrawSurplus := surplus, preferredWithdrawVote := v } := by
  unfold EpochState.noteWithdraw EpochState.foldPreferredWithdraw
  split
  · split
    · exact ⟨_, _, rfl⟩
    · exact ⟨_, _, rfl⟩
  · exact ⟨_, _, rfl⟩

/-- The record of a vote account was observed in the given epoch. -/
def ObservedAt (epoch : ℕ) (records : Table Pubkey ValidatorRecord) (vote : Pubkey) : Prop :=
  records.HoldsAt (fun r ↦ r.observedEpoch = epoch) vote

instance (epoch : ℕ) (records : Table Pubkey ValidatorRecord) (vote : Pubkey) :
    Decidable (ObservedAt epoch records vote) :=
  inferInstanceAs (Decidable (Table.HoldsAt _ _ _))

/-- A listed record is planned from the observations it carries, any other is observed now. -/
theorem sight_eq {r : ValidatorRecord} {s : Sighting} (h : sight sys list es p r = .ok s) :
    (∃ entry, list.entries[es.planDirectedCursor]? = some entry ∧
      r.observedEpoch = es.controllerEpoch ∧
      s = ⟨{ r with validatorListIndex := some es.planDirectedCursor },
        ⟨r.observedCommissionOk, r.observedLivenessOk⟩, some entry.status, true⟩) ∨
    (list.entries[es.planDirectedCursor]? = none ∧ r.validatorListIndex = none ∧
      ∃ obs : VoteObservation,
        s = ⟨{ r with
            observedEpoch := es.controllerEpoch
            observedCommissionOk := obs.commissionOk
            observedLivenessOk := obs.livenessOk
            hasPoolStake := false }, obs, none, false⟩) := by
  unfold sight at h
  split at h
  next entry hentry =>
    simp only [sightListed, bind_eq_ok_iff, require_eq_ok, pure_eq_ok, exists_const] at h
    obtain ⟨-, hepoch, rfl⟩ := h
    exact .inl ⟨entry, hentry, hepoch, rfl⟩
  next hnone =>
    simp only [sightExtra, bind_eq_ok_iff, require_eq_ok, pure_eq_ok, exists_const] at h
    obtain ⟨hindex, rfl⟩ := h
    exact .inr ⟨hnone, hindex, _, rfl⟩

theorem observedEpoch_of_sight {record : ValidatorRecord} {s : Sighting}
    (h : sight sys list es p record = .ok s) :
    s.record.observedEpoch = es.controllerEpoch := by
  obtain ⟨entry, -, hepoch, rfl⟩ | ⟨-, -, obs, rfl⟩ := sight_eq h
  · exact hepoch
  · rfl

theorem samePass_planDirectedOne (h : planDirectedOne sys list threshold acc p = .ok acc') :
    SamePass acc.epochState acc'.epochState ∧
      ∀ v, ObservedAt acc.epochState.controllerEpoch acc.records v →
        ObservedAt acc.epochState.controllerEpoch acc'.records v := by
  simp only [planDirectedOne, bind_eq_ok_iff, okOr_eq_ok, require_eq_ok, pure_eq_ok,
    exists_const] at h
  obtain ⟨_, -, -, -, s, hs, _, -, _, -, rfl⟩ := h
  obtain ⟨_, _, hnote⟩ := EpochState.noteWithdraw_eq (EpochState.bookPlanned acc.epochState _ _ _
    (planRecord acc.epochState threshold s)) p.record (planRecord acc.epochState threshold s)
  dsimp only
  rw [hnote]
  refine ⟨⟨rfl, rfl, rfl, rfl, rfl, rfl⟩, ?_⟩
  intro v hv
  exact Table.HoldsAt.insert hv fun _ ↦ observedEpoch_of_sight hs

theorem samePass_planNeutralOne {vote : Pubkey} (h : planNeutralOne acc vote = .ok acc') :
    SamePass acc.epochState acc'.epochState ∧
      acc'.epochState.planDirectedCursor = acc.epochState.planDirectedCursor := by
  simp only [planNeutralOne, bind_eq_ok_iff, okOr_eq_ok, require_eq_ok, pure_eq_ok,
    exists_const] at h
  obtain ⟨record, -, -, granted, -, final, -, capacity, -, total, -, rfl⟩ := h
  set r := record.grantedBy acc.epochState.neutralRoundNumber _ granted final capacity
  obtain ⟨_, _, hnote⟩ := EpochState.noteWithdraw_eq
    (EpochState.bookGrant acc.epochState _ total) vote r
  dsimp only
  rw [hnote]
  exact ⟨⟨rfl, rfl, rfl, rfl, rfl, rfl⟩, rfl⟩

theorem samePass_openNeutral (es : EpochState) :
    SamePass es (openNeutral es).1 ∧
      (openNeutral es).1.planDirectedCursor = es.planDirectedCursor := by
  obtain ⟨-, -, heq⟩ | ⟨round, -, -, heq⟩ | ⟨-, heq⟩ := openNeutral_cases es
  all_goals
    rw [heq]
    exact ⟨⟨rfl, rfl, rfl, rfl, rfl, rfl⟩, rfl⟩

theorem samePass_closeRound {closed : EpochState × Bool} (h : closeRound es = .ok closed) :
    SamePass es closed.1 ∧ closed.1.planDirectedCursor = es.planDirectedCursor := by
  simp only [closeRound, bind_eq_ok_iff, okOr_eq_ok, require_eq_ok, exists_const] at h
  obtain ⟨-, _, -, h⟩ := h
  split at h
  · obtain rfl := pure_eq_ok.mp h
    exact ⟨⟨rfl, rfl, rfl, rfl, rfl, rfl⟩, rfl⟩
  · simp only [bind_eq_ok_iff, okOr_eq_ok, require_eq_ok, pure_eq_ok, exists_const] at h
    obtain ⟨-, _, -, rfl⟩ := h
    exact ⟨⟨rfl, rfl, rfl, rfl, rfl, rfl⟩, rfl⟩

theorem samePass_foldlM_planNeutralOne (h : votes.foldlM planNeutralOne acc = .ok acc') :
    SamePass acc.epochState acc'.epochState ∧
      acc'.epochState.planDirectedCursor = acc.epochState.planDirectedCursor := by
  refine foldlM_invariant (P := fun a ↦ SamePass acc.epochState a.epochState ∧
    a.epochState.planDirectedCursor = acc.epochState.planDirectedCursor) ?_ ⟨.refl _, rfl⟩ h
  intro v _ a a' ⟨hsame, hlen⟩ hstep
  obtain ⟨hsame', hlen'⟩ := samePass_planNeutralOne hstep
  exact ⟨hsame.trans hsame', hlen'.trans hlen⟩

theorem samePass_foldlM_planDirectedOne {pairs : List Pair}
    (h : pairs.foldlM (planDirectedOne sys list threshold) acc = .ok acc') :
    SamePass acc.epochState acc'.epochState ∧
      ∀ v, ObservedAt acc.epochState.controllerEpoch acc.records v →
        ObservedAt acc.epochState.controllerEpoch acc'.records v := by
  refine foldlM_invariant (P := fun a ↦ SamePass acc.epochState a.epochState ∧
    ∀ v, ObservedAt acc.epochState.controllerEpoch acc.records v →
      ObservedAt acc.epochState.controllerEpoch a.records v) ?_ ⟨.refl _, fun v hv ↦ hv⟩ h
  intro p _ a a' ⟨hsame, hkeep⟩ hstep
  obtain ⟨hsame', hkeep'⟩ := samePass_planDirectedOne hstep
  refine ⟨hsame.trans hsame', ?_⟩
  intro v hv
  rw [hsame.epoch] at hkeep'
  exact hkeep' v (hkeep v hv)

theorem samePass_neutralPass {dealt : PlanAcc × Bool} (h : neutralPass votes c = .ok dealt) :
    SamePass c.epochState dealt.1.epochState ∧
      dealt.1.epochState.planDirectedCursor = c.epochState.planDirectedCursor := by
  obtain ⟨hopen, hlen⟩ := samePass_openNeutral c.epochState
  simp only [neutralPass] at h
  split at h
  · obtain rfl := pure_eq_ok.mp h
    exact ⟨hopen, hlen⟩
  · simp only [dealNeutral, bind_eq_ok_iff, require_eq_ok, exists_const] at h
    obtain ⟨-, -, acc, hfold, h⟩ := h
    obtain ⟨hfold, hlen'⟩ := samePass_foldlM_planNeutralOne hfold
    split at h
    · obtain ⟨closed, hclose, h⟩ := bind_eq_ok_iff.mp h
      obtain rfl := pure_eq_ok.mp h
      obtain ⟨hclose, hlen''⟩ := samePass_closeRound hclose
      exact ⟨(hopen.trans hfold).trans hclose, hlen''.trans (hlen'.trans hlen)⟩
    · obtain rfl := pure_eq_ok.mp h
      exact ⟨hopen.trans hfold, hlen'.trans hlen⟩

/-- What a call of a planning pass leaves alone, apart from the phase. -/
structure PlanFrame (c c' : Controller) : Prop where
  pool : c'.pool = c.pool
  epoch : c'.epochState.controllerEpoch = c.epochState.controllerEpoch
  nav : c'.epochState.navTotalLamports = c.epochState.navTotalLamports
  budget : c'.epochState.churnBudgetTotal = c.epochState.churnBudgetTotal
  used : c'.epochState.churnBudgetUsed = c.epochState.churnBudgetUsed
  supply : c'.epochState.navFusolSupply = c.epochState.navFusolSupply

theorem planDirectedBatch_spec {pairs : List Pair}
    (h : planDirectedBatch sys pairs crank c = .ok c') :
    c.epochState.phase = .planDirected ∧ PlanFrame c c' ∧
      (c'.epochState.phase = .planDirected ∨
        (c'.epochState.phase = .planNeutral ∧ c'.epochState.planDirectedCursor < 2 ^ 32)) ∧
      ∀ v, ObservedAt c.epochState.controllerEpoch c.records v →
        ObservedAt c.epochState.controllerEpoch c'.records v := by
  simp only [planDirectedBatch, bind_eq_ok_iff, okOr_eq_ok, require_eq_ok, exists_const] at h
  obtain ⟨_, -, hphase, -, acc, hfold, es', hclose, h⟩ := h
  obtain ⟨hsame, hkeep⟩ := samePass_foldlM_planDirectedOne hfold
  -- the result before the reward
  have key : ∀ d : Controller, d = { c with records := acc.records, epochState := es' } →
      PlanFrame c d ∧ (d.epochState.phase = .planDirected ∨
        (d.epochState.phase = .planNeutral ∧ d.epochState.planDirectedCursor < 2 ^ 32)) ∧
      ∀ v, ObservedAt c.epochState.controllerEpoch c.records v →
        ObservedAt c.epochState.controllerEpoch d.records v := by
    rintro d rfl
    unfold closeDirected at hclose
    split at hclose
    next hcursor =>
      simp only [bind_eq_ok_iff, okOr_eq_ok, require_eq_ok, pure_eq_ok, exists_const] at hclose
      obtain ⟨neutral, -, -, rfl⟩ := hclose
      refine ⟨⟨rfl, hsame.epoch, hsame.nav, hsame.budget, hsame.used, hsame.supply⟩,
        .inr ⟨rfl, ?_⟩, hkeep⟩
      exact lt_of_eq_of_lt hcursor c.pool.validators.length_lt
    next =>
      obtain rfl := pure_eq_ok.mp hclose
      exact ⟨⟨rfl, hsame.epoch, hsame.nav, hsame.budget, hsame.used, hsame.supply⟩,
        .inl (hsame.phase.trans hphase), hkeep⟩
  obtain ⟨hframe, hphase', hkeep'⟩ := key _ rfl
  refine ⟨hphase, ?_⟩
  obtain ⟨vault, used, rfl⟩ := rewarded_eq h
  exact ⟨{ hframe with }, hphase', hkeep'⟩

theorem planNeutralBatch_spec (h : planNeutralBatch votes crank c = .ok c') :
    c.epochState.phase = .planNeutral ∧ PlanFrame c c' ∧
      (c'.epochState.phase = .planNeutral ∨ c'.epochState.phase = .planFinalize) ∧
      c'.epochState.planDirectedCursor = c.epochState.planDirectedCursor := by
  simp only [planNeutralBatch, bind_eq_ok_iff, require_eq_ok, exists_const] at h
  obtain ⟨hphase, dealt, hpass, phase, hadvance, h⟩ := h
  obtain ⟨hsame, hlen⟩ := samePass_neutralPass hpass
  have hphase' : phase = .planNeutral ∨ phase = .planFinalize := by
    obtain ⟨-, hfin, -⟩ | ⟨-, hstay⟩ := advanceIf_eq_ok hadvance
    · exact .inr hfin
    · exact .inl (hstay.trans (hsame.phase.trans hphase))
  refine ⟨hphase, ?_⟩
  obtain ⟨vault, used, rfl⟩ := rewarded_eq h
  exact ⟨⟨rfl, hsame.epoch, hsame.nav, hsame.budget, hsame.used, hsame.supply⟩, hphase', hlen⟩

theorem finalizePlan_spec (h : finalizePlan crank c = .ok c') :
    c.epochState.phase = .planFinalize ∧ c'.epochState.phase = .rebalance ∧
      c'.pool.lastUpdateEpoch = c.pool.lastUpdateEpoch ∧
      c'.epochState.controllerEpoch = c.epochState.controllerEpoch ∧
      c'.epochState.navTotalLamports = c.epochState.navTotalLamports ∧
      c'.epochState.churnBudgetTotal = c.epochState.churnBudgetTotal ∧
      c'.epochState.churnBudgetUsed = c.epochState.churnBudgetUsed ∧
      c'.epochState.planDirectedCursor = c.epochState.planDirectedCursor ∧
      c'.epochState.rebalanceCursor = 0 := by
  simp only [finalizePlan, bind_eq_ok_iff, okOr_eq_ok, require_eq_ok, exists_const, poolCall_eq_ok,
    StakePool.setPreferredWithdrawValidator, pure_eq_ok] at h
  obtain ⟨hphase, _, -, _, -, -, _, ⟨_, -, rfl⟩, -, h⟩ := h
  obtain ⟨vault, used, rfl⟩ := payCrankReward_eq h
  exact ⟨hphase, rfl, rfl, rfl, rfl, rfl, rfl, rfl, rfl⟩

/-! ## Reconciliation -/

theorem reconcileOne_spec {acc acc' : ReconcileAcc} {q : Quad × ℕ}
    (h : reconcileOne sys before after acc q = .ok acc') :
    ∃ entry record obs healthy, after.entries[q.2]? = some entry ∧
      acc.records.lookup q.1.record = some record ∧ q.1.record = q.1.vote ∧
      acc'.epochState = { acc.epochState with
        totalDelegatedLamports :=
          acc.epochState.totalDelegatedLamports + entry.toStakeInfo.stakeLamports
        healthyDelegatedLamports := healthy } ∧
      acc'.records = acc.records.insert q.1.record
        (record.observed acc.epochState.controllerEpoch q.2 entry.toStakeInfo obs) := by
  simp only [reconcileOne, bind_eq_ok_iff, okOr_eq_ok, require_eq_ok, pure_eq_ok, exists_const,
    checkedAdd_eq_some] at h
  obtain ⟨_, -, entry, hentry, record, hrecord, hvote, _, ⟨-, rfl⟩, _, ⟨-, rfl⟩, healthy, -, rfl⟩ :=
    h
  exact ⟨entry, record, _, healthy, hentry, hrecord, hvote, rfl, rfl⟩

theorem samePass_foldlM_reconcileOne {quads : List (Quad × ℕ)} {acc acc' : ReconcileAcc}
    (h : quads.foldlM (reconcileOne sys before after) acc = .ok acc') :
    SamePass acc.epochState acc'.epochState := by
  refine foldlM_invariant (P := fun a ↦ SamePass acc.epochState a.epochState) ?_ (.refl _) h
  intro q _ a a' hsame hstep
  obtain ⟨_, _, _, _, -, -, -, hes, -⟩ := reconcileOne_spec hstep
  refine hsame.trans ?_
  rw [hes]
  exact ⟨rfl, rfl, rfl, rfl, rfl, rfl⟩

/-- A batch runs over the entries from the cursor on, after the pool has updated them. -/
theorem reconcileBatch_spec {quads : List Quad} (h : reconcileBatch sys quads crank c = .ok c') :
    c.epochState.phase = .reconcile ∧
      c.epochState.reconcileCursor + quads.length ≤ c.pool.validators.entries.length ∧
      (quads.zipIdx c.epochState.reconcileCursor).forM (bindQuad c.pool.validators) = .ok () ∧
      ∃ acc, c.pool.updateValidatorListBalance sys.clock.epoch c.epochState.reconcileCursor
          (quads.map Quad.observation) = .ok c'.pool ∧
        (quads.zipIdx c.epochState.reconcileCursor).foldlM
          (reconcileOne sys c.pool.validators c'.pool.validators)
            ⟨c.epochState, c.records, false⟩ = .ok acc ∧
        c'.records = acc.records ∧
        c'.epochState.controllerEpoch = c.epochState.controllerEpoch ∧
        c'.epochState.churnBudgetUsed = c.epochState.churnBudgetUsed ∧
        c'.epochState.totalDelegatedLamports = acc.epochState.totalDelegatedLamports ∧
        c'.epochState.reconcileCursor = c.epochState.reconcileCursor + quads.length ∧
        ((c'.epochState.phase = .finalize ∧
            c'.epochState.reconcileCursor = c.pool.validators.entries.length) ∨
          c'.epochState.phase = .reconcile) := by
  simp only [reconcileBatch, bind_eq_ok_iff, require_eq_ok, exists_const, poolCall_eq_ok] at h
  obtain ⟨hphase, hfit, -, ⟨⟩, hbind, pool, hpool, acc, hfold, phase, hadvance, h⟩ := h
  have hsame := samePass_foldlM_reconcileOne hfold
  have hphase' : (phase = .finalize ∧
      c.epochState.reconcileCursor + quads.length = c.pool.validators.entries.length) ∨
        phase = .reconcile := by
    obtain ⟨hdone, hfin, -⟩ | ⟨-, hstay⟩ := advanceIf_eq_ok hadvance
    · exact .inl ⟨hfin, hdone⟩
    · exact .inr (hstay.trans hphase)
  refine ⟨hphase, hfit, hbind, acc, ?_⟩
  obtain ⟨vault, used, rfl⟩ := rewarded_eq h
  exact ⟨hpool, hfold, rfl, hsame.epoch, hsame.used, rfl, rfl, hphase'⟩

theorem finalizePool_spec {mintSupply fee : ℕ}
    (h : finalizePool sys mintSupply fee crank c = .ok c') :
    c.epochState.phase = .finalize ∧ c'.epochState.phase = .preferences ∧
      c'.records = c.records ∧
      c'.epochState.controllerEpoch = c.epochState.controllerEpoch ∧
      c'.epochState.churnBudgetUsed = c.epochState.churnBudgetUsed ∧
      c'.epochState.churnBudgetTotal =
        globalChurnBudget c'.epochState.navTotalLamports GLOBAL_CHURN_CAP_BPS ∧
      c'.epochState.navFusolSupply = mintSupply ∧
      c'.epochState.productiveLamports < 2 ^ 64 ∧
      c'.pool.lastUpdateEpoch = max c.pool.lastUpdateEpoch sys.clock.epoch ∧
      c'.pool.validators.votes.Sublist c.pool.validators.votes := by
  simp only [finalizePool, bind_eq_ok_iff, okOr_eq_ok, require_eq_ok, exists_const, poolCall_eq_ok,
    StakePool.updateStakePoolBalance, pure_eq_ok, tryFit_eq_some] at h
  obtain ⟨hphase, _, ⟨-, _, ⟨hfits, rfl⟩, rfl⟩, slot, -, -, h⟩ := h
  have hproductive : ∀ total reserve, total < 2 ^ 64 →
      StakeMath.productiveLamports total reserve < 2 ^ 64 :=
    fun total reserve htotal ↦ lt_of_le_of_lt (Nat.sub_le total reserve) htotal
  obtain ⟨vault, used, rfl⟩ := rewarded_eq h
  exact ⟨hphase, rfl, rfl, rfl, rfl, rfl, rfl, hproductive _ _ hfits, rfl,
    ValidatorList.votes_retain_sublist _ _⟩

theorem snapshotPreference_spec {key : Pubkey} {position : Option PositionView}
    (h : snapshotPreference sys key position c = .ok c') :
    c.epochState.phase = .preferences ∧ c'.epochState = c.epochState ∧ c'.pool = c.pool ∧
      ∃ vote record shares, c.records.lookup vote = some record ∧
        c'.records = c.records.insert vote (record.direct c.epochState.controllerEpoch shares) := by
  simp only [snapshotPreference, bind_eq_ok_iff, okOr_eq_ok, require_eq_ok, pure_eq_ok,
    exists_const] at h
  obtain ⟨pref, -, record, hrecord, hphase, -, pos, -, -, -, shares, -, rfl⟩ := h
  exact ⟨hphase, rfl, rfl, pref.voteAccount, record, shares, hrecord, rfl⟩

/-! ## The walk -/

/-- The record of a vote account shows a move of stake in the given epoch. -/
def ActedAt (epoch : ℕ) (records : Table Pubkey ValidatorRecord) (vote : Pubkey) : Prop :=
  records.HoldsAt (fun r ↦ r.lastIncreaseEpoch = epoch ∨ r.lastDecreaseEpoch = epoch) vote

/-- The lamports of an action that moves stake. -/
def Action.amount? : Action → Option ℕ
  | .increase lamports => some lamports
  | .decrease lamports => some lamports
  | .skip | .remove => none

def Action.moved (a : Action) : ℕ := a.amount?.getD 0

/-- What a step of the rebalance phase leaves alone. -/
structure WalkFrame (c c' : Controller) : Prop where
  phase : c'.epochState.phase = c.epochState.phase
  updated : c'.pool.lastUpdateEpoch = c.pool.lastUpdateEpoch
  epoch : c'.epochState.controllerEpoch = c.epochState.controllerEpoch
  nav : c'.epochState.navTotalLamports = c.epochState.navTotalLamports
  budget : c'.epochState.churnBudgetTotal = c.epochState.churnBudgetTotal
  planned : c'.epochState.planDirectedCursor = c.epochState.planDirectedCursor
  acted : ∀ v, ActedAt c.epochState.controllerEpoch c.records v →
    ActedAt c.epochState.controllerEpoch c'.records v

theorem executeAdmission_spec {vote : Pubkey} {record : ValidatorRecord}
    (hrecord : c.records.lookup vote = some record)
    (h : executeAdmission sys vote crank record c = .ok c') :
    WalkFrame c c' ∧ c'.epochState.rebalanceCursor = c.epochState.rebalanceCursor ∧
      c'.epochState.churnBudgetUsed = c.epochState.churnBudgetUsed := by
  simp only [executeAdmission, bind_eq_ok_iff, require_eq_ok, exists_const, poolCall_eq_ok] at h
  obtain ⟨-, -, pool, hpool, h⟩ := h
  have hupdated : pool.lastUpdateEpoch = c.pool.lastUpdateEpoch := by
    simp only [StakePool.addValidatorToPool, bind_eq_ok_iff] at hpool
    obtain ⟨_, -, hpool⟩ := hpool
    split at hpool
    · obtain ⟨_, -, hpool⟩ := bind_eq_ok_iff.mp hpool
      split at hpool
      · obtain ⟨_, -, hpool⟩ := bind_eq_ok_iff.mp hpool
        obtain rfl := pure_eq_ok.mp hpool
        rfl
      · cases hpool
    · cases hpool
  obtain ⟨vault, used, rfl⟩ := payCrankReward_eq h
  refine ⟨⟨rfl, hupdated, rfl, rfl, rfl, rfl, ?_⟩, rfl, rfl⟩
  exact fun v hv ↦ Table.HoldsAt.replace hv hrecord id

/-- Every action adds what it moves to the used budget; a move needs a fresh pool and leaves its
stamp on the record. -/
theorem perform_spec {vote : Pubkey} {action : Action} {record : ValidatorRecord}
    (hrecord : c.records.lookup vote = some record)
    (h : perform sys vote action record c = .ok c') :
    WalkFrame c c' ∧ c'.epochState.rebalanceCursor = c.epochState.rebalanceCursor ∧
      c'.epochState.churnBudgetUsed = c.epochState.churnBudgetUsed + action.moved ∧
      (action.amount?.isSome → sys.clock.epoch ≤ c.pool.lastUpdateEpoch ∧
        ActedAt c.epochState.controllerEpoch c'.records vote) := by
  cases action with
  | skip =>
    obtain rfl := pure_eq_ok.mp h
    exact ⟨⟨rfl, rfl, rfl, rfl, rfl, rfl, fun v hv ↦ hv⟩, rfl, rfl, by simp [Action.amount?]⟩
  | remove =>
    simp only [perform, bind_eq_ok_iff, poolCall_eq_ok, pure_eq_ok,
      StakePool.removeValidatorFromPool, okOr_eq_ok, require_eq_ok, exists_const] at h
    obtain ⟨_, ⟨_, -, _, -, -, rfl⟩, rfl⟩ := h
    refine ⟨⟨rfl, rfl, rfl, rfl, rfl, rfl, ?_⟩, rfl, rfl, by simp [Action.amount?]⟩
    exact fun v hv ↦ Table.HoldsAt.replace hv hrecord id
  | decrease amount =>
    simp only [perform, bind_eq_ok_iff, poolCall_eq_ok, pure_eq_ok, StakePool.requireFresh,
      StakePool.decreaseValidatorStakeWithReserve, okOr_eq_ok, require_eq_ok, exists_const,
      checkedAdd_eq_some] at h
    obtain ⟨_, ⟨hfresh, _, -, -, -, -, -, -, -, -, rfl⟩, _, ⟨-, rfl⟩, rfl⟩ := h
    refine ⟨⟨rfl, rfl, rfl, rfl, rfl, rfl, ?_⟩, rfl, rfl, fun _ ↦ ⟨hfresh, ?_⟩⟩
    · exact fun v hv ↦ Table.HoldsAt.replace hv hrecord fun _ ↦ .inr rfl
    · exact Table.holdsAt_insert_self _ _ (.inr rfl)
  | increase amount =>
    simp only [perform, bind_eq_ok_iff, poolCall_eq_ok, pure_eq_ok, StakePool.requireFresh,
      StakePool.increaseValidatorStake, okOr_eq_ok, require_eq_ok, exists_const,
      checkedAdd_eq_some] at h
    obtain ⟨_, ⟨hfresh, _, -, -, -, -, -, rfl⟩, _, ⟨-, rfl⟩, rfl⟩ := h
    refine ⟨⟨rfl, rfl, rfl, rfl, rfl, rfl, ?_⟩, rfl, rfl, fun _ ↦ ⟨hfresh, ?_⟩⟩
    · exact fun v hv ↦ Table.HoldsAt.replace hv hrecord fun _ ↦ .inl rfl
    · exact Table.holdsAt_insert_self _ _ (.inl rfl)

theorem executeNextAction_spec {vote : Pubkey} {what : Executed}
    (h : executeNextAction sys vote crank c = .ok (c', what)) :
    c.epochState.phase = .rebalance ∧ WalkFrame c c' ∧
      ((what = .add ∧ c'.epochState.rebalanceCursor = c.epochState.rebalanceCursor ∧
          c'.epochState.churnBudgetUsed = c.epochState.churnBudgetUsed) ∨
        ∃ record slot entry, c.records.lookup vote = some record ∧
          rebalanceSlot c.epochState.rebalanceCursor c.epochState.planDirectedCursor
            c.epochState.controllerEpoch = some slot ∧
          ∃ action, action = decideAction (actionInputs sys c.epochState slot record entry
              c.pool.reserveLamports) ∧
            what = .walk slot action ∧
            c'.epochState.rebalanceCursor = c.epochState.rebalanceCursor + 1 ∧
            c'.epochState.churnBudgetUsed = c.epochState.churnBudgetUsed + action.moved ∧
            (action.amount?.isSome → sys.clock.epoch ≤ c.pool.lastUpdateEpoch ∧
              ActedAt c.epochState.controllerEpoch c'.records vote)) := by
  simp only [executeNextAction, bind_eq_ok_iff, okOr_eq_ok, require_eq_ok, exists_const] at h
  obtain ⟨record, hrecord, hphase, -, h⟩ := h
  split at h
  · simp only [bind_eq_ok_iff, pure_eq_ok, Prod.mk.injEq] at h
    obtain ⟨d, hadd, rfl, rfl⟩ := h
    obtain ⟨hframe, hcursor, hused⟩ := executeAdmission_spec hrecord hadd
    exact ⟨hphase, hframe, .inl ⟨rfl, hcursor, hused⟩⟩
  · simp only [executeWalk, nextAction, bind_eq_ok_iff, okOr_eq_ok, require_eq_ok, pure_eq_ok,
      exists_const, Prod.mk.injEq] at h
    obtain ⟨walked, ⟨next, ⟨slot, hslot, -, entry, -, -, rfl⟩, d, hperform, h⟩, rfl, rfl⟩ := h
    set action := decideAction
      (actionInputs sys c.epochState slot record entry.toStakeInfo c.pool.reserveLamports)
    obtain ⟨hframe, hcursor, hused, hmove⟩ := perform_spec hrecord hperform
    -- the cursor and the reward come after the action
    suffices hsuff : ∃ vault used done, walked = ({ d with
        vault
        epochState := { d.epochState with
          rebalanceCursor := d.epochState.rebalanceCursor + 1
          rebalanceActionsDone := done
          epochPayoutBudgetUsed := used } }, slot, action) by
      obtain ⟨vault, used, done, rfl⟩ := hsuff
      exact ⟨hphase, { hframe with }, .inr ⟨record, slot, entry.toStakeInfo, hrecord, hslot, _,
        rfl, rfl, congrArg (· + 1) hcursor, hused, hmove⟩⟩
    split at h
    · obtain rfl := pure_eq_ok.mp h
      exact ⟨_, _, _, rfl⟩
    · obtain ⟨d', hpay, h⟩ := bind_eq_ok_iff.mp h
      obtain rfl := pure_eq_ok.mp h
      obtain ⟨vault, used, rfl⟩ := payCrankReward_eq hpay
      exact ⟨_, _, _, rfl⟩

theorem finishEpoch_spec (h : finishEpoch sys crank c = .ok c') :
    c.epochState.phase = .rebalance ∧ ∃ vault used, c' = { c with
      vault
      epochState := { c.epochState with phase := .idle, epochPayoutBudgetUsed := used } } := by
  simp only [finishEpoch, bind_eq_ok_iff, require_eq_ok, exists_const] at h
  obtain ⟨hphase, -, -, h⟩ := h
  obtain ⟨vault, used, rfl⟩ := payCrankReward_eq h
  exact ⟨hphase, vault, used, rfl⟩

end StakeController
end FusionCore
