import FusionCore.Controller.PlanConservation
import FusionCore.Controller.RecordMoves

/-!
# Runs of the epoch plan

The calls that plan one epoch, in any number and of any size, between other instructions: deposits
and cleanups change the pool, rewards and deposits change the vault, and new validators register.
What the passes keep call by call holds at the end of every such run.
-/

namespace FusionCore
namespace StakeController

open Checked StakeMath

/-! ## The machine -/

/-- The state in which the preference window leaves the crank: nothing is planned yet. -/
structure PlanStart (c : Controller) : Prop where
  phase : c.epochState.phase = .planDirected
  epoch : 0 < c.epochState.controllerEpoch
  fits : c.epochState.productiveLamports < 2 ^ 64
  reset : c.epochState = c.epochState.resetPlanState
  unplanned : c.records.All fun r ↦ r.planEpoch ≠ c.epochState.controllerEpoch

/-- The calls of the plan, and what else may happen between them. -/
inductive PlanCall where
  | directed (sys : Sysvars) (pairs : List Pair) (crank : Pubkey)
  | neutral (votes : List Pubkey) (crank : Pubkey)
  | register (vote : Pubkey) (sample : Option VoteSample)
  | environment (other : Controller)

def PlanCall.run (call : PlanCall) (c : Controller) : Except ControllerError Controller :=
  match call with
  | .directed sys pairs crank => planDirectedBatch sys pairs crank c
  | .neutral votes crank => planNeutralBatch votes crank c
  | .register vote sample => registerValidator vote sample c
  | .environment other => .ok { other with epochState := c.epochState, records := c.records }

def planner : Machine Controller PlanCall where
  init := PlanStart
  step call c c' := call.run c = .ok c'

/-- Where the plan stands, phase by phase. -/
inductive PlanStage (es : EpochState) (records : Table Pubkey ValidatorRecord) : Prop where
  | directed (phase : es.phase = .planDirected) (inv : DirectedInv ⟨es, records⟩)
  | ready (phase : es.phase = .planNeutral) (inv : ReadyInv ⟨es, records⟩)
  | dealing (phase : es.phase = .planNeutral) (inv : NeutralInv ⟨es, records⟩)
  | finished (phase : es.phase = .planFinalize) (inv : FinishedInv ⟨es, records⟩)

structure PlanInv (c : Controller) : Prop where
  epoch : 0 < c.epochState.controllerEpoch
  stage : PlanStage c.epochState c.records

section Plans

variable {sys : Sysvars} {es : EpochState} {records : Table Pubkey ValidatorRecord} {crank : Pubkey}
  {c c' : Controller} {votes : List Pubkey} {pairs : List Pair} {acc acc' : PlanAcc}
  {dealt : PlanAcc × Bool}

theorem DirectedInv.of_planStart (h : PlanStart c) :
    DirectedInv ⟨c.epochState, c.records⟩ := by
  have hzero : ∀ f : ValidatorRecord → ℕ,
      (∀ r, r.planEpoch ≠ c.epochState.controllerEpoch → f r = 0) → c.records.total f = 0 := by
    intro f hf
    rw [Table.total_congr (g := fun _ ↦ 0) fun v r hv ↦ hf r (h.unplanned v r hv)]
    simp [Table.total]
  have hreset := h.reset
  exact
    { fits := h.fits
      directed := by
        rw [hzero _ fun _ hr ↦ plannedAt_of_ne hr, hreset]
        rfl
      neutral := by
        rw [hzero _ fun _ hr ↦ plannedAt_of_ne hr, hreset]
        rfl
      records := fun v r hv hr ↦ absurd hr (h.unplanned v r hv)
      unique := fun v w r s i hv _ hr _ _ _ ↦ absurd hr (h.unplanned v r hv)
      granted := by
        rw [hreset]
        rfl
      round := by
        rw [hreset]
        rfl
      opens := by
        rw [hzero (openAhead _ 0) fun r hr ↦ if_neg fun hopen ↦ hr hopen.1, hreset]
        rfl
      count := by
        rw [hreset]
        exact le_rfl }

/-! ## Rewards and registrations -/

theorem PlanStage.pay (h : PlanStage es records) (used : ℕ) :
    PlanStage { es with epochPayoutBudgetUsed := used } records := by
  cases h with
  | directed phase inv =>
    exact .directed phase { inv with records := fun v r hv hr ↦ { inv.records v r hv hr with } }
  | ready phase inv =>
    exact .ready phase { inv with records := fun v r hv hr ↦ { inv.records v r hv hr with } }
  | dealing phase inv =>
    exact .dealing phase { inv with records := fun v r hv hr ↦ { inv.records v r hv hr with } }
  | finished phase inv =>
    exact .finished phase { inv with records := fun v r hv hr ↦ { inv.records v r hv hr with } }

theorem PlanInv.pay {taskReward : ℕ} (hi : PlanInv c)
    (h : payCrankReward taskReward crank c = .ok c') : PlanInv c' := by
  obtain ⟨vault, used, rfl⟩ := payCrankReward_eq h
  exact ⟨hi.epoch, hi.stage.pay used⟩

section Register

variable {es : EpochState} {records : Table Pubkey ValidatorRecord} {vote : Pubkey}
  (hepoch : 0 < es.controllerEpoch) (hvote : records.lookup vote = none)

include hepoch hvote

theorem total_register {f : ValidatorRecord → ℕ}
    (hf : ∀ r, r.planEpoch ≠ es.controllerEpoch → f r = 0) :
    Table.total f (records.insert vote .registered) = records.total f := by
  have hzero : f ValidatorRecord.registered = 0 := hf _ hepoch.ne
  rw [Table.total_insert_of_none f _ hvote, hzero, add_zero]

theorem lookup_of_planned {v : Pubkey} {r : ValidatorRecord}
    (hv : (records.insert vote .registered).lookup v = some r)
    (hr : r.planEpoch = es.controllerEpoch) : records.lookup v = some r := by
  by_cases hvv : v = vote
  · subst hvv
    rw [AList.lookup_insert, Option.some.injEq] at hv
    subst hv
    exact absurd hr hepoch.ne
  · rwa [AList.lookup_insert_ne hvv] at hv

theorem Planned.register (h : Planned ⟨es, records⟩) :
    Planned ⟨es, records.insert vote .registered⟩ where
  fits := h.fits
  directed := (total_register hepoch hvote fun _ hr ↦ plannedAt_of_ne hr).trans h.directed
  neutral := (total_register hepoch hvote fun _ hr ↦ plannedAt_of_ne hr).trans h.neutral
  records v r hv hr := h.records v r (lookup_of_planned hepoch hvote hv hr) hr
  unique v w r s i hv hw hr hs :=
    h.unique v w r s i (lookup_of_planned hepoch hvote hv hr)
      (lookup_of_planned hepoch hvote hw hs) hr hs

theorem PlanStage.register (h : PlanStage es records) :
    PlanStage es (records.insert vote .registered) := by
  have hahead : ∀ cursor, Table.total (openAhead es.controllerEpoch cursor)
      (records.insert vote .registered) = records.total (openAhead es.controllerEpoch cursor) :=
    fun cursor ↦ total_register hepoch hvote fun r hr ↦ if_neg fun hopen ↦ hr hopen.1
  have hbehind : ∀ cursor, Table.total (openBehind es.controllerEpoch cursor)
      (records.insert vote .registered) = records.total (openBehind es.controllerEpoch cursor) :=
    fun cursor ↦ total_register hepoch hvote fun r hr ↦ if_neg fun hopen ↦ hr hopen.1
  cases h with
  | directed phase inv =>
    exact .directed phase
      { inv with
        toPlanned := inv.toPlanned.register hepoch hvote
        opens := (hahead 0).trans inv.opens }
  | ready phase inv =>
    exact .ready phase
      { inv with
        toPlanned := inv.toPlanned.register hepoch hvote
        opens := (hahead 0).trans inv.opens }
  | dealing phase inv =>
    exact .dealing phase
      { inv with
        toPlanned := inv.toPlanned.register hepoch hvote
        ahead := (congrArg (· + _) (hahead _)).trans inv.ahead
        behind := (congrArg (· + _) (hbehind _)).trans inv.behind }
  | finished phase inv =>
    exact .finished phase
      { inv with
        toPlanned := inv.toPlanned.register hepoch hvote
        shortfall := fun hpos v r hv hr ↦
          inv.shortfall hpos v r (lookup_of_planned hepoch hvote hv hr) hr }

end Register

/-! ## Batches -/

theorem DirectedInv.batch {list : ValidatorList} {threshold : ℕ} (hi : DirectedInv acc)
    (h : pairs.foldlM (planDirectedOne sys list threshold) acc = .ok acc') : DirectedInv acc' :=
  foldlM_invariant (fun _ _ _ _ ha hstep ↦ ha.step hstep) hi h

theorem PlanStage.unplanned (h : PlanStage es records) (hphase : es.phase = .planDirected) :
    DirectedInv ⟨es, records⟩ := by
  cases h with
  | directed _ inv => exact inv
  | ready phase | dealing phase | finished phase =>
    exact absurd (hphase.symm.trans phase) (by decide)

theorem PlanInv.directed (hi : PlanInv c) (h : planDirectedBatch sys pairs crank c = .ok c') :
    PlanInv c' := by
  simp only [planDirectedBatch, bind_eq_ok_iff, okOr_eq_ok, require_eq_ok, exists_const] at h
  obtain ⟨_, -, hphase, -, acc, hfold, es', hclose, h⟩ := h
  have hacc := (hi.stage.unplanned hphase).batch hfold
  obtain ⟨hsame, -⟩ := samePass_foldlM_planDirectedOne hfold
  have hnext : PlanInv { c with records := acc.records, epochState := es' } := by
    obtain rfl | ⟨hneutral, hready, hepoch⟩ :=
      hacc.close c.pool.validators.length_lt hclose
    · exact ⟨hsame.epoch ▸ hi.epoch, .directed (hsame.phase.trans hphase) hacc⟩
    · exact ⟨hepoch ▸ hsame.epoch ▸ hi.epoch, .ready hneutral hready⟩
  split at h
  · exact hnext.pay h
  · exact pure_eq_ok.mp h ▸ hnext

/-- To follow the neutral pass: what holds in an open round is kept by every visit, and holds of
the state in which a call ends, whether or not it closes the round. -/
structure PassRule (inRound : PlanAcc → Prop) (ends : PlanAcc → Bool → Prop) : Prop where
  visit : ∀ acc vote acc', inRound acc → planNeutralOne acc vote = .ok acc' → inRound acc'
  stay : ∀ acc, inRound acc → ends acc false
  close : ∀ acc closed, inRound acc →
    acc.epochState.neutralCursor = acc.epochState.planDirectedCursor →
    closeRound acc.epochState = .ok closed → ends { acc with epochState := closed.1 } closed.2

theorem planNeutralOne_ne_inconsistent (acc : PlanAcc) (vote : Pubkey) :
    planNeutralOne acc vote ≠ .error .neutralRoundInconsistent := by
  intro h
  simp only [planNeutralOne, bind_eq_error_iff, okOr_eq_error, require_eq_error, reduceCtorEq,
    and_false, pure_ne_error, exists_false, or_self] at h

namespace PassRule

variable {inRound : PlanAcc → Prop} {ends : PlanAcc → Bool → Prop} {votes : List Pubkey}

theorem visits (hrule : PassRule inRound ends) (hi : inRound acc)
    (h : votes.foldlM planNeutralOne acc = .ok acc') : inRound acc' :=
  foldlM_invariant (fun v _ a a' ha hstep ↦ hrule.visit a v a' ha hstep) hi h

theorem deal (hrule : PassRule inRound ends) (hi : inRound acc)
    (h : dealNeutral votes acc = .ok dealt) : ends dealt.1 dealt.2 := by
  simp only [dealNeutral, bind_eq_ok_iff, require_eq_ok, exists_const] at h
  obtain ⟨-, -, acc', hfold, h⟩ := h
  have hi' := hrule.visits hi hfold
  obtain ⟨-, hlen⟩ := samePass_foldlM_planNeutralOne hfold
  split at h
  next hcursor =>
    simp only [bind_eq_ok_iff, pure_eq_ok] at h
    obtain ⟨closed, hclosed, rfl⟩ := h
    exact hrule.close acc' closed hi' (hcursor.trans hlen.symm) hclosed
  next =>
    obtain rfl := pure_eq_ok.mp h
    exact hrule.stay acc' hi'

theorem deal_ne_inconsistent (hrule : PassRule inRound ends) (hi : inRound acc)
    (hclose : ∀ acc, inRound acc →
      acc.epochState.neutralCursor = acc.epochState.planDirectedCursor →
      closeRound acc.epochState ≠ .error .neutralRoundInconsistent) :
    dealNeutral votes acc ≠ .error .neutralRoundInconsistent := by
  intro h
  simp only [dealNeutral, bind_eq_error_iff, require_eq_error, reduceCtorEq,
    and_false, false_or, require_eq_ok, exists_const] at h
  obtain ⟨-, -, h⟩ := h
  obtain h | ⟨acc', hfold, h⟩ := h
  · exact foldlM_ne_error (P := fun _ ↦ True) (fun _ _ _ _ _ _ ↦ trivial)
      (fun v _ a _ ↦ planNeutralOne_ne_inconsistent a v) trivial h
  · obtain ⟨-, hlen⟩ := samePass_foldlM_planNeutralOne hfold
    split at h
    next hcursor =>
      simp only [bind_eq_error_iff, pure_ne_error, and_false, exists_false, or_false] at h
      exact hclose acc' (hrule.visits hi hfold) (hcursor.trans hlen.symm) h
    next => exact pure_ne_error h

theorem pass (hrule : PassRule inRound ends) (hnothing : (openNeutral c.epochState).2 = true →
      ends ⟨(openNeutral c.epochState).1, c.records⟩ true)
    (hopen : (openNeutral c.epochState).2 = false →
      inRound ⟨(openNeutral c.epochState).1, c.records⟩) (h : neutralPass votes c = .ok dealt) :
    ends dealt.1 dealt.2 := by
  simp only [neutralPass] at h
  split at h
  next hflag =>
    obtain rfl := pure_eq_ok.mp h
    exact hnothing hflag
  next hflag => exact hrule.deal (hopen (Bool.eq_false_iff.mpr hflag)) h

end PassRule

theorem planNeutralBatch_eq (h : planNeutralBatch votes crank c = .ok c') :
    c.epochState.phase = .planNeutral ∧
      ∃ acc fin vault used, neutralPass votes c = .ok (acc, fin) ∧
        c' = { c with
          vault
          records := acc.records
          epochState :=
            { acc.epochState with
              phase := if fin then .planFinalize else .planNeutral
              epochPayoutBudgetUsed := used } } := by
  simp only [planNeutralBatch, bind_eq_ok_iff, require_eq_ok, exists_const] at h
  obtain ⟨hphase, ⟨acc, fin⟩, hpass, phase, hadvance, h⟩ := h
  obtain ⟨hsame, -⟩ := samePass_neutralPass hpass
  have hnext : phase = if fin then .planFinalize else .planNeutral := by
    obtain ⟨hdone, hfin, -⟩ | ⟨hnot, hstay⟩ := advanceIf_eq_ok hadvance
    · rw [if_pos hdone]
      exact hfin
    · rw [if_neg hnot, hstay]
      exact hsame.phase.trans hphase
  refine ⟨hphase, acc, fin, ?_⟩
  rw [← hnext]
  obtain ⟨vault, used, rfl⟩ := rewarded_eq h
  exact ⟨vault, used, hpass, rfl⟩

theorem planNeutralBatch_ne_inconsistent_of (hpass : c.epochState.phase = .planNeutral →
      neutralPass votes c ≠ .error .neutralRoundInconsistent) :
    planNeutralBatch votes crank c ≠ .error .neutralRoundInconsistent := by
  intro h
  simp only [planNeutralBatch, bind_eq_error_iff, require_eq_error, reduceCtorEq, and_false,
    false_or, require_eq_ok, exists_const] at h
  obtain ⟨hphase, h | ⟨dealt, -, h | ⟨phase, -, h⟩⟩⟩ := h
  · exact hpass hphase h
  · cases advanceIf_error h
  · split at h
    · cases (payCrankReward_error h).2
    · exact pure_ne_error h

/-- How a neutral pass may end. -/
def Dealt (acc : PlanAcc) (fin : Bool) : Prop :=
  (fin = true ∧ FinishedInv acc) ∨ (fin = false ∧ NeutralInv acc)

theorem dealt_openNeutral (hi : ReadyInv ⟨es, records⟩ ∨ NeutralInv ⟨es, records⟩) :
    Dealt ⟨(openNeutral es).1, records⟩ (openNeutral es).2 := by
  obtain hready | hdealing := hi
  · exact hready.open
  · have hopened : es.neutralRoundNumber ≠ 0 := hdealing.opened.ne'
    rw [openNeutral, if_neg hopened]
    exact .inr ⟨rfl, hdealing⟩

theorem passRule_neutralInv : PassRule NeutralInv Dealt where
  visit _ _ _ hi h := hi.step h
  stay _ hi := .inr ⟨rfl, hi⟩
  close acc closed hi hcursor h := by
    obtain ⟨es, fin, hok, hdealt⟩ := hi.closeRound hcursor
    obtain rfl := Except.ok.inj (hok.symm.trans h)
    exact hdealt

theorem neutralPass_spec
    (hi : ReadyInv ⟨c.epochState, c.records⟩ ∨ NeutralInv ⟨c.epochState, c.records⟩) :
    neutralPass votes c ≠ .error .neutralRoundInconsistent ∧
      ∀ dealt, neutralPass votes c = .ok dealt → Dealt dealt.1 dealt.2 := by
  have hopened := dealt_openNeutral hi
  have hopen : (openNeutral c.epochState).2 = false →
      NeutralInv ⟨(openNeutral c.epochState).1, c.records⟩ := by
    intro hflag
    obtain ⟨htrue, -⟩ | ⟨-, hround⟩ := hopened
    · rw [hflag] at htrue
      cases htrue
    · exact hround
  refine ⟨?_, fun dealt h ↦ passRule_neutralInv.pass (fun hflag ↦ hflag ▸ hopened) hopen h⟩
  unfold neutralPass
  dsimp only
  split
  next => exact pure_ne_error
  next hflag =>
    apply passRule_neutralInv.deal_ne_inconsistent (hopen (Bool.eq_false_iff.mpr hflag))
    intro acc hround hcursor
    obtain ⟨es, fin, hok, -⟩ := hround.closeRound hcursor
    intro h
    rw [hok] at h
    cases h

theorem PlanStage.neutral (h : PlanStage es records) (hphase : es.phase = .planNeutral) :
    ReadyInv ⟨es, records⟩ ∨ NeutralInv ⟨es, records⟩ := by
  cases h with
  | directed phase => exact absurd (hphase.symm.trans phase) (by decide)
  | ready _ inv => exact .inl inv
  | dealing _ inv => exact .inr inv
  | finished phase => exact absurd (hphase.symm.trans phase) (by decide)

theorem PlanStage.final (h : PlanStage es records) (hphase : es.phase = .planFinalize) :
    FinishedInv ⟨es, records⟩ := by
  cases h with
  | directed phase | ready phase | dealing phase =>
    exact absurd (hphase.symm.trans phase) (by decide)
  | finished _ inv => exact inv

theorem PlanInv.neutral (hi : PlanInv c) (h : planNeutralBatch votes crank c = .ok c') :
    PlanInv c' := by
  obtain ⟨hphase, acc, fin, vault, used, hpass, rfl⟩ := planNeutralBatch_eq h
  obtain ⟨hsame, -⟩ := samePass_neutralPass hpass
  refine ⟨hsame.epoch ▸ hi.epoch, ?_⟩
  obtain ⟨hflag, inv⟩ | ⟨hflag, inv⟩ :=
    (neutralPass_spec (hi.stage.neutral hphase)).2 (acc, fin) hpass
  · dsimp only at hflag
    exact .finished (if_pos hflag)
      { inv with records := fun v r hv hr ↦ { inv.records v r hv hr with } }
  · dsimp only at hflag
    subst hflag
    exact .dealing rfl { inv with records := fun v r hv hr ↦ { inv.records v r hv hr with } }

/-! ## Runs -/

theorem PlanInv.step {call : PlanCall} (hi : PlanInv c) (h : call.run c = .ok c') : PlanInv c' := by
  cases call with
  | directed sys pairs crank => exact hi.directed h
  | neutral votes crank => exact hi.neutral h
  | register vote sample =>
    simp only [PlanCall.run, registerValidator, bind_eq_ok_iff, require_eq_ok, pure_eq_ok,
      exists_const] at h
    obtain ⟨hvote, -, rfl⟩ := h
    exact ⟨hi.epoch, hi.stage.register hi.epoch hvote⟩
  | environment other =>
    cases h
    exact ⟨hi.epoch, hi.stage⟩

theorem PlanInv.of_reach (h : planner.Reach c) : PlanInv c := by
  refine h.invariant ?_ fun call c c' hi _ hs ↦ hi.step hs
  intro c hstart
  exact ⟨hstart.epoch, .directed hstart.phase (DirectedInv.of_planStart hstart)⟩

theorem planNeutralBatch_ne_inconsistent (hi : PlanInv c) (votes : List Pubkey) (crank : Pubkey) :
    planNeutralBatch votes crank c ≠ .error .neutralRoundInconsistent := by
  apply planNeutralBatch_ne_inconsistent_of
  intro hphase
  exact (neutralPass_spec (hi.stage.neutral hphase)).1

theorem FinishedInv.accepted (hi : FinishedInv ⟨c.epochState, c.records⟩) {e : ControllerError}
    (h : finalizePlan crank c = .error e) :
    e ≠ .planConservationViolated ∧ e ≠ .mathOverflow := by
  have hcons : c.epochState.sumDirectedTargets + c.epochState.neutralGrantedTotal +
    c.epochState.capacityShortfall = c.epochState.productiveLamports := hi.conserved
  have hall : c.epochState.sumDirectedTargets + c.epochState.neutralGrantedTotal +
      c.epochState.capacityShortfall < 2 ^ 64 := hcons ▸ hi.fits
  have hsum : c.epochState.sumDirectedTargets + c.epochState.neutralGrantedTotal < 2 ^ 64 :=
    lt_of_le_of_lt (Nat.le_add_right _ _) hall
  have hdirected := checkedAdd_eq_some.mpr ⟨hsum, rfl⟩
  have hassigned := checkedAdd_eq_some.mpr ⟨hall, rfl⟩
  simp only [finalizePlan, hdirected, hassigned, okOr_some, ok_bind, require_of hcons,
    bind_eq_error_iff, require_eq_error] at h
  obtain ⟨-, rfl⟩ | ⟨-, -, h | ⟨pool, -, ⟨-, rfl⟩ | ⟨-, -, h⟩⟩⟩ := h
  · exact ⟨by decide, by decide⟩
  · obtain ⟨e', rfl⟩ := poolCall_error h
    constructor <;> simp
  · exact ⟨by decide, by decide⟩
  · obtain rfl := (payCrankReward_error h).2
    exact ⟨by decide, by decide⟩

/-- However the plan of an epoch is cut into calls, it conserves the productive lamports: at its
end they are split into directed targets, neutral grants and a shortfall, and a shortfall means
that every active validator of the list is full.  The round counters are never inconsistent. -/
theorem plan_conserved {c : Controller} (h : planner.Reach c) :
    (∀ votes crank, planNeutralBatch votes crank c ≠ .error .neutralRoundInconsistent) ∧
    (c.epochState.phase = .planFinalize →
      c.records.total (plannedAt c.epochState.controllerEpoch · ValidatorRecord.directedTarget) +
        c.records.total (plannedAt c.epochState.controllerEpoch · ValidatorRecord.neutralGranted) +
        c.epochState.capacityShortfall = c.epochState.productiveLamports ∧
      (∀ crank e, finalizePlan crank c = .error e →
        e ≠ .planConservationViolated ∧ e ≠ .mathOverflow) ∧
      ∀ v r, c.records.lookup v = some r → r.planEpoch = c.epochState.controllerEpoch →
        r.finalTarget = r.directedTarget + r.neutralGranted ∧
        r.finalTarget ≤ lifecycleCap r.status c.epochState.navTotalLamports CANDIDATE_CAP_BPS
          ACTIVE_VALIDATOR_CAP_BPS ∧
        (0 < r.neutralGranted → r.status = .active ∧
          ∃ i < c.epochState.planDirectedCursor, r.validatorListIndex = some i) ∧
        (0 < c.epochState.capacityShortfall → r.status = .active → r.validatorListIndex.isSome →
          r.remainingCapacity = 0)) := by
  have hi := PlanInv.of_reach h
  refine ⟨fun votes crank ↦ planNeutralBatch_ne_inconsistent hi votes crank, ?_⟩
  intro hphase
  have hfin := hi.stage.final hphase
  refine ⟨?_, fun crank e he ↦ hfin.accepted he, ?_⟩
  · have hdirected := hfin.directed
    have hneutral := hfin.neutral
    dsimp only at hdirected hneutral
    rw [hdirected, hneutral]
    exact hfin.conserved
  · intro v r hv hr
    have hrecord := hfin.records v r hv hr
    refine ⟨hrecord.final, (Nat.le_add_right _ _).trans hrecord.room, ?_, ?_⟩
    · intro hpos
      obtain ⟨hactive, hsome⟩ := hrecord.granted hpos
      obtain ⟨i, hidx⟩ := Option.isSome_iff_exists.mp hsome
      exact ⟨hactive, i, hrecord.index i hidx, hidx⟩
    · exact fun hpos _ _ ↦ hfin.shortfall hpos v r hv hr

end Plans

/-! ## Plans of the crank -/

section Crank

variable {G : CrankEvent → CrankWorld → Prop} {w w' : CrankWorld}

theorem productiveLamports_lt (h : crank.Reachable G w) (hphase : w.phase = .preferences) :
    w.controller.epochState.productiveLamports < 2 ^ 64 := by
  induction h with
  | init hgenesis =>
    rw [CrankWorld.phase, hgenesis.epochState] at hphase
    cases hphase
  | step e _ _ hs ih =>
    have hstep := crank_phase_step hs
    generalize e.instr = instr at hstep
    cases hstep with
    | starts _ _ hphase' => exact absurd (hphase.symm.trans hphase') (by decide)
    | opens _ _ _ _ hfits => exact hfits
    | onward _ h =>
      have hes := h.window hphase
      rw [hes]
      exact ih ((congrArg EpochState.phase hes).symm.trans hphase)

/-- Closing the preference window leaves the crank where a plan starts. -/
theorem PlanStart.of_window (h : crank.Reachable G w)
    (hrun : closePreferenceWindow sys w.controller = .ok w'.controller) :
    PlanStart w'.controller := by
  obtain ⟨hphase, heq⟩ := closePreferenceWindow_eq hrun
  have hphase : w.phase = .preferences := hphase
  rw [heq]
  refine ⟨rfl, epoch_pos h fun hidle ↦ ?_, productiveLamports_lt h hphase, rfl, ?_⟩
  · exact absurd (hphase.symm.trans hidle) (by decide)
  · intro v r hr
    exact ((crank_planEpoch h v r hr).2 (by rw [hphase]; rfl)).ne

/-- While an epoch is planned, a run of the crank is a run of the planner. -/
theorem planner_reach_of_crank (h : crank.Reachable G w)
    (hphase : w.phase = .planDirected ∨ w.phase = .planNeutral ∨ w.phase = .planFinalize) :
    planner.Reach w.controller := by
  induction h with
  | init hgenesis =>
    rw [CrankWorld.phase, hgenesis.epochState] at hphase
    simp [EpochState.zeroed] at hphase
  | @step w w' e hreach _ hs ih =>
    obtain ⟨-, -, note, hrun, -⟩ := crank_step_run hs
    generalize e.instr = instr at hrun
    cases crankStep_of_run hrun with
    | quiet hq =>
      have hbefore := ih (by rwa [CrankWorld.phase, ← hq.epochState])
      obtain heq | ⟨vote, sample, rfl, -⟩ := hq.registry
      · refine hbefore.step (.environment w'.controller) trivial ?_
        change Except.ok _ = _
        rw [← hq.epochState, ← heq]
      · exact hbefore.step (.register vote sample) trivial (quietly_eq_ok.mp hrun).1
    | closePreferenceWindow h => exact .init (.of_window hreach h)
    | planDirectedBatch h =>
      exact (ih (.inl (planDirectedBatch_spec h).1)).step (.directed e.sys _ _) trivial h
    | planNeutralBatch h =>
      exact (ih (.inr (.inl (planNeutralBatch_spec h).1))).step (.neutral _ _) trivial h
    | startEpoch h => simp [CrankWorld.phase, (startEpoch_eq h).2] at hphase
    | reconcileBatch h =>
      obtain ⟨-, -, -, _, -, -, -, -, -, -, -, ⟨hphase', -⟩ | hphase'⟩ := reconcileBatch_spec h <;>
        simp [CrankWorld.phase, hphase'] at hphase
    | finalizePool h => simp [CrankWorld.phase, (finalizePool_spec h).2.1] at hphase
    | snapshotPreference h =>
      obtain ⟨hphase', hes, -⟩ := snapshotPreference_spec h
      simp [CrankWorld.phase, hes, hphase'] at hphase
    | finalizePlan h => simp [CrankWorld.phase, (finalizePlan_spec h).2.1] at hphase
    | executeNextAction h =>
      obtain ⟨hphase', hframe, -⟩ := executeNextAction_spec h
      simp [CrankWorld.phase, hframe.phase, hphase'] at hphase
    | finishEpoch h =>
      obtain ⟨-, vault, used, heq⟩ := finishEpoch_spec h
      simp [CrankWorld.phase, heq] at hphase

end Crank

/-! ## A sample plan -/

namespace PlanSample

def sys : Sysvars := ⟨⟨2160000, 1000000, 5⟩, 432000, 2282880, 1000000000⟩

/-- An active entry of ten SOL. -/
def entry (vote : Pubkey) : ValidatorEntry :=
  ⟨⟨10 * LAMPORTS_PER_SOL, 0, 5, .active⟩, vote⟩

def list : ValidatorList :=
  ⟨[entry 11, entry 12], 4, by decide, by decide, by decide⟩

/-- The record that reconcile leaves for an entry. -/
def record (status : ValidatorStatus) (index shares : ℕ) : ValidatorRecord :=
  { ValidatorRecord.registered with
    status
    validatorListIndex := some index
    lastActiveLamports := 10 * LAMPORTS_PER_SOL
    hasPoolStake := true
    observedEpoch := 5
    observedCommissionOk := true
    observedLivenessOk := true
    directedSharesEpoch := 5
    directedShares := shares }

/-- A thousand SOL, a candidate and an active validator, and a third with enough support to be
admitted. -/
def start : Controller where
  config := ⟨7, 70⟩
  epochState :=
    { EpochState.zeroed with
      controllerEpoch := 5
      navTotalLamports := 1000 * LAMPORTS_PER_SOL
      navFusolSupply := 1000 * LAMPORTS_PER_SOL
      reserveTarget := 20 * LAMPORTS_PER_SOL
      productiveLamports := 980 * LAMPORTS_PER_SOL
      healthyDelegatedLamports := 20 * LAMPORTS_PER_SOL
      totalDelegatedLamports := 20 * LAMPORTS_PER_SOL
      phase := .planDirected }
  records :=
    ((∅ : Table Pubkey ValidatorRecord).insert 11 (record .active 0 LAMPORTS_PER_SOL)).insert 12
      (record .candidate 1 0) |>.insert 13
      { ValidatorRecord.registered with
        directedSharesEpoch := 5
        directedShares := 600 * LAMPORTS_PER_SOL }
  preferences := ∅
  pool := ⟨1000 * LAMPORTS_PER_SOL, 1000 * LAMPORTS_PER_SOL, 5, list, 980 * LAMPORTS_PER_SOL, none⟩
  vault := 0

def calls : List PlanCall :=
  [.directed sys [⟨11, 11, none⟩] 100,
    .directed sys [⟨12, 12, none⟩, ⟨13, 13, some ⟨5, true, 2159990⟩⟩] 100,
    .neutral [11] 100,
    .neutral [12] 100]

def run (calls : List PlanCall) : Option Controller :=
  Machine.execute (fun _ _ ↦ True) (fun call c ↦ (call.run c).toOption) start calls

theorem planStart_start : PlanStart start where
  phase := rfl
  epoch := by decide
  fits := by decide
  reset := rfl
  unplanned := by
    refine Table.All.insert (Table.All.insert (Table.All.insert ?_ ?_) ?_) ?_
    · exact fun v r hv ↦ by simp at hv
    all_goals decide

theorem reach_run {calls : List PlanCall} (h : run calls = some c) :
    planner.Reach c :=
  (Machine.Reachable.init planStart_start).execute (fun _ _ _ hs ↦ toOption_eq_some.mp hs) h

end PlanSample

/-- The sample plan ends with two grants and a shortfall. -/
theorem plan_conserved_sample : ∃ c, PlanSample.run PlanSample.calls = some c ∧
    c.epochState.phase = .planFinalize ∧ 0 < c.epochState.neutralGrantedTotal ∧
    0 < c.epochState.capacityShortfall ∧
    c.records.total (plannedAt c.epochState.controllerEpoch · ValidatorRecord.directedTarget) +
      c.records.total (plannedAt c.epochState.controllerEpoch · ValidatorRecord.neutralGranted) +
      c.epochState.capacityShortfall = 980 * LAMPORTS_PER_SOL := by
  have hrun : (PlanSample.run PlanSample.calls).map (fun c ↦
      (c.epochState.phase, decide (0 < c.epochState.neutralGrantedTotal),
        decide (0 < c.epochState.capacityShortfall), c.epochState.productiveLamports)) =
      some (.planFinalize, true, true, 980 * LAMPORTS_PER_SOL) := by decide +kernel
  obtain ⟨c, hc, hfacts⟩ := Option.map_eq_some_iff.mp hrun
  simp only [Prod.mk.injEq, decide_eq_true_eq] at hfacts
  obtain ⟨hphase, hgranted, hshortfall, hproductive⟩ := hfacts
  refine ⟨c, hc, hphase, hgranted, hshortfall, ?_⟩
  exact ((plan_conserved (PlanSample.reach_run hc)).2 hphase).1.trans hproductive

end StakeController
end FusionCore
