import FusionCore.Controller.NeutralRefinement
import Mathlib.Order.Bounds.Basic

/-!
# The preferred withdraw validator

The crank keeps the greatest surplus of stake over target that it has met on its walk, and the
first validator that has it.  A round of the neutral pass changes targets as it goes and starts the
search anew, so the choice is always that of the ordinals the walk has passed, with the targets
that it left behind.
-/

namespace FusionCore
namespace StakeController

open Checked StakeMath

/-- The stake of a validator above its target. -/
def ValidatorRecord.surplus (r : ValidatorRecord) : ℕ := r.lastActiveLamports - r.finalTarget

/-- The record at ordinal `i`, if the pool holds it active. -/
def DrainableAt (es : EpochState) (records : Table Pubkey ValidatorRecord) (i : ℕ) (v : Pubkey)
    (r : ValidatorRecord) : Prop :=
  ListedAt es records i v r ∧ r.poolEntryStatus = some .active

/-- The surpluses of the validators of the list that the pool holds active. -/
def surpluses (es : EpochState) (records : Table Pubkey ValidatorRecord) : Set ℕ :=
  {x | ∃ i v r, DrainableAt es records i v r ∧ r.surplus = x}

/-- The choice is right for the ordinals below `n`. -/
structure BestBelow (es : EpochState) (records : Table Pubkey ValidatorRecord) (n : ℕ) : Prop where
  le : ∀ i v r, i < n → DrainableAt es records i v r → r.surplus ≤ es.preferredWithdrawSurplus
  first : 0 < es.preferredWithdrawSurplus → ∃ i < n, ∃ r,
    DrainableAt es records i es.preferredWithdrawVote r ∧
      r.surplus = es.preferredWithdrawSurplus ∧
      ∀ j v s, j < i → DrainableAt es records j v s → s.surplus < es.preferredWithdrawSurplus

section Walk

variable {es es' : EpochState} {records records' : Table Pubkey ValidatorRecord} {n : ℕ}
  {vote : Pubkey} {record : ValidatorRecord}

theorem BestBelow.congr (h : BestBelow es records n)
    (hsurplus : es'.preferredWithdrawSurplus = es.preferredWithdrawSurplus)
    (hvote : es'.preferredWithdrawVote = es.preferredWithdrawVote)
    (hlisted : ∀ i v r, i < n → (ListedAt es' records' i v r ↔ ListedAt es records i v r)) :
    BestBelow es' records' n := by
  refine ⟨?_, ?_⟩
  · intro i v r hi hr
    rw [hsurplus]
    exact h.le i v r hi ⟨(hlisted i v r hi).mp hr.1, hr.2⟩
  · intro hpos
    rw [hsurplus] at hpos
    obtain ⟨i, hi, r, hr, heq, hfirst⟩ := h.first hpos
    refine ⟨i, hi, r, ?_, heq.trans hsurplus.symm, ?_⟩
    · rw [hvote]
      exact ⟨(hlisted i _ r hi).mpr hr.1, hr.2⟩
    · intro j v s hj hs
      rw [hsurplus]
      exact hfirst j v s hj ⟨(hlisted j v s (hj.trans hi)).mp hs.1, hs.2⟩

theorem BestBelow.zero (h : es.preferredWithdrawSurplus = 0) : BestBelow es records 0 :=
  ⟨fun _ _ _ hi ↦ absurd hi (Nat.not_lt_zero _), fun hpos ↦ absurd h hpos.ne'⟩

theorem BestBelow.note (h : BestBelow es records n) (hl : ListedAt es records n vote record)
    (hunique : ∀ v r, ListedAt es records n v r → v = vote) :
    BestBelow (es.noteWithdraw vote record) records (n + 1) := by
  have hlast : ∀ v r, ListedAt es records n v r → r = record := by
    intro v r hr
    obtain rfl := hunique v r hr
    exact Option.some.inj (hr.1.symm.trans hl.1)
  -- the choice stays unless the record has a greater surplus
  have hkeep : (record.poolEntryStatus = some .active →
      record.surplus ≤ es.preferredWithdrawSurplus) → BestBelow es records (n + 1) := by
    intro hle
    refine ⟨?_, ?_⟩
    · intro i v r hi hr
      obtain hlt | rfl := Nat.lt_succ_iff_lt_or_eq.mp hi
      · exact h.le i v r hlt hr
      · obtain rfl := hlast v r hr.1
        exact hle hr.2
    · intro hpos
      obtain ⟨i, hi, hrest⟩ := h.first hpos
      exact ⟨i, hi.trans (Nat.lt_succ_self n), hrest⟩
  unfold EpochState.noteWithdraw EpochState.foldPreferredWithdraw
  split
  next hactive =>
    split
    next hgreater =>
      refine ⟨?_, ?_⟩
      · intro i v r hi hr
        obtain hlt | rfl := Nat.lt_succ_iff_lt_or_eq.mp hi
        · exact (h.le i v r hlt hr).trans hgreater.le
        · obtain rfl := hlast v r hr.1
          exact le_rfl
      · intro _
        refine ⟨n, Nat.lt_succ_self n, record, ⟨hl, hactive⟩, rfl, ?_⟩
        intro j v s hj hs
        exact (h.le j v s hj hs).trans_lt hgreater
    next hnot => exact hkeep fun _ ↦ not_lt.mp hnot
  next hnot => exact hkeep fun hactive ↦ absurd hactive hnot

theorem BestBelow.isGreatest (h : BestBelow es records n)
    (hall : ∀ i v r, ListedAt es records i v r → i < n) :
    IsGreatest (insert 0 (surpluses es records)) es.preferredWithdrawSurplus := by
  constructor
  · obtain hzero | hpos := Nat.eq_zero_or_pos es.preferredWithdrawSurplus
    · exact .inl hzero
    · obtain ⟨i, -, r, hr, heq, -⟩ := h.first hpos
      exact .inr ⟨i, _, r, hr, heq⟩
  · rintro x (rfl | ⟨i, v, r, hr, rfl⟩)
    · exact Nat.zero_le _
    · exact h.le i v r (hall i v r hr.1) hr

end Walk

/-! ## Directed pass -/

theorem BestBelow.directed {sys : Sysvars} {list : ValidatorList} {threshold : ℕ}
    {acc acc' : PlanAcc} {p : Pair} (hi : DirectedInv acc)
    (hbest : BestBelow acc.epochState acc.records acc.epochState.planDirectedCursor)
    (h : planDirectedOne sys list threshold acc p = .ok acc') :
    BestBelow acc'.epochState acc'.records acc'.epochState.planDirectedCursor := by
  obtain ⟨es, records⟩ := acc
  simp only [planDirectedOne, bind_eq_ok_iff, okOr_eq_ok, require_eq_ok, pure_eq_ok,
    exists_const] at h
  obtain ⟨record, hl, -, hfresh, s, hs, shares, -, targets, -, rfl⟩ := h
  set planned := planRecord es threshold s with hplanned
  set es₁ := es.bookPlanned s.inList shares targets planned with hes₁
  have hindex : planned.validatorListIndex = s.record.validatorListIndex := rfl
  have hother : ∀ i v r, v ≠ p.record →
      (ListedAt es₁ (records.insert p.record planned) i v r ↔ ListedAt es records i v r) := by
    intro i v r hv
    rw [ListedAt, ListedAt, AList.lookup_insert_ne hv]
    rfl
  -- the records planned before stay where they are
  have hbelow : ∀ i v r, i < es.planDirectedCursor →
      (ListedAt es₁ (records.insert p.record planned) i v r ↔ ListedAt es records i v r) := by
    intro i v r hlt
    by_cases hv : v = p.record
    · subst hv
      constructor
      · rintro ⟨hr, -, hri⟩
        obtain rfl : planned = r := by simpa using hr
        rw [hindex] at hri
        obtain ⟨-, hidx⟩ | ⟨-, hidx, -⟩ := sighting_cases hs
        · rw [hidx] at hri
          exact absurd (Option.some.inj hri) hlt.ne'
        · rw [hidx] at hri
          cases hri
      · rintro ⟨hr, hstamp, -⟩
        obtain rfl := Option.some.inj (hl.symm.trans hr)
        exact absurd hstamp hfresh
    · exact hother i v r hv
  have hbest₁ : BestBelow es₁ (records.insert p.record planned) es.planDirectedCursor :=
    hbest.congr rfl rfl hbelow
  obtain ⟨surplus, w, hnote⟩ := es₁.noteWithdraw_eq p.record planned
  obtain ⟨hin, hidx⟩ | ⟨hout, hidx, hstatus⟩ := sighting_cases hs
  · have hnext : (es₁.noteWithdraw p.record planned).planDirectedCursor =
        es.planDirectedCursor + 1 := by
      rw [hnote]
      simp [hes₁, EpochState.bookPlanned, hin]
    dsimp only
    rw [hnext]
    apply hbest₁.note ⟨AList.lookup_insert records, rfl, hindex.trans hidx⟩
    intro v r hr
    by_contra hv
    obtain ⟨hlr, hstamp, hri⟩ := (hother _ v r hv).mp hr
    exact Nat.lt_irrefl _ ((hi.records v r hlr hstamp).index _ hri)
  · have hskip : es₁.noteWithdraw p.record planned = es₁ := by
      apply if_neg
      intro hactive
      have hnone : planned.poolEntryStatus = none := hstatus
      rw [hnone] at hactive
      cases hactive
    have hsame : es₁.planDirectedCursor = es.planDirectedCursor := by
      simp [hes₁, EpochState.bookPlanned, hout]
    dsimp only
    rw [hskip, hsame]
    exact hbest₁

/-! ## Neutral pass -/

/-- A visit of the neutral pass: the record at the cursor gets its target of this round, and the
choice is made with it. -/
theorem BestBelow.neutral {acc acc' : PlanAcc} {vote : Pubkey} (hi : NeutralInv acc)
    (hbest : BestBelow acc.epochState acc.records acc.epochState.neutralCursor)
    (h : planNeutralOne acc vote = .ok acc') :
    BestBelow acc'.epochState acc'.records acc'.epochState.neutralCursor := by
  obtain ⟨es, records⟩ := acc
  simp only [planNeutralOne, bind_eq_ok_iff, okOr_eq_ok, require_eq_ok, pure_eq_ok,
    exists_const] at h
  obtain ⟨record, hl, ⟨hstamp, hindex⟩, granted, -, target, -, capacity, -, total, -, rfl⟩ := h
  set dealt := if record.status = .active ∧ 0 < record.remainingCapacity then
    StakeMath.step es.neutralRound record.remainingCapacity else (es.neutralRound, 0)
  set grantee := record.grantedBy es.neutralRoundNumber dealt.2 granted target capacity
  set es₁ := es.bookGrant dealt.1 total with hes₁
  have hother : ∀ i v r, v ≠ vote →
      (ListedAt es₁ (records.insert vote grantee) i v r ↔ ListedAt es records i v r) := by
    intro i v r hv
    rw [ListedAt, ListedAt, AList.lookup_insert_ne hv]
    rfl
  have hbelow : ∀ i v r, i < es.neutralCursor →
      (ListedAt es₁ (records.insert vote grantee) i v r ↔ ListedAt es records i v r) := by
    intro i v r hlt
    by_cases hv : v = vote
    · subst hv
      constructor
      · rintro ⟨hr, -, hri⟩
        obtain rfl : grantee = r := by simpa using hr
        exact absurd (Option.some.inj (hindex.symm.trans hri)) hlt.ne'
      · rintro ⟨hr, -, hri⟩
        obtain rfl := Option.some.inj (hl.symm.trans hr)
        exact absurd (Option.some.inj (hindex.symm.trans hri)) hlt.ne'
    · exact hother i v r hv
  have hbest₁ : BestBelow es₁ (records.insert vote grantee) es.neutralCursor :=
    hbest.congr rfl rfl hbelow
  obtain ⟨surplus, w, hnote⟩ := es₁.noteWithdraw_eq vote grantee
  have hnext : (es₁.noteWithdraw vote grantee).neutralCursor = es.neutralCursor + 1 := by
    rw [hnote]
    rfl
  dsimp only
  rw [hnext]
  apply hbest₁.note ⟨AList.lookup_insert records, hstamp, hindex⟩
  intro v r hr
  by_contra hv
  obtain ⟨hlr, hstamp', hri⟩ := (hother _ v r hv).mp hr
  exact hv (hi.unique v vote r record _ hlr hl hstamp' hstamp hri hindex)

/-- While a round is open, the choice is that of the ordinals it has passed. -/
structure ChoosesInRound (acc : PlanAcc) : Prop where
  inv : NeutralInv acc
  best : BestBelow acc.epochState acc.records acc.epochState.neutralCursor

/-- When a call ends, the choice is that of the whole list or of the ordinals of the round. -/
def ChoosesAtEnd (acc : PlanAcc) (fin : Bool) : Prop :=
  BestBelow acc.epochState acc.records
    (if fin then acc.epochState.planDirectedCursor else acc.epochState.neutralCursor)

theorem passRule_choosesInRound : PassRule ChoosesInRound ChoosesAtEnd where
  visit _ _ _ hi h := ⟨hi.inv.step h, hi.best.neutral hi.inv h⟩
  stay _ hi := hi.best
  close acc closed hi hcursor h := by
    have hbest := hi.best
    rw [hcursor] at hbest
    simp only [closeRound, bind_eq_ok_iff, okOr_eq_ok, require_eq_ok, exists_const] at h
    obtain ⟨-, _, -, h⟩ := h
    split at h
    · obtain rfl := pure_eq_ok.mp h
      exact hbest.congr rfl rfl fun _ _ _ _ ↦ Iff.rfl
    · simp only [bind_eq_ok_iff, okOr_eq_ok, require_eq_ok, pure_eq_ok, exists_const] at h
      obtain ⟨-, _, -, rfl⟩ := h
      exact .zero rfl

/-! ## Runs -/

/-- How far the search of the plan has come. -/
def EpochState.searched (es : EpochState) : ℕ :=
  if es.phase = .planNeutral ∧ 0 < es.neutralRoundNumber then es.neutralCursor
  else es.planDirectedCursor

/-- The choice along a plan. -/
structure Chooses (c : Controller) : Prop where
  plan : PlanInv c
  best : BestBelow c.epochState c.records c.epochState.searched

theorem EpochState.searched_of_round {es : EpochState} (h : es.neutralRoundNumber = 0) :
    es.searched = es.planDirectedCursor :=
  if_neg fun hopen ↦ hopen.2.ne' h

theorem EpochState.searched_of_phase {es : EpochState} (h : es.phase ≠ .planNeutral) :
    es.searched = es.planDirectedCursor :=
  if_neg fun hopen ↦ h hopen.1

theorem EpochState.searched_of_open {es : EpochState} (h : es.phase = .planNeutral)
    (hround : 0 < es.neutralRoundNumber) : es.searched = es.neutralCursor :=
  if_pos ⟨h, hround⟩

section Runs

variable {c c' : Controller}

theorem Chooses.directed {sys : Sysvars} {pairs : List Pair} {crank : Pubkey} (hi : Chooses c)
    (h : planDirectedBatch sys pairs crank c = .ok c') : Chooses c' := by
  refine ⟨hi.plan.directed h, ?_⟩
  simp only [planDirectedBatch, bind_eq_ok_iff, okOr_eq_ok, require_eq_ok, exists_const] at h
  obtain ⟨_, -, hphase, -, acc, hfold, es, hclose, h⟩ := h
  have hbefore := hi.best
  rw [EpochState.searched_of_phase (by rw [hphase]; decide)] at hbefore
  have hinv : DirectedInv ⟨c.epochState, c.records⟩ := hi.plan.stage.unplanned hphase
  obtain ⟨hacc, hbest⟩ : DirectedInv acc ∧
      BestBelow acc.epochState acc.records acc.epochState.planDirectedCursor :=
    foldlM_invariant (P := fun a ↦ DirectedInv a ∧
        BestBelow a.epochState a.records a.epochState.planDirectedCursor)
      (fun _ _ _ _ ha hstep ↦ ⟨ha.1.step hstep, ha.2.directed ha.1 hstep⟩) ⟨hinv, hbefore⟩ hfold
  have hround := hacc.round
  have hclosed : es.neutralRoundNumber = 0 ∧
      BestBelow es acc.records es.planDirectedCursor := by
    unfold closeDirected at hclose
    split at hclose
    · simp only [bind_eq_ok_iff, okOr_eq_ok, require_eq_ok, pure_eq_ok, exists_const] at hclose
      obtain ⟨neutral, -, -, rfl⟩ := hclose
      exact ⟨hround, hbest.congr rfl rfl fun _ _ _ _ ↦ Iff.rfl⟩
    · obtain rfl := pure_eq_ok.mp hclose
      exact ⟨hround, hbest⟩
  obtain ⟨vault, used, rfl⟩ := rewarded_eq h
  rw [EpochState.searched_of_round (by exact hclosed.1)]
  exact hclosed.2.congr rfl rfl fun _ _ _ _ ↦ Iff.rfl

theorem Chooses.neutral {batch : List Pubkey} {crank : Pubkey} (hi : Chooses c)
    (h : planNeutralBatch batch crank c = .ok c') : Chooses c' := by
  refine ⟨hi.plan.neutral h, ?_⟩
  obtain ⟨hphase, acc, fin, vault, used, hpass, rfl⟩ := planNeutralBatch_eq h
  have hbefore := hi.best
  have hopened := dealt_openNeutral (hi.plan.stage.neutral hphase)
  have hends : ChoosesAtEnd acc fin := by
    refine passRule_choosesInRound.pass ?_ ?_ hpass
    · intro hflag
      obtain ⟨hzero, -, heq⟩ | ⟨round, -, -, heq⟩ | ⟨-, heq⟩ := openNeutral_cases c.epochState
      · rw [heq]
        rw [EpochState.searched_of_round hzero] at hbefore
        exact hbefore.congr rfl rfl fun _ _ _ _ ↦ Iff.rfl
      · rw [heq] at hflag
        cases hflag
      · rw [heq] at hflag
        cases hflag
    · intro hflag
      obtain ⟨htrue, -⟩ | ⟨-, hround⟩ := hopened
      · rw [hflag] at htrue
        cases htrue
      · refine ⟨hround, ?_⟩
        obtain ⟨-, -, heq⟩ | ⟨round, -, -, heq⟩ | ⟨hopen, heq⟩ := openNeutral_cases c.epochState
        · rw [heq] at hflag
          cases hflag
        · rw [heq]
          exact .zero rfl
        · rw [heq]
          rw [EpochState.searched_of_open hphase hopen] at hbefore
          exact hbefore
  cases fin with
  | true =>
    rw [EpochState.searched_of_phase (by simp)]
    exact BestBelow.congr hends rfl rfl fun _ _ _ _ ↦ Iff.rfl
  | false =>
    rw [EpochState.searched_of_open (by rfl) (by exact neutralPass_opened hpass rfl)]
    exact BestBelow.congr hends rfl rfl fun _ _ _ _ ↦ Iff.rfl

theorem Chooses.step {call : PlanCall} (hi : Chooses c) (h : call.run c = .ok c') :
    Chooses c' := by
  cases call with
  | directed sys pairs crank => exact hi.directed h
  | neutral batch crank => exact hi.neutral h
  | register vote sample =>
    refine ⟨hi.plan.step h, ?_⟩
    simp only [PlanCall.run, registerValidator, bind_eq_ok_iff, require_eq_ok, pure_eq_ok,
      exists_const] at h
    obtain ⟨hvote, -, rfl⟩ := h
    exact hi.best.congr rfl rfl fun _ _ _ _ ↦ listedAt_register hvote
  | environment other =>
    refine ⟨hi.plan.step h, ?_⟩
    cases h
    exact hi.best

theorem Chooses.of_reach (h : planner.Reach c) : Chooses c := by
  refine h.invariant ?_ fun call c c' hi _ hs ↦ hi.step hs
  intro c hstart
  refine ⟨PlanInv.of_reach (.init hstart), ?_⟩
  have hround : c.epochState.neutralRoundNumber = 0 := by
    rw [hstart.reset]
    rfl
  have hcursor : c.epochState.planDirectedCursor = 0 := by
    rw [hstart.reset]
    rfl
  have hsurplus : c.epochState.preferredWithdrawSurplus = 0 := by
    rw [hstart.reset]
    rfl
  rw [EpochState.searched_of_round hround, hcursor]
  exact .zero hsurplus

/-- At the end of every plan the noted surplus is the greatest of the validators of the list that
the pool holds active, with their final targets; the noted validator is the first of the list that
has it, and it becomes the preferred one unless there is no surplus at all. -/
theorem plan_preferredWithdraw (h : planner.Reach c) (hphase : c.epochState.phase = .planFinalize) :
    IsGreatest (insert 0 (surpluses c.epochState c.records))
        c.epochState.preferredWithdrawSurplus ∧
      (0 < c.epochState.preferredWithdrawSurplus → ∃ i r,
        DrainableAt c.epochState c.records i c.epochState.preferredWithdrawVote r ∧
        r.surplus = c.epochState.preferredWithdrawSurplus ∧
        ∀ j v s, j < i → DrainableAt c.epochState c.records j v s →
          s.surplus < c.epochState.preferredWithdrawSurplus) ∧
      ∀ crank c', finalizePlan crank c = .ok c' →
        c'.pool.preferredWithdraw = if c.epochState.preferredWithdrawSurplus = 0 then none
          else some c.epochState.preferredWithdrawVote := by
  have hchooses := Chooses.of_reach h
  have hbest := hchooses.best
  rw [EpochState.searched_of_phase (by rw [hphase]; decide)] at hbest
  have hfin := hchooses.plan.stage.final hphase
  refine ⟨hbest.isGreatest ?_, ?_, ?_⟩
  · rintro i v r ⟨hl, hstamp, hindex⟩
    exact (hfin.records v r hl hstamp).index i hindex
  · intro hpos
    obtain ⟨i, -, r, hr⟩ := hbest.first hpos
    exact ⟨i, r, hr⟩
  · intro crank c' hplan
    simp only [finalizePlan, bind_eq_ok_iff, okOr_eq_ok, require_eq_ok, exists_const] at hplan
    obtain ⟨-, _, -, _, -, -, pool, hpool, -, hpay⟩ := hplan
    obtain ⟨vault, used, rfl⟩ := payCrankReward_eq hpay
    simp only [StakePool.setPreferredWithdrawValidator, poolCall_eq_ok, bind_eq_ok_iff,
      pure_eq_ok] at hpool
    obtain ⟨-, -, rfl⟩ := hpool
    obtain hzero | hpos := Nat.eq_zero_or_pos c.epochState.preferredWithdrawSurplus
    · rw [if_pos hzero]
      exact if_neg hzero.not_gt
    · rw [if_neg hpos.ne']
      exact if_pos hpos

end Runs

/-- In the sample plan the candidate keeps no target, and its ten SOL are the greatest surplus. -/
theorem plan_preferredWithdraw_sample : ∃ c, PlanSample.run PlanSample.calls = some c ∧
    c.epochState.preferredWithdrawVote = 12 ∧
    IsGreatest (insert 0 (surpluses c.epochState c.records)) (10 * LAMPORTS_PER_SOL) ∧
    (finalizePlan 100 c).toOption.map (·.pool.preferredWithdraw) = some (some 12) := by
  have hrun : ((PlanSample.run PlanSample.calls).map fun c ↦
      (c.epochState.phase, c.epochState.preferredWithdrawVote,
        c.epochState.preferredWithdrawSurplus, (finalizePlan 100 c).toOption.isSome)) =
      some (.planFinalize, 12, 10 * LAMPORTS_PER_SOL, true) := by decide +kernel
  obtain ⟨c, hc, hfacts⟩ := Option.map_eq_some_iff.mp hrun
  simp only [Prod.mk.injEq] at hfacts
  obtain ⟨hphase, hvote, hsurplus, hsome⟩ := hfacts
  obtain ⟨hgreatest, -, hfinal⟩ := plan_preferredWithdraw (PlanSample.reach_run hc) hphase
  obtain ⟨c', hc'⟩ := Option.isSome_iff_exists.mp hsome
  have hset := hfinal 100 c' (toOption_eq_some.mp hc')
  rw [hsurplus] at hgreatest hset
  refine ⟨c, hc, hvote, hgreatest, ?_⟩
  rw [hc', Option.map_some, hset, hvote]
  rfl

end StakeController
end FusionCore
