import FusionCore.Controller.PlanRuns
import FusionCore.Controller.PreferenceMoves

/-!
# Directed shares

What the preference window has counted for an epoch is the sum, over all records, of the shares
that carry the epoch's stamp.  Only a counted preference adds to it.  The directed pass takes every
record into its own total at most once, so the total it checks against the supply is no more than
that sum.
-/

namespace FusionCore
namespace StakeController

open Checked StakeMath

/-- The shares that all records together carry with the stamp of an epoch. -/
def directedAt (records : Table Pubkey ValidatorRecord) (epoch : ℕ) : ℕ :=
  records.total fun r ↦ r.sharesAt epoch

/-! ## Counting -/

section Counting

variable {sys : Sysvars} {c c' : Controller} {v : Pubkey} {instr : CrankInstr}
  {r r' : ValidatorRecord} {epoch : ℕ}

theorem sharesAt_of_sight {list : ValidatorList} {es : EpochState} {p : Pair} {s : Sighting}
    (h : sight sys list es p r = .ok s) : s.record.sharesAt epoch = r.sharesAt epoch := by
  obtain ⟨entry, -, -, rfl⟩ | ⟨-, -, obs, rfl⟩ := sight_eq h
  · rfl
  · rfl

theorem RecordMove.sharesAt (h : RecordMove sys c v instr r r')
    (hinstr : ∀ key position, instr ≠ .snapshotPreference key position) (epoch : ℕ) :
    r'.sharesAt epoch = r.sharesAt epoch := by
  cases h with
  | kept | observed => rfl
  | @directed key position => exact absurd rfl (hinstr key position)
  | planned _ _ _ hplan =>
    obtain ⟨-, p, es, s, -, hsight, rfl⟩ := hplan
    exact sharesAt_of_sight hsight
  | granted _ hgranted =>
    obtain ⟨_, _, _, _, _, -, rfl⟩ := hgranted
    rfl
  | acted _ hacted =>
    obtain ⟨_, _, _, _, rfl⟩ := hacted
    rfl

theorem registered_sharesAt (epoch : ℕ) : ValidatorRecord.registered.sharesAt epoch = 0 := by
  unfold ValidatorRecord.sharesAt
  split <;> rfl

theorem RecordStep.sharesAt {before after : Option ValidatorRecord}
    (h : RecordStep sys c v instr before after)
    (hinstr : ∀ key position, instr ≠ .snapshotPreference key position) (epoch : ℕ) :
    after.elim 0 (fun r ↦ r.sharesAt epoch) = before.elim 0 fun r ↦ r.sharesAt epoch := by
  cases h with
  | absent => rfl
  | registered => exact registered_sharesAt epoch
  | moved hmove => exact hmove.sharesAt hinstr epoch

theorem crank_directed_kept {e : CrankEvent} {w w' : CrankWorld} (h : crank.step e w w')
    (hinstr : ∀ key position, e.instr ≠ .snapshotPreference key position) (epoch : ℕ) :
    directedAt w'.controller.records epoch = directedAt w.controller.records epoch := by
  unfold directedAt
  set t := w.controller.records
  set t' := w'.controller.records
  rw [Table.total_eq_sum (s := t'.keys.toFinset ∪ t.keys.toFinset) Finset.subset_union_left,
    Table.total_eq_sum (s := t'.keys.toFinset ∪ t.keys.toFinset) Finset.subset_union_right]
  apply Finset.sum_congr rfl
  intro v _
  exact (crank_record_step h v).sharesAt hinstr epoch

variable {key : Pubkey} {pos : PositionView} {pref : Preference}

theorem direct_sharesAt (r : ValidatorRecord) (epoch shares : ℕ) :
    (r.direct epoch shares).sharesAt epoch = shares := if_pos rfl

theorem direct_sharesAt_of_ne (r : ValidatorRecord) {epoch other : ℕ} (shares : ℕ)
    (h : other ≠ epoch) : (r.direct epoch shares).sharesAt other = 0 := if_neg h.symm

theorem Counted.directed (h : Counted c c' key pos pref r) :
    directedAt c'.records c.epochState.controllerEpoch =
      directedAt c.records c.epochState.controllerEpoch + pos.ink := by
  have hsum := Table.total_insert_of_some
    (fun r ↦ r.sharesAt c.epochState.controllerEpoch)
    (r.direct c.epochState.controllerEpoch
      (r.sharesAt c.epochState.controllerEpoch + pos.ink)) h.directs
  rw [h.eq]
  unfold directedAt
  dsimp only at hsum ⊢
  rw [direct_sharesAt] at hsum
  omega

/-- The stamps of other epochs are overwritten, never extended. -/
theorem Counted.directed_le (h : Counted c c' key pos pref r)
    (hne : epoch ≠ c.epochState.controllerEpoch) :
    directedAt c'.records epoch ≤ directedAt c.records epoch := by
  have hsum := Table.total_insert_of_some (fun r ↦ r.sharesAt epoch)
    (r.direct c.epochState.controllerEpoch
      (r.sharesAt c.epochState.controllerEpoch + pos.ink)) h.directs
  rw [h.eq]
  unfold directedAt
  dsimp only at hsum ⊢
  rw [direct_sharesAt_of_ne _ _ hne] at hsum
  omega

end Counting

/-! ## The directed pass -/

/-- The shares of a record that the directed pass of an epoch has not taken. -/
def ValidatorRecord.untakenAt (r : ValidatorRecord) (epoch : ℕ) : ℕ :=
  if r.planEpoch = epoch then 0 else r.sharesAt epoch

theorem ValidatorRecord.untakenAt_le (r : ValidatorRecord) (epoch : ℕ) :
    r.untakenAt epoch ≤ r.sharesAt epoch := by
  unfold ValidatorRecord.untakenAt
  split
  · exact Nat.zero_le _
  · exact le_rfl

/-- The totals of the directed pass: what it has taken and what it may still take is no more than
what was counted, and the targets are within the part of the shares in the supply. -/
structure SharesBooked (es : EpochState) (records : Table Pubkey ValidatorRecord) : Prop where
  shares : es.totalDirectedShares + records.total (fun r ↦ r.untakenAt es.controllerEpoch) ≤
    directedAt records es.controllerEpoch
  targets : es.sumDirectedTargets ≤
    es.productiveLamports * es.totalDirectedShares / es.navFusolSupply

/-- The pass from the crank state `es` on. -/
structure DirectedPass (es : EpochState) (directed : ℕ) (acc : PlanAcc) : Prop where
  epoch : acc.epochState.controllerEpoch = es.controllerEpoch
  directed : directedAt acc.records es.controllerEpoch = directed
  booked : SharesBooked acc.epochState acc.records

section Pass

variable {sys : Sysvars} {list : ValidatorList} {threshold : ℕ} {acc acc' : PlanAcc} {p : Pair}
  {es es' : EpochState} {records : Table Pubkey ValidatorRecord}

theorem SharesBooked.step (h : SharesBooked acc.epochState acc.records)
    (hstep : planDirectedOne sys list threshold acc p = .ok acc') :
    DirectedPass acc.epochState (directedAt acc.records acc.epochState.controllerEpoch) acc' := by
  obtain ⟨es, records⟩ := acc
  simp only [planDirectedOne, bind_eq_ok_iff, okOr_eq_ok, require_eq_ok, pure_eq_ok, exists_const,
    checkedAdd_eq_some] at hstep
  obtain ⟨record, hl, -, hfresh, s, hs, _, ⟨-, rfl⟩, _, ⟨-, rfl⟩, rfl⟩ := hstep
  set planned := planRecord es threshold s with hplanned
  have hshares : s.record.sharesAt es.controllerEpoch = record.sharesAt es.controllerEpoch :=
    sharesAt_of_sight hs
  have hsame : planned.sharesAt es.controllerEpoch = record.sharesAt es.controllerEpoch := hshares
  have hdirected := Table.total_insert_of_some
    (fun r ↦ r.sharesAt es.controllerEpoch) planned hl
  have huntaken := Table.total_insert_of_some
    (fun r ↦ r.untakenAt es.controllerEpoch) planned hl
  have hbefore : record.untakenAt es.controllerEpoch = record.sharesAt es.controllerEpoch :=
    if_neg hfresh
  have hafter : planned.untakenAt es.controllerEpoch = 0 := if_pos rfl
  have hkept : directedAt (records.insert p.record planned) es.controllerEpoch =
      directedAt records es.controllerEpoch := by
    rw [hsame] at hdirected
    exact Nat.add_right_cancel hdirected
  obtain ⟨surplus, vote, hnote⟩ := EpochState.noteWithdraw_eq
    (es.bookPlanned s.inList
      (es.totalDirectedShares + s.record.sharesAt es.controllerEpoch)
      (es.sumDirectedTargets + planned.directedTarget) planned) p.record planned
  rw [hnote]
  refine ⟨rfl, hkept, ⟨?_, ?_⟩⟩
  · have hbound := h.shares
    dsimp only [EpochState.bookPlanned] at hbound huntaken ⊢
    rw [hkept]
    omega
  · have hbound := h.targets
    have htarget : planned.directedTarget ≤
        es.productiveLamports * s.record.sharesAt es.controllerEpoch / es.navFusolSupply :=
      directedTarget_le_share _ _ _ _
    dsimp only [EpochState.bookPlanned] at hbound ⊢
    rw [Nat.mul_add]
    exact (Nat.add_le_add hbound htarget).trans Nat.div_add_div_le_add_div

theorem DirectedPass.step {directed : ℕ} (h : DirectedPass es directed acc)
    (hstep : planDirectedOne sys list threshold acc p = .ok acc') :
    DirectedPass es directed acc' := by
  have hnext := h.booked.step hstep
  refine ⟨hnext.epoch.trans h.epoch, ?_, hnext.booked⟩
  rw [← h.epoch, hnext.directed, h.epoch]
  exact h.directed

theorem SharesBooked.pass (h : SharesBooked es records) {pairs : List Pair}
    (hfold : pairs.foldlM (planDirectedOne sys list threshold) ⟨es, records⟩ = .ok acc) :
    DirectedPass es (directedAt records es.controllerEpoch) acc :=
  foldlM_invariant (fun _ _ _ _ ha hstep ↦ ha.step hstep) ⟨rfl, rfl, h⟩ hfold

theorem sight_ne_exceed (es : EpochState) (p : Pair) (record : ValidatorRecord) :
    sight sys list es p record ≠ .error .directedSharesExceedSupply := by
  unfold sight
  intro h
  split at h
  · simp only [sightListed, bind_eq_error_iff, require_eq_error, reduceCtorEq, and_false,
      pure_ne_error, exists_false, or_self] at h
  · simp only [sightExtra, bind_eq_error_iff, require_eq_error, reduceCtorEq, and_false,
      pure_ne_error, exists_false, or_self] at h

theorem planDirectedOne_ne_exceed (acc : PlanAcc) (p : Pair) :
    planDirectedOne sys list threshold acc p ≠ .error .directedSharesExceedSupply := by
  intro h
  simp only [planDirectedOne, bind_eq_error_iff, okOr_eq_error, require_eq_error, reduceCtorEq,
    sight_ne_exceed, and_false, pure_ne_error, exists_false, or_self] at h

/-- The guard of the plan passes if no more was counted than the finalized supply. -/
theorem closeDirected_ne_exceed {listLen : ℕ} (h : SharesBooked es records)
    (hle : directedAt records es.controllerEpoch ≤ es.navFusolSupply) :
    closeDirected listLen es ≠ .error .directedSharesExceedSupply := by
  intro herr
  unfold closeDirected at herr
  split at herr
  · have hshares := h.shares
    have hsome : (neutralTotal es.productiveLamports es.sumDirectedTargets es.totalDirectedShares
        es.navFusolSupply).isSome := neutralTotal_isSome (by omega) h.targets
    simp only [bind_eq_error_iff, okOr_eq_error, require_eq_error, reduceCtorEq, and_false,
      pure_ne_error, exists_false, or_self, or_false, and_true] at herr
    rw [herr] at hsome
    cases hsome
  · exact pure_ne_error herr

theorem closeDirected_eq {listLen : ℕ} (h : closeDirected listLen es = .ok es') :
    ∃ neutral phase, (phase = es.phase ∨ phase = .planNeutral) ∧
      es' = { es with neutralTotal := neutral, phase := phase } := by
  unfold closeDirected at h
  split at h
  · simp only [bind_eq_ok_iff, okOr_eq_ok, require_eq_ok, pure_eq_ok, exists_const] at h
    obtain ⟨neutral, -, -, rfl⟩ := h
    exact ⟨neutral, _, .inr rfl, rfl⟩
  · obtain rfl := pure_eq_ok.mp h
    exact ⟨es.neutralTotal, es.phase, .inl rfl, rfl⟩

theorem planDirectedBatch_ne_exceed {c : Controller}
    (h : c.epochState.phase = .planDirected → SharesBooked c.epochState c.records ∧
      directedAt c.records c.epochState.controllerEpoch ≤ c.epochState.navFusolSupply)
    (pairs : List Pair) (crank : Pubkey) :
    planDirectedBatch sys pairs crank c ≠ .error .directedSharesExceedSupply := by
  intro herr
  simp only [planDirectedBatch, bind_eq_error_iff, okOr_eq_error, require_eq_error, require_eq_ok,
    reduceCtorEq, and_false, false_or, exists_const] at herr
  obtain ⟨threshold, -, hphase, -, hloop | ⟨acc, hfold, hclose | ⟨es', -, hpay⟩⟩⟩ := herr
  · exact foldlM_ne_error (P := fun _ ↦ True) (fun _ _ _ _ _ _ ↦ trivial)
      (fun p _ acc _ ↦ planDirectedOne_ne_exceed acc p) trivial hloop
  · obtain ⟨hbooked, hle⟩ := h hphase
    have hpass := hbooked.pass hfold
    refine closeDirected_ne_exceed hpass.booked ?_ hclose
    rw [hpass.epoch, hpass.directed, (samePass_foldlM_planDirectedOne hfold).1.supply]
    exact hle
  · split at hpay
    · cases (payCrankReward_error hpay).2
    · exact pure_ne_error hpay

theorem planDirectedBatch_booked {c c' : Controller} {pairs : List Pair} {crank : Pubkey}
    (h : SharesBooked c.epochState c.records)
    (hrun : planDirectedBatch sys pairs crank c = .ok c') :
    SharesBooked c'.epochState c'.records := by
  simp only [planDirectedBatch, bind_eq_ok_iff] at hrun
  obtain ⟨threshold, -, _, -, _, -, acc, hfold, es', hclose, hrun⟩ := hrun
  have hpass := h.pass hfold
  obtain ⟨neutral, phase, -, rfl⟩ := closeDirected_eq hclose
  obtain ⟨vault, used, rfl⟩ := rewarded_eq hrun
  exact ⟨hpass.booked.shares, hpass.booked.targets⟩

end Pass

/-! ## Runs -/

theorem SharesBooked.register {es : EpochState} {records : Table Pubkey ValidatorRecord}
    {vote : Pubkey} (h : SharesBooked es records) (hvote : records.lookup vote = none) :
    SharesBooked es (records.insert vote .registered) := by
  have huntaken : ValidatorRecord.registered.untakenAt es.controllerEpoch = 0 := by
    unfold ValidatorRecord.untakenAt
    split
    · rfl
    · exact registered_sharesAt _
  refine ⟨?_, h.targets⟩
  unfold directedAt
  rw [Table.total_insert_of_none _ _ hvote, Table.total_insert_of_none _ _ hvote, huntaken,
    registered_sharesAt]
  exact h.shares

theorem SharesBooked.of_planStart {c : Controller} (h : PlanStart c) :
    SharesBooked c.epochState c.records := by
  rw [h.reset]
  constructor
  · exact (Nat.zero_add _).le.trans (Table.total_le_total fun _ r _ ↦ r.untakenAt_le _)
  · exact Nat.zero_le _

theorem SharesBooked.of_planner {c : Controller} (h : planner.Reach c)
    (hphase : c.epochState.phase = .planDirected) : SharesBooked c.epochState c.records := by
  induction h with
  | init hstart => exact .of_planStart hstart
  | step call _ _ hs ih =>
    cases call with
    | directed sys pairs crank =>
      exact planDirectedBatch_booked (ih (planDirectedBatch_spec hs).1) hs
    | neutral votes crank =>
      obtain ⟨-, -, hphase' | hphase', -⟩ := planNeutralBatch_spec hs <;> simp [hphase'] at hphase
    | register vote sample =>
      simp only [planner, PlanCall.run, registerValidator, bind_eq_ok_iff, require_eq_ok,
        pure_eq_ok, exists_const] at hs
      obtain ⟨hvote, -, rfl⟩ := hs
      exact (ih hphase).register hvote
    | environment other =>
      cases hs
      exact ih hphase

theorem crank_sharesBooked {G : CrankEvent → CrankWorld → Prop} {w : CrankWorld}
    (h : crank.Reachable G w) (hphase : w.phase = .planDirected) :
    SharesBooked w.controller.epochState w.controller.records :=
  .of_planner (planner_reach_of_crank h (.inl hphase)) hphase

end StakeController
end FusionCore
