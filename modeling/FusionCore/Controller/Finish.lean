import FusionCore.Controller.ReconcileCoverage
import FusionCore.Controller.WalkProgress

/-!
# What finishing an epoch leaves undone

An epoch may be finished before the walk is complete, once the budget left is below one minimum
action.  No move of stake is possible then.  A removal moves none and spends no budget, so it is the
one action that finishing early can leave undone.
-/

namespace FusionCore
namespace StakeController

open Checked StakeMath

section Exhausted

variable {i : ActionInputs}

theorem ActionInputs.size_lt (hbudget : i.budgetRemaining < i.minDelegation)
    (deviation source : ℕ) : i.size deviation source < i.minDelegation := by
  unfold ActionInputs.size
  omega

theorem decideAction_of_removalDue (h : i.removalDue) : decideAction i = .remove := by
  obtain ⟨hfree, hpass, hstatus⟩ := h
  rw [decideAction_of_free hfree, hpass, hstatus]
  rfl

theorem decideAction_of_exhausted (hbudget : i.budgetRemaining < i.minDelegation)
    (hremoval : ¬i.removalDue) : decideAction i = .skip := by
  have hmin : 0 < i.minDelegation := by omega
  have hordinary : (if i.activeLamports < i.finalTarget then decideIncrease i
      else decideDecrease i) = .skip := by
    split
    · rw [decideIncrease_eq hmin, if_neg]
      rintro ⟨-, -, hle⟩
      exact absurd hle (not_le.mpr (i.size_lt hbudget _ _))
    · rw [decideDecrease_eq hmin, if_neg]
      rintro ⟨-, -, hle⟩
      exact absurd hle (not_le.mpr (i.size_lt hbudget _ _))
  by_cases hfree : i.free
  · rw [decideAction_of_free hfree]
    split
    next hpass hstatus => exact absurd ⟨hfree, hpass, hstatus⟩ hremoval
    next =>
      rw [decideDrain_eq hmin, if_neg]
      rintro ⟨-, hle⟩
      exact absurd hle (not_le.mpr (i.size_lt hbudget _ _))
    next => exact hordinary
    next => exact hordinary
    next => rfl
  · exact decideAction_of_not_free hfree

end Exhausted

/-- A slot of the plan's walk that the cursor has not reached, with the list entry it points to and
the record of that validator. -/
structure Unvisited (c : Controller) (cursor : ℕ) (slot : RebalanceSlot) (entry : ValidatorEntry)
    (record : ValidatorRecord) : Prop where
  ahead : c.epochState.rebalanceCursor ≤ cursor
  slot_eq : rebalanceSlot cursor c.epochState.planDirectedCursor c.epochState.controllerEpoch =
    some slot
  entry_eq : c.pool.validators.entries[slot.index]? = some entry
  record_eq : c.records.lookup entry.voteAccountAddress = some record

/-- A drained validator in the first pass with nothing in flight and no move this epoch. -/
def AwaitsRemoval (es : EpochState) (slot : RebalanceSlot) (entry : ValidatorEntry)
    (record : ValidatorRecord) : Prop :=
  slot.pass = 0 ∧ record.status = .removable ∧ entry.transientStakeLamports = 0 ∧
    record.lastIncreaseEpoch ≠ es.controllerEpoch ∧ record.lastDecreaseEpoch ≠ es.controllerEpoch

section Finish

variable {sys : Sysvars} {crank : Pubkey} {c c' : Controller}

theorem removalDue_iff (sys : Sysvars) (es : EpochState) (slot : RebalanceSlot)
    (entry : ValidatorEntry) (record : ValidatorRecord) (reserve : ℕ) :
    (actionInputs sys es slot record entry.toStakeInfo reserve).removalDue ↔
      AwaitsRemoval es slot entry record := by
  simp only [ActionInputs.removalDue, ActionInputs.free, actionInputs, AwaitsRemoval,
    Bool.or_eq_false_iff, decide_eq_false_iff_not]
  tauto

theorem finishEpoch_eq_ok (h : finishEpoch sys crank c = .ok c') :
    saturatingMul 64 c.epochState.planDirectedCursor 2 ≤ c.epochState.rebalanceCursor ∨
      c.epochState.churnBudgetTotal - c.epochState.churnBudgetUsed <
        sys.effectiveMinimumDelegation := by
  simp only [finishEpoch, bind_eq_ok_iff, require_eq_ok, exists_const] at h
  exact h.2.1

/-- Finishing an epoch drops no action exactly when no removal is waiting ahead of the cursor. -/
theorem finish_drops_nothing_iff (h : finishEpoch sys crank c = .ok c') :
    (∀ cursor slot entry record, Unvisited c cursor slot entry record →
      decideAction (actionInputs sys c.epochState slot record entry.toStakeInfo
        c.pool.reserveLamports) = .skip) ↔
    ∀ cursor slot entry record, Unvisited c cursor slot entry record →
      ¬AwaitsRemoval c.epochState slot entry record := by
  constructor
  · intro hskip cursor slot entry record hu hwaits
    have hremove := decideAction_of_removalDue
      ((removalDue_iff sys _ _ _ _ c.pool.reserveLamports).mpr hwaits)
    rw [hskip cursor slot entry record hu] at hremove
    cases hremove
  · intro hnone cursor slot entry record hu
    rcases finishEpoch_eq_ok h with hdone | hbudget
    · -- the whole walk is behind the cursor
      have hover := hu.slot_eq
      rw [rebalanceSlot, if_pos (.inr (hdone.trans hu.ahead))] at hover
      cases hover
    · refine decideAction_of_exhausted hbudget ?_
      rw [removalDue_iff]
      exact hnone cursor slot entry record hu

end Finish

namespace CrankSample

/-- The instructions of a cycle up to the preference window, in a pool of thirty SOL. -/
def observeSmall (epoch : ℕ) (quads : List Quad) : List CrankEvent :=
  [⟨at_ epoch 10, .startEpoch⟩,
    ⟨at_ epoch 20, .reconcileBatch quads 100⟩,
    ⟨at_ epoch 30, .finalizePool (30 * LAMPORTS_PER_SOL) 0 100⟩]

/-- Two validators are admitted, then most of the pool is withdrawn: its budget for one epoch falls
below the minimum delegation. -/
def shrunk : List CrankEvent :=
  admitted ++
    [⟨at_ 2 20050,
      .user (.withdrawSol (99970 * LAMPORTS_PER_SOL) (99970 * LAMPORTS_PER_SOL))⟩]

/-- Both validators stay healthy. -/
def finishable : List CrankEvent :=
  shrunk ++ observeSmall 3 [quad 11 3, quad 12 3] ++
    plan 3 [⟨11, 11, none⟩, ⟨12, 12, none⟩] [11, 12]

/-- The first validator raises its commission in epoch 3 and is removable in epoch 5. -/
def removalPlanned : List CrankEvent :=
  shrunk ++ observeSmall 3 [{ quad 11 3 with sample := some ⟨50, true, 1296010⟩ }, quad 12 3] ++
    (plan 3 [⟨11, 11, none⟩, ⟨12, 12, none⟩] []).take 2 ++
    observeSmall 5 [quad 11 5, quad 12 5] ++
    plan 5 [⟨11, 11, none⟩, ⟨12, 12, none⟩] [11, 12]

end CrankSample

theorem finish_drops_nothing_sample : ∃ w c', crank.Reach w ∧
    w.controller.epochState.rebalanceCursor < w.controller.epochState.planDirectedCursor ∧
    finishEpoch (CrankSample.at_ 3 20040) 100 w.controller = .ok c' ∧
    ∀ cursor slot entry record, Unvisited w.controller cursor slot entry record →
      decideAction (actionInputs (CrankSample.at_ 3 20040) w.controller.epochState slot record
        entry.toStakeInfo w.controller.pool.reserveLamports) = .skip := by
  have hrun : (CrankSample.run (fun _ _ ↦ True) CrankSample.finishable).map (fun w : CrankWorld ↦
      decide (w.controller.epochState.rebalanceCursor <
        w.controller.epochState.planDirectedCursor) &&
      (finishEpoch (CrankSample.at_ 3 20040) 100 w.controller).toOption.isSome &&
      w.controller.records.entries.all fun r ↦ decide (r.2.status ≠ .removable)) = some true := by
    decide +kernel
  obtain ⟨w, hw, htest⟩ := Option.map_eq_some_iff.mp hrun
  simp only [Bool.and_eq_true, decide_eq_true_eq, Option.isSome_iff_exists, toOption_eq_some,
    List.all_eq_true] at htest
  obtain ⟨⟨hahead, c', hc'⟩, hstatus⟩ := htest
  refine ⟨w, c', CrankSample.reachable_run hw, hahead, hc', ?_⟩
  refine (finish_drops_nothing_iff hc').mpr ?_
  rintro cursor slot entry record hu ⟨-, hremovable, -⟩
  exact hstatus _ (Table.lookup_eq_some_iff.mp hu.record_eq) hremovable

/-- A pool whose budget is below the minimum delegation: the epoch is finished while a validator
that the plan made removable, and that the pool would remove, is still ahead of the cursor. -/
theorem finish_drops_removal : ∃ w c' p slot entry record, crank.Reach w ∧
    finishEpoch (CrankSample.at_ 5 20040) 100 w.controller = .ok c' ∧
    Unvisited w.controller 1 slot entry record ∧
    decideAction (actionInputs (CrankSample.at_ 5 20040) w.controller.epochState slot record
      entry.toStakeInfo w.controller.pool.reserveLamports) = .remove ∧
    w.controller.pool.removeValidatorFromPool (CrankSample.at_ 5 20040)
      entry.voteAccountAddress = .ok p := by
  have hrun : (CrankSample.run (fun _ _ ↦ True) CrankSample.removalPlanned).map
      (fun w : CrankWorld ↦
        decide (w.controller.epochState.rebalanceCursor ≤ 1) &&
        (finishEpoch (CrankSample.at_ 5 20040) 100 w.controller).toOption.isSome &&
        (rebalanceSlot 1 w.controller.epochState.planDirectedCursor
          w.controller.epochState.controllerEpoch).any fun slot : RebalanceSlot ↦
        (w.controller.pool.validators.entries[slot.index]?).any fun entry : ValidatorEntry ↦
        (w.controller.records.lookup entry.voteAccountAddress).any fun record : ValidatorRecord ↦
          decide (decideAction (actionInputs (CrankSample.at_ 5 20040) w.controller.epochState slot
            record entry.toStakeInfo w.controller.pool.reserveLamports) = .remove) &&
          (w.controller.pool.removeValidatorFromPool (CrankSample.at_ 5 20040)
            entry.voteAccountAddress).toOption.isSome) = some true := by
    decide +kernel
  obtain ⟨w, hw, htest⟩ := Option.map_eq_some_iff.mp hrun
  simp only [Bool.and_eq_true, decide_eq_true_eq, Option.isSome_iff_exists, toOption_eq_some,
    Option.any_eq_true] at htest
  obtain ⟨⟨hahead, c', hc'⟩, slot, hslot, entry, hentry, record, hrecord, haction, p, hp⟩ := htest
  exact ⟨w, c', p, slot, entry, record, CrankSample.reachable_run hw, hc',
    ⟨hahead, hslot, hentry, hrecord⟩, haction, hp⟩

end StakeController
end FusionCore
