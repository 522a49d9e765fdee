import FusionCore.Controller.Machine
import Mathlib.Data.List.Rotate

/-!
# One walk of the rebalance phase

The slots of a walk are the two rotated passes over the planned ordinals.  A run of the phase
visits an initial part of them; the stamp on a record keeps its validator from being moved twice,
and the budget is what bounds the sum of all moves.
-/

namespace FusionCore
namespace StakeController

open Checked StakeMath

/-! ## The sequence of slots -/

/-- The planned ordinals in the order of a pass. -/
def passOrder (n epoch : ℕ) : List ℕ := (List.range n).rotate (rotationStart epoch n)

/-- All slots of the walk: one pass for drains, then one for ordinary moves. -/
def walkSlots (n epoch : ℕ) : List RebalanceSlot :=
  (passOrder n epoch).map (⟨0, ·⟩) ++ (passOrder n epoch).map (⟨1, ·⟩)

theorem passOrder_perm (n epoch : ℕ) : (passOrder n epoch).Perm (List.range n) :=
  List.rotate_perm _ _

@[simp] theorem length_passOrder (n epoch : ℕ) : (passOrder n epoch).length = n := by
  simp [passOrder]

theorem getElem?_passOrder {n epoch i : ℕ} (hi : i < n) :
    (passOrder n epoch)[i]? = some ((rotationStart epoch n + i) % n) := by
  rw [List.getElem?_eq_getElem (by simpa using hi)]
  simp only [passOrder, List.getElem_rotate, List.getElem_range, List.length_range]
  rw [add_comm]

theorem getElem?_walkSlots {cursor n epoch : ℕ} {slot : RebalanceSlot} (hn : n < 2 ^ 32)
    (h : rebalanceSlot cursor n epoch = some slot) : (walkSlots n epoch)[cursor]? = some slot := by
  unfold rebalanceSlot at h
  split at h
  next => cases h
  next hlive =>
    push Not at hlive
    obtain ⟨hpos, hcursor⟩ := hlive
    have hdouble : n * 2 < 2 ^ 64 := by omega
    have hlt : cursor < n * 2 := by
      rwa [saturatingMul, min_eq_left (Nat.le_sub_one_of_lt hdouble)] at hcursor
    have hstart : rotationStart epoch n < n := rotationStart_lt (Nat.pos_of_ne_zero hpos)
    have hmod : cursor % n < n := Nat.mod_lt _ (Nat.pos_of_ne_zero hpos)
    have hindex : truncate 64 (rotationStart epoch n % n + cursor % n) % n =
        (rotationStart epoch n + cursor % n) % n := by
      rw [Nat.mod_eq_of_lt hstart, truncate_of_lt (by omega)]
    rw [Option.some.injEq, hindex] at h
    subst h
    obtain hfirst | hsecond := Nat.lt_or_ge cursor n
    · have hdiv : cursor / n = 0 := Nat.div_eq_of_lt hfirst
      rw [walkSlots, List.getElem?_append_left (by simpa using hfirst), List.getElem?_map,
        getElem?_passOrder hfirst, hdiv, Nat.mod_eq_of_lt hfirst]
      rfl
    · have hdiv : cursor / n = 1 := Nat.div_eq_of_lt_le (by omega) (by omega)
      have hrest : cursor % n = cursor - n := by
        rw [Nat.mod_eq_sub_mod hsecond, Nat.mod_eq_of_lt (by omega)]
      rw [walkSlots, List.getElem?_append_right (by simpa using hsecond), List.getElem?_map,
        List.length_map, length_passOrder, getElem?_passOrder (by omega), hdiv, hrest]
      rfl

/-! ## Bounds on a move -/

theorem amount?_decreaseOrSkip {amount x : ℕ} :
    (Action.decreaseOrSkip amount).amount? = some x ↔ amount ≠ 0 ∧ amount = x := by
  unfold Action.decreaseOrSkip
  split <;> simp_all [Action.amount?]

theorem amount?_increaseOrSkip {amount x : ℕ} :
    (Action.increaseOrSkip amount).amount? = some x ↔ amount ≠ 0 ∧ amount = x := by
  unfold Action.increaseOrSkip
  split <;> simp_all [Action.amount?]

/-- A move respects all caps, and is made only if the record has no stamp of this epoch. -/
theorem decideAction_amount {i : ActionInputs} {x : ℕ} (h : (decideAction i).amount? = some x) :
    i.actedThisEpoch = false ∧ i.minDelegation ≤ x ∧ x ≤ i.validatorMoveCap ∧
      x ≤ i.budgetRemaining := by
  have hbounds : ∀ deviation source, actionAmount deviation i.budgetRemaining i.validatorMoveCap
      source i.minDelegation false ≠ 0 ∧ actionAmount deviation i.budgetRemaining
        i.validatorMoveCap source i.minDelegation false = x →
      i.minDelegation ≤ x ∧ x ≤ i.validatorMoveCap ∧ x ≤ i.budgetRemaining := by
    rintro deviation source ⟨hne, rfl⟩
    obtain hzero | hbounds := actionAmount_cases deviation i.budgetRemaining i.validatorMoveCap
      source i.minDelegation
    · exact absurd hzero hne
    · exact ⟨hbounds.minAction, hbounds.cap, hbounds.budget⟩
  unfold decideAction at h
  split at h
  next => cases h
  next hidle =>
    simp only [Bool.or_eq_true, not_or, Bool.not_eq_true] at hidle
    refine ⟨hidle.2, ?_⟩
    -- both kinds of validators of the second pass move in the same way
    have hsecond : (if i.activeLamports < i.finalTarget then decideIncrease i
        else decideDecrease i).amount? = some x →
        i.minDelegation ≤ x ∧ x ≤ i.validatorMoveCap ∧ x ≤ i.budgetRemaining := by
      intro h
      split at h
      · simp only [decideIncrease] at h
        split at h
        · cases h
        · exact hbounds _ _ (amount?_increaseOrSkip.mp h)
      · simp only [decideDecrease] at h
        split at h
        · cases h
        · split at h
          · cases h
          · exact hbounds _ _ (amount?_decreaseOrSkip.mp h)
    split at h
    next => cases h
    next =>
      simp only [decideDrain] at h
      split at h
      · cases h
      · exact hbounds _ _ (amount?_decreaseOrSkip.mp h)
    next => exact hsecond h
    next => exact hsecond h
    next => cases h

/-! ## What was performed -/

/-- One successful call of the rebalance phase. -/
structure Performed where
  sys : Sysvars
  vote : Pubkey
  what : Executed
  deriving DecidableEq, Repr

namespace Performed

def slot? (p : Performed) : Option RebalanceSlot :=
  match p.what with
  | .add => none
  | .walk slot _ => some slot

/-- The lamports of an increase or a decrease. -/
def amount? (p : Performed) : Option ℕ :=
  match p.what with
  | .add => none
  | .walk _ action => action.amount?

def moved (p : Performed) : ℕ := p.amount?.getD 0

end Performed

/-- The moves of one validator. -/
def movesOf (vote : Pubkey) (actions : List Performed) : List Performed :=
  actions.filter fun p ↦ p.vote = vote && p.amount?.isSome

/-- The lamports moved in all. -/
def churn (actions : List Performed) : ℕ := (actions.map Performed.moved).sum

@[simp] theorem churn_append (ps qs : List Performed) : churn (ps ++ qs) = churn ps + churn qs := by
  simp [churn]

/-- The state of a walk that has performed `actions`. -/
structure Walked (c : Controller) (actions : List Performed) : Prop where
  planned : c.epochState.planDirectedCursor < 2 ^ 32
  slots : actions.filterMap Performed.slot? =
    (walkSlots c.epochState.planDirectedCursor c.epochState.controllerEpoch).take
      c.epochState.rebalanceCursor
  once : ∀ v, movesOf v actions = [] ∨
    ((movesOf v actions).length = 1 ∧ ActedAt c.epochState.controllerEpoch c.records v)
  bounds : ∀ p ∈ actions, ∀ x, p.amount? = some x → p.sys.effectiveMinimumDelegation ≤ x ∧
    x ≤ validatorMoveCap c.epochState.navTotalLamports VALIDATOR_MOVE_CAP_BPS
  sum : churn actions = c.epochState.churnBudgetUsed
  budget : c.epochState.churnBudgetUsed ≤ c.epochState.churnBudgetTotal

namespace Walked

variable {c c' : Controller} {actions : List Performed}

theorem nil (hn : c.epochState.planDirectedCursor < 2 ^ 32)
    (hcursor : c.epochState.rebalanceCursor = 0)
    (hused : c.epochState.churnBudgetUsed = 0) : Walked c [] where
  planned := hn
  slots := by simp [hcursor]
  once v := .inl rfl
  bounds := by simp
  sum := hused.symm
  budget := by simp [hused]

theorem quiet {sys : Sysvars} {instr : CrankInstr} (h : Walked c actions)
    (hq : Quiet sys instr c c') : Walked c' actions := by
  have hes := hq.epochState
  obtain ⟨planned, slots, once, bounds, sum, budget⟩ := h
  rw [← hes] at planned slots once bounds sum budget
  refine ⟨planned, slots, ?_, bounds, sum, budget⟩
  intro v
  obtain hnone | ⟨hone, r, hr, hacted⟩ := once v
  · exact .inl hnone
  · exact .inr ⟨hone, r, hq.records v r hr, hacted⟩

theorem movesOf_append_of_none {v : Pubkey} {p : Performed} (h : p.amount? = none) :
    movesOf v (actions ++ [p]) = movesOf v actions := by
  simp [movesOf, h]

theorem movesOf_append_of_ne {v : Pubkey} {p : Performed} (h : p.vote ≠ v) :
    movesOf v (actions ++ [p]) = movesOf v actions := by
  simp [movesOf, h]

theorem execute {sys : Sysvars} {vote crank : Pubkey} {what : Executed} (hw : Walked c actions)
    (h : executeNextAction sys vote crank c = .ok (c', what)) :
    Walked c' (actions ++ [⟨sys, vote, what⟩]) := by
  obtain ⟨-, hframe, hcases⟩ := executeNextAction_spec h
  have honce : ∀ v, ActedAt c.epochState.controllerEpoch c.records v →
      ActedAt c'.epochState.controllerEpoch c'.records v := by
    intro v hv
    rw [hframe.epoch]
    exact hframe.acted v hv
  obtain ⟨rfl, hcursor, hused⟩ |
    ⟨record, slot, entry, hrecord, hslot, action, haction, rfl, hcursor, hused, hmove⟩ := hcases
  · exact
      { planned := hframe.planned ▸ hw.planned
        slots := by
          rw [hframe.planned, hframe.epoch, hcursor, ← hw.slots]
          simp [Performed.slot?]
        once := by
          intro v
          rw [movesOf_append_of_none rfl]
          exact (hw.once v).imp_right fun hone ↦ ⟨hone.1, honce v hone.2⟩
        bounds := by
          intro p hp x hx
          rw [hframe.nav]
          obtain hp | hp := List.mem_append.mp hp
          · exact hw.bounds p hp x hx
          · obtain rfl := List.mem_singleton.mp hp
            cases hx
        sum := by
          rw [churn_append, hw.sum, hused]
          rfl
        budget := by
          rw [hused, hframe.budget]
          exact hw.budget }
  · -- the slot is the next of the sequence
    have hnext := getElem?_walkSlots hw.planned hslot
    have hamount : ∀ x, action.amount? = some x →
        ¬ActedAt c.epochState.controllerEpoch c.records vote ∧
          sys.effectiveMinimumDelegation ≤ x ∧
          x ≤ validatorMoveCap c.epochState.navTotalLamports VALIDATOR_MOVE_CAP_BPS ∧
          x ≤ c.epochState.churnBudgetTotal - c.epochState.churnBudgetUsed := by
      intro x hx
      rw [haction] at hx
      obtain ⟨hacted, hmin, hcap, hbudget⟩ := decideAction_amount hx
      refine ⟨?_, hmin, hcap, hbudget⟩
      rintro ⟨r, hr, hstamp⟩
      obtain rfl : record = r := Option.some.inj (hrecord.symm.trans hr)
      simp only [actionInputs, Bool.or_eq_false_iff, decide_eq_false_iff_not] at hacted
      exact hstamp.elim hacted.1 hacted.2
    exact
      { planned := hframe.planned ▸ hw.planned
        slots := by
          rw [hframe.planned, hframe.epoch, hcursor, List.take_add_one, hnext,
            List.filterMap_append, hw.slots]
          rfl
        once := by
          intro v
          by_cases hv : vote = v
          · subst hv
            cases hx : action.amount? with
            | none =>
              rw [movesOf_append_of_none (p := ⟨sys, vote, .walk slot action⟩) hx]
              exact (hw.once vote).imp_right fun hone ↦ ⟨hone.1, honce vote hone.2⟩
            | some x =>
              obtain hnone | hone := hw.once vote
              · refine .inr ⟨?_, ?_⟩
                · rw [movesOf, List.filter_append, ← movesOf, hnone]
                  simp [Performed.amount?, hx]
                · rw [hframe.epoch]
                  exact (hmove (by simp [hx])).2
              · exact absurd hone.2 (hamount x hx).1
          · rw [movesOf_append_of_ne hv]
            exact (hw.once v).imp_right fun hone ↦ ⟨hone.1, honce v hone.2⟩
        bounds := by
          intro p hp x hx
          rw [hframe.nav]
          obtain hp | hp := List.mem_append.mp hp
          · exact hw.bounds p hp x hx
          · obtain rfl := List.mem_singleton.mp hp
            exact ⟨(hamount x hx).2.1, (hamount x hx).2.2.1⟩
        sum := by
          rw [churn_append, hw.sum, hused]
          simp [churn, Performed.moved, Performed.amount?, Action.moved]
        budget := by
          rw [hused, hframe.budget]
          have hbudget := hw.budget
          unfold Action.moved
          cases hx : action.amount? with
          | none => simpa using hbudget
          | some x =>
            have := (hamount x hx).2.2.2
            simp only [Option.getD_some]
            omega }

end Walked

/-! ## Runs of the phase -/

/-- The state in which accepting a plan leaves the crank. -/
structure WalkStart (c : Controller) : Prop where
  phase : c.epochState.phase = .rebalance
  planned : c.epochState.planDirectedCursor < 2 ^ 32
  cursor : c.epochState.rebalanceCursor = 0
  used : c.epochState.churnBudgetUsed = 0

def performedBy (sys : Sysvars) : Option Note → List Performed
  | some (.executed vote what) => [⟨sys, vote, what⟩]
  | _ => []

/-- One instruction, as long as it does not leave the phase. -/
def walkNext (e : CrankEvent) (s : Controller × List Performed) :
    Option (Controller × List Performed) :=
  match e.instr.run e.sys s.1 with
  | .ok (c, note) =>
    if c.epochState.phase = .rebalance then some (c, s.2 ++ performedBy e.sys note) else none
  | .error _ => none

/-- The rebalance phase, from entering it until it is left. -/
def walker : Machine (Controller × List Performed) CrankEvent where
  init s := WalkStart s.1 ∧ s.2 = []
  step e s s' := walkNext e s = some s'

/-- In the rebalance phase, a step that does not leave it executes an action or is quiet. -/
theorem rebalance_step_cases {sys : Sysvars} {instr : CrankInstr} {c c' : Controller}
    {note : Option Note} (h : CrankStep sys c instr c' note)
    (hphase : c.epochState.phase = .rebalance)
    (hphase' : c'.epochState.phase = .rebalance) :
    (Quiet sys instr c c' ∧ note = none) ∨
      ∃ vote crank what, executeNextAction sys vote crank c = .ok (c', what) ∧
        note = some (.executed vote what) := by
  cases h with
  | quiet h => exact .inl ⟨h, rfl⟩
  | startEpoch h =>
    obtain ⟨-, rfl⟩ := startEpoch_eq h
    exact absurd hphase' (by simp)
  | reconcileBatch h => exact absurd (hphase.symm.trans (reconcileBatch_spec h).1) (by decide)
  | finalizePool h => exact absurd (hphase.symm.trans (finalizePool_spec h).1) (by decide)
  | snapshotPreference h =>
    exact absurd (hphase.symm.trans (snapshotPreference_spec h).1) (by decide)
  | closePreferenceWindow h =>
    exact absurd (hphase.symm.trans (closePreferenceWindow_eq h).1) (by decide)
  | planDirectedBatch h => exact absurd (hphase.symm.trans (planDirectedBatch_spec h).1) (by decide)
  | planNeutralBatch h => exact absurd (hphase.symm.trans (planNeutralBatch_spec h).1) (by decide)
  | finalizePlan h => exact absurd (hphase.symm.trans (finalizePlan_spec h).1) (by decide)
  | executeNextAction h => exact .inr ⟨_, _, _, h, rfl⟩
  | finishEpoch h =>
    obtain ⟨-, _, _, rfl⟩ := finishEpoch_spec h
    exact absurd hphase' (by simp)

theorem Walked.of_reach {s : Controller × List Performed} (h : walker.Reach s) :
    Walked s.1 s.2 ∧ s.1.epochState.phase = .rebalance := by
  refine h.invariant (P := fun s ↦ Walked s.1 s.2 ∧ s.1.epochState.phase = .rebalance) ?_ ?_
  · rintro ⟨c, _⟩ ⟨hstart, rfl⟩
    exact ⟨.nil hstart.planned hstart.cursor hstart.used, hstart.phase⟩
  · rintro e ⟨c, actions⟩ ⟨c', actions'⟩ ⟨hw, hphase⟩ - hs
    simp only [walker, walkNext] at hs
    split at hs
    next d note hrun =>
      split at hs
      next hphase' =>
        obtain ⟨rfl, rfl⟩ := Prod.mk.inj (Option.some.inj hs)
        refine ⟨?_, hphase'⟩
        obtain ⟨hq, rfl⟩ | ⟨vote, crank, what, hexec, rfl⟩ :=
          rebalance_step_cases (crankStep_of_run hrun) hphase hphase'
        · simpa [performedBy] using hw.quiet hq
        · exact hw.execute hexec
      next => cases hs
    next => cases hs

/-- One walk, one move, bounded: whatever is called in the rebalance phase of an epoch, the slots
come in the order of the two passes, no validator is moved twice, every move keeps within its
caps, and the used budget is the sum of the moves. -/
theorem walk_bounded {c : Controller} {actions : List Performed} (h : walker.Reach (c, actions)) :
    (∃ drains moves : List ℕ,
      drains.Perm (List.range c.epochState.planDirectedCursor) ∧
      moves.Perm (List.range c.epochState.planDirectedCursor) ∧
      actions.filterMap Performed.slot? <+: drains.map (⟨0, ·⟩) ++ moves.map (⟨1, ·⟩)) ∧
    (∀ v, (movesOf v actions).length ≤ 1) ∧
    (∀ p ∈ actions, ∀ x, p.amount? = some x → p.sys.effectiveMinimumDelegation ≤ x ∧
      x ≤ validatorMoveCap c.epochState.navTotalLamports VALIDATOR_MOVE_CAP_BPS) ∧
    churn actions = c.epochState.churnBudgetUsed ∧
    c.epochState.churnBudgetUsed ≤ c.epochState.churnBudgetTotal := by
  obtain ⟨hw, -⟩ := Walked.of_reach h
  refine ⟨⟨_, _, passOrder_perm _ c.epochState.controllerEpoch,
    passOrder_perm _ c.epochState.controllerEpoch, ?_⟩, ?_, hw.bounds, hw.sum, hw.budget⟩
  · have hslots := hw.slots
    dsimp only at hslots
    rw [hslots]
    exact List.take_prefix _ _
  · intro v
    obtain hnone | ⟨hone, -⟩ := hw.once v
    · simp [hnone]
    · exact hone.le

/-! ## A sample walk -/

namespace WalkSample

def sys : Sysvars := ⟨⟨2260000, 1040000, 5⟩, 432000, 2282880, 1000000000⟩

def list : ValidatorList where
  entries :=
    [⟨⟨100 * LAMPORTS_PER_SOL, 0, 5, .active⟩, 11⟩, ⟨⟨200 * LAMPORTS_PER_SOL, 0, 5, .active⟩, 12⟩]
  maxValidators := 4
  fits := by decide
  indexed := CrankSample.four_lt_indices
  distinct := by decide

def record (status : ValidatorStatus) (index target : ℕ) : ValidatorRecord :=
  { ValidatorRecord.registered with
    status
    validatorListIndex := some index
    observedEpoch := 5
    observedLivenessOk := true
    planEpoch := 5
    directedTarget := target
    finalTarget := target }

/-- A hundred thousand SOL; one validator is to grow, the other is draining. -/
def start : Controller where
  config := ⟨7, 70⟩
  epochState :=
    { EpochState.zeroed with
      controllerEpoch := 5
      planDirectedCursor := 2
      navTotalLamports := 100000 * LAMPORTS_PER_SOL
      reserveTarget := 2000 * LAMPORTS_PER_SOL
      churnBudgetTotal := 3000 * LAMPORTS_PER_SOL
      phase := .rebalance }
  records := ((∅ : Table Pubkey ValidatorRecord).insert 11
    (record .active 0 (400 * LAMPORTS_PER_SOL))).insert 12 (record .draining 1 0)
  preferences := ∅
  pool :=
    ⟨100000 * LAMPORTS_PER_SOL, 100000 * LAMPORTS_PER_SOL, 5, list, 99700 * LAMPORTS_PER_SOL, none⟩
  vault := 0

def run (votes : List Pubkey) : Option (Controller × List Performed) :=
  Machine.execute (fun _ _ ↦ True) walkNext (start, [])
    (votes.map fun vote ↦ ⟨sys, .executeNextAction vote 100⟩)

theorem reach_run {votes : List Pubkey} {s : Controller × List Performed}
    (h : run votes = some s) : walker.Reach s := by
  have hinit : walker.init (start, []) := ⟨⟨rfl, by decide, rfl, rfl⟩, rfl⟩
  exact (Machine.Reachable.init hinit).execute (fun _ _ _ hs ↦ hs) h

end WalkSample

/-- A drain of 198.9977 SOL in the first pass and an increase of 300 SOL in the second. -/
theorem walk_bounded_sample : ∃ c actions,
    WalkSample.run [12, 11, 12, 11] = some (c, actions) ∧
    actions.map Performed.moved = [198997717120, 0, 0, 300000000000] ∧
    c.epochState.churnBudgetUsed = 498997717120 ∧
    churn actions = c.epochState.churnBudgetUsed := by
  have hrun : (WalkSample.run [12, 11, 12, 11]).map (fun s ↦
      (s.2.map Performed.moved, s.1.epochState.churnBudgetUsed)) =
      some ([198997717120, 0, 0, 300000000000], 498997717120) := by decide +kernel
  obtain ⟨⟨c, actions⟩, hs, hfacts⟩ := Option.map_eq_some_iff.mp hrun
  obtain ⟨hmoved, hused⟩ := Prod.mk.inj hfacts
  exact ⟨c, actions, hs, hmoved, hused, (walk_bounded (WalkSample.reach_run hs)).2.2.2.1⟩

end StakeController
end FusionCore
