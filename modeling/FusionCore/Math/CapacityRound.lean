import FusionCore.Math.Lifecycle
import Mathlib.Data.Nat.Periodic
import Mathlib.Tactic.Linarith
import Mathlib.Tactic.Ring

/-!
# Epoch targets and capacity rounds

Directed targets are floors of a share of the productive lamports.  What they leave is
dealt out in rounds: every unsaturated validator is offered an equal tranche, the remainder
goes one lamport each to a window of ordinals that rotates with the epoch, and a validator
takes no more than its remaining capacity.  A round is a fold that may stop and resume
anywhere, so its accounting is an invariant of the persisted state.

The number of rounds is not bounded by the number of validators alone: the product of what
remains and of the unsaturated validators falls to a quarter in every round, whatever the
capacities are.
-/

namespace FusionCore
namespace StakeMath

open Checked

def MAX_VALIDATORS : ℕ := 1024

def MAX_NEUTRAL_ROUNDS : ℕ := MAX_VALIDATORS

def directedTarget (productive directedShares supply lifecycleCap : ℕ) : ℕ :=
  if supply = 0 then 0
  else min (min (productive * directedShares / supply) (2 ^ 64 - 1)) lifecycleCap

theorem directedTarget_le_cap (productive shares supply cap : ℕ) :
    directedTarget productive shares supply cap ≤ cap := by
  unfold directedTarget
  split
  · exact Nat.zero_le _
  · exact min_le_right _ _

theorem directedTarget_le_share (productive shares supply cap : ℕ) :
    directedTarget productive shares supply cap ≤ productive * shares / supply := by
  unfold directedTarget
  split
  · exact Nat.zero_le _
  · exact (min_le_left _ _).trans (min_le_left _ _)

/-- The neutral pool; `none` rejects the plan. -/
def neutralTotal (productive sumDirectedTargets totalDirectedShares supply : ℕ) : Option ℕ :=
  if supply < totalDirectedShares then none else checkedSub productive sumDirectedTargets

/-- No more shares than the supply, and targets within their part of it, leave a neutral pool. -/
theorem neutralTotal_isSome {productive targets shares supply : ℕ} (hshares : shares ≤ supply)
    (htargets : targets ≤ productive * shares / supply) :
    (neutralTotal productive targets shares supply).isSome := by
  have hle : targets ≤ productive :=
    calc
      targets ≤ productive * shares / supply := htargets
      _ ≤ productive * supply / supply := by gcongr
      _ ≤ productive := Nat.div_le_of_le_mul (Nat.mul_comm _ _).le
  simp only [neutralTotal, Nat.not_lt.mpr hshares, if_false, checkedSub, hle, if_true,
    Option.isSome_some]

def neutralCapacity (status : ValidatorStatus) (lifecycleCap currentTarget : ℕ) : ℕ :=
  match status with
  | .active => lifecycleCap - currentTarget
  | _ => 0

theorem neutralCapacity_pos {status : ValidatorStatus} {cap target : ℕ}
    (h : 0 < neutralCapacity status cap target) : status = .active := by
  cases status with
  | active => rfl
  | _ => exact absurd h (Nat.lt_irrefl 0)

theorem add_neutralCapacity_le {cap target : ℕ} (status : ValidatorStatus) (h : target ≤ cap) :
    target + neutralCapacity status cap target ≤ cap := by
  cases status <;> simp only [neutralCapacity] <;> omega

def rotationStart (epoch n : ℕ) : ℕ := if n = 0 then 0 else epoch % n

theorem rotationStart_lt {epoch n : ℕ} (h : 0 < n) : rotationStart epoch n < n := by
  rw [rotationStart, if_neg h.ne']
  exact Nat.mod_lt _ h

/-! ## Rounds -/

structure NeutralRound where
  remaining : ℕ
  nUnsaturated : ℕ
  tranche : ℕ
  remainder : ℕ
  start : ℕ
  steps : ℕ
  remainderUsed : ℕ
  granted : ℕ
  saturated : ℕ
  deriving DecidableEq, Repr

def NeutralRound.zeroed : NeutralRound := ⟨0, 0, 0, 0, 0, 0, 0, 0, 0⟩

def NeutralRound.isComplete (r : NeutralRound) : Prop := r.nUnsaturated ≤ r.steps

instance (r : NeutralRound) : Decidable r.isComplete := inferInstanceAs (Decidable (_ ≤ _))

def NeutralRound.remainingAfter (r : NeutralRound) : ℕ := r.remaining - r.granted

def beginRound (remaining nUnsaturated epoch : ℕ) : Option NeutralRound :=
  if remaining = 0 ∨ nUnsaturated = 0 then none
  else some
    { remaining
      nUnsaturated
      tranche := remaining / nUnsaturated
      remainder := remaining % nUnsaturated
      start := rotationStart epoch nUnsaturated
      steps := 0
      remainderUsed := 0
      granted := 0
      saturated := 0 }

/-- The ordinals that receive one lamport of the remainder. -/
def inWindow (n start remainder ordinal : ℕ) : Prop := (ordinal + n - start) % n < remainder

instance (n start remainder : ℕ) : DecidablePred (inWindow n start remainder) := fun _ ↦
  inferInstanceAs (Decidable (_ < _))

/-- Fold one validator into the round; the second component is its grant. -/
def step (state : NeutralRound) (validatorRemainingCapacity : ℕ) : NeutralRound × ℕ :=
  if state.isComplete then (state, 0)
  else
    let window := inWindow state.nUnsaturated state.start state.remainder state.steps
    let base := saturatingAdd 64 state.tranche (if window then 1 else 0)
    let grant := min base validatorRemainingCapacity
    ({ state with
        steps := saturatingAdd 64 state.steps 1
        remainderUsed :=
          if window then saturatingAdd 64 state.remainderUsed 1 else state.remainderUsed
        granted := saturatingAdd 64 state.granted grant
        saturated :=
          if grant = validatorRemainingCapacity then saturatingAdd 64 state.saturated 1
          else state.saturated },
      grant)

/-! ## The window -/

/-- Over one full turn the rotated window has exactly `remainder` ordinals. -/
theorem count_inWindow {n start remainder : ℕ} (hstart : start < n) (hrem : remainder ≤ n) :
    Nat.count (inWindow n start remainder) n = remainder := by
  have hperiodic : Function.Periodic (fun x ↦ x % n < remainder) n := by
    intro x
    simp only [Nat.add_mod_right]
  have hturn :=
    Nat.filter_Ico_card_eq_of_periodic (n - start) n (fun x ↦ x % n < remainder) hperiodic
  -- one turn from `n - start` on is the ordinals shifted by `n - start`
  have hshift : Nat.count (inWindow n start remainder) n =
      ((Finset.Ico (n - start) (n - start + n)).filter fun x ↦ x % n < remainder).card := by
    rw [Nat.count_eq_card_filter_range]
    refine Finset.card_bij (fun o _ ↦ n - start + o) ?_ ?_ ?_
    · intro o ho
      obtain ⟨hlt, hwindow⟩ := Finset.mem_filter.mp ho
      rw [Finset.mem_range] at hlt
      refine Finset.mem_filter.mpr ⟨Finset.mem_Ico.mpr ⟨by omega, by omega⟩, ?_⟩
      rw [show n - start + o = o + n - start by omega]
      exact hwindow
    · intro o _ o' _ h
      exact Nat.add_left_cancel h
    · intro x hx
      obtain ⟨hmem, hwindow⟩ := Finset.mem_filter.mp hx
      rw [Finset.mem_Ico] at hmem
      refine ⟨x - (n - start), ?_, by omega⟩
      refine Finset.mem_filter.mpr ⟨Finset.mem_range.mpr (by omega), ?_⟩
      unfold inWindow
      rw [show x - (n - start) + n - start = x by omega]
      exact hwindow
  have hbase : Nat.count (fun x ↦ x % n < remainder) n = remainder := by
    have hid : ∀ x < n, (x % n < remainder ↔ x < remainder) := fun x hx ↦ by
      rw [Nat.mod_eq_of_lt hx]
    rw [Nat.count_eq_card_filter_range]
    have : (Finset.range n).filter (fun x ↦ x % n < remainder) = Finset.range remainder := by
      ext x
      simp only [Finset.mem_filter, Finset.mem_range]
      constructor
      · rintro ⟨hx, h⟩
        exact (hid x hx).mp h
      · intro hx
        exact ⟨by omega, (hid x (by omega)).mpr hx⟩
    rw [this, Finset.card_range]
  rw [hshift, hturn, hbase]

/-! ## The accounting of a round -/

/-- Between the grants and the bases handed out so far lies what saturated validators refused,
at most one tranche each. -/
structure NeutralRound.Inv (r : NeutralRound) : Prop where
  members : 0 < r.nUnsaturated
  funds : 0 < r.remaining
  fits : r.remaining < 2 ^ 64
  counts : r.nUnsaturated < 2 ^ 64
  tranche : r.tranche = r.remaining / r.nUnsaturated
  remainder : r.remainder = r.remaining % r.nUnsaturated
  start : r.start < r.nUnsaturated
  steps : r.steps ≤ r.nUnsaturated
  used : r.remainderUsed = Nat.count (inWindow r.nUnsaturated r.start r.remainder) r.steps
  granted_le : r.granted ≤ r.tranche * r.steps + r.remainderUsed
  refused : r.tranche * r.steps + r.remainderUsed ≤ r.granted + r.saturated * r.tranche
  saturated : r.saturated ≤ r.steps

theorem inv_of_beginRound {remaining n epoch : ℕ} {r : NeutralRound}
    (h : beginRound remaining n epoch = some r) (hfits : remaining < 2 ^ 64)
    (hcounts : n < 2 ^ 64) : r.Inv ∧ r.remaining = remaining ∧ r.nUnsaturated = n ∧
      r.granted = 0 ∧ r.steps = 0 ∧ r.saturated = 0 := by
  unfold beginRound at h
  split at h
  next => cases h
  next hpos =>
    push Not at hpos
    obtain rfl := Option.some.inj h
    refine ⟨?_, rfl, rfl, rfl, rfl, rfl⟩
    exact
      { members := Nat.pos_of_ne_zero hpos.2
        funds := Nat.pos_of_ne_zero hpos.1
        fits := hfits
        counts := hcounts
        tranche := rfl
        remainder := rfl
        start := rotationStart_lt (Nat.pos_of_ne_zero hpos.2)
        steps := Nat.zero_le _
        used := by simp
        granted_le := Nat.zero_le _
        refused := by simp
        saturated := le_refl _ }

theorem beginRound_eq_none_iff {remaining n epoch : ℕ} :
    beginRound remaining n epoch = none ↔ remaining = 0 ∨ n = 0 := by
  unfold beginRound
  split <;> simp_all

namespace NeutralRound

variable {r : NeutralRound}

theorem Inv.remainder_lt (h : r.Inv) : r.remainder < r.nUnsaturated := by
  rw [h.remainder]
  exact Nat.mod_lt _ h.members

theorem Inv.bases (h : r.Inv) : r.tranche * r.nUnsaturated + r.remainder = r.remaining := by
  rw [h.tranche, h.remainder]
  exact Nat.div_add_mod' _ _

theorem Inv.used_le (h : r.Inv) : r.remainderUsed ≤ r.remainder := by
  have hturn := count_inWindow h.start h.remainder_lt.le
  rw [h.used]
  calc
    Nat.count (inWindow r.nUnsaturated r.start r.remainder) r.steps
        ≤ Nat.count (inWindow r.nUnsaturated r.start r.remainder) r.nUnsaturated :=
      Nat.count_monotone _ h.steps
    _ = r.remainder := hturn

theorem Inv.granted_le_remaining (h : r.Inv) : r.granted ≤ r.remaining := by
  calc
    r.granted ≤ r.tranche * r.steps + r.remainderUsed := h.granted_le
    _ ≤ r.tranche * r.nUnsaturated + r.remainder := by
      have := h.used_le
      have := Nat.mul_le_mul_left r.tranche h.steps
      omega
    _ = r.remaining := h.bases

/-- What a completed round leaves was refused by the validators it saturated. -/
theorem Inv.remainingAfter_le (h : r.Inv) (hdone : r.isComplete) :
    r.remainingAfter ≤ r.saturated * r.tranche := by
  have hsteps : r.steps = r.nUnsaturated := le_antisymm h.steps hdone
  have hused : r.remainderUsed = r.remainder := by
    rw [h.used, hsteps]
    exact count_inWindow h.start h.remainder_lt.le
  have hrefused := h.refused
  rw [hsteps, hused, h.bases] at hrefused
  unfold remainingAfter
  omega

/-- A completed round divides the product of funds and members by at least four. -/
theorem Inv.quarter (h : r.Inv) (hdone : r.isComplete) :
    4 * (r.remainingAfter * (r.nUnsaturated - r.saturated)) ≤ r.remaining * r.nUnsaturated := by
  obtain ⟨m, hm⟩ : ∃ m, r.nUnsaturated = r.saturated + m :=
    Nat.exists_eq_add_of_le (h.saturated.trans h.steps)
  have hleft := h.remainingAfter_le hdone
  have htranche : r.tranche * r.nUnsaturated ≤ r.remaining := by
    have := h.bases
    omega
  have hmean : 4 * (r.saturated * m) ≤ (r.saturated + m) * (r.saturated + m) := by
    nlinarith [sq_nonneg ((r.saturated : ℤ) - m)]
  rw [show r.nUnsaturated - r.saturated = m by omega]
  calc
    4 * (r.remainingAfter * m) ≤ 4 * (r.saturated * r.tranche * m) := by gcongr
    _ = r.tranche * (4 * (r.saturated * m)) := by ring
    _ ≤ r.tranche * ((r.saturated + m) * (r.saturated + m)) := by gcongr
    _ = r.tranche * r.nUnsaturated * r.nUnsaturated := by rw [hm]; ring
    _ ≤ r.remaining * r.nUnsaturated := by gcongr

end NeutralRound

/-! ## One step -/

/-- Everything a step of an unfinished round does. -/
structure StepSpec (r r' : NeutralRound) (capacity grant : ℕ) : Prop where
  inv : r'.Inv
  remaining : r'.remaining = r.remaining
  nUnsaturated : r'.nUnsaturated = r.nUnsaturated
  steps : r'.steps = r.steps + 1
  granted : r'.granted = r.granted + grant
  saturated : r'.saturated = r.saturated + if grant = capacity then 1 else 0
  le : grant ≤ capacity

theorem step_spec {r : NeutralRound} {capacity : ℕ} (h : r.Inv) (hopen : ¬r.isComplete)
    (hcap : 0 < capacity) : StepSpec r (step r capacity).1 capacity (step r capacity).2 := by
  have hlt : r.steps < r.nUnsaturated := Nat.lt_of_not_le hopen
  set w : ℕ := if inWindow r.nUnsaturated r.start r.remainder r.steps then 1 else 0 with hw
  have hw1 : w ≤ 1 := by
    rw [hw]
    split <;> omega
  have hcount : Nat.count (inWindow r.nUnsaturated r.start r.remainder) (r.steps + 1) =
      r.remainderUsed + w := by
    rw [Nat.count_succ, ← h.used]
  -- no sum of the round reaches the width of its fields
  have hturn := count_inWindow h.start h.remainder_lt.le
  have hused : r.remainderUsed + w ≤ r.remainder := by
    rw [← hcount]
    calc
      Nat.count (inWindow r.nUnsaturated r.start r.remainder) (r.steps + 1)
          ≤ Nat.count (inWindow r.nUnsaturated r.start r.remainder) r.nUnsaturated :=
        Nat.count_monotone _ hlt
      _ = r.remainder := hturn
  have hmul : r.tranche * (r.steps + 1) ≤ r.tranche * r.nUnsaturated :=
    Nat.mul_le_mul_left _ hlt
  have hbases := h.bases
  have hsum : r.tranche * r.steps + r.remainderUsed + (r.tranche + w) ≤ r.remaining := by
    rw [Nat.mul_succ] at hmul
    omega
  have hgranted := h.granted_le
  have hsaturated := h.saturated
  set grant := min (r.tranche + w) capacity with hgrant
  have hstep : step r capacity =
      ({ r with
          steps := r.steps + 1
          remainderUsed := r.remainderUsed + w
          granted := r.granted + grant
          saturated := r.saturated + if grant = capacity then 1 else 0 }, grant) := by
    have hbase : saturatingAdd 64 r.tranche w = r.tranche + w :=
      saturatingAdd_of_lt (lt_of_le_of_lt (by omega) h.fits)
    have hsteps : saturatingAdd 64 r.steps 1 = r.steps + 1 :=
      saturatingAdd_of_lt (lt_of_le_of_lt hlt h.counts)
    have hgr : saturatingAdd 64 r.granted grant = r.granted + grant :=
      saturatingAdd_of_lt (lt_of_le_of_lt (by omega) h.fits)
    have hsat : saturatingAdd 64 r.saturated 1 = r.saturated + 1 :=
      saturatingAdd_of_lt (lt_of_le_of_lt (by omega) h.counts)
    have hru : (if inWindow r.nUnsaturated r.start r.remainder r.steps then
        saturatingAdd 64 r.remainderUsed 1 else r.remainderUsed) = r.remainderUsed + w := by
      rw [hw]
      split
      next hin =>
        rw [if_pos hin] at hw
        exact saturatingAdd_of_lt (lt_of_le_of_lt (by omega) h.fits)
      next => rfl
    rw [step, if_neg hopen]
    simp only [← hw, hbase, ← hgrant, hsteps, hgr, hsat, hru]
    by_cases hc : grant = capacity <;> simp [hc]
  rw [hstep]
  refine
    { inv :=
        { members := h.members
          funds := h.funds
          fits := h.fits
          counts := h.counts
          tranche := h.tranche
          remainder := h.remainder
          start := h.start
          steps := hlt
          used := hcount.symm
          granted_le := ?_
          refused := ?_
          saturated := ?_ }
      remaining := rfl
      nUnsaturated := rfl
      steps := rfl
      granted := rfl
      saturated := rfl
      le := min_le_right _ _ }
  · have : grant ≤ r.tranche + w := min_le_left _ _
    dsimp only
    rw [Nat.mul_succ]
    omega
  · have hrefused := h.refused
    dsimp only
    rw [Nat.mul_succ]
    by_cases hc : grant = capacity
    · -- a saturated validator takes at least one lamport and refuses at most a tranche
      rw [if_pos hc, Nat.succ_mul]
      omega
    · rw [if_neg hc, Nat.add_zero]
      omega
  · dsimp only
    split <;> omega

end StakeMath
end FusionCore
