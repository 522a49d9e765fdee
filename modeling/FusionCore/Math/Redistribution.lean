import FusionCore.Math.FixedPoint

/-!
# Tier-2 redistribution

Debt and collateral of a liquidated position are spread over the remaining
positions by raising two accumulators; a position collects its share when it is
next touched.
-/

namespace FusionCore

open Checked

/-- Precision of the reward-per-unit accumulators. -/
def PRECISION : ℕ := 10 ^ 18

theorem PRECISION_pos : 0 < PRECISION := by decide

inductive RedistError where
  | noStakes
  | accumulatorOverflow
  | math
  deriving DecidableEq, Repr

structure RedistState where
  lColl : ℕ
  lArt : ℕ
  lastCollError : ℕ
  lastArtError : ℕ
  deriving DecidableEq, Repr

structure RedistSnapshot where
  lColl : ℕ
  lArt : ℕ
  deriving DecidableEq, Repr

/-- The new accumulator and the new residual. -/
def accumulate (l lastError totalStakes amount : ℕ) : Except RedistError (ℕ × ℕ) := do
  let numerator ← okOr ((checkedMul 256 amount PRECISION).bind (checkedAdd 256 · lastError))
    .math
  let rewardPerUnit := numerator / totalStakes
  let rem ← okOr (tryFit 128 (numerator - rewardPerUnit * totalStakes)) .math
  let rpu ← okOr (tryFit 128 rewardPerUnit) .accumulatorOverflow
  let l ← okOr (checkedAdd 128 l rpu) .accumulatorOverflow
  pure (l, rem)

def redistribute (st : RedistState) (totalStakes coll art : ℕ) :
    Except RedistError RedistState := do
  require (totalStakes ≠ 0) .noStakes
  let (lColl, lastCollError) ← accumulate st.lColl st.lastCollError totalStakes coll
  let (lArt, lastArtError) ← accumulate st.lArt st.lastArtError totalStakes art
  pure { lColl, lArt, lastCollError, lastArtError }

def pendingOne (stake lNow lSnap : ℕ) : Except RedistError ℕ :=
  let delta := lNow - lSnap
  if stake = 0 ∨ delta = 0 then .ok 0
  else okOr (mulDivFloor stake delta PRECISION) .math

/-- Pending collateral and pending debt of a stake since its snapshot. -/
def pending (stake : ℕ) (st : RedistState) (snap : RedistSnapshot) :
    Except RedistError (ℕ × ℕ) := do
  let coll ← pendingOne stake st.lColl snap.lColl
  let art ← pendingOne stake st.lArt snap.lArt
  pure (coll, art)

def computeStake (coll totalStakesSnapshot totalCollateralSnapshot : ℕ) :
    Except RedistError ℕ :=
  if totalCollateralSnapshot = 0 then .ok coll
  else okOr (mulDivFloor coll totalStakesSnapshot totalCollateralSnapshot) .math

/-! ## What the functions compute -/

/-- One accumulation hands out exactly the amount and the carried residual, up to the new
residual, which is smaller than one unit of stake. -/
theorem accumulate_spec {l err ts amount l' err' : ℕ} (hts : 0 < ts)
    (h : accumulate l err ts amount = .ok (l', err')) :
    l ≤ l' ∧ l' < 2 ^ 128 ∧ err' < ts ∧
      (l' - l) * ts + err' = amount * PRECISION + err := by
  simp only [accumulate, bind_eq_ok_iff, okOr_eq_ok, Option.bind_eq_some_iff,
    checkedMul_eq_some, checkedAdd_eq_some, tryFit_eq_some, pure_eq_ok, Prod.mk.injEq] at h
  obtain ⟨num, ⟨_, ⟨-, rfl⟩, -, rfl⟩, rem, ⟨-, rfl⟩, rpu, ⟨-, rfl⟩, _, ⟨hl, rfl⟩, rfl, rfl⟩ := h
  set num := amount * PRECISION + err
  have hdiv : num / ts * ts + num % ts = num := Nat.div_add_mod' _ _
  have hmod : num % ts < ts := Nat.mod_lt _ hts
  refine ⟨Nat.le_add_right _ _, hl, by omega, ?_⟩
  rw [Nat.add_sub_cancel_left]
  omega

theorem pendingOne_eq_ok {stake lNow lSnap q : ℕ}
    (h : pendingOne stake lNow lSnap = .ok q) : stake * (lNow - lSnap) / PRECISION = q := by
  simp only [pendingOne] at h
  split at h
  next h0 =>
    cases h
    rcases h0 with h0 | h0 <;> simp [h0]
  next => exact (mulDivFloor_eq_some.mp (okOr_eq_ok.mp h)).2.2

theorem pending_eq_ok {stake : ℕ} {st : RedistState} {snap : RedistSnapshot} {q : ℕ × ℕ}
    (h : pending stake st snap = .ok q) :
    stake * (st.lColl - snap.lColl) / PRECISION = q.1 ∧
      stake * (st.lArt - snap.lArt) / PRECISION = q.2 := by
  simp only [pending, bind_eq_ok_iff, pure_eq_ok] at h
  obtain ⟨coll, hcoll, art, hart, rfl⟩ := h
  exact ⟨pendingOne_eq_ok hcoll, pendingOne_eq_ok hart⟩

theorem stake_le {coll tss tcs : ℕ} (h : tss ≤ tcs) : coll * tss / tcs ≤ coll := by
  apply Nat.div_le_of_le_mul
  rw [Nat.mul_comm]
  exact Nat.mul_le_mul_right coll h

/-- A stake never exceeds the collateral it is computed from, as long as the snapshot does
not hold more stake than collateral. -/
theorem computeStake_le {coll tss tcs q : ℕ} (hs : tcs = 0 ∨ tss ≤ tcs)
    (h : computeStake coll tss tcs = .ok q) : q ≤ coll := by
  unfold computeStake at h
  split at h
  next => cases h; exact le_rfl
  next h0 =>
    obtain ⟨-, -, rfl⟩ := mulDivFloor_eq_some.mp (okOr_eq_ok.mp h)
    exact stake_le (hs.resolve_left h0)

theorem exists_computeStake {coll tss tcs : ℕ} (hs : tcs = 0 ∨ tss ≤ tcs)
    (hc : coll < 2 ^ 128) : ∃ q, computeStake coll tss tcs = .ok q := by
  unfold computeStake
  split
  next => exact ⟨coll, rfl⟩
  next h0 =>
    have hle : coll * tss / tcs ≤ coll := stake_le (hs.resolve_left h0)
    have hfit := hle.trans_lt hc
    exact ⟨_, okOr_eq_ok.mpr
      (mulDivFloor_eq_some.mpr ⟨Nat.pos_of_ne_zero h0, hfit, rfl⟩)⟩

end FusionCore
