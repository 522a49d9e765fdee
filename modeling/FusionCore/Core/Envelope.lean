import FusionCore.Core.Moves

/-!
# The overflow envelope of a liquidation

Overflow of the fixed-width accumulators and exhaustion of the Reactor Pool's grid revert a
liquidation.  This module states the envelope as a condition on the accounts before the
liquidation, and shows that inside it every liquidation of a reached state goes through and
outside it none does.
-/

namespace FusionCore

open Checked

variable {len stride : ℕ}

/-! ## Offsets -/

/-- The loss per unit of a partial offset. -/
def lossPerUnit (st : PoolState) (debt : ℕ) : ℕ :=
  (debt * DECIMAL_PRECISION - st.lastLossError) / st.totalDeposits + 1

/-- The grid has the epoch or the scale that an offset moves on to. -/
def GridRoom (st : PoolState) (stride len debt : ℕ) : Prop :=
  if debt = st.totalDeposits then (st.epoch + 1) * stride < len
  else st.scale + scaleBumps (st.p * (DECIMAL_PRECISION - lossPerUnit st debt)) < stride

/-- The collateral credited per unit fits its cell, and the grid has room. -/
structure OffsetFits (st : PoolState) (grid : Grid len) (stride debt coll : ℕ) : Prop where
  cell : cellAt grid stride st.epoch st.scale +
    (coll * DECIMAL_PRECISION + st.lastCollError) / st.totalDeposits * st.p < 2 ^ 128
  room : GridRoom st stride len debt

section OffsetFits

variable {st : PoolState} {grid : Grid len} {debt coll : ℕ}

/-- Below `10 ^ 18` units the loss of a partial offset always computes. -/
theorem lossFactor_eq (hT : st.totalDeposits < DECIMAL_PRECISION)
    (herr : st.lastLossError < DECIMAL_PRECISION) (hpos : 0 < debt)
    (hlt : debt < st.totalDeposits) :
    ∃ err, lossFactor st debt = .ok (err, DECIMAL_PRECISION - lossPerUnit st debt) := by
  have hD : DECIMAL_PRECISION = 1000000000000000000 := rfl
  have hrate : lossPerUnit st debt ≤ DECIMAL_PRECISION := by
    rw [lossPerUnit, Nat.add_one_le_iff, Nat.div_lt_iff_lt_mul (by omega),
      Nat.mul_comm _ st.totalDeposits]
    have : debt * DECIMAL_PRECISION < st.totalDeposits * DECIMAL_PRECISION :=
      Nat.mul_lt_mul_of_pos_right hlt DECIMAL_PRECISION_pos
    omega
  have hscaled : lossPerUnit st debt * st.totalDeposits < 2 ^ 128 := by
    have := Nat.mul_le_mul hrate hT.le
    rw [hD] at this
    omega
  unfold lossPerUnit at hscaled ⊢
  rw [lossFactor, if_neg hlt.ne]
  simp only [bind_eq_ok_iff, okOr_eq_ok, Option.bind_eq_some_iff, checkedMul_eq_some,
    checkedSub_eq_some, pure_eq_ok, Prod.mk.injEq]
  exact ⟨_, _, ⟨_, ⟨by rw [hD]; omega, rfl⟩, by rw [hD]; omega, rfl⟩, _, ⟨hscaled, rfl⟩, rfl, rfl⟩

theorem advance_isOk_iff {rows : ℕ} {cur : Fin len} (hlen : len = rows * stride)
    (hfit : len < 2 ^ 64) (hp : SCALE_FACTOR ≤ st.p) (hp' : st.p ≤ DECIMAL_PRECISION)
    (hcur : sIdx st.epoch st.scale stride len = some cur) {factor : ℕ}
    (hf : factor ≤ DECIMAL_PRECISION) :
    (∃ r, advance st stride len factor = .ok r) ↔
      if factor = 0 then (st.epoch + 1) * stride < len
      else st.scale + scaleBumps (st.p * factor) < stride := by
  obtain ⟨hscale, hcell⟩ := sIdx_eq_some.mp hcur
  have hcell' := cur.isLt
  have hstride : 0 < stride := by omega
  unfold advance
  by_cases h0 : factor = 0
  · rw [if_pos h0, if_pos h0]
    simp only [bind_eq_ok_iff, okOr_eq_ok, checkedAdd_eq_some, pure_eq_ok]
    constructor
    · rintro ⟨r, _, ⟨-, rfl⟩, i, hi, -⟩
      have := (sIdx_eq_some.mp hi).2
      have := i.isLt
      omega
    · intro hroom
      have := Nat.le_mul_of_pos_right (st.epoch + 1) hstride
      exact ⟨_, _, ⟨by omega, rfl⟩, ⟨(st.epoch + 1) * stride, hroom⟩,
        sIdx_eq_some.mpr ⟨hstride, rfl⟩, rfl⟩
  · rw [if_neg h0, if_neg h0]
    obtain ⟨p', hup⟩ := updateProduct_eq hp hp' (Nat.pos_of_ne_zero h0) hf
    simp only [hup, ok_bind]
    by_cases hbumps : 0 < scaleBumps (st.p * factor)
    · rw [if_pos hbumps]
      simp only [bind_eq_ok_iff, okOr_eq_ok, checkedAdd_eq_some, pure_eq_ok]
      constructor
      · rintro ⟨r, _, ⟨-, rfl⟩, i, hi, -⟩
        exact (sIdx_eq_some.mp hi).1
      · intro hroom
        -- the grid has whole rows, so a scale below the stride stays inside
        have hrow : st.epoch * stride + (st.scale + scaleBumps (st.p * factor)) < len := by
          have hepoch : st.epoch < rows := by
            by_contra hcon
            have := Nat.mul_le_mul_right stride (not_lt.mp hcon)
            omega
          have := Nat.mul_le_mul_right stride (Nat.succ_le_of_lt hepoch)
          rw [Nat.succ_mul] at this
          omega
        exact ⟨_, _, ⟨by omega, rfl⟩, ⟨_, hrow⟩, sIdx_eq_some.mpr ⟨hroom, rfl⟩, rfl⟩
    · rw [if_neg hbumps]
      constructor
      · intro _
        omega
      · intro _
        exact ⟨_, rfl⟩

theorem offset_isOk_iff {rows : ℕ} {cur : Fin len} (hlen : len = rows * stride)
    (hfit : len < 2 ^ 64) (hp : SCALE_FACTOR ≤ st.p) (hp' : st.p ≤ DECIMAL_PRECISION)
    (hloss : st.lastLossError < DECIMAL_PRECISION)
    (hcollErr : st.lastCollError < DECIMAL_PRECISION)
    (hcur : sIdx st.epoch st.scale stride len = some cur)
    (hT : st.totalDeposits < DECIMAL_PRECISION) (hpos : 0 < debt)
    (hle : debt ≤ st.totalDeposits) (hcoll : coll < 2 ^ 64) :
    (∃ r, offset st grid stride debt coll = .ok r) ↔ OffsetFits st grid stride debt coll := by
  have hD : DECIMAL_PRECISION = 1000000000000000000 := rfl
  have hnum : coll * DECIMAL_PRECISION + st.lastCollError < 2 ^ 128 := by
    rw [hD] at hcollErr ⊢
    omega
  have hcellAt := cellAt_of_sIdx grid hcur
  -- the loss and the product factor always compute; a zero factor means a full drain
  obtain ⟨err, factor, hlossFactor, hroom⟩ : ∃ err factor,
      lossFactor st debt = .ok (err, factor) ∧
        ((∃ r, advance st stride len factor = .ok r) ↔ GridRoom st stride len debt) := by
    by_cases hdrain : debt = st.totalDeposits
    · refine ⟨0, 0, by rw [lossFactor, if_pos hdrain], ?_⟩
      rw [advance_isOk_iff hlen hfit hp hp' hcur (Nat.zero_le _), GridRoom, if_pos rfl,
        if_pos hdrain]
    · obtain ⟨err, hlf⟩ := lossFactor_eq hT hloss hpos (lt_of_le_of_ne hle hdrain)
      refine ⟨err, _, hlf, ?_⟩
      obtain ⟨hbad, -⟩ | ⟨lpu, hlt, hfac, -, hlpu, herr, heq⟩ := lossFactor_spec hlf hle
      · exact absurd hbad hdrain
      have hkeep := factor_pos_of_lt hT hlt herr heq
      rw [advance_isOk_iff hlen hfit hp hp' hcur (Nat.sub_le _ _), GridRoom, if_neg hdrain,
        if_neg (by omega)]
  simp only [offset, bind_eq_ok_iff, require_eq_ok, okOr_eq_ok, Option.bind_eq_some_iff,
    checkedMul_eq_some, checkedAdd_eq_some, pure_eq_ok, hlossFactor, Except.ok.injEq, hcur,
    Option.some.injEq, exists_const]
  constructor
  · rintro ⟨r, -, -, _, ⟨_, ⟨-, rfl⟩, -, rfl⟩, x, rfl, _, ⟨-, rfl⟩, _, rfl, _, ⟨hcell, rfl⟩, y,
      hadv, -⟩
    exact ⟨by rw [hcellAt]; exact hcell, hroom.mp ⟨_, hadv⟩⟩
  · rintro ⟨hcell, hgrid⟩
    obtain ⟨y, hadv⟩ := hroom.mpr hgrid
    rw [hcellAt] at hcell
    exact ⟨_, by omega, hle, _, ⟨_, ⟨by omega, rfl⟩, hnum, rfl⟩, _, rfl, _, ⟨by omega, rfl⟩, _,
      rfl, _, ⟨hcell, rfl⟩, y, hadv, rfl⟩

end OffsetFits

/-- The current cell of a pool lies in its grid. -/
def Pool.Seated (stride : ℕ) (pool : Pool len) : Prop :=
  ∃ cur, sIdx pool.state.epoch pool.state.scale stride len = some cur

theorem advance_seated {st : PoolState} {factor p epoch scale : ℕ} {cur : Fin len}
    (hcur : sIdx st.epoch st.scale stride len = some cur)
    (h : advance st stride len factor = .ok (p, epoch, scale)) :
    ∃ i, sIdx epoch scale stride len = some i := by
  unfold advance at h
  split at h
  next =>
    simp only [bind_eq_ok_iff, okOr_eq_ok, pure_eq_ok, Prod.mk.injEq] at h
    obtain ⟨_, -, i, hi, -, rfl, rfl⟩ := h
    exact ⟨i, hi⟩
  next =>
    obtain ⟨⟨newP, bumps⟩, -, h⟩ := bind_eq_ok_iff.mp h
    dsimp only at h
    split at h
    next =>
      simp only [bind_eq_ok_iff, okOr_eq_ok, pure_eq_ok, Prod.mk.injEq] at h
      obtain ⟨_, -, i, hi, -, rfl, rfl⟩ := h
      exact ⟨i, hi⟩
    next =>
      simp only [pure_eq_ok, Prod.mk.injEq] at h
      obtain ⟨-, rfl, rfl⟩ := h
      exact ⟨cur, hcur⟩

theorem Pool.Seated.step {pool pool' : Pool len} {op : PoolOp} {flow : PoolFlow}
    (hs : pool.Seated stride) (h : Pool.Step stride pool op pool' flow) :
    pool'.Seated stride := by
  cases h with
  | opened => exact hs
  | touched => exact hs
  | offset debt coll st grid h =>
    obtain ⟨-, -, -, factor, -, cur, -, hadv, hcur, -⟩ := offset_spec h
    exact advance_seated hcur hadv

theorem PoolRun.seated_of_reachable {G : PoolOp → PoolRun len → Prop} {r : PoolRun len}
    (hstride : 0 < stride) (hlen : 0 < len) (h : (reactorPool len stride).Reachable G r) :
    r.pool.Seated stride := by
  refine h.invariant (P := fun r ↦ r.pool.Seated stride) ?_ ?_
  · rintro _ rfl
    exact ⟨⟨0, hlen⟩, sIdx_eq_some.mpr ⟨hstride, Nat.zero_mul _⟩⟩
  · rintro op r r' ih - ⟨flow, hexec, -⟩
    exact ih.step (Pool.step_of_exec hexec)

/-! ## Redistribution -/

/-- Both accumulators have room for what is redistributed per unit of stake. -/
structure RedistFits (st : RedistState) (totalStakes coll art : ℕ) : Prop where
  coll : st.lColl + (coll * PRECISION + st.lastCollError) / totalStakes < 2 ^ 128
  art : st.lArt + (art * PRECISION + st.lastArtError) / totalStakes < 2 ^ 128

section Redistribution

variable {stakes : ℕ}

theorem accumulate_isOk_iff (l err amount : ℕ) (hpos : 0 < stakes) (hfit : stakes < 2 ^ 128) :
    (∃ r, accumulate l err stakes amount = .ok r) ↔
      l + (amount * PRECISION + err) / stakes < 2 ^ 128 := by
  simp only [accumulate, bind_eq_ok_iff, okOr_eq_ok, Option.bind_eq_some_iff,
    checkedMul_eq_some, checkedAdd_eq_some, tryFit_eq_some, pure_eq_ok]
  constructor
  · rintro ⟨r, _, ⟨_, ⟨-, rfl⟩, -, rfl⟩, _, -, _, ⟨-, rfl⟩, _, ⟨hlt, rfl⟩, -⟩
    exact hlt
  · intro hlt
    set num := amount * PRECISION + err with hnum
    have hdiv : num / stakes * stakes + num % stakes = num := Nat.div_add_mod' _ _
    have hmod : num % stakes < stakes := Nat.mod_lt _ hpos
    -- the quotient and the divisor fit 128 bits, so the numerator fits 256
    have hwide : num < 2 ^ 256 := by
      have hquot : num / stakes * stakes ≤ (2 ^ 128 - 1) * stakes :=
        Nat.mul_le_mul_right _ (by omega)
      omega
    have hrem : num - num / stakes * stakes < 2 ^ 128 := by omega
    have hquot : num / stakes < 2 ^ 128 := by omega
    exact ⟨_, _, ⟨_, ⟨by omega, rfl⟩, hwide, rfl⟩, _, ⟨hrem, rfl⟩, _, ⟨hquot, rfl⟩, _,
      ⟨hlt, rfl⟩, rfl⟩

theorem redistribute_isOk_iff (st : RedistState) (coll art : ℕ) (hpos : 0 < stakes)
    (hfit : stakes < 2 ^ 128) :
    (∃ r, redistribute st stakes coll art = .ok r) ↔ RedistFits st stakes coll art := by
  have hcoll := accumulate_isOk_iff st.lColl st.lastCollError coll hpos hfit
  have hart := accumulate_isOk_iff st.lArt st.lastArtError art hpos hfit
  simp only [redistribute, bind_eq_ok_iff, require_eq_ok, pure_eq_ok, Prod.exists]
  constructor
  · rintro ⟨_, _, -, l₁, e₁, h₁, l₂, e₂, h₂, -⟩
    exact ⟨hcoll.mp ⟨_, h₁⟩, hart.mp ⟨_, h₂⟩⟩
  · rintro ⟨h₁, h₂⟩
    obtain ⟨⟨l₁, e₁⟩, h₁⟩ := hcoll.mpr h₁
    obtain ⟨⟨l₂, e₂⟩, h₂⟩ := hart.mpr h₂
    exact ⟨_, (), hpos.ne', l₁, e₁, h₁, l₂, e₂, h₂, rfl⟩

end Redistribution

end FusionCore
