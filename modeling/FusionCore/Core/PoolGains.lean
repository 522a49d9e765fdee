import FusionCore.Core.PoolRuns

/-!
# Collateral gains of a Reactor Pool

An offset credits its collateral per recorded unit, but every depositor is paid on an exact
share.  The gains are covered as long as the shares do not exceed the recorded total when
collateral is credited; the error feedback of the loss can break that, and then the pool owes
more than it received.
-/

namespace FusionCore

open Checked

variable {len stride : ℕ}

/-- The gain of a deposit before rounding, in units of `10 ^ -18`. -/
def exactGain (grid : Grid len) (stride : ℕ) (dep : ReactorDeposit) : ℚ :=
  dep.depositedFusd * ((cellAt grid stride dep.snapshot.epoch dep.snapshot.scale : ℚ)
    - dep.snapshot.s
    + cellAt grid stride dep.snapshot.epoch (dep.snapshot.scale + 1) / SCALE_FACTOR)
    / dep.snapshot.p

/-- What the pool still owes a deposit: the gain kept on the account and the gain since its
snapshot. -/
def Pool.owedGain (stride : ℕ) (pool : Pool len) (dep : ReactorDeposit) : ℕ :=
  dep.pendingCollateralGain +
    match collateralGain pool.grid stride dep.depositedFusd dep.snapshot with
    | .ok gain => gain
    | .error _ => 0

/-- The exact form of `Pool.owedGain`. -/
def owedExact (grid : Grid len) (stride : ℕ) (dep : ReactorDeposit) : ℚ :=
  DECIMAL_PRECISION * dep.pendingCollateralGain + exactGain grid stride dep

section Gain

variable {st st' : PoolState} {grid grid' : Grid len} {dep : ReactorDeposit}

theorem exactGain_nonneg (hv : dep.snapshot.Valid stride st grid) :
    0 ≤ exactGain grid stride dep := by
  have hs : (dep.snapshot.s : ℚ) ≤ cellAt grid stride dep.snapshot.epoch dep.snapshot.scale := by
    exact_mod_cast hv.s_le
  have hsum : (0 : ℚ) ≤ (cellAt grid stride dep.snapshot.epoch dep.snapshot.scale : ℚ)
      - dep.snapshot.s
      + cellAt grid stride dep.snapshot.epoch (dep.snapshot.scale + 1) / SCALE_FACTOR :=
    add_nonneg (sub_nonneg.mpr hs) (by positivity)
  unfold exactGain
  positivity

theorem collateralGain_le (hv : dep.snapshot.Valid stride st grid) {gain : ℕ}
    (h : collateralGain grid stride dep.depositedFusd dep.snapshot = .ok gain) :
    (DECIMAL_PRECISION : ℚ) * gain ≤ exactGain grid stride dep := by
  unfold collateralGain at h
  split at h
  next =>
    cases h
    simpa using exactGain_nonneg hv
  next =>
    simp only [bind_eq_ok_iff, okOr_eq_ok, checkedAdd_eq_some, mulDivFloor_eq_some,
      pure_eq_ok] at h
    obtain ⟨_, ⟨-, rfl⟩, _, ⟨-, -, rfl⟩, rfl⟩ := h
    set c₁ := cellAt grid stride dep.snapshot.epoch dep.snapshot.scale with hc₁
    set c₂ := cellAt grid stride dep.snapshot.epoch (dep.snapshot.scale + 1) with hc₂
    have hunit : (0 : ℚ) < DECIMAL_PRECISION := by exact_mod_cast DECIMAL_PRECISION_pos
    have hportions : ((c₁ - dep.snapshot.s + c₂ / SCALE_FACTOR : ℕ) : ℚ) ≤
        (c₁ : ℚ) - dep.snapshot.s + c₂ / SCALE_FACTOR := by
      rw [Nat.cast_add, Nat.cast_sub hv.s_le]
      exact add_le_add_right Nat.cast_div_le _
    have hquot : ((dep.depositedFusd * (c₁ - dep.snapshot.s + c₂ / SCALE_FACTOR) /
        dep.snapshot.p : ℕ) : ℚ) ≤ exactGain grid stride dep := by
      refine Nat.cast_div_le.trans (div_le_div_of_nonneg_right ?_ (Nat.cast_nonneg _))
      rw [Nat.cast_mul]
      exact mul_le_mul_of_nonneg_left hportions (Nat.cast_nonneg _)
    calc
      (DECIMAL_PRECISION : ℚ) * ((dep.depositedFusd * (c₁ - dep.snapshot.s + c₂ / SCALE_FACTOR) /
          dep.snapshot.p / DECIMAL_PRECISION : ℕ) : ℚ)
          ≤ DECIMAL_PRECISION * (((dep.depositedFusd * (c₁ - dep.snapshot.s +
              c₂ / SCALE_FACTOR) / dep.snapshot.p : ℕ) : ℚ) / DECIMAL_PRECISION) :=
        mul_le_mul_of_nonneg_left Nat.cast_div_le hunit.le
      _ = ((dep.depositedFusd * (c₁ - dep.snapshot.s + c₂ / SCALE_FACTOR) /
              dep.snapshot.p : ℕ) : ℚ) := by
        field_simp
      _ ≤ exactGain grid stride dep := hquot

theorem Pool.owedGain_le {pool : Pool len} (hv : dep.snapshot.Valid stride pool.state pool.grid) :
    (DECIMAL_PRECISION : ℚ) * pool.owedGain stride dep ≤ owedExact pool.grid stride dep := by
  unfold Pool.owedGain owedExact
  rw [Nat.cast_add, mul_add]
  refine add_le_add_right ?_ _
  split
  next gain h => exact collateralGain_le hv h
  next => simpa using exactGain_nonneg hv

theorem exactGain_fresh {pool : Pool len} (hw : pool.Wf stride)
    (hsnap : dep.snapshot = pool.state.snapshot pool.grid stride) :
    exactGain pool.grid stride dep = 0 := by
  have hnext : cellAt pool.grid stride pool.state.epoch (pool.state.scale + 1) = 0 :=
    hw.beyond _ _ (.inr ⟨rfl, Nat.lt_succ_self _⟩)
  simp [exactGain, hsnap, PoolState.snapshot, hnext]

theorem exactGain_credit {gain : ℕ} (hp : 0 < st.p) (hv : dep.snapshot.Valid stride st grid)
    (hcell : ∀ e s, cellAt grid' stride e s =
      cellAt grid stride e s + if e = st.epoch ∧ s = st.scale then gain * st.p else 0) :
    exactGain grid' stride dep ≤ exactGain grid stride dep + gain * shareOf st dep := by
  have hnonneg := mul_nonneg (Nat.cast_nonneg (α := ℚ) gain) (shareOf_nonneg hp hv)
  have hsnap : (dep.snapshot.p : ℚ) ≠ 0 := by exact_mod_cast hv.p_pos.ne'
  have hscale : (SCALE_FACTOR : ℚ) ≠ 0 := by exact_mod_cast SCALE_FACTOR_pos.ne'
  have hown := hcell dep.snapshot.epoch dep.snapshot.scale
  have hnext := hcell dep.snapshot.epoch (dep.snapshot.scale + 1)
  have hshare (h : dep.snapshot.epoch = st.epoch) : shareOf st dep = dep.depositedFusd *
      (st.p / dep.snapshot.p / (SCALE_FACTOR : ℚ) ^ (st.scale - dep.snapshot.scale)) := by
    rw [shareOf, if_pos h, ProductSum.share, hv.price_div h]
  by_cases h₁ : dep.snapshot.epoch = st.epoch ∧ dep.snapshot.scale = st.scale
  · -- the snapshot's own cell is credited
    rw [if_pos h₁] at hown
    rw [if_neg (by omega), Nat.add_zero] at hnext
    rw [hshare h₁.1, h₁.2, Nat.sub_self, pow_zero, div_one, exactGain, hown, hnext]
    unfold exactGain
    push_cast
    apply le_of_eq
    field_simp
    ring
  rw [if_neg h₁, Nat.add_zero] at hown
  by_cases h₂ : dep.snapshot.epoch = st.epoch ∧ dep.snapshot.scale + 1 = st.scale
  · -- the cell after the snapshot's is credited, at the coarser scale
    rw [if_pos h₂] at hnext
    rw [hshare h₂.1, ← h₂.2, Nat.add_sub_cancel_left, pow_one, exactGain, hown, hnext]
    unfold exactGain
    push_cast
    apply le_of_eq
    field_simp
    ring
  -- no cell that the deposit reads is credited
  rw [if_neg h₂, Nat.add_zero] at hnext
  rw [exactGain, hown, hnext]
  exact le_add_of_nonneg_right hnonneg

end Gain

/-! ## Runs -/

/-- Collateral is credited only while the exact shares are within the recorded total; an offset
that credits less than one unit of `10 ^ -18` per deposited unit credits nothing. -/
def Covered : PoolOp → PoolRun len → Prop
  | .offset _ coll, r =>
      coll * DECIMAL_PRECISION + r.pool.state.lastCollError < r.pool.state.totalDeposits ∨
        r.pool.shares ≤ r.pool.state.totalDeposits
  | _, _ => True

instance (r : PoolRun len) : (op : PoolOp) → Decidable (Covered op r)
  | .offset _ _ => inferInstanceAs (Decidable (_ ∨ _))
  | .openDeposit _ | .provide _ _ | .withdraw _ _ | .claim _ => inferInstanceAs (Decidable True)

/-- The collateral received covers what was paid, what is owed and the residual. -/
def PoolRun.GainsCovered (stride : ℕ) (r : PoolRun len) : Prop :=
  (DECIMAL_PRECISION : ℚ) * r.flow.collOut
    + r.pool.deposits.total (owedExact r.pool.grid stride)
    + r.pool.state.lastCollError ≤ DECIMAL_PRECISION * r.flow.collIn

theorem PoolRun.gainsCovered_start : (PoolRun.start : PoolRun len).GainsCovered stride := by
  simp [GainsCovered, start, Pool.new, PoolState.new]

section Step

variable {pool : Pool len} {debt coll : ℕ} {st : PoolState} {grid : Grid len}

theorem total_owedExact_offset (hw : pool.Wf stride)
    (hcov : coll * DECIMAL_PRECISION + pool.state.lastCollError < pool.state.totalDeposits ∨
      pool.shares ≤ pool.state.totalDeposits)
    (h : offset pool.state pool.grid stride debt coll = .ok (st, grid)) :
    pool.deposits.total (owedExact grid stride) + st.lastCollError ≤
      pool.deposits.total (owedExact pool.grid stride) + pool.state.lastCollError
        + DECIMAL_PRECISION * coll := by
  obtain ⟨gain, hgain, hcell⟩ := offset_cellAt h
  have hgain' : (gain : ℚ) * pool.state.totalDeposits + st.lastCollError =
      coll * DECIMAL_PRECISION + pool.state.lastCollError := by exact_mod_cast hgain
  have hcredit : pool.deposits.total (owedExact grid stride) ≤
      pool.deposits.total (owedExact pool.grid stride) + gain * pool.shares := by
    rw [Pool.shares, ← Table.total_mul_left, ← Table.total_add]
    refine Table.total_le_total fun owner dep hdep ↦ ?_
    have := exactGain_credit hw.p_pos (hw.snapshots owner dep hdep) hcell
    unfold owedExact
    linarith
  have hpaid : (gain : ℚ) * pool.shares ≤ gain * pool.state.totalDeposits := by
    rcases hcov with hsmall | hle
    · have hzero : gain = 0 := by
        by_contra hne
        have := Nat.le_mul_of_pos_left pool.state.totalDeposits (Nat.pos_of_ne_zero hne)
        omega
      simp [hzero]
    · exact mul_le_mul_of_nonneg_left hle (Nat.cast_nonneg _)
  linarith

theorem owedExact_touched {dep dep' : ReactorDeposit} {gain paid : ℕ} (hw : pool.Wf stride)
    (hv : dep.snapshot.Valid stride pool.state pool.grid)
    (hgain : collateralGain pool.grid stride dep.depositedFusd dep.snapshot = .ok gain)
    (hsnap : dep'.snapshot = pool.state.snapshot pool.grid stride)
    (hcoll : dep'.pendingCollateralGain + paid = dep.pendingCollateralGain + gain) :
    owedExact pool.grid stride dep' + DECIMAL_PRECISION * paid ≤
      owedExact pool.grid stride dep := by
  have hle := collateralGain_le hv hgain
  have hfresh := exactGain_fresh hw hsnap
  have hcoll' : (dep'.pendingCollateralGain : ℚ) + paid =
      dep.pendingCollateralGain + gain := by exact_mod_cast hcoll
  unfold owedExact
  rw [hfresh]
  linear_combination hle + (DECIMAL_PRECISION : ℚ) * hcoll'

end Step

theorem PoolRun.GainsCovered.step {r r' : PoolRun len} {op : PoolOp}
    (hc : r.GainsCovered stride) (hi : r.Inv stride) (hcov : Covered op r)
    (h : (reactorPool len stride).step op r r') : r'.GainsCovered stride := by
  obtain ⟨flow, hexec, hflow⟩ := h
  have hstep := Pool.step_of_exec hexec
  obtain ⟨pool', flow'⟩ := r'
  dsimp only at hexec hflow hstep
  unfold GainsCovered at hc ⊢
  subst hflow
  cases hstep with
  | opened owner dep hnone hdep =>
    have hzero : owedExact r.pool.grid stride dep = 0 := by
      simp [hdep, owedExact, exactGain]
    have hsum := Table.total_insert_of_none (owedExact r.pool.grid stride) dep hnone
    simpa [PoolFlow.add, hsum, hzero] using hc
  | touched op owner dep dep' gain total fusdIn fusdOut paid hdep hgain hsnap hfusd hcoll =>
    have hown := owedExact_touched hi.wf (hi.wf.snapshots owner dep hdep) hgain hsnap hcoll
    have hsum := Table.total_insert_of_some (owedExact r.pool.grid stride) dep' hdep
    simp only [PoolFlow.add, Nat.add_zero]
    push_cast
    linarith
  | offset debt coll st grid h =>
    have hcredit := total_owedExact_offset hi.wf hcov h
    simp only [PoolFlow.add, Nat.add_zero]
    push_cast
    linarith

/-- Along every run that keeps fewer than `10 ^ 18` units deposited and offsets only while the
exact shares are within the recorded total, what was paid out and what is still owed is at
most the collateral received, so the vault can pay every claim. -/
theorem collateral_gains_covered {r : PoolRun len}
    (h : (reactorPool len stride).Reachable (fun op r ↦ r.Small ∧ Covered op r) r) :
    r.flow.collOut + r.pool.deposits.total (r.pool.owedGain stride) ≤ r.flow.collIn := by
  have hboth : r.Inv stride ∧ r.GainsCovered stride := by
    refine h.invariant (P := fun r ↦ r.Inv stride ∧ r.GainsCovered stride) ?_
      fun op r r' hr hg hs ↦ ?_
    · rintro _ rfl
      exact ⟨⟨Pool.wf_new, Pool.backed_new, rfl⟩, PoolRun.gainsCovered_start⟩
    · exact ⟨hr.1.step hg.1 hs, hr.2.step hr.1 hg.2 hs⟩
  obtain ⟨hi, hc⟩ := hboth
  set owed := r.pool.deposits.total (r.pool.owedGain stride)
  have howed : (DECIMAL_PRECISION : ℚ) * owed ≤
      r.pool.deposits.total (owedExact r.pool.grid stride) := by
    have hcast := Table.map_total (r.pool.owedGain stride) (Nat.castAddMonoidHom ℚ)
      r.pool.deposits
    rw [show (owed : ℚ) = _ from hcast, ← Table.total_mul_left]
    refine Table.total_le_total fun owner dep hdep ↦ ?_
    exact Pool.owedGain_le (hi.wf.snapshots owner dep hdep)
  have hunit : (0 : ℚ) < DECIMAL_PRECISION := by exact_mod_cast DECIMAL_PRECISION_pos
  have hscaled : (DECIMAL_PRECISION : ℚ) * (r.flow.collOut + owed : ℕ) ≤
      DECIMAL_PRECISION * (r.flow.collIn : ℕ) := by
    have := Nat.cast_nonneg (α := ℚ) r.pool.state.lastCollError
    unfold PoolRun.GainsCovered at hc
    push_cast
    linarith
  exact_mod_cast le_of_mul_le_mul_left hscaled hunit

theorem collateral_gains_covered_sample : ∃ r : PoolRun REACTOR_GRID_LEN,
    PoolRun.start.execute REACTOR_MAX_SCALES (fun op r ↦ r.Small ∧ Covered op r)
      [.openDeposit 1, .provide 1 1000, .openDeposit 2, .provide 2 500, .offset 700 10,
        .claim 2] = some r ∧
    r.flow.collIn = 10 ∧
    r.flow.collOut + r.pool.deposits.total (r.pool.owedGain REACTOR_MAX_SCALES) ≤ 10 := by
  have hrun : ((PoolRun.start : PoolRun REACTOR_GRID_LEN).execute REACTOR_MAX_SCALES
      (fun op r ↦ r.Small ∧ Covered op r) [.openDeposit 1, .provide 1 1000, .openDeposit 2,
        .provide 2 500, .offset 700 10, .claim 2]).map (fun r ↦ r.flow.collIn) = some 10 := by
    decide +kernel
  obtain ⟨r, hr, hin⟩ := Option.map_eq_some_iff.mp hrun
  have hcovered := collateral_gains_covered (PoolRun.reachable_of_execute (.init rfl) hr)
  exact ⟨r, hr, hin, hin ▸ hcovered⟩

/-- After two offsets the error feedback has left one recorded unit and an exact share above
one; the third offset then owes the depositor more than the pool has received. -/
theorem collateral_gains_exceed : ∃ r : PoolRun REACTOR_GRID_LEN,
    (reactorPool REACTOR_GRID_LEN REACTOR_MAX_SCALES).Reachable (fun _ r ↦ r.Small) r ∧
    ¬r.flow.collOut + r.pool.deposits.total (r.pool.owedGain REACTOR_MAX_SCALES) ≤
      r.flow.collIn := by
  have hrun : ((PoolRun.start : PoolRun REACTOR_GRID_LEN).execute REACTOR_MAX_SCALES
      (fun _ r ↦ r.Small) [.openDeposit 1, .provide 1 4000000000000000, .offset 4 30,
        .offset 3999999999999995 30000000000000000, .offset 1 300]).map (fun r ↦
          (r.flow.collOut + r.pool.deposits.total (r.pool.owedGain REACTOR_MAX_SCALES),
            r.flow.collIn)) = some (30000000000000331, 30000000000000330) := by
    decide +kernel
  obtain ⟨r, hr, hpair⟩ := Option.map_eq_some_iff.mp hrun
  obtain ⟨howed, hin⟩ := Prod.mk.inj hpair
  refine ⟨r, PoolRun.reachable_of_execute (.init rfl) hr, ?_⟩
  rw [howed, hin]
  decide

end FusionCore
