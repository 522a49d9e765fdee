import FusionCore.Core.PoolRuns
import Mathlib.Data.Prod.Lex

/-!
# Where a Reactor Pool stands in its grid

Epoch and scale, read in lexicographic order, only ever move forward, and the cells ahead of
them are untouched.  A stored snapshot therefore lies behind the pool, at a cell that has not
sunk below what the snapshot recorded.  Nothing here bounds the deposits.
-/

namespace FusionCore

open Checked

variable {len stride : ℕ}

/-- The place of the pool in the grid. -/
def PoolState.index (st : PoolState) : ℕ ×ₗ ℕ := toLex (st.epoch, st.scale)

/-- The place a snapshot was taken at. -/
def Snapshot.index (snap : Snapshot) : ℕ ×ₗ ℕ := toLex (snap.epoch, snap.scale)

/-- A snapshot behind the pool: of an earlier cell, which holds at least what was recorded. -/
structure Snapshot.Behind (stride : ℕ) (st : PoolState) (grid : Grid len) (snap : Snapshot) :
    Prop where
  valid : snap.Valid stride st grid
  p_ge : SCALE_FACTOR ≤ snap.p
  p_le : snap.p ≤ DECIMAL_PRECISION
  addressed : (sIdx snap.epoch snap.scale stride len).isSome

/-- A pool that stands at a cell of its grid, with nothing ahead and all snapshots behind. -/
structure Pool.Indexed (stride : ℕ) (pool : Pool len) : Prop where
  p_ge : SCALE_FACTOR ≤ pool.state.p
  p_le : pool.state.p ≤ DECIMAL_PRECISION
  addressed : (sIdx pool.state.epoch pool.state.scale stride len).isSome
  beyond : Beyond stride pool.state pool.grid
  snapshots : pool.deposits.All fun dep ↦ dep.snapshot.Behind stride pool.state pool.grid

namespace Snapshot.Valid

variable {st : PoolState} {grid : Grid len} {snap : Snapshot}

theorem index_le (hv : snap.Valid stride st grid) : snap.index ≤ st.index := by
  apply Prod.Lex.toLex_le_toLex.mpr
  rcases hv.epoch_le.lt_or_eq with hlt | heq
  · exact .inl hlt
  · exact .inr ⟨heq, hv.scale_le heq⟩

end Snapshot.Valid

namespace Beyond

variable {st : PoolState} {grid : Grid len}

theorem eq_zero_of_index_lt (hb : Beyond stride st grid) {epoch scale : ℕ} {i : Fin len}
    (hi : sIdx epoch scale stride len = some i) (hlt : st.index < toLex (epoch, scale)) :
    grid i = 0 := by
  rw [← cellAt_of_sIdx grid hi]
  apply hb
  rcases Prod.Lex.toLex_lt_toLex.mp hlt with h | ⟨h, h'⟩
  · exact .inl h
  · exact .inr ⟨h.symm, h'⟩

end Beyond

section Offset

variable {st st' : PoolState} {grid grid' : Grid len} {debt coll : ℕ}

theorem offset_index_le (h : offset st grid stride debt coll = .ok (st', grid')) :
    st.index ≤ st'.index := by
  apply Prod.Lex.toLex_le_toLex.mpr
  rcases offset_advances h with hlt | ⟨heq, hle⟩
  · exact .inl hlt
  · exact .inr ⟨heq.symm, hle⟩

theorem offset_addressed (h : offset st grid stride debt coll = .ok (st', grid')) :
    (sIdx st'.epoch st'.scale stride len).isSome := by
  obtain ⟨-, -, -, factor, gain, cur, -, hadv, hcur, -⟩ := offset_spec h
  exact advance_addressed (Option.isSome_of_eq_some hcur) hadv

theorem offset_grid_le (h : offset st grid stride debt coll = .ok (st', grid')) (i : Fin len) :
    grid i ≤ grid' i := by
  obtain ⟨-, -, -, factor, gain, cur, -, -, -, rfl, -⟩ := offset_spec h
  by_cases hi : i = cur
  · rw [hi, Function.update_self]
    exact Nat.le_add_right _ _
  · rw [Function.update_of_ne hi]

end Offset

namespace Pool

variable {pool pool' : Pool len} {op : PoolOp} {flow : PoolFlow}

theorem indexed_new (hlen : 0 < len) (hstride : 0 < stride) :
    Indexed stride (Pool.new : Pool len) where
  p_ge := (by decide : SCALE_FACTOR ≤ DECIMAL_PRECISION)
  p_le := le_refl _
  addressed := by
    have hcell : sIdx 0 0 stride len = some ⟨0, hlen⟩ :=
      sIdx_eq_some.mpr ⟨hstride, by simp⟩
    exact Option.isSome_of_eq_some hcell
  beyond := wf_new.beyond
  snapshots := by
    intro owner dep h
    simp [Pool.new] at h

theorem Indexed.snapshot_behind (hx : pool.Indexed stride) :
    (pool.state.snapshot pool.grid stride).Behind stride pool.state pool.grid where
  valid := { p_pos := SCALE_FACTOR_pos.trans_le hx.p_ge, epoch_le := le_refl _,
             scale_le := fun _ ↦ le_refl _, s_le := le_refl _ }
  p_ge := hx.p_ge
  p_le := hx.p_le
  addressed := hx.addressed

theorem Indexed.step (hx : pool.Indexed stride) (h : Step stride pool op pool' flow) :
    pool'.Indexed stride := by
  cases h with
  | opened owner dep hnone hdep =>
    refine { hx with snapshots := hx.snapshots.insert ?_ }
    have hfresh := hx.snapshot_behind
    subst hdep
    exact { hfresh with valid := { hfresh.valid with s_le := Nat.zero_le _ } }
  | touched op owner dep dep' gain total fusdIn fusdOut paid hdep hgain hsnap =>
    have hfresh := hx.snapshot_behind
    have hkept : pool.deposits.All fun d ↦ d.snapshot.Behind stride
        { pool.state with totalDeposits := total } pool.grid :=
      hx.snapshots.mono fun d hd ↦ { hd with valid := { hd.valid with } }
    refine { hx with snapshots := hkept.insert ?_ }
    rw [hsnap]
    exact { hfresh with valid := { hfresh.valid with } }
  | offset debt coll st grid h =>
    have hp := offset_product hx.p_le h
    exact
      { p_ge := hp.1
        p_le := hp.2
        addressed := offset_addressed h
        beyond := hx.beyond.offset h
        snapshots := hx.snapshots.mono fun dep hd ↦ { hd with valid := hd.valid.offset h } }

/-- Only an offset moves the index or the grid, and it moves both forward. -/
theorem Step.forward (h : Step stride pool op pool' flow) :
    pool.state.index ≤ pool'.state.index ∧ ∀ i, pool.grid i ≤ pool'.grid i := by
  cases h with
  | opened => exact ⟨le_refl _, fun _ ↦ le_refl _⟩
  | touched => exact ⟨le_refl _, fun _ ↦ le_refl _⟩
  | offset debt coll st grid h => exact ⟨offset_index_le h, offset_grid_le h⟩

end Pool

namespace PoolRun

variable {r r' : PoolRun len}

theorem indexed_of_reach (hlen : 0 < len) (hstride : 0 < stride)
    (h : (reactorPool len stride).Reach r) : r.pool.Indexed stride := by
  refine h.invariant (P := fun r ↦ r.pool.Indexed stride) ?_ ?_
  · rintro _ rfl
    exact Pool.indexed_new hlen hstride
  · rintro op s s' hs - ⟨flow, hexec, -⟩
    exact hs.step (Pool.step_of_exec hexec)

theorem forward_of_leads (h : (reactorPool len stride).Leads (fun _ _ ↦ True) r r') :
    r.pool.state.index ≤ r'.pool.state.index ∧ ∀ i, r.pool.grid i ≤ r'.pool.grid i := by
  induction h with
  | refl => exact ⟨le_refl _, fun _ ↦ le_refl _⟩
  | step op _ _ hstep ih =>
    obtain ⟨flow, hexec, -⟩ := hstep
    have hfwd := (Pool.step_of_exec hexec).forward
    exact ⟨ih.1.trans hfwd.1, fun i ↦ (ih.2 i).trans (hfwd.2 i)⟩

end PoolRun

/-- Along every run over a grid with at least one cell: the product stays between `10 ^ 9` and
`10 ^ 18`, epoch and scale address a cell and never go back, the cells after them are empty, no
cell ever falls, and every snapshot lies behind, so neither the scale difference of
`compoundedDeposit` nor the first portion of `collateralGain` is cut off at zero. -/
theorem reactorPool_index_invariant {r : PoolRun len} (hlen : 0 < len) (hstride : 0 < stride)
    (h : (reactorPool len stride).Reach r) :
    (10 ^ 9 ≤ r.pool.state.p ∧ r.pool.state.p ≤ 10 ^ 18) ∧
    (sIdx r.pool.state.epoch r.pool.state.scale stride len).isSome ∧
    (∀ epoch scale i, sIdx epoch scale stride len = some i →
      r.pool.state.index < toLex (epoch, scale) → r.pool.grid i = 0) ∧
    (∀ owner dep, r.pool.deposits.lookup owner = some dep →
      dep.snapshot.index ≤ r.pool.state.index ∧
      (10 ^ 9 ≤ dep.snapshot.p ∧ dep.snapshot.p ≤ 10 ^ 18) ∧
      (∃ i, sIdx dep.snapshot.epoch dep.snapshot.scale stride len = some i ∧
        dep.snapshot.s ≤ r.pool.grid i) ∧
      (dep.snapshot.epoch = r.pool.state.epoch → dep.snapshot.scale ≤ r.pool.state.scale) ∧
      dep.snapshot.s ≤ cellAt r.pool.grid stride dep.snapshot.epoch dep.snapshot.scale) ∧
    ∀ r', (reactorPool len stride).Leads (fun _ _ ↦ True) r r' →
      r.pool.state.index ≤ r'.pool.state.index ∧ ∀ i, r.pool.grid i ≤ r'.pool.grid i := by
  have hx := PoolRun.indexed_of_reach hlen hstride h
  refine ⟨⟨hx.p_ge, hx.p_le⟩, hx.addressed, ?_, ?_, fun _ ↦ PoolRun.forward_of_leads⟩
  · intro epoch scale i hi hlt
    exact hx.beyond.eq_zero_of_index_lt hi hlt
  · intro owner dep hdep
    have hb := hx.snapshots owner dep hdep
    obtain ⟨i, hi⟩ := Option.isSome_iff_exists.mp hb.addressed
    have hs := hb.valid.s_le
    refine ⟨hb.valid.index_le, ⟨hb.p_ge, hb.p_le⟩, ⟨i, hi, ?_⟩, hb.valid.scale_le, hs⟩
    rwa [cellAt_of_sIdx _ hi] at hs

/-- A rescaled offset, then a full drain that leaves both deposits behind in the first epoch. -/
theorem reactorPool_index_invariant_sample : ∃ r : PoolRun REACTOR_GRID_LEN,
    PoolRun.start.execute REACTOR_MAX_SCALES (fun _ _ ↦ True)
      [.openDeposit 1, .provide 1 (10 ^ 13), .openDeposit 2, .offset (10 ^ 13 - 1) 10,
        .provide 2 500, .offset 501 10] = some r ∧
    (r.pool.state.epoch, r.pool.state.scale) = (1, 0) ∧
    (∀ epoch scale i, sIdx epoch scale REACTOR_MAX_SCALES REACTOR_GRID_LEN = some i →
      r.pool.state.index < toLex (epoch, scale) → r.pool.grid i = 0) := by
  have hrun : ((PoolRun.start : PoolRun REACTOR_GRID_LEN).execute REACTOR_MAX_SCALES
      (fun _ _ ↦ True) [.openDeposit 1, .provide 1 (10 ^ 13), .openDeposit 2,
        .offset (10 ^ 13 - 1) 10, .provide 2 500, .offset 501 10]).map
        (fun r ↦ (r.pool.state.epoch, r.pool.state.scale)) = some (1, 0) := by decide +kernel
  obtain ⟨r, hr, hindex⟩ := Option.map_eq_some_iff.mp hrun
  have hinv := reactorPool_index_invariant (by decide) (by decide)
    (PoolRun.reachable_of_execute (.init rfl) hr)
  exact ⟨r, hr, hindex, hinv.2.2.1⟩

/-- In a grid without cells the first epoch and scale already address nothing. -/
theorem reactorPool_index_without_cells : ∃ r : PoolRun 0,
    (reactorPool 0 REACTOR_MAX_SCALES).Reach r ∧
      sIdx r.pool.state.epoch r.pool.state.scale REACTOR_MAX_SCALES 0 = none :=
  ⟨PoolRun.start, .init rfl, rfl⟩

end FusionCore
