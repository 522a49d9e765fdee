import FusionCore.Core.Pool
import FusionCore.Lib.Machine
import FusionCore.Lib.ProductSum
import Mathlib.Data.Nat.Cast.Order.Field
import Mathlib.Data.Rat.Cast.Order
import Mathlib.Tactic.FieldSimp

/-!
# Runs of a Reactor Pool

The pool as a machine of its own, with the tokens that have gone through its two vaults.
Every operation either opens a deposit, touches one (realise the gain, take a new snapshot,
move fUSD in or out), or offsets debt; the invariants are read off these three cases.
-/

namespace FusionCore

open Checked

variable {len stride : ℕ}

namespace PoolFlow

def add (f g : PoolFlow) : PoolFlow where
  fusdIn := f.fusdIn + g.fusdIn
  fusdOut := f.fusdOut + g.fusdOut
  collIn := f.collIn + g.collIn
  collOut := f.collOut + g.collOut

end PoolFlow

/-- A pool and all that has flowed through its vaults. -/
structure PoolRun (len : ℕ) where
  pool : Pool len
  flow : PoolFlow

def PoolRun.start : PoolRun len := ⟨Pool.new, ⟨0, 0, 0, 0⟩⟩

def reactorPool (len stride : ℕ) : Machine (PoolRun len) PoolOp where
  init r := r = PoolRun.start
  step op r r' := ∃ flow,
    r.pool.exec stride op = .ok (r'.pool, flow) ∧ r'.flow = r.flow.add flow

/-- Fewer than `10 ^ 18` units are deposited. -/
def PoolRun.Small (r : PoolRun len) : Prop := r.pool.state.totalDeposits < DECIMAL_PRECISION

instance (r : PoolRun len) : Decidable r.Small := inferInstanceAs (Decidable (_ < _))

/-- What an operation does to a pool and which tokens it moves. -/
inductive Pool.Step (stride : ℕ) (pool : Pool len) : PoolOp → Pool len → PoolFlow → Prop where
  | opened (owner : Pubkey) (dep : ReactorDeposit)
      (hnone : pool.deposits.lookup owner = none)
      (hdep : dep = ⟨0, ⟨pool.state.p, 0, pool.state.scale, pool.state.epoch⟩, 0⟩) :
      Step stride pool (.openDeposit owner)
        { pool with deposits := pool.deposits.insert owner dep } ⟨0, 0, 0, 0⟩
  | touched (op : PoolOp) (owner : Pubkey) (dep dep' : ReactorDeposit)
      (gain total fusdIn fusdOut paid : ℕ) (hdep : pool.deposits.lookup owner = some dep)
      (hgain : collateralGain pool.grid stride dep.depositedFusd dep.snapshot = .ok gain)
      (hsnap : dep'.snapshot = pool.state.snapshot pool.grid stride)
      (hfusd : dep'.depositedFusd + fusdOut =
        compoundedDeposit pool.state dep.depositedFusd dep.snapshot + fusdIn)
      (hcoll : dep'.pendingCollateralGain + paid = dep.pendingCollateralGain + gain)
      (htotal : total + fusdOut = pool.state.totalDeposits + fusdIn) :
      Step stride pool op
        { pool with
          state := { pool.state with totalDeposits := total }
          deposits := pool.deposits.insert owner dep' } ⟨fusdIn, fusdOut, 0, paid⟩
  | offset (debt coll : ℕ) (st : PoolState) (grid : Grid len)
      (h : FusionCore.offset pool.state pool.grid stride debt coll = .ok (st, grid)) :
      Step stride pool (.offset debt coll) { pool with state := st, grid } ⟨0, debt, coll, 0⟩

namespace Pool

variable {pool pool' : Pool len} {op : PoolOp} {flow : PoolFlow}

theorem realize_eq_ok {dep dep' : ReactorDeposit} {c : ℕ}
    (h : pool.realize stride dep = .ok (c, dep')) :
    c = compoundedDeposit pool.state dep.depositedFusd dep.snapshot ∧
      ∃ gain, collateralGain pool.grid stride dep.depositedFusd dep.snapshot = .ok gain ∧
        dep' = { dep with
          pendingCollateralGain := dep.pendingCollateralGain + gain
          snapshot := pool.state.snapshot pool.grid stride } := by
  simp only [realize, bind_eq_ok_iff, mapError_eq_ok, okOr_eq_ok, tryFit_eq_some,
    checkedAdd_eq_some, pure_eq_ok, Prod.mk.injEq] at h
  obtain ⟨gain, hgain, _, ⟨-, rfl⟩, _, ⟨-, rfl⟩, rfl, rfl⟩ := h
  exact ⟨rfl, gain, hgain, rfl⟩

theorem step_of_exec (h : pool.exec stride op = .ok (pool', flow)) :
    Step stride pool op pool' flow := by
  cases op with
  | openDeposit owner =>
    simp only [exec, openDeposit, bind_eq_ok_iff, require_eq_ok, pure_eq_ok, Prod.mk.injEq,
      exists_const] at h
    obtain ⟨_, ⟨hnone, rfl⟩, rfl, rfl⟩ := h
    exact .opened owner _ hnone rfl
  | provide owner amount =>
    simp only [exec, provide, bind_eq_ok_iff, okOr_eq_ok, require_eq_ok, checkedAdd_eq_some,
      tryFit_eq_some, pure_eq_ok, Prod.mk.injEq, Prod.exists, exists_const] at h
    obtain ⟨_, ⟨dep, hdep, -, c, dep₁, hreal, _, ⟨-, rfl⟩, _, ⟨-, rfl⟩, _, ⟨-, rfl⟩, rfl⟩, rfl,
      rfl⟩ := h
    obtain ⟨rfl, gain, hgain, rfl⟩ := realize_eq_ok hreal
    exact .touched _ owner dep _ gain _ amount 0 0 hdep hgain rfl rfl rfl rfl
  | withdraw owner amount =>
    simp only [exec, withdraw, bind_eq_ok_iff, okOr_eq_ok, require_eq_ok, checkedSub_eq_some,
      tryFit_eq_some, pure_eq_ok, Prod.mk.injEq, Prod.exists, exists_const] at h
    obtain ⟨_, _, ⟨dep, hdep, -, c, dep₁, hreal, _, ⟨hle, rfl⟩, _, ⟨-, rfl⟩, rfl, rfl⟩, rfl,
      rfl⟩ := h
    obtain ⟨rfl, gain, hgain, rfl⟩ := realize_eq_ok hreal
    refine .touched _ owner dep _ gain _ 0 _ 0 hdep hgain rfl ?_ rfl ?_
    · have hpaid := (Nat.mod_le _ (2 ^ 64)).trans (min_le_right amount
        (compoundedDeposit pool.state dep.depositedFusd dep.snapshot))
      exact Nat.sub_add_cancel hpaid
    · exact Nat.sub_add_cancel hle
  | claim owner =>
    simp only [exec, claim, bind_eq_ok_iff, okOr_eq_ok, tryFit_eq_some, pure_eq_ok,
      Prod.mk.injEq, Prod.exists] at h
    obtain ⟨_, _, ⟨dep, hdep, c, dep₁, hreal, _, ⟨-, rfl⟩, rfl, rfl⟩, rfl, rfl⟩ := h
    obtain ⟨rfl, gain, hgain, rfl⟩ := realize_eq_ok hreal
    exact .touched _ owner dep _ gain _ 0 0 _ hdep hgain rfl rfl (Nat.zero_add _) rfl
  | offset debt coll =>
    simp only [exec, bind_eq_ok_iff, pure_eq_ok, Prod.mk.injEq] at h
    obtain ⟨_, hpool, rfl, rfl⟩ := h
    obtain ⟨st, grid, hoff, rfl⟩ := offset_eq_ok.mp hpool
    exact .offset debt coll st grid hoff

end Pool

/-! ## Well-formed pools -/

/-- A snapshot taken earlier in the life of a pool. -/
structure Snapshot.Valid (stride : ℕ) (st : PoolState) (grid : Grid len) (snap : Snapshot) :
    Prop where
  p_pos : 0 < snap.p
  epoch_le : snap.epoch ≤ st.epoch
  scale_le : snap.epoch = st.epoch → snap.scale ≤ st.scale
  s_le : snap.s ≤ cellAt grid stride snap.epoch snap.scale

/-- The cells after the current one are untouched. -/
def Beyond (stride : ℕ) (st : PoolState) (grid : Grid len) : Prop :=
  ∀ epoch scale, st.epoch < epoch ∨ (epoch = st.epoch ∧ st.scale < scale) →
    cellAt grid stride epoch scale = 0

structure Pool.Wf (stride : ℕ) (pool : Pool len) : Prop where
  p_ge : SCALE_FACTOR ≤ pool.state.p
  p_le : pool.state.p ≤ DECIMAL_PRECISION
  lossError_lt : pool.state.lastLossError < DECIMAL_PRECISION
  collError_lt : pool.state.lastCollError < DECIMAL_PRECISION
  beyond : Beyond stride pool.state pool.grid
  snapshots : pool.deposits.All fun dep ↦ dep.snapshot.Valid stride pool.state pool.grid

theorem SCALE_FACTOR_pos : 0 < SCALE_FACTOR := by decide

theorem DECIMAL_PRECISION_pos : 0 < DECIMAL_PRECISION := by decide

theorem Pool.wf_new : Pool.Wf stride (Pool.new : Pool len) where
  p_ge := (by decide : SCALE_FACTOR ≤ DECIMAL_PRECISION)
  p_le := le_refl _
  lossError_lt := DECIMAL_PRECISION_pos
  collError_lt := DECIMAL_PRECISION_pos
  beyond := by
    intro epoch scale _
    unfold cellAt
    split <;> rfl
  snapshots := by
    intro owner dep h
    simp [Pool.new] at h

section Offset

variable {st st' : PoolState} {grid grid' : Grid len} {debt coll : ℕ}

theorem offset_advances (h : offset st grid stride debt coll = .ok (st', grid')) :
    st.epoch < st'.epoch ∨ st'.epoch = st.epoch ∧ st.scale ≤ st'.scale := by
  obtain ⟨-, -, -, factor, -, -, -, hadv, -⟩ := offset_spec h
  rcases advance_spec hadv with ⟨-, -, he, -⟩ | ⟨-, he, bumps, -, hs⟩
  · left
    omega
  · right
    omega

theorem offset_cellAt (h : offset st grid stride debt coll = .ok (st', grid')) :
    ∃ gain, gain * st.totalDeposits + st'.lastCollError =
        coll * DECIMAL_PRECISION + st.lastCollError ∧
      ∀ e s, cellAt grid' stride e s =
        cellAt grid stride e s + if e = st.epoch ∧ s = st.scale then gain * st.p else 0 := by
  obtain ⟨-, -, -, factor, gain, cur, -, -, hcur, rfl, -, hgain⟩ := offset_spec h
  refine ⟨gain, hgain, fun e s ↦ ?_⟩
  rw [cellAt_update grid _ hcur]
  split
  next heq =>
    obtain ⟨rfl, rfl⟩ := heq
    rw [cellAt_of_sIdx grid hcur]
  next => rfl

theorem Snapshot.Valid.offset {snap : Snapshot} (hv : snap.Valid stride st grid)
    (h : FusionCore.offset st grid stride debt coll = .ok (st', grid')) :
    snap.Valid stride st' grid' := by
  obtain ⟨gain, -, hcell⟩ := offset_cellAt h
  have hadv := offset_advances h
  have hepoch := hv.epoch_le
  refine ⟨hv.p_pos, by omega, fun heq ↦ ?_, ?_⟩
  · have := hv.scale_le (by omega)
    omega
  · rw [hcell]
    exact hv.s_le.trans (Nat.le_add_right _ _)

theorem Beyond.offset (hb : Beyond stride st grid)
    (h : FusionCore.offset st grid stride debt coll = .ok (st', grid')) :
    Beyond stride st' grid' := by
  obtain ⟨gain, -, hcell⟩ := offset_cellAt h
  have hadv := offset_advances h
  intro epoch scale hlater
  have hother : ¬(epoch = st.epoch ∧ scale = st.scale) := by omega
  rw [hcell, if_neg hother, hb epoch scale (by omega)]

theorem Pool.Wf.offset {pool : Pool len} (hw : pool.Wf stride)
    (hT : pool.state.totalDeposits < DECIMAL_PRECISION)
    (h : FusionCore.offset pool.state pool.grid stride debt coll = .ok (st', grid')) :
    Pool.Wf stride { pool with state := st', grid := grid' } := by
  have hp := offset_product hw.p_le h
  have hloss : st'.lastLossError < DECIMAL_PRECISION := by
    rcases offset_cases hT h with ⟨-, herr, -⟩ | ⟨_, _, -, -, herr, -⟩
    · rw [herr]
      exact DECIMAL_PRECISION_pos
    · exact herr.trans_lt hT
  obtain ⟨-, -, -, -, -, -, -, -, -, -, hcoll, -⟩ := offset_spec h
  exact
    { p_ge := hp.1
      p_le := hp.2
      lossError_lt := hloss
      collError_lt := hcoll.trans hT
      beyond := hw.beyond.offset h
      snapshots := hw.snapshots.mono fun dep hv ↦ hv.offset h }

end Offset

theorem Pool.Wf.snapshot_valid {pool : Pool len} (hw : pool.Wf stride) :
    (pool.state.snapshot pool.grid stride).Valid stride pool.state pool.grid where
  p_pos := SCALE_FACTOR_pos.trans_le hw.p_ge
  epoch_le := le_refl _
  scale_le := fun _ ↦ le_refl _
  s_le := le_refl _

theorem Pool.Wf.step {pool pool' : Pool len} {op : PoolOp} {flow : PoolFlow}
    (hw : pool.Wf stride) (hT : pool.state.totalDeposits < DECIMAL_PRECISION)
    (h : Pool.Step stride pool op pool' flow) : pool'.Wf stride := by
  cases h with
  | opened owner dep hnone hdep =>
    refine { hw with snapshots := hw.snapshots.insert ?_ }
    subst hdep
    exact { hw.snapshot_valid with s_le := Nat.zero_le _ }
  | touched op owner dep dep' gain total fusdIn fusdOut paid hdep hgain hsnap =>
    have hfresh := hw.snapshot_valid
    refine { hw with snapshots := Table.All.insert (hw.snapshots.mono fun d hv ↦ { hv with }) ?_ }
    rw [hsnap]
    exact { hfresh with }
  | offset debt coll st grid h => exact hw.offset hT h

/-! ## Shares -/

/-- The product with its scale undone. -/
def PoolState.price (st : PoolState) : ℚ := st.p / (SCALE_FACTOR : ℚ) ^ st.scale

def Snapshot.price (snap : Snapshot) : ℚ := snap.p / (SCALE_FACTOR : ℚ) ^ snap.scale

/-- The exact part of the pool that a deposit owns; deposits of earlier epochs are gone. -/
def shareOf (st : PoolState) (dep : ReactorDeposit) : ℚ :=
  if dep.snapshot.epoch = st.epoch then
    ProductSum.share st.price dep.snapshot.price dep.depositedFusd
  else 0

theorem scaleFactor_pow_pos (k : ℕ) : (0 : ℚ) < (SCALE_FACTOR : ℚ) ^ k :=
  pow_pos (by exact_mod_cast SCALE_FACTOR_pos) k

section Share

variable {st st' : PoolState} {grid grid' : Grid len} {snap : Snapshot} {dep : ReactorDeposit}

theorem PoolState.price_pos (hp : 0 < st.p) : 0 < st.price :=
  div_pos (by exact_mod_cast hp) (scaleFactor_pow_pos _)

theorem Snapshot.Valid.price_pos (hv : snap.Valid stride st grid) : 0 < snap.price :=
  div_pos (by exact_mod_cast hv.p_pos) (scaleFactor_pow_pos _)

/-- The ratio of two prices of one epoch, written as the code computes it. -/
theorem Snapshot.Valid.price_div (hv : snap.Valid stride st grid)
    (hepoch : snap.epoch = st.epoch) : st.price / snap.price =
      st.p / snap.p / (SCALE_FACTOR : ℚ) ^ (st.scale - snap.scale) := by
  have hle := hv.scale_le hepoch
  have hsnap : (snap.p : ℚ) ≠ 0 := by exact_mod_cast hv.p_pos.ne'
  have hsplit : (SCALE_FACTOR : ℚ) ^ st.scale =
      (SCALE_FACTOR : ℚ) ^ (st.scale - snap.scale) * (SCALE_FACTOR : ℚ) ^ snap.scale := by
    rw [← pow_add, Nat.sub_add_cancel hle]
  have h1 := (scaleFactor_pow_pos (st.scale - snap.scale)).ne'
  have h2 := (scaleFactor_pow_pos snap.scale).ne'
  unfold PoolState.price Snapshot.price
  rw [hsplit]
  field_simp

theorem shareOf_nonneg (hp : 0 < st.p) (hv : dep.snapshot.Valid stride st grid) :
    0 ≤ shareOf st dep := by
  unfold shareOf
  split
  · exact ProductSum.share_nonneg (PoolState.price_pos hp).le hv.price_pos.le
      (Nat.cast_nonneg _)
  · exact le_refl _

theorem mulDivFloor_getD_le (a b d : ℕ) : ((mulDivFloor a b d).getD 0 : ℚ) ≤ a * (b / d) := by
  cases h : mulDivFloor a b d with
  | none =>
    rw [Option.getD_none, Nat.cast_zero]
    positivity
  | some q =>
    obtain ⟨-, -, rfl⟩ := mulDivFloor_eq_some.mp h
    rw [Option.getD_some]
    refine Nat.cast_div_le.trans (le_of_eq ?_)
    push_cast
    ring

theorem compoundedDeposit_le_shareOf (hp : 0 < st.p) (hv : dep.snapshot.Valid stride st grid) :
    (compoundedDeposit st dep.depositedFusd dep.snapshot : ℚ) ≤ shareOf st dep := by
  have hnonneg := shareOf_nonneg hp hv
  unfold compoundedDeposit
  split
  next => exact_mod_cast hnonneg
  next hlive =>
    have hepoch : dep.snapshot.epoch = st.epoch := by
      have := hv.epoch_le
      omega
    have hshare : shareOf st dep = dep.depositedFusd * (st.p / dep.snapshot.p) /
        (SCALE_FACTOR : ℚ) ^ (st.scale - dep.snapshot.scale) := by
      rw [shareOf, if_pos hepoch, ProductSum.share, hv.price_div hepoch, mul_div_assoc]
    have hfloor := mulDivFloor_getD_le dep.depositedFusd st.p dep.snapshot.p
    have hdust (c : ℕ) : (if c < dep.depositedFusd / 1000000000 then 0 else c) ≤ c := by
      split <;> omega
    refine (Nat.cast_le.mpr (hdust _)).trans ?_
    split
    next h0 =>
      rw [hshare, h0, pow_zero, div_one]
      exact hfloor
    next =>
      split
      next h1 =>
        rw [hshare, h1, pow_one]
        refine Nat.cast_div_le.trans ?_
        exact div_le_div_of_nonneg_right hfloor (Nat.cast_nonneg _)
      next => exact_mod_cast hnonneg

theorem price_le_of_updateProduct {factor bumps : ℕ} (hscale : st'.scale = st.scale + bumps)
    (h : updateProduct st.p factor = .ok (st'.p, bumps)) :
    st'.price ≤ factor / DECIMAL_PRECISION * st.price := by
  obtain ⟨hp, -, -⟩ := updateProduct_spec h
  have hcast : (st'.p : ℚ) ≤
      st.p * factor * (SCALE_FACTOR : ℚ) ^ bumps / DECIMAL_PRECISION := by
    rw [hp]
    refine Nat.cast_div_le.trans (le_of_eq ?_)
    push_cast
    ring
  have h1 := (scaleFactor_pow_pos bumps).ne'
  have h2 := (scaleFactor_pow_pos st.scale).ne'
  unfold PoolState.price
  rw [hscale, pow_add]
  calc
    (st'.p : ℚ) / (SCALE_FACTOR ^ st.scale * SCALE_FACTOR ^ bumps)
        ≤ st.p * factor * SCALE_FACTOR ^ bumps / DECIMAL_PRECISION /
            (SCALE_FACTOR ^ st.scale * SCALE_FACTOR ^ bumps) :=
      div_le_div_of_nonneg_right hcast (by positivity)
    _ = factor / DECIMAL_PRECISION * (st.p / SCALE_FACTOR ^ st.scale) := by
      field_simp

end Share

/-- All exact shares of a pool. -/
def Pool.shares (pool : Pool len) : ℚ := pool.deposits.total (shareOf pool.state)

/-- The potential of the library at the units of the pool. -/
def Pool.Backed (pool : Pool len) : Prop :=
  ProductSum.Backed (DECIMAL_PRECISION : ℚ) pool.state.totalDeposits pool.shares
    pool.state.lastLossError

section Backed

variable {pool pool' : Pool len} {op : PoolOp} {flow : PoolFlow}

theorem one_le_unit : (1 : ℚ) ≤ DECIMAL_PRECISION := by
  exact_mod_cast DECIMAL_PRECISION_pos

theorem Pool.backed_new : (Pool.new : Pool len).Backed := by
  simpa [Pool.Backed, Pool.shares, Pool.new, PoolState.new] using
    ProductSum.backed_zero one_le_unit

theorem Pool.Wf.p_pos (hw : pool.Wf stride) : 0 < pool.state.p :=
  SCALE_FACTOR_pos.trans_le hw.p_ge

theorem shareOf_fresh {dep : ReactorDeposit} (hw : pool.Wf stride)
    (hsnap : dep.snapshot = pool.state.snapshot pool.grid stride) :
    shareOf pool.state dep = dep.depositedFusd := by
  rw [shareOf, hsnap]
  exact (if_pos rfl).trans (ProductSum.share_self (PoolState.price_pos hw.p_pos).ne')

theorem Pool.Wf.shares_of_epoch_lt {st : PoolState} (hw : pool.Wf stride) (grid : Grid len)
    (h : pool.state.epoch < st.epoch) : Pool.shares { pool with state := st, grid } = 0 := by
  have hzero : pool.deposits.All fun dep ↦ shareOf st dep = (fun _ ↦ (0 : ℚ)) dep := by
    intro owner dep hdep
    have := (hw.snapshots owner dep hdep).epoch_le
    exact if_neg (by omega)
  have hsum : pool.deposits.total (shareOf st) = pool.deposits.total fun _ ↦ (0 : ℚ) :=
    Table.total_congr hzero
  rw [Pool.shares, hsum]
  simp [Table.total]

/-- A partial offset scales the shares by at most its factor. -/
theorem Pool.Wf.shares_le_of_price {st : PoolState} {f : ℚ} (hw : pool.Wf stride)
    (grid : Grid len) (hepoch : st.epoch = pool.state.epoch)
    (hprice : st.price ≤ f * pool.state.price) :
    Pool.shares { pool with state := st, grid } ≤ f * pool.shares := by
  unfold Pool.shares
  rw [← Table.total_mul_left]
  refine Table.total_le_total fun owner dep hdep ↦ ?_
  have hv := hw.snapshots owner dep hdep
  simp only [shareOf, hepoch]
  split
  · exact ProductSum.share_le_mul hprice hv.price_pos.le (Nat.cast_nonneg _)
  · rw [mul_zero]

theorem Pool.Backed.offset {st : PoolState} {grid : Grid len} {debt coll : ℕ}
    (hb : pool.Backed) (hw : pool.Wf stride) (hT : pool.state.totalDeposits < DECIMAL_PRECISION)
    (h : FusionCore.offset pool.state pool.grid stride debt coll = .ok (st, grid)) :
    Pool.Backed { pool with state := st, grid } := by
  obtain ⟨-, hle, htotal, -⟩ := offset_spec h
  rcases offset_cases hT h with ⟨rfl, herr, -, he, -⟩ |
    ⟨lpu, bumps, -, hlpu, -, hloss, he, hs, hup⟩
  · -- the drained pool starts over
    have hzero := hw.shares_of_epoch_lt grid (by omega : pool.state.epoch < st.epoch)
    unfold Pool.Backed
    rw [hzero]
    simpa [htotal, herr] using ProductSum.backed_zero one_le_unit
  · have hprice := price_le_of_updateProduct hs hup
    have hshares := hw.shares_le_of_price grid he hprice
    have hunit : (0 : ℚ) < DECIMAL_PRECISION := by exact_mod_cast DECIMAL_PRECISION_pos
    have hlpu' : ((DECIMAL_PRECISION - lpu : ℕ) : ℚ) = DECIMAL_PRECISION - lpu :=
      Nat.cast_sub hlpu.le
    have herr : (pool.state.lastLossError : ℚ) ≤ DECIMAL_PRECISION - 1 := by
      have : pool.state.lastLossError + 1 ≤ DECIMAL_PRECISION := hw.lossError_lt
      have : (pool.state.lastLossError : ℚ) + 1 ≤ DECIMAL_PRECISION := by exact_mod_cast this
      linarith
    have hcharged : DECIMAL_PRECISION * Pool.shares { pool with state := st, grid } ≤
        (DECIMAL_PRECISION - lpu) * pool.shares := by
      rw [hlpu'] at hshares
      calc
        DECIMAL_PRECISION * Pool.shares { pool with state := st, grid }
            ≤ DECIMAL_PRECISION * ((DECIMAL_PRECISION - lpu) / DECIMAL_PRECISION *
                pool.shares) := mul_le_mul_of_nonneg_left hshares hunit.le
        _ = (DECIMAL_PRECISION - lpu) * pool.shares := by
          field_simp
    have hcharge : ProductSum.Backed (DECIMAL_PRECISION : ℚ)
        (pool.state.totalDeposits - debt) (Pool.shares { pool with state := st, grid })
        st.lastLossError :=
      hb.charge herr (Nat.cast_nonneg lpu) (by exact_mod_cast hlpu.le) (by exact_mod_cast hloss)
        hcharged
    unfold Pool.Backed
    rw [htotal, Nat.cast_sub hle]
    exact hcharge

theorem Pool.Backed.step (hb : pool.Backed) (hw : pool.Wf stride)
    (hT : pool.state.totalDeposits < DECIMAL_PRECISION)
    (h : Pool.Step stride pool op pool' flow) : pool'.Backed := by
  have hunit : (0 : ℚ) ≤ DECIMAL_PRECISION := Nat.cast_nonneg _
  cases h with
  | opened owner dep hnone hdep =>
    refine ProductSum.Backed.shift hb hunit ?_
    have hzero : shareOf pool.state dep = 0 := by
      rw [hdep]
      simp [shareOf, ProductSum.share]
    have hsum := Table.total_insert_of_none (shareOf pool.state) dep hnone
    simp only [Pool.shares, hsum, hzero, add_zero]
    exact le_refl _
  | touched op owner dep dep' gain total fusdIn fusdOut paid hdep hgain hsnap hfusd hcoll htotal =>
    refine ProductSum.Backed.shift hb hunit ?_
    have hle := compoundedDeposit_le_shareOf hw.p_pos (hw.snapshots owner dep hdep)
    have hfresh := shareOf_fresh hw hsnap
    have hsum := Table.total_insert_of_some (shareOf pool.state) dep' hdep
    have hfusd' : (dep'.depositedFusd : ℚ) + fusdOut =
        compoundedDeposit pool.state dep.depositedFusd dep.snapshot + fusdIn := by
      exact_mod_cast hfusd
    have htotal' : (total : ℚ) + fusdOut = pool.state.totalDeposits + fusdIn := by
      exact_mod_cast htotal
    change Table.total (shareOf pool.state) (pool.deposits.insert owner dep') +
      pool.state.totalDeposits ≤ Table.total (shareOf pool.state) pool.deposits + total
    linarith
  | offset debt coll st grid h => exact hb.offset hw hT h

/-- The compounded deposits are whole numbers below shares that exceed the total by less than
one, so together they are at most the total. -/
theorem Pool.Backed.compounded_le (hb : pool.Backed) (hw : pool.Wf stride) :
    pool.deposits.total (fun dep ↦
        compoundedDeposit pool.state dep.depositedFusd dep.snapshot) ≤
      pool.state.totalDeposits := by
  have hlt := ProductSum.Backed.shares_lt hb (by exact_mod_cast DECIMAL_PRECISION_pos)
    (Nat.cast_nonneg _)
  set sum : ℕ := pool.deposits.total fun dep ↦
    compoundedDeposit pool.state dep.depositedFusd dep.snapshot
  have hsum : (sum : ℚ) ≤ pool.shares := by
    have hcast := Table.map_total (fun dep : ReactorDeposit ↦
      compoundedDeposit pool.state dep.depositedFusd dep.snapshot) (Nat.castAddMonoidHom ℚ)
      pool.deposits
    refine hcast.trans_le (Table.total_le_total fun owner dep hdep ↦ ?_)
    exact compoundedDeposit_le_shareOf hw.p_pos (hw.snapshots owner dep hdep)
  have hnext : (sum : ℚ) < (pool.state.totalDeposits + 1 : ℕ) := by
    push_cast
    linarith
  exact Nat.lt_succ_iff.mp (by exact_mod_cast hnext)

end Backed

/-! ## Runs -/

/-- What holds along every run with fewer than `10 ^ 18` units deposited. -/
structure PoolRun.Inv (stride : ℕ) (r : PoolRun len) : Prop where
  wf : r.pool.Wf stride
  backed : r.pool.Backed
  fusd : r.flow.fusdIn = r.pool.state.totalDeposits + r.flow.fusdOut

theorem Pool.Step.fusd {pool pool' : Pool len} {op : PoolOp} {flow : PoolFlow}
    (h : Pool.Step stride pool op pool' flow) :
    pool'.state.totalDeposits + flow.fusdOut = pool.state.totalDeposits + flow.fusdIn := by
  cases h with
  | opened => rfl
  | touched _ _ _ _ _ _ _ _ _ _ _ _ _ _ htotal => exact htotal
  | offset debt coll st grid h =>
    obtain ⟨-, hle, htotal, -⟩ := offset_spec h
    dsimp only
    omega

theorem PoolRun.Inv.step {r r' : PoolRun len} {op : PoolOp} (hi : r.Inv stride)
    (hT : r.Small) (h : (reactorPool len stride).step op r r') : r'.Inv stride := by
  obtain ⟨flow, hexec, hflow⟩ := h
  have hstep := Pool.step_of_exec hexec
  refine ⟨hi.wf.step hT hstep, hi.backed.step hi.wf hT hstep, ?_⟩
  have h1 := hi.fusd
  have h2 := hstep.fusd
  simp only [hflow, PoolFlow.add]
  omega

theorem PoolRun.inv_of_reachable {G : PoolOp → PoolRun len → Prop} {r : PoolRun len}
    (hG : ∀ op r, G op r → r.Small) (h : (reactorPool len stride).Reachable G r) :
    r.Inv stride := by
  refine h.invariant ?_ fun op r r' hi hg hs ↦ hi.step (hG op r hg) hs
  rintro _ rfl
  exact ⟨Pool.wf_new, Pool.backed_new, rfl⟩

/-- Perform operations in turn, each only where the guard `G` allows it. -/
def PoolRun.execute (stride : ℕ) (G : PoolOp → PoolRun len → Prop)
    [∀ op r, Decidable (G op r)] : List PoolOp → PoolRun len → Option (PoolRun len)
  | [], r => some r
  | op :: ops, r =>
    if G op r then
      match r.pool.exec stride op with
      | .ok (pool, flow) => execute stride G ops ⟨pool, r.flow.add flow⟩
      | .error _ => none
    else none

theorem PoolRun.reachable_of_execute {G : PoolOp → PoolRun len → Prop}
    [∀ op r, Decidable (G op r)] {ops : List PoolOp} {r r' : PoolRun len}
    (hr : (reactorPool len stride).Reachable G r) (h : r.execute stride G ops = some r') :
    (reactorPool len stride).Reachable G r' := by
  induction ops generalizing r with
  | nil =>
    obtain rfl : r = r' := Option.some.inj h
    exact hr
  | cons op ops ih =>
    simp only [execute] at h
    split at h
    next hg =>
      split at h
      next pool flow hexec => exact ih (.step op hr hg ⟨flow, hexec, rfl⟩) h
      next => cases h
    next => cases h

/-- Along every run that keeps fewer than `10 ^ 18` units deposited, the compounded deposits
together are at most the recorded total, which is what the fUSD vault holds; so no withdrawal
underflows either. -/
theorem compounded_deposits_backed {r : PoolRun len}
    (h : (reactorPool len stride).Reachable (fun _ r ↦ r.Small) r) :
    r.pool.deposits.total (fun dep ↦
        compoundedDeposit r.pool.state dep.depositedFusd dep.snapshot) ≤
      r.pool.state.totalDeposits ∧
    r.flow.fusdIn = r.pool.state.totalDeposits + r.flow.fusdOut ∧
    ∀ owner dep, r.pool.deposits.lookup owner = some dep → ∀ amount,
      let paid := truncate 64
        (min amount (compoundedDeposit r.pool.state dep.depositedFusd dep.snapshot))
      (∃ total, checkedSub r.pool.state.totalDeposits paid = some total) ∧
        paid + r.flow.fusdOut ≤ r.flow.fusdIn := by
  have hi := PoolRun.inv_of_reachable (fun _ _ hg ↦ hg) h
  have hle := hi.backed.compounded_le hi.wf
  refine ⟨hle, hi.fusd, fun owner dep hdep amount ↦ ?_⟩
  dsimp only
  have hown : compoundedDeposit r.pool.state dep.depositedFusd dep.snapshot ≤
      r.pool.state.totalDeposits :=
    (Table.le_total (f := fun dep : ReactorDeposit ↦
      compoundedDeposit r.pool.state dep.depositedFusd dep.snapshot)
      (fun _ ↦ Nat.zero_le _) hdep).trans hle
  have hpaid : truncate 64
      (min amount (compoundedDeposit r.pool.state dep.depositedFusd dep.snapshot)) ≤
      r.pool.state.totalDeposits :=
    (Nat.mod_le _ _).trans ((min_le_right _ _).trans hown)
  refine ⟨⟨_, checkedSub_eq_some.mpr ⟨hpaid, rfl⟩⟩, ?_⟩
  have := hi.fusd
  omega

/-- Two depositors share a partial offset. -/
theorem compounded_deposits_backed_sample : ∃ r : PoolRun REACTOR_GRID_LEN,
    PoolRun.start.execute REACTOR_MAX_SCALES (fun _ r ↦ r.Small)
      [.openDeposit 1, .provide 1 1000, .openDeposit 2, .provide 2 500, .offset 700 10,
        .withdraw 2 50] = some r ∧
    r.pool.state.totalDeposits = 750 ∧
    r.pool.deposits.total (fun dep ↦
      compoundedDeposit r.pool.state dep.depositedFusd dep.snapshot) ≤ 750 := by
  have hrun : ((PoolRun.start : PoolRun REACTOR_GRID_LEN).execute REACTOR_MAX_SCALES
      (fun _ r ↦ r.Small) [.openDeposit 1, .provide 1 1000, .openDeposit 2, .provide 2 500,
        .offset 700 10, .withdraw 2 50]).map (fun r ↦ r.pool.state.totalDeposits) =
      some 750 := by decide +kernel
  obtain ⟨r, hr, htotal⟩ := Option.map_eq_some_iff.mp hrun
  have hbacked := compounded_deposits_backed
    (PoolRun.reachable_of_execute (.init rfl) hr)
  exact ⟨r, hr, htotal, htotal ▸ hbacked.1⟩

end FusionCore
