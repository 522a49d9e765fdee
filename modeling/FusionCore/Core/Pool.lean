import FusionCore.Core.Accrual

/-!
# The Reactor Pool

A pool touches a deposit by realising its collateral gain and taking a new snapshot; the
operations on a deposit differ in what they then do with the compounded amount.
-/

namespace FusionCore

open Checked

def ReactorError.toProgramError : ReactorError → ProgramError
  | .noDeposits | .debtExceedsDeposits => .reactorPoolTooSmall
  | .scaleOverflow | .epochOverflow => .reactorGridExhausted
  | .math => .mathOverflow

namespace Pool

variable {len : ℕ}

/-- An empty pool over an all-zero grid. -/
def new : Pool len := ⟨PoolState.new, fun _ ↦ 0, ∅⟩

/-- Realise the gain of a deposit, return what it has compounded to, and take a snapshot. -/
def realize (pool : Pool len) (stride : ℕ) (dep : ReactorDeposit) :
    Except ProgramError (ℕ × ReactorDeposit) := do
  let compounded := compoundedDeposit pool.state dep.depositedFusd dep.snapshot
  let gain ← (collateralGain pool.grid stride dep.depositedFusd dep.snapshot).mapError
    ReactorError.toProgramError
  let gain64 ← okOr (tryFit 64 gain) .mathOverflow
  let pendingCollateralGain ← okOr (checkedAdd 64 dep.pendingCollateralGain gain64)
    .mathOverflow
  pure (compounded,
    { dep with pendingCollateralGain, snapshot := pool.state.snapshot pool.grid stride })

/-- Open an empty deposit account. -/
def openDeposit (pool : Pool len) (owner : Pubkey) : Except ProgramError (Pool len) := do
  require (pool.deposits.lookup owner = none) .accountAlreadyInUse
  let dep : ReactorDeposit :=
    { depositedFusd := 0
      snapshot := ⟨pool.state.p, 0, pool.state.scale, pool.state.epoch⟩
      pendingCollateralGain := 0 }
  pure { pool with deposits := pool.deposits.insert owner dep }

/-- Add `amount` to a deposit. -/
def provide (pool : Pool len) (stride : ℕ) (owner : Pubkey) (amount : ℕ) :
    Except ProgramError (Pool len) := do
  let dep ← okOr (pool.deposits.lookup owner) .accountNotInitialized
  require (0 < amount) .zeroAmount
  let (compounded, dep₁) ← pool.realize stride dep
  let sum ← okOr (checkedAdd 128 compounded amount) .mathOverflow
  let newDeposited ← okOr (tryFit 64 sum) .mathOverflow
  let totalDeposits ← okOr (checkedAdd 128 pool.state.totalDeposits amount) .mathOverflow
  pure { pool with
    state := { pool.state with totalDeposits }
    deposits := pool.deposits.insert owner { dep₁ with depositedFusd := newDeposited } }

/-- Take at most `amount` out of a deposit; returns what is paid. -/
def withdraw (pool : Pool len) (stride : ℕ) (owner : Pubkey) (amount : ℕ) :
    Except ProgramError (Pool len × ℕ) := do
  let dep ← okOr (pool.deposits.lookup owner) .accountNotInitialized
  require (0 < amount) .zeroAmount
  let (compounded, dep₁) ← pool.realize stride dep
  let withdrawAmt := truncate 64 (min amount compounded)
  let totalDeposits ← okOr (checkedSub pool.state.totalDeposits withdrawAmt) .mathOverflow
  let remaining ← okOr (tryFit 64 (compounded - withdrawAmt)) .mathOverflow
  pure ({ pool with
    state := { pool.state with totalDeposits }
    deposits := pool.deposits.insert owner { dep₁ with depositedFusd := remaining } },
    withdrawAmt)

/-- Pay out the collateral gain of a deposit. -/
def claim (pool : Pool len) (stride : ℕ) (owner : Pubkey) :
    Except ProgramError (Pool len × ℕ) := do
  let dep ← okOr (pool.deposits.lookup owner) .accountNotInitialized
  let (compounded, dep₁) ← pool.realize stride dep
  let depositedFusd ← okOr (tryFit 64 compounded) .mathOverflow
  pure ({ pool with
    deposits := pool.deposits.insert owner
      { dep₁ with depositedFusd, pendingCollateralGain := 0 } },
    dep₁.pendingCollateralGain)

/-- Burn `debt` of the deposits against `coll` of collateral. -/
def offset (pool : Pool len) (stride debt coll : ℕ) : Except ProgramError (Pool len) := do
  let (state, grid) ← (FusionCore.offset pool.state pool.grid stride debt coll).mapError
    ReactorError.toProgramError
  pure { pool with state, grid }

end Pool

/-! ## The pool as a machine -/

inductive PoolOp where
  | openDeposit (owner : Pubkey)
  | provide (owner : Pubkey) (amount : ℕ)
  | withdraw (owner : Pubkey) (amount : ℕ)
  | claim (owner : Pubkey)
  | offset (debt coll : ℕ)
  deriving DecidableEq, Repr

/-- The tokens an operation moves through the two vaults of the pool. -/
structure PoolFlow where
  fusdIn : ℕ
  fusdOut : ℕ
  collIn : ℕ
  collOut : ℕ
  deriving DecidableEq, Repr

def Pool.exec {len : ℕ} (pool : Pool len) (stride : ℕ) :
    PoolOp → Except ProgramError (Pool len × PoolFlow)
  | .openDeposit owner => do
    let pool' ← pool.openDeposit owner
    pure (pool', ⟨0, 0, 0, 0⟩)
  | .provide owner amount => do
    let pool' ← pool.provide stride owner amount
    pure (pool', ⟨amount, 0, 0, 0⟩)
  | .withdraw owner amount => do
    let (pool', paid) ← pool.withdraw stride owner amount
    pure (pool', ⟨0, paid, 0, 0⟩)
  | .claim owner => do
    let (pool', paid) ← pool.claim stride owner
    pure (pool', ⟨0, 0, 0, paid⟩)
  | .offset debt coll => do
    let pool' ← pool.offset stride debt coll
    pure (pool', ⟨0, debt, coll, 0⟩)

/-- What one instruction may do to the pool of a market. -/
inductive PoolMove {len : ℕ} (stride : ℕ) : Option (Pool len) → Option (Pool len) → Prop where
  | keep (pool : Option (Pool len)) : PoolMove stride pool pool
  | init : PoolMove stride none (some Pool.new)
  | exec {pool pool' : Pool len} (op : PoolOp) (flow : PoolFlow)
      (h : pool.exec stride op = .ok (pool', flow)) : PoolMove stride (some pool) (some pool')

section Totals

variable {len stride amount paid : ℕ} {pool pool' : Pool len} {owner : Pubkey}

theorem Pool.openDeposit_state (h : pool.openDeposit owner = .ok pool') :
    pool'.state = pool.state := by
  simp only [Pool.openDeposit, bind_eq_ok_iff, require_eq_ok, pure_eq_ok, exists_const] at h
  obtain ⟨-, rfl⟩ := h
  rfl

theorem Pool.provide_total (h : pool.provide stride owner amount = .ok pool') :
    pool'.state.totalDeposits = pool.state.totalDeposits + amount := by
  simp only [Pool.provide, bind_eq_ok_iff, okOr_eq_ok, checkedAdd_eq_some, pure_eq_ok,
    Prod.exists] at h
  obtain ⟨dep, -, -, -, c, dep₁, -, _, -, _, -, _, ⟨-, rfl⟩, rfl⟩ := h
  rfl

theorem Pool.withdraw_total (h : pool.withdraw stride owner amount = .ok (pool', paid)) :
    pool'.state.totalDeposits + paid = pool.state.totalDeposits := by
  simp only [Pool.withdraw, bind_eq_ok_iff, okOr_eq_ok, checkedSub_eq_some, pure_eq_ok,
    Prod.exists, Prod.mk.injEq] at h
  obtain ⟨dep, -, -, -, c, dep₁, -, _, ⟨hle, rfl⟩, _, -, rfl, rfl⟩ := h
  exact Nat.sub_add_cancel hle

theorem Pool.claim_state (h : pool.claim stride owner = .ok (pool', paid)) :
    pool'.state = pool.state := by
  simp only [Pool.claim, bind_eq_ok_iff, okOr_eq_ok, pure_eq_ok, Prod.exists,
    Prod.mk.injEq] at h
  obtain ⟨dep, -, c, dep₁, -, _, -, rfl, -⟩ := h
  rfl

theorem Pool.offset_eq_ok {debt coll : ℕ} : pool.offset stride debt coll = .ok pool' ↔
    ∃ st grid, FusionCore.offset pool.state pool.grid stride debt coll = .ok (st, grid) ∧
      pool' = { pool with state := st, grid } := by
  simp only [Pool.offset, bind_eq_ok_iff, mapError_eq_ok, pure_eq_ok, Prod.exists]
  constructor
  · rintro ⟨st, grid, h, rfl⟩
    exact ⟨st, grid, h, rfl⟩
  · rintro ⟨st, grid, h, rfl⟩
    exact ⟨st, grid, h, rfl⟩

end Totals

end FusionCore
