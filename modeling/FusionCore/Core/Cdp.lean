import FusionCore.Core.State

/-!
# Collateral ratios, the liquidation collar and the rate limiter

The pure helpers of the handlers.  Rounding goes against the borrower: debt up,
collateral value down.
-/

namespace FusionCore

open Checked

/-- Value of a collateral amount at the price `spot`, rounded down. -/
def collateralValue (ink spot : ℕ) : Option ℕ := rayMul ink spot

def maxDebt (collateralValue mcrBps : ℕ) : Option ℕ :=
  if mcrBps = 0 then none else mulDivFloor collateralValue BPS_DENOMINATOR mcrBps

/-- The collateral a liquidation seizes and the surplus that goes back to the borrower.  A
zero bonus turns the collar off. -/
def seizeCollateral (ink debt spot bonusBps : ℕ) : Option (ℕ × ℕ) :=
  if bonusBps = 0 then some (ink, 0)
  else do
    let seizeValue ← mulDivCeil debt (BPS_DENOMINATOR + bonusBps) BPS_DENOMINATOR
    let units ← mulDivCeil seizeValue RAY spot
    let seizeColl := min units ink
    pure (seizeColl, ink - seizeColl)

def isHealthy (ink recordedDebt spot mcrBps : ℕ) : Bool :=
  match collateralValue ink spot with
  | none => false
  | some value =>
    match maxDebt value mcrBps with
    | none => false
    | some limit => decide (recordedDebt ≤ limit)

/-- The aggregate ratio is below the threshold.  Any arithmetic edge counts as not below. -/
def tcrBelow (totalCollateral aggRecordedDebt spot ratioBps : ℕ) : Bool :=
  if aggRecordedDebt = 0 then false
  else
    match rayMul totalCollateral spot with
    | none => false
    | some value =>
      match maxDebt value ratioBps with
      | none => false
      | some limit => decide (limit < aggRecordedDebt)

/-- Pressure that is left after the bucket has leaked since `lastUpdate`. -/
def ratelimitDecayed (accrued lastUpdate now cap windowSecs : ℕ) : ℕ :=
  if windowSecs = 0 then accrued
  else
    let elapsed := now - lastUpdate
    let restored := saturatingMul 128 cap elapsed / windowSecs
    accrued - min restored (2 ^ 64 - 1)

def ratelimitConsume (accrued lastUpdate now cap windowSecs outflow : ℕ) : Option ℕ := do
  let next ← checkedAdd 64 (ratelimitDecayed accrued lastUpdate now cap windowSecs) outflow
  if cap < next then none else some next

def ratelimitRestore (accrued lastUpdate now cap windowSecs inflow : ℕ) : ℕ :=
  ratelimitDecayed accrued lastUpdate now cap windowSecs - inflow

/-- The debt that collateral carries at a price and a ratio. -/
def debtLimit (ink spot ratioBps : ℕ) : ℕ := ink * spot / RAY * BPS_DENOMINATOR / ratioBps

section Ratios

variable {ink debt spot ratio : ℕ}

/-- Collateral and prices of their own width leave room for the products of a ratio test. -/
theorem collateralValue_lt (hink : ink < 2 ^ 64) (hspot : spot < 2 ^ 128) :
    ink * spot / RAY * BPS_DENOMINATOR < 2 ^ 128 := by
  have hprod : ink * spot ≤ 2 ^ 64 * 2 ^ 128 := Nat.mul_le_mul hink.le hspot.le
  have hvalue : ink * spot / RAY ≤ 2 ^ 64 * 2 ^ 128 / RAY := Nat.div_le_div_right hprod
  calc
    ink * spot / RAY * BPS_DENOMINATOR ≤ 2 ^ 64 * 2 ^ 128 / RAY * BPS_DENOMINATOR :=
      Nat.mul_le_mul_right _ hvalue
    _ < 2 ^ 128 := by decide

theorem limit_eq_some (hink : ink < 2 ^ 64) (hspot : spot < 2 ^ 128) (hratio : 0 < ratio) :
    collateralValue ink spot = some (ink * spot / RAY) ∧
      maxDebt (ink * spot / RAY) ratio = some (debtLimit ink spot ratio) := by
  have hfit := collateralValue_lt hink hspot
  have hvalue : ink * spot / RAY ≤ ink * spot / RAY * BPS_DENOMINATOR :=
    Nat.le_mul_of_pos_right _ (by decide)
  constructor
  · exact rayMul_eq_some.mpr ⟨hvalue.trans_lt hfit, rfl⟩
  · rw [maxDebt, if_neg hratio.ne', mulDivFloor_eq_some]
    exact ⟨hratio, (Nat.div_le_self _ _).trans_lt hfit, rfl⟩

theorem isHealthy_iff (hink : ink < 2 ^ 64) (hspot : spot < 2 ^ 128) (hratio : 0 < ratio) :
    isHealthy ink debt spot ratio = true ↔ debt ≤ debtLimit ink spot ratio := by
  obtain ⟨hvalue, hlimit⟩ := limit_eq_some hink hspot hratio
  simp only [isHealthy, hvalue, hlimit, decide_eq_true_eq]

theorem tcrBelow_iff (hink : ink < 2 ^ 64) (hspot : spot < 2 ^ 128) (hratio : 0 < ratio) :
    tcrBelow ink debt spot ratio = true ↔ debtLimit ink spot ratio < debt := by
  obtain ⟨hvalue, hlimit⟩ := limit_eq_some hink hspot hratio
  rw [collateralValue] at hvalue
  unfold tcrBelow
  split
  next hzero => simp [hzero]
  next => simp only [hvalue, hlimit, decide_eq_true_eq]

/-- A ratio of zero sets no limit. -/
theorem ratio_pos_of_tcrBelow (h : tcrBelow ink debt spot ratio = true) : 0 < ratio := by
  refine Nat.pos_of_ne_zero fun hzero ↦ ?_
  unfold tcrBelow at h
  split at h
  · cases h
  · split at h
    · cases h
    · simp [maxDebt, hzero] at h

theorem debtLimit_mono {spot' : ℕ} (h : spot ≤ spot') :
    debtLimit ink spot ratio ≤ debtLimit ink spot' ratio := by
  unfold debtLimit
  gcongr

end Ratios

theorem seizeCollateral_spec {ink debt spot bonus : ℕ} {r : ℕ × ℕ}
    (h : seizeCollateral ink debt spot bonus = some r) : r.1 + r.2 = ink := by
  unfold seizeCollateral at h
  split at h
  · cases h
    rfl
  · simp only [Option.bind_eq_bind, Option.bind_eq_some_iff, Option.pure_def,
      Option.some.injEq] at h
    obtain ⟨value, -, units, -, rfl⟩ := h
    exact Nat.add_sub_cancel' (min_le_right units ink)

/-! ## Solvency of the collateral vault -/

/-- The four counters that back the collateral vault. -/
def tracked (m : Market) : ℕ :=
  m.totalCollateral + m.surplusCollateral + m.totalCollSurplus + m.protocolCollateral

/-- The check that ends every handler that moves vault collateral. -/
def assertCollateralVaultSufficiency (vault : ℕ) (m : Market) : Except ProgramError Unit := do
  let t₁ ← okOr (checkedAdd 128 m.totalCollateral m.surplusCollateral) .mathOverflow
  let t₂ ← okOr (checkedAdd 128 t₁ m.totalCollSurplus) .mathOverflow
  let t₃ ← okOr (checkedAdd 128 t₂ m.protocolCollateral) .mathOverflow
  require (t₃ ≤ vault) .vaultReconciliationFailed

/-- A handler that ends with the check. -/
def vaultChecked (x : Except ProgramError Accounts) : Except ProgramError Accounts := do
  let a ← x
  assertCollateralVaultSufficiency (a.state.coll.balance .vault) a.state.market
  pure a

/-- The check passes as soon as the vault holds what is tracked. -/
theorem assertCollateralVaultSufficiency_eq_ok {vault : ℕ} {m : Market} (hfit : vault < 2 ^ 64)
    {u : Unit} : assertCollateralVaultSufficiency vault m = .ok u ↔ tracked m ≤ vault := by
  simp only [assertCollateralVaultSufficiency, bind_eq_ok_iff, okOr_eq_ok, checkedAdd_eq_some,
    require_eq_ok, tracked]
  constructor
  · rintro ⟨_, ⟨-, rfl⟩, _, ⟨-, rfl⟩, _, ⟨-, rfl⟩, hle⟩
    exact hle
  · intro hle
    exact ⟨_, ⟨by omega, rfl⟩, _, ⟨by omega, rfl⟩, _, ⟨by omega, rfl⟩, hle⟩

theorem of_vaultChecked {x : Except ProgramError Accounts} {a : Accounts}
    (h : vaultChecked x = .ok a) : x = .ok a := by
  simp only [vaultChecked, bind_eq_ok_iff, pure_eq_ok] at h
  obtain ⟨a', hx, -, -, rfl⟩ := h
  exact hx

theorem vaultChecked_ensures {x : Except ProgramError Accounts} {Q : Accounts → Prop}
    (h : Ensures x Q) : Ensures (vaultChecked x) Q :=
  fun a ha ↦ h a (of_vaultChecked ha)

theorem vaultChecked_eq {x : Except ProgramError Accounts}
    (h : ∀ a, x = .ok a → tracked a.state.market ≤ a.state.coll.balance .vault) :
    vaultChecked x = x := by
  cases x with
  | error e => rfl
  | ok a =>
    have hok : assertCollateralVaultSufficiency (a.state.coll.balance .vault) a.state.market
        = .ok () :=
      (assertCollateralVaultSufficiency_eq_ok (a.state.coll.balance_lt _)).mpr (h a rfl)
    simp only [vaultChecked, ok_bind, hok]
    rfl

end FusionCore
