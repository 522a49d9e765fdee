import FusionCore.Math.FixedPoint

/-!
# Price scales

Feeds quote `price * 10 ^ expo`; the market stores fUSD units per unit of collateral.  Both are
brought to `RAY`-scaled dollars per whole token on the way.  Intermediate products live in 256
bits, results in 128.
-/

namespace FusionCore

open Checked

def FUSD_DECIMALS : ℕ := 6

/-- `10 ^ e`, as far as the source computes it. -/
def tenPow (e : ℕ) : Option ℕ := if 60 < e then none else some (10 ^ e)

/-- `price * 10 ^ expo`, scaled by `RAY`. -/
def pxToRay (price : ℕ) (expo : ℤ) : Option ℕ := do
  let base ← checkedMul 256 price RAY
  let scaled ← (if expo < 0 then (tenPow expo.natAbs).map (base / ·)
    else (tenPow expo.toNat).bind (checkedMul 256 base))
  tryFit 128 scaled

/-- From dollars per whole token to fUSD units per unit of collateral. -/
def usdRayToSpot (usdRay collDecimals fusdDecimals : ℕ) : Option ℕ := do
  let scale ← tenPow fusdDecimals
  let num ← checkedMul 256 usdRay scale
  let unit ← tenPow collDecimals
  tryFit 128 (num / unit)

/-- Price of a pool in quote tokens per base token, from the square root it stores in Q64.64. -/
def sqrtPriceQ64ToRay (sqrtPrice baseDecimals quoteDecimals : ℕ) : Option ℕ :=
  if sqrtPrice = 0 then none
  else do
    let sq ← checkedMul 256 sqrtPrice sqrtPrice
    let scaled ← checkedMul 256 (sq / 2 ^ 64) RAY
    let base ← tenPow baseDecimals
    let num ← checkedMul 256 (scaled / 2 ^ 64) base
    let quote ← tenPow quoteDecimals
    tryFit 128 (num / quote)

def rayDiv (a b : ℕ) : Option ℕ := mulDivFloor a RAY b

theorem pxToRay_lt {price q : ℕ} {expo : ℤ} (h : pxToRay price expo = some q) : q < 2 ^ 128 := by
  simp only [pxToRay, Option.bind_eq_bind, Option.bind_eq_some_iff, tryFit_eq_some] at h
  obtain ⟨_, -, _, -, hfit, rfl⟩ := h
  exact hfit

theorem usdRayToSpot_lt {usd coll fusd q : ℕ} (h : usdRayToSpot usd coll fusd = some q) :
    q < 2 ^ 128 := by
  simp only [usdRayToSpot, Option.bind_eq_bind, Option.bind_eq_some_iff, tryFit_eq_some] at h
  obtain ⟨_, -, _, -, _, -, hfit, rfl⟩ := h
  exact hfit

theorem usdRayToSpot_mono {lo hi coll fusd x y : ℕ} (hle : lo ≤ hi)
    (hx : usdRayToSpot lo coll fusd = some x) (hy : usdRayToSpot hi coll fusd = some y) :
    x ≤ y := by
  simp only [usdRayToSpot, Option.bind_eq_bind, Option.bind_eq_some_iff, checkedMul_eq_some,
    tryFit_eq_some] at hx hy
  obtain ⟨scale, hscale, _, ⟨-, rfl⟩, unit, hunit, -, rfl⟩ := hx
  obtain ⟨scale', hscale', _, ⟨-, rfl⟩, unit', hunit', -, rfl⟩ := hy
  cases hscale.symm.trans hscale'
  cases hunit.symm.trans hunit'
  exact Nat.div_le_div_right (Nat.mul_le_mul_right scale hle)

end FusionCore
