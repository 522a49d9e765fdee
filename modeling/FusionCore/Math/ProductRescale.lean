import FusionCore.Math.ReactorPool
import Mathlib.Algebra.Order.Field.Basic
import Mathlib.Data.Nat.Cast.Order.Field
import Mathlib.Data.Rat.Cast.Order
import Mathlib.Order.Bounds.Basic
import Mathlib.Tactic.FieldSimp

/-!
# Rescaling the product of the Reactor Pool

An offset multiplies the product of the pool by a factor and, as long as the result has too few
digits, moves it up by one scale.  The loop ends at the first scale at which the product has nine
digits to spare, so rounding costs it less than a billionth.  The version that is used for model
checking works in 128 bits; it agrees with the shipped one wherever the first product fits.
-/

namespace FusionCore

open Checked

/-! ## The 128-bit version -/

def updateProductU128Loop : (rounds num bumps : ℕ) → Except ReactorError (ℕ × ℕ)
  | 0, _, _ => .error .math
  | rounds + 1, num, bumps =>
      let newP := num / DECIMAL_PRECISION
      if SCALE_FACTOR ≤ newP then .ok (newP, bumps)
      else do
        let num ← okOr (checkedMul 128 num SCALE_FACTOR) .math
        updateProductU128Loop rounds num (bumps + 1)

def updateProductU128 (p factor : ℕ) : Except ReactorError (ℕ × ℕ) := do
  let num ← okOr (checkedMul 128 p factor) .math
  updateProductU128Loop 5 num 0

/-- A product that is moved up was small, so it still fits. -/
theorem updateProductU128Loop_eq {num : ℕ} (hnum : num < 2 ^ 128) (rounds bumps : ℕ) :
    updateProductU128Loop rounds num bumps = updateProductLoop rounds num bumps := by
  induction rounds generalizing num bumps with
  | zero => rfl
  | succ rounds ih =>
    by_cases hle : SCALE_FACTOR ≤ num / DECIMAL_PRECISION
    · have hfit : num / DECIMAL_PRECISION < 2 ^ 128 := (Nat.div_le_self _ _).trans_lt hnum
      rw [updateProductLoop_stop rounds bumps hle hfit]
      simp only [updateProductU128Loop, if_pos hle]
    · have hsmall : num < SCALE_FACTOR * DECIMAL_PRECISION :=
        (Nat.div_lt_iff_lt_mul (by decide)).mp (not_le.mp hle)
      have hfit : num * SCALE_FACTOR < 2 ^ 128 := by
        have hlt := Nat.mul_lt_mul_of_pos_right hsmall (by decide : 0 < SCALE_FACTOR)
        exact hlt.trans (by decide)
      have hmul : checkedMul 128 num SCALE_FACTOR = some (num * SCALE_FACTOR) :=
        checkedMul_eq_some.mpr ⟨hfit, rfl⟩
      rw [updateProductLoop_bump rounds bumps (not_le.mp hle), ← ih hfit]
      simp only [updateProductU128Loop, if_neg hle, hmul, okOr_some, ok_bind]

theorem updateProductU128_eq {p factor : ℕ} (h : p * factor < 2 ^ 128) :
    updateProductU128 p factor = updateProduct p factor := by
  have hmul : checkedMul 128 p factor = some (p * factor) := checkedMul_eq_some.mpr ⟨h, rfl⟩
  rw [updateProductU128, hmul, okOr_some, ok_bind, updateProductU128Loop_eq h, updateProduct]

/-! ## Precision -/

/-- A quotient of at least `s` loses less than one part in `s` when it is rounded down. -/
theorem floor_loss_lt {n d s : ℕ} (hd : 0 < d) (hs : 0 < s) (h : s ≤ n / d) :
    (1 : ℚ) - (n / d : ℕ) * d / n < 1 / s := by
  have hmul : s * d ≤ n := (Nat.le_div_iff_mul_le hd).mp h
  have hn : 0 < n := (Nat.mul_pos hs hd).trans_le hmul
  have hn' : (0 : ℚ) < n := Nat.cast_pos.mpr hn
  have hs' : (0 : ℚ) < s := Nat.cast_pos.mpr hs
  have hrem : (n : ℚ) - (n / d : ℕ) * d < d := by
    have hlt : n < d * (n / d + 1) := Nat.lt_mul_div_succ n hd
    have hlt' : (n : ℚ) < d * ((n / d : ℕ) + 1) := by exact_mod_cast hlt
    linarith
  calc
    (1 : ℚ) - (n / d : ℕ) * d / n = (n - (n / d : ℕ) * d) / n := by field_simp
    _ < d / n := by gcongr
    _ ≤ 1 / s := by
      rw [div_le_div_iff₀ hn' hs', one_mul, mul_comm]
      exact_mod_cast hmul

theorem updateProduct_isLeast {p factor p' bumps : ℕ}
    (h : updateProduct p factor = .ok (p', bumps)) :
    IsLeast {k | SCALE_FACTOR ≤ p * factor * SCALE_FACTOR ^ k / DECIMAL_PRECISION} bumps := by
  obtain ⟨rfl, hle, hprev⟩ := updateProduct_spec h
  constructor
  · exact hle
  · intro k hk
    by_contra! hlt
    have hmono : p * factor * SCALE_FACTOR ^ k / DECIMAL_PRECISION ≤
        p * factor * SCALE_FACTOR ^ (bumps - 1) / DECIMAL_PRECISION := by
      apply Nat.div_le_div_right
      apply Nat.mul_le_mul_left
      exact Nat.pow_le_pow_right (by decide) (Nat.le_sub_one_of_lt hlt)
    exact absurd (hk.trans hmono) (not_le.mpr (hprev (Nat.zero_lt_of_lt hlt)))

/-- For every product and factor of the pool the rescaling succeeds within two bumps, at the first
scale that is large enough, stays in range, loses less than a billionth, and is what the 128-bit
version computes. -/
theorem updateProduct_rescales {p factor : ℕ} (hp : SCALE_FACTOR ≤ p) (hp' : p ≤ DECIMAL_PRECISION)
    (hf : 0 < factor) (hf' : factor ≤ DECIMAL_PRECISION) :
    ∃ q bumps, updateProduct p factor = .ok (q, bumps) ∧ bumps ≤ 2 ∧
      SCALE_FACTOR ≤ q ∧ q ≤ DECIMAL_PRECISION ∧
      q = p * factor * SCALE_FACTOR ^ bumps / DECIMAL_PRECISION ∧
      IsLeast {k | SCALE_FACTOR ≤ p * factor * SCALE_FACTOR ^ k / DECIMAL_PRECISION} bumps ∧
      (1 : ℚ) - q * DECIMAL_PRECISION / (p * factor * SCALE_FACTOR ^ bumps) < 1 / 10 ^ 9 ∧
      updateProductU128 p factor = .ok (q, bumps) := by
  obtain ⟨q, hq⟩ := updateProduct_eq hp hp' hf hf'
  obtain ⟨hfloor, hle, -⟩ := updateProduct_spec hq
  have hbumps : scaleBumps (p * factor) ≤ 2 := by
    unfold scaleBumps
    split_ifs <;> omega
  have hfit : p * factor < 2 ^ 128 := (Nat.mul_le_mul hp' hf').trans_lt (by decide)
  have hloss : (1 : ℚ) - q * DECIMAL_PRECISION /
      (p * factor * SCALE_FACTOR ^ scaleBumps (p * factor) : ℕ) < 1 / SCALE_FACTOR := by
    rw [hfloor] at hle ⊢
    exact floor_loss_lt (by decide) (by decide) hle
  refine ⟨q, _, hq, hbumps, hle, updateProduct_le hp' hf' hq, hfloor, updateProduct_isLeast hq,
    ?_, ?_⟩
  · have hscale : (SCALE_FACTOR : ℚ) = 10 ^ 9 := by norm_num [SCALE_FACTOR]
    rw [hscale] at hloss
    push_cast at hloss
    rw [hscale] at hloss ⊢
    exact hloss
  · rw [updateProductU128_eq hfit, hq]

/-- The smallest factor moves the smallest product up twice. -/
theorem updateProduct_rescales_sample :
    updateProduct SCALE_FACTOR 1 = .ok (SCALE_FACTOR, 2) ∧
      updateProductU128 SCALE_FACTOR 1 = .ok (SCALE_FACTOR, 2) := by
  have hrun : updateProduct SCALE_FACTOR 1 = .ok (SCALE_FACTOR, 2) := by rfl
  have hhigh : SCALE_FACTOR ≤ DECIMAL_PRECISION := by decide
  have hone : 1 ≤ DECIMAL_PRECISION := by decide
  obtain ⟨q, bumps, hq, -, -, -, -, -, -, htwin⟩ :=
    updateProduct_rescales le_rfl hhigh Nat.one_pos hone
  exact ⟨hrun, htwin.trans (hq.symm.trans hrun)⟩

end FusionCore
