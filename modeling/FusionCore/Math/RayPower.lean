import FusionCore.Lib.FlooredPower
import FusionCore.Math.FixedPoint

/-!
# Powers of a rate

`ray_pow` squares and multiplies, rounding down at every product.  For a base of at most one it
never overflows, so it is the power of the library at the unit `RAY`: a lower approximation that
falls with the exponent.  The decay of the redemption base rate inherits this.
-/

namespace FusionCore

open Checked FlooredPower

/-! ## The loop -/

theorem rayMul_eq {a b : ℕ} (ha : a < 2 ^ 128) (hb : b ≤ RAY) :
    rayMul a b = some (mul RAY a b) :=
  rayMul_eq_some.mpr ⟨(mul_le_left hb).trans_lt ha, rfl⟩

theorem lt_of_le_RAY {a : ℕ} (ha : a ≤ RAY) : a < 2 ^ 128 := ha.trans_lt (by decide)

/-- The loop squares before it multiplies. -/
theorem rayPowLoop_eq {z b : ℕ} (hz : z ≤ RAY) (hb : b ≤ RAY) (exp : ℕ) :
    rayPowLoop z b exp = some (mulPow RAY z (mul RAY b b) exp) := by
  induction exp using Nat.strong_induction_on generalizing z b with
  | _ exp ih =>
    rw [rayPowLoop, mulPow]
    by_cases hexp : exp = 0
    · rw [if_pos hexp, if_pos hexp]
    · have hsquare : mul RAY b b ≤ RAY := (mul_le_left hb).trans hb
      have hhalf : exp / 2 < exp := by omega
      rw [if_neg hexp, if_neg hexp, rayMul_eq (lt_of_le_RAY hb) hb, Option.bind_eq_bind,
        Option.bind_some]
      by_cases hodd : exp % 2 = 1
      · rw [if_pos hodd, if_pos hodd, rayMul_eq (lt_of_le_RAY hz) hsquare]
        exact ih _ hhalf ((mul_le_left hsquare).trans hz) hsquare
      · rw [if_neg hodd, if_neg hodd]
        exact ih _ hhalf hz hsquare

theorem rayPow_eq {base : ℕ} (hbase : base ≤ RAY) (exp : ℕ) :
    rayPow base exp = some (pow RAY base exp) := by
  have hstart : (if exp % 2 = 1 then base else RAY) ≤ RAY := by
    split
    · exact hbase
    · exact le_rfl
  rw [rayPow, rayPowLoop_eq hstart hbase, FlooredPower.pow]
  obtain ⟨m, rfl | rfl⟩ := Nat.even_or_odd' exp
  · have hhalf : 2 * m / 2 = m := Nat.mul_div_cancel_left m two_pos
    rw [if_neg (by omega), hhalf, mulPow_double]
  · have hhalf : (2 * m + 1) / 2 = m := by omega
    rw [if_pos (by omega), hhalf, mulPow_double_add_one, unit_mul RAY_pos]

/-! ## Decay -/

theorem decay_le_one : BASE_RATE_DECAY_PER_MINUTE ≤ RAY := by decide

theorem decayBaseRate_eq {rate : ℕ} (hrate : rate < 2 ^ 128) (secs : ℕ) :
    decayBaseRate rate secs =
      mul RAY rate (pow RAY BASE_RATE_DECAY_PER_MINUTE (secs / 60)) := by
  have hstart : mul RAY rate (pow RAY BASE_RATE_DECAY_PER_MINUTE 0) = rate := by
    rw [FlooredPower.pow, mulPow_zero, mul_unit RAY_pos]
  unfold decayBaseRate
  by_cases hzero : rate = 0 ∨ secs = 0
  · rw [if_pos hzero]
    obtain rfl | rfl := hzero
    · rw [mul, Nat.zero_mul, Nat.zero_div]
    · exact hstart.symm
  · rw [if_neg hzero]
    by_cases hminutes : secs / 60 = 0
    · rw [if_pos hminutes, hminutes, hstart]
    · rw [if_neg hminutes, rayPow_eq decay_le_one, Option.getD_some,
        rayMul_eq hrate (pow_le_unit decay_le_one), Option.getD_some]

/-! ## Powers and decay -/

/-- The exact power of a rate, as a rate. -/
def exactPow (base n : ℕ) : ℚ := if n = 0 then RAY else (base : ℚ) ^ n / (RAY : ℚ) ^ (n - 1)

theorem exactPow_eq (base n : ℕ) : exactPow base n = RAY * (base / RAY) ^ n := by
  have hray : (RAY : ℚ) ≠ 0 := Nat.cast_ne_zero.mpr RAY_pos.ne'
  unfold exactPow
  cases n with
  | zero => rw [if_pos rfl, pow_zero, mul_one]
  | succ n =>
    rw [if_neg n.succ_ne_zero, Nat.add_sub_cancel, div_pow, pow_succ (RAY : ℚ) n]
    field_simp

/-- A power of a base of at most one is there, at most the exact power and at most `n` units below
it; it falls with the exponent and grows with the base.  A decayed rate is at most the rate, and
falls with the time that has passed. -/
theorem rayPow_approx {base : ℕ} (hbase : base ≤ RAY) (n : ℕ) :
    (∃ r, rayPow base n = some r ∧ (r : ℚ) ≤ exactPow base n ∧ exactPow base n ≤ r + n ∧
      (∀ m ≤ n, ∀ q, rayPow base m = some q → r ≤ q) ∧
      ∀ base' ≤ base, ∀ q, rayPow base' n = some q → q ≤ r) ∧
    ∀ rate < 2 ^ 128, ∀ secs : ℤ, decayBaseRate rate secs.toNat ≤ rate ∧
      ∀ secs' ≥ secs, decayBaseRate rate secs'.toNat ≤ decayBaseRate rate secs.toNat := by
  constructor
  · obtain ⟨hlow, hhigh⟩ := pow_approx RAY_pos hbase n
    rw [exactPow_eq]
    refine ⟨_, rayPow_eq hbase n, hlow, hhigh, ?_, ?_⟩
    · intro m hm q hq
      rw [rayPow_eq hbase, Option.some.injEq] at hq
      rw [← hq]
      exact pow_antitone RAY_pos hbase hm
    · intro base' hle q hq
      rw [rayPow_eq (hle.trans hbase), Option.some.injEq] at hq
      rw [← hq]
      exact pow_le_pow_left hle
  · intro rate hrate secs
    rw [decayBaseRate_eq hrate]
    refine ⟨mul_le_left (pow_le_unit decay_le_one), ?_⟩
    intro secs' hle
    rw [decayBaseRate_eq hrate]
    apply mul_le_mul le_rfl
    apply pow_antitone RAY_pos decay_le_one
    exact Nat.div_le_div_right (Int.toNat_le_toNat hle)

/-- Six hours of decay halve a rate, up to rounding. -/
theorem rayPow_approx_sample :
    (∃ r, rayPow BASE_RATE_DECAY_PER_MINUTE 360 = some r ∧
      (r : ℚ) ≤ exactPow BASE_RATE_DECAY_PER_MINUTE 360 ∧
        exactPow BASE_RATE_DECAY_PER_MINUTE 360 ≤ r + (360 : ℕ)) ∧
      decayBaseRate (RAY / 20) (Int.toNat 21600) ≤ decayBaseRate (RAY / 20) (Int.toNat 60) := by
  obtain ⟨⟨r, hr, hlow, hhigh, -⟩, hdecay⟩ := rayPow_approx decay_le_one 360
  refine ⟨⟨r, hr, hlow, hhigh⟩, ?_⟩
  exact (hdecay (RAY / 20) (by decide) 60).2 21600 (by decide)

end FusionCore
