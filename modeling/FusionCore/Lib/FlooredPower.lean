import Mathlib.Algebra.Order.Field.Basic
import Mathlib.Data.Nat.Cast.Order.Field
import Mathlib.Data.Nat.EvenOddRec
import Mathlib.Data.Rat.Cast.Order
import Mathlib.Tactic.FieldSimp
import Mathlib.Tactic.GCongr
import Mathlib.Tactic.Linarith
import Mathlib.Tactic.Ring

/-!
# Powers that round down

A number up to the unit `R` stands for a fraction of it, and a product of two such numbers is
rounded down.  Square and multiply rounds at every product, in an order that depends on the bits
of the exponent.  Every rounding loses less than one unit, and a factor of at most one does not
enlarge what was lost before, so the loss is at most one unit for each time the base occurs.
-/

namespace FlooredPower

variable (R : ℕ)

def mul (a b : ℕ) : ℕ := a * b / R

/-- `z` times the power `e` of `b`, from the lowest bit of `e` on. -/
def mulPow (z b e : ℕ) : ℕ :=
  if e = 0 then z
  else mulPow (if e % 2 = 1 then mul R z b else z) (mul R b b) (e / 2)
termination_by e
decreasing_by omega

def pow (b e : ℕ) : ℕ := mulPow R R b e

variable {R} {a a' b b' z z' w e : ℕ}

/-! ## Products -/

theorem mul_le_mul (ha : a ≤ a') (hb : b ≤ b') : mul R a b ≤ mul R a' b' :=
  Nat.div_le_div_right (Nat.mul_le_mul ha hb)

theorem mul_le_left (hb : b ≤ R) : mul R a b ≤ a := by
  apply Nat.div_le_of_le_mul
  rw [Nat.mul_comm R a]
  exact Nat.mul_le_mul_left a hb

theorem unit_mul (hR : 0 < R) (b : ℕ) : mul R R b = b := Nat.mul_div_cancel_left b hR

theorem mul_unit (hR : 0 < R) (a : ℕ) : mul R a R = a := Nat.mul_div_cancel a hR

/-- A product is less than one unit below the exact one. -/
theorem mul_bounds (hR : 0 < R) (a b : ℕ) :
    (mul R a b : ℚ) ≤ a * b / R ∧ (a * b / R : ℚ) ≤ mul R a b + 1 := by
  have hR' : (0 : ℚ) < R := Nat.cast_pos.mpr hR
  have hlt : a * b < R * (mul R a b + 1) := Nat.lt_mul_div_succ (a * b) hR
  constructor
  · rw [← Nat.cast_mul]
    exact Nat.cast_div_le
  · rw [div_le_iff₀' hR']
    exact_mod_cast hlt.le

/-- What two factors fall short of, their product falls short of together, up to one unit. -/
theorem mul_approx {A B δ ε : ℚ} (hR : 0 < R) (ha : a ≤ R) (hA : (a : ℚ) ≤ A) (hA' : A ≤ a + δ)
    (hB : (b : ℚ) ≤ B) (hB' : B ≤ b + ε) (hBR : B ≤ R) :
    (mul R a b : ℚ) ≤ A * B / R ∧ A * B / R ≤ mul R a b + (δ + ε + 1) := by
  have hR' : (0 : ℚ) < R := Nat.cast_pos.mpr hR
  have ha' : (a : ℚ) ≤ R := Nat.cast_le.mpr ha
  have hA₀ : 0 ≤ A := (Nat.cast_nonneg a).trans hA
  obtain ⟨hlow, hhigh⟩ := mul_bounds hR a b
  constructor
  · refine hlow.trans ?_
    gcongr
  · have hsplit : A * B - a * b ≤ (δ + ε) * R := by
      calc
        A * B - a * b = (A - a) * B + a * (B - b) := by ring
        _ ≤ (A - a) * R + R * (B - b) := by
          have hA' := sub_nonneg.mpr hA
          have hB' := sub_nonneg.mpr hB
          gcongr
        _ ≤ δ * R + R * ε := by
          gcongr
          · exact sub_le_iff_le_add'.mpr hA'
          · exact sub_le_iff_le_add'.mpr hB'
        _ = (δ + ε) * R := by ring
    have hquot : A * B / R ≤ a * b / R + (δ + ε) := by
      rw [div_add' _ _ _ hR'.ne']
      gcongr
      linarith
    linarith

/-! ## Square and multiply -/

@[simp] theorem mulPow_zero (z b : ℕ) : mulPow R z b 0 = z := by
  rw [mulPow, if_pos rfl]

theorem mulPow_double (z b m : ℕ) : mulPow R z b (2 * m) = mulPow R z (mul R b b) m := by
  cases m with
  | zero => rw [Nat.mul_zero, mulPow_zero, mulPow_zero]
  | succ m =>
    have hdiv : 2 * (m + 1) / 2 = m + 1 := Nat.mul_div_cancel_left _ two_pos
    rw [mulPow, if_neg (by omega), if_neg (by omega), hdiv]

theorem mulPow_double_add_one (z b m : ℕ) :
    mulPow R z b (2 * m + 1) = mulPow R (mul R z b) (mul R b b) m := by
  have hdiv : (2 * m + 1) / 2 = m := by omega
  rw [mulPow, if_neg (by omega), if_pos (by omega), hdiv]

theorem mulPow_le_mulPow (hz : z ≤ z') (hb : b ≤ b') : mulPow R z b e ≤ mulPow R z' b' e := by
  induction e using Nat.evenOddRec generalizing z z' b b' with
  | h0 => rwa [mulPow_zero, mulPow_zero]
  | h_even m ih =>
    rw [mulPow_double, mulPow_double]
    exact ih hz (mul_le_mul hb hb)
  | h_odd m ih =>
    rw [mulPow_double_add_one, mulPow_double_add_one]
    exact ih (mul_le_mul hz hb) (mul_le_mul hb hb)

theorem mulPow_le (hb : b ≤ R) : mulPow R z b e ≤ z := by
  induction e using Nat.evenOddRec generalizing z b with
  | h0 => rw [mulPow_zero]
  | h_even m ih =>
    rw [mulPow_double]
    exact ih ((mul_le_left hb).trans hb)
  | h_odd m ih =>
    rw [mulPow_double_add_one]
    exact (ih ((mul_le_left hb).trans hb)).trans (mul_le_left hb)

/-- One more factor, taken in at the lowest unset bit: the ones below it are cleared, and what they
had multiplied up is at least the square that replaces it. -/
theorem mulPow_succ_le (hR : 0 < R) (hw : b ≤ w) :
    mulPow R R b (e + 1) ≤ mulPow R w b e := by
  induction e using Nat.evenOddRec generalizing b w with
  | h0 =>
    rw [mulPow_zero, ← Nat.mul_zero 2, mulPow_double_add_one, mulPow_zero, unit_mul hR]
    exact hw
  | h_even m ih =>
    rw [mulPow_double, mulPow_double_add_one, unit_mul hR]
    exact mulPow_le_mulPow hw le_rfl
  | h_odd m ih =>
    rw [show 2 * m + 1 + 1 = 2 * (m + 1) by ring, mulPow_double, mulPow_double_add_one]
    exact ih (mul_le_mul hw le_rfl)

/-! ## The power -/

theorem pow_le_unit (hb : b ≤ R) : pow R b e ≤ R := mulPow_le hb

theorem pow_le_pow_left (hb : b ≤ b') : pow R b e ≤ pow R b' e := mulPow_le_mulPow le_rfl hb

theorem pow_antitone (hR : 0 < R) (hb : b ≤ R) : Antitone (pow R b) :=
  antitone_nat_of_succ_le fun _ ↦ mulPow_succ_le hR hb

section Approximation

variable {Z B δ ε : ℚ}

theorem square_div_le (hR : 0 < R) (hB : 0 ≤ B) (hBR : B ≤ R) : B * B / R ≤ R := by
  rw [div_le_iff₀ (Nat.cast_pos.mpr hR)]
  gcongr

theorem div_pow_double (B : ℚ) (m : ℕ) : (B / R) ^ (2 * m) = (B * B / R / R) ^ m := by
  rw [pow_mul]
  congr 1
  ring

/-- How far a power is from the exact one, when its start falls short by at most `δ` and its base
by at most `ε`. -/
theorem mulPow_approx (hR : 0 < R) (hz : z ≤ R) (hb : b ≤ R) (hZ : (z : ℚ) ≤ Z) (hZ' : Z ≤ z + δ)
    (hB : (b : ℚ) ≤ B) (hB' : B ≤ b + ε) (hBR : B ≤ R) :
    (mulPow R z b e : ℚ) ≤ Z * (B / R) ^ e ∧
      Z * (B / R) ^ e ≤ mulPow R z b e + (δ + e * (ε + 1)) := by
  induction e using Nat.evenOddRec generalizing z b Z B δ ε with
  | h0 =>
    rw [mulPow_zero, pow_zero, mul_one, Nat.cast_zero, zero_mul, add_zero]
    exact ⟨hZ, hZ'⟩
  | h_even m ih =>
    -- the base is squared: it falls short by `2 * ε + 1`, and occurs half as often
    obtain ⟨hs, hs'⟩ := mul_approx hR hb hB hB' hB hB' hBR
    have hsR := square_div_le hR ((Nat.cast_nonneg b).trans hB) hBR
    obtain ⟨hlow, hhigh⟩ := ih hz ((mul_le_left hb).trans hb) hZ hZ' hs hs' hsR
    rw [mulPow_double, div_pow_double]
    refine ⟨hlow, hhigh.trans_eq ?_⟩
    push_cast
    ring
  | h_odd m ih =>
    obtain ⟨hs, hs'⟩ := mul_approx hR hb hB hB' hB hB' hBR
    obtain ⟨hp, hp'⟩ := mul_approx hR hz hZ hZ' hB hB' hBR
    have hsR := square_div_le hR ((Nat.cast_nonneg b).trans hB) hBR
    obtain ⟨hlow, hhigh⟩ :=
      ih ((mul_le_left hb).trans hz) ((mul_le_left hb).trans hb) hp hp' hs hs' hsR
    have hexact : Z * (B / R) ^ (2 * m + 1) = Z * B / R * (B * B / R / R) ^ m := by
      rw [← div_pow_double, pow_succ]
      ring
    rw [mulPow_double_add_one, hexact]
    refine ⟨hlow, hhigh.trans_eq ?_⟩
    push_cast
    ring

end Approximation

/-- A power is at most the exact one, and short of it by at most one unit for each factor. -/
theorem pow_approx (hR : 0 < R) (hb : b ≤ R) (e : ℕ) :
    (pow R b e : ℚ) ≤ R * (b / R) ^ e ∧ (R * (b / R) ^ e : ℚ) ≤ pow R b e + e := by
  have h := mulPow_approx (e := e) hR le_rfl hb le_rfl (add_zero _).ge le_rfl (add_zero _).ge
    (Nat.cast_le.mpr hb)
  rwa [zero_add, zero_add, mul_one] at h

end FlooredPower
