import FusionCore.Lib.Outcome
import FusionCore.Math.Redistribution
import Mathlib.Algebra.Order.Floor.Div
import Mathlib.Data.Nat.Bitwise

/-!
# The 256-bit shim

The model checker cannot follow a general 256-bit division, so `fusd-math` has a second version of
its core: a product in 64-bit limbs and a division bit by bit.  It is compiled with overflow
checks; here it is shown that none of them fires and that both versions compute the same.
-/

namespace FusionCore

open Checked Outcome

/-! ## The product -/

def LOW_MASK : ℕ := 2 ^ 64 - 1

def wideMul (a b : ℕ) : Outcome Unit (ℕ × ℕ) := do
  let a0 := a &&& LOW_MASK
  let a1 := a >>> 64
  let b0 := b &&& LOW_MASK
  let b1 := b >>> 64
  let loLo ← mul 128 a0 b0
  let mid1 ← mul 128 a1 b0
  let mid2 ← mul 128 a0 b1
  let hiHi ← mul 128 a1 b1
  -- the middle terms weigh `2 ^ 64`, like the carry out of the low limb
  let cross ← add 128 (loLo >>> 64) (mid1 &&& LOW_MASK)
  let cross ← add 128 cross (mid2 &&& LOW_MASK)
  let lo := (loLo &&& LOW_MASK) ||| truncate 128 (cross <<< 64)
  let hi ← add 128 hiHi (mid1 >>> 64)
  let hi ← add 128 hi (mid2 >>> 64)
  let hi ← add 128 hi (cross >>> 64)
  pure (hi, lo)

theorem and_lowMask (x : ℕ) : x &&& LOW_MASK = x % 2 ^ 64 := Nat.and_two_pow_sub_one_eq_mod x 64

theorem low_or_shifted (x y : ℕ) :
    x % 2 ^ 64 ||| truncate 128 (y <<< 64) = y % 2 ^ 64 * 2 ^ 64 + x % 2 ^ 64 := by
  have hshift : truncate 128 (y <<< 64) = 2 ^ 64 * (y % 2 ^ 64) := by
    rw [truncate, Nat.shiftLeft_eq]
    omega
  rw [hshift, Nat.or_comm, ← Nat.two_pow_add_eq_or_of_lt (Nat.mod_lt _ (by decide)), Nat.mul_comm]

/-- The limbs of a product, and the sum that they stand for. -/
theorem mul_eq_limbs (a b : ℕ) :
    a * b = (a / 2 ^ 64 * (b / 2 ^ 64)) * 2 ^ 128 +
      (a / 2 ^ 64 * (b % 2 ^ 64) + a % 2 ^ 64 * (b / 2 ^ 64)) * 2 ^ 64 +
      a % 2 ^ 64 * (b % 2 ^ 64) := by
  conv_lhs => rw [← Nat.div_add_mod a (2 ^ 64), ← Nat.div_add_mod b (2 ^ 64)]
  ring

theorem limb_mul_le {x y : ℕ} (hx : x < 2 ^ 64) (hy : y < 2 ^ 64) :
    x * y ≤ (2 ^ 64 - 1) * (2 ^ 64 - 1) :=
  Nat.mul_le_mul (Nat.le_sub_one_of_lt hx) (Nat.le_sub_one_of_lt hy)

theorem limbs_add_eq {p₀₀ p₁₀ p₀₁ p₁₁ : ℕ} (h₀₀ : p₀₀ ≤ (2 ^ 64 - 1) * (2 ^ 64 - 1))
    (h₁₀ : p₁₀ ≤ (2 ^ 64 - 1) * (2 ^ 64 - 1)) (h₀₁ : p₀₁ ≤ (2 ^ 64 - 1) * (2 ^ 64 - 1))
    (h₁₁ : p₁₁ ≤ (2 ^ 64 - 1) * (2 ^ 64 - 1)) :
    let n := p₁₁ * 2 ^ 128 + (p₁₀ + p₀₁) * 2 ^ 64 + p₀₀
    (do
      let cross ← add 128 (p₀₀ / 2 ^ 64) (p₁₀ % 2 ^ 64)
      let cross ← add 128 cross (p₀₁ % 2 ^ 64)
      let hi ← add 128 p₁₁ (p₁₀ / 2 ^ 64)
      let hi ← add 128 hi (p₀₁ / 2 ^ 64)
      let hi ← add 128 hi (cross / 2 ^ 64)
      pure (hi, cross % 2 ^ 64 * 2 ^ 64 + p₀₀ % 2 ^ 64) : Outcome Unit (ℕ × ℕ)) =
      .ok (n / 2 ^ 128, n % 2 ^ 128) := by
  intro n
  rw [add_bind (by omega), add_bind (by omega), add_bind (by omega), add_bind (by omega),
    add_bind (by omega), pure_eq]
  congr 2 <;> omega

theorem wideMul_eq {a b : ℕ} (ha : a < 2 ^ 128) (hb : b < 2 ^ 128) :
    wideMul a b = .ok (a * b / 2 ^ 128, a * b % 2 ^ 128) := by
  have ha₁ : a / 2 ^ 64 < 2 ^ 64 := by omega
  have hb₁ : b / 2 ^ 64 < 2 ^ 64 := by omega
  have ha₀ : a % 2 ^ 64 < 2 ^ 64 := Nat.mod_lt _ (by decide)
  have hb₀ : b % 2 ^ 64 < 2 ^ 64 := Nat.mod_lt _ (by decide)
  have h₀₀ := limb_mul_le ha₀ hb₀
  have h₁₀ := limb_mul_le ha₁ hb₀
  have h₀₁ := limb_mul_le ha₀ hb₁
  have h₁₁ := limb_mul_le ha₁ hb₁
  have hmax : (2 ^ 64 - 1) * (2 ^ 64 - 1) < 2 ^ 128 := by decide
  simp only [wideMul, and_lowMask, Nat.shiftRight_eq_div_pow, low_or_shifted]
  rw [mul_bind (h₀₀.trans_lt hmax), mul_bind (h₁₀.trans_lt hmax), mul_bind (h₀₁.trans_lt hmax),
    mul_bind (h₁₁.trans_lt hmax), mul_eq_limbs a b]
  exact limbs_add_eq h₀₀ h₁₀ h₀₁ h₁₁

/-! ## The division -/

/-- Bit `i` of the 256-bit number `hi * 2 ^ 128 + lo`. -/
def numeratorBit (hi lo i : ℕ) : ℕ :=
  if 128 ≤ i then (hi >>> (i - 128)) &&& 1 else (lo >>> i) &&& 1

/-- The division loop with `i` bits left. -/
def divLoop (hi lo denom : ℕ) : (i rem quo : ℕ) → ℕ × ℕ
  | 0, rem, quo => (quo, rem)
  | i + 1, rem, quo =>
      let bit := numeratorBit hi lo i
      -- the top bit that the shift below drops
      let carry := rem >>> 127
      let rem := truncate 128 (rem <<< 1) ||| bit
      let quo := truncate 128 (quo <<< 1)
      if carry = 1 ∨ denom ≤ rem then divLoop hi lo denom i (wrappingSub 128 rem denom) (quo ||| 1)
      else divLoop hi lo denom i rem quo

def div256By128 (hi lo denom : ℕ) : Option (ℕ × ℕ) :=
  if denom ≤ hi then none
  else if hi = 0 then some (lo / denom, lo % denom)
  else some (divLoop hi lo denom 256 0 0)

theorem numeratorBit_eq {hi lo : ℕ} (hlo : lo < 2 ^ 128) (i : ℕ) :
    numeratorBit hi lo i = (hi * 2 ^ 128 + lo) / 2 ^ i % 2 := by
  unfold numeratorBit
  rw [Nat.and_one_is_mod, Nat.and_one_is_mod, Nat.shiftRight_eq_div_pow, Nat.shiftRight_eq_div_pow]
  split
  next hle =>
    have hpow : 2 ^ i = 2 ^ 128 * 2 ^ (i - 128) := by rw [← pow_add, Nat.add_sub_cancel' hle]
    have hhigh : (hi * 2 ^ 128 + lo) / 2 ^ 128 = hi := by omega
    rw [hpow, ← Nat.div_div_eq_div_mul, hhigh]
  next hlt =>
    -- below bit 128 the high half only adds an even number
    have hpow : hi * 2 ^ 128 = 2 ^ i * (2 * (hi * 2 ^ (127 - i))) := by
      have hsum : i + (1 + (127 - i)) = 128 := by omega
      rw [← hsum, pow_add, pow_add]
      ring
    rw [hpow, Nat.mul_add_div (Nat.two_pow_pos i), Nat.mul_add_mod]

theorem shifted_or_bit {rem bit : ℕ} (hbit : bit < 2) :
    truncate 128 (rem <<< 1) ||| bit = (2 * rem + bit) % 2 ^ 128 := by
  have hshift : truncate 128 (rem <<< 1) = 2 ^ 1 * (rem % 2 ^ 127) := by
    rw [truncate, Nat.shiftLeft_eq]
    omega
  rw [hshift, ← Nat.two_pow_add_eq_or_of_lt hbit]
  omega

/-- One step of long division in base two: the divisor goes into the shifted remainder once. -/
theorem div_mod_restore {n d bit : ℕ} (hd : 0 < d) (hbit : bit < 2)
    (hle : d ≤ 2 * (n % d) + bit) :
    (2 * n + bit) / d = 2 * (n / d) + 1 ∧ (2 * n + bit) % d = 2 * (n % d) + bit - d := by
  have hsplit : d * (n / d) + n % d = n := Nat.div_add_mod n d
  have hlt : n % d < d := Nat.mod_lt n hd
  apply (Nat.div_mod_unique hd).mpr
  refine ⟨?_, by omega⟩
  rw [Nat.mul_add, Nat.mul_left_comm]
  omega

theorem div_mod_shift {n d bit : ℕ} (hd : 0 < d) (hlt : 2 * (n % d) + bit < d) :
    (2 * n + bit) / d = 2 * (n / d) ∧ (2 * n + bit) % d = 2 * (n % d) + bit := by
  have hsplit : d * (n / d) + n % d = n := Nat.div_add_mod n d
  apply (Nat.div_mod_unique hd).mpr
  refine ⟨?_, hlt⟩
  rw [Nat.mul_left_comm]
  omega

theorem restore_iff {rem bit denom : ℕ} (hrem : rem < denom) (hdenom : denom < 2 ^ 128)
    (hbit : bit < 2) :
    (rem >>> 127 = 1 ∨ denom ≤ (2 * rem + bit) % 2 ^ 128) ↔ denom ≤ 2 * rem + bit := by
  rw [Nat.shiftRight_eq_div_pow]
  omega

/-- Subtracting modulo `2 ^ 128` makes up for the bit that the shift dropped. -/
theorem wrappingSub_eq {t denom : ℕ} (hle : denom ≤ t) (hlt : t < 2 * denom)
    (hdenom : denom < 2 ^ 128) : wrappingSub 128 (t % 2 ^ 128) denom = t - denom := by
  unfold wrappingSub
  omega

/-- The loop carries quotient and remainder of the bits that it has read. -/
theorem divLoop_eq {hi lo denom : ℕ} (hlo : lo < 2 ^ 128) (hdenom : denom < 2 ^ 128)
    (hhi : hi < denom) (i : ℕ) :
    divLoop hi lo denom i ((hi * 2 ^ 128 + lo) / 2 ^ i % denom)
      ((hi * 2 ^ 128 + lo) / 2 ^ i / denom) =
      ((hi * 2 ^ 128 + lo) / denom, (hi * 2 ^ 128 + lo) % denom) := by
  have hpos : 0 < denom := Nat.zero_lt_of_lt hhi
  have hquo (j : ℕ) : (hi * 2 ^ 128 + lo) / 2 ^ j / denom < 2 ^ 128 := by
    rw [Nat.div_lt_iff_lt_mul hpos]
    refine (Nat.div_le_self _ _).trans_lt ?_
    omega
  induction i with
  | zero => rw [pow_zero, Nat.div_one, divLoop]
  | succ i ih =>
    have hbit : numeratorBit hi lo i < 2 := by
      rw [numeratorBit_eq hlo]
      exact Nat.mod_lt _ two_pos
    have hnext : (hi * 2 ^ 128 + lo) / 2 ^ i =
        2 * ((hi * 2 ^ 128 + lo) / 2 ^ (i + 1)) + numeratorBit hi lo i := by
      rw [numeratorBit_eq hlo, pow_succ 2 i, ← Nat.div_div_eq_div_mul]
      exact (Nat.div_add_mod _ 2).symm
    have hq := hquo i
    rw [hnext] at ih hq
    generalize (hi * 2 ^ 128 + lo) / 2 ^ (i + 1) = n at *
    have hrem : n % denom < denom := Nat.mod_lt n hpos
    simp only [divLoop, shifted_or_bit hbit, restore_iff hrem hdenom hbit]
    by_cases hle : denom ≤ 2 * (n % denom) + numeratorBit hi lo i
    · obtain ⟨hdiv, hmod⟩ := div_mod_restore hpos hbit hle
      rw [hdiv] at hq ih
      rw [hmod] at ih
      rw [if_pos hle, wrappingSub_eq hle (by omega) hdenom, shifted_or_bit Nat.one_lt_two,
        Nat.mod_eq_of_lt hq]
      exact ih
    · obtain ⟨hdiv, hmod⟩ := div_mod_shift hpos (not_le.mp hle)
      rw [hdiv] at hq ih
      rw [hmod] at ih
      have hfit : 2 * (n % denom) + numeratorBit hi lo i < 2 ^ 128 := by omega
      have hshift : truncate 128 ((n / denom) <<< 1) = 2 * (n / denom) := by
        rw [Nat.shiftLeft_eq, pow_one, Nat.mul_comm]
        exact truncate_of_lt hq
      rw [if_neg hle, Nat.mod_eq_of_lt hfit, hshift]
      exact ih

theorem div256By128_eq {hi lo denom : ℕ} (hlo : lo < 2 ^ 128) (hdenom : denom < 2 ^ 128)
    (hpos : 0 < denom) :
    div256By128 hi lo denom = (tryFit 128 ((hi * 2 ^ 128 + lo) / denom)).map fun q ↦
      (q, (hi * 2 ^ 128 + lo) % denom) := by
  have hfits : (hi * 2 ^ 128 + lo) / denom < 2 ^ 128 ↔ hi < denom := by
    rw [Nat.div_lt_iff_lt_mul hpos]
    omega
  unfold div256By128 tryFit
  by_cases hle : denom ≤ hi
  · rw [if_pos hle, if_neg (by omega), Option.map_none]
  · have hhi : hi < denom := not_le.mp hle
    rw [if_neg hle, if_pos (hfits.mpr hhi), Option.map_some]
    by_cases hzero : hi = 0
    · rw [if_pos hzero, hzero, Nat.zero_mul, Nat.zero_add]
    · have hstart : (hi * 2 ^ 128 + lo) / 2 ^ 256 = 0 := by
        apply Nat.div_eq_of_lt
        omega
      have hrun := divLoop_eq hlo hdenom hhi 256
      rw [hstart, Nat.zero_mod, Nat.zero_div] at hrun
      rw [if_neg hzero, hrun]

/-! ## Product and division together -/

def wideMuladdDiv (a b add denom : ℕ) : Outcome Unit (ℕ × ℕ) :=
  if denom = 0 then .err ()
  else do
    let (hi, lo) ← wideMul a b
    let (lo, carry) := overflowingAdd 128 lo add
    let hi ← if carry then Outcome.add 128 hi 1 else pure hi
    ofOption (div256By128 hi lo denom) ()

/-- The core of the rounded quotients over the shim. -/
def wideMulDivShim (a b denom : ℕ) : Outcome Unit (ℕ × Bool) :=
  if denom = 0 then .err ()
  else do
    let (hi, lo) ← wideMul a b
    let (q, r) ← ofOption (div256By128 hi lo denom) ()
    pure (q, r != 0)

def mulDivFloorShim (a b denom : ℕ) : Outcome Unit ℕ := do
  let (q, _) ← wideMulDivShim a b denom
  pure q

def mulDivCeilShim (a b denom : ℕ) : Outcome Unit ℕ := do
  let (q, hasRem) ← wideMulDivShim a b denom
  if hasRem then ofOption (checkedAdd 128 q 1) () else pure q

section Exact

variable {a b d : ℕ}

theorem mulDivFloor_eq_tryFit (hd : 0 < d) : mulDivFloor a b d = tryFit 128 (a * b / d) := by
  rw [mulDivFloor, wideMulDiv, if_neg hd.ne', Option.map_map]
  cases tryFit 128 (a * b / d) with
  | none => rfl
  | some q => rfl

theorem ceilDiv_eq (n : ℕ) (hd : 0 < d) : n ⌈/⌉ d = if n % d = 0 then n / d else n / d + 1 := by
  have hsplit : d * (n / d) + n % d = n := Nat.div_add_mod n d
  have hlt : n % d < d := Nat.mod_lt n hd
  rw [Nat.ceilDiv_eq_add_pred_div]
  split
  next hrem =>
    refine ((Nat.div_mod_unique hd).mpr ⟨?_, Nat.sub_one_lt hd.ne'⟩).1
    omega
  next hrem =>
    have hpred : n % d - 1 < d := by omega
    refine ((Nat.div_mod_unique hd).mpr ⟨?_, hpred⟩).1
    rw [Nat.mul_add]
    omega

theorem mulDivCeil_eq_tryFit (hd : 0 < d) : mulDivCeil a b d = tryFit 128 (a * b ⌈/⌉ d) := by
  rw [mulDivCeil, wideMulDiv, if_neg hd.ne', ceilDiv_eq _ hd, Option.bind_map]
  by_cases hfit : a * b / d < 2 ^ 128
  · rw [tryFit, if_pos hfit, Option.bind_some, Function.comp_apply]
    dsimp only
    by_cases hrem : a * b % d = 0
    · rw [if_pos hrem, tryFit, if_pos hfit, hrem, if_neg (by decide)]
    · have hne : (a * b % d != 0) = true := bne_iff_ne.mpr hrem
      rw [if_neg hrem, if_pos hne, checkedAdd, tryFit]
  · have hround : ¬(if a * b % d = 0 then a * b / d else a * b / d + 1) < 2 ^ 128 := by
      split <;> omega
    rw [tryFit, if_neg hfit, tryFit, if_neg hround, Option.bind_none]

theorem wideMulDivShim_eq (ha : a < 2 ^ 128) (hb : b < 2 ^ 128) (hd : d < 2 ^ 128) :
    wideMulDivShim a b d = ofOption (wideMulDiv a b d) () := by
  unfold wideMulDivShim wideMulDiv
  by_cases hzero : d = 0
  · rw [if_pos hzero, if_pos hzero, ofOption_none]
  · have hlo : a * b % 2 ^ 128 < 2 ^ 128 := Nat.mod_lt _ (by decide)
    have hsplit : a * b / 2 ^ 128 * 2 ^ 128 + a * b % 2 ^ 128 = a * b := Nat.div_add_mod' _ _
    rw [if_neg hzero, if_neg hzero, wideMul_eq ha hb, Outcome.ok_bind]
    dsimp only
    rw [div256By128_eq hlo hd (Nat.pos_of_ne_zero hzero), hsplit]
    cases tryFit 128 (a * b / d) with
    | none => rfl
    | some q => rfl

theorem mulDivFloorShim_eq (ha : a < 2 ^ 128) (hb : b < 2 ^ 128) (hd : d < 2 ^ 128) :
    mulDivFloorShim a b d = ofOption (mulDivFloor a b d) () := by
  rw [mulDivFloorShim, wideMulDivShim_eq ha hb hd, mulDivFloor]
  cases wideMulDiv a b d with
  | none => rfl
  | some q => rfl

theorem mulDivCeilShim_eq (ha : a < 2 ^ 128) (hb : b < 2 ^ 128) (hd : d < 2 ^ 128) :
    mulDivCeilShim a b d = ofOption (mulDivCeil a b d) () := by
  rw [mulDivCeilShim, wideMulDivShim_eq ha hb hd, mulDivCeil]
  cases wideMulDiv a b d with
  | none => rfl
  | some q =>
    obtain ⟨q, hasRem⟩ := q
    cases hasRem with
    | false => rfl
    | true => rfl

/-- The carry into the high half never overflows it. -/
theorem wideMuladdDiv_eq {c : ℕ} (ha : a < 2 ^ 128) (hb : b < 2 ^ 128) (hc : c < 2 ^ 128)
    (hd : d < 2 ^ 128) (hpos : 0 < d) :
    wideMuladdDiv a b c d =
      ofOption ((tryFit 128 ((a * b + c) / d)).map fun q ↦ (q, (a * b + c) % d)) () := by
  have hmax : a * b ≤ (2 ^ 128 - 1) * (2 ^ 128 - 1) :=
    Nat.mul_le_mul (Nat.le_sub_one_of_lt ha) (Nat.le_sub_one_of_lt hb)
  rw [wideMuladdDiv, if_neg hpos.ne', wideMul_eq ha hb, Outcome.ok_bind]
  generalize a * b = n at *
  have hlo : (n % 2 ^ 128 + c) % 2 ^ 128 < 2 ^ 128 := Nat.mod_lt _ (by decide)
  by_cases hcarry : 2 ^ 128 ≤ n % 2 ^ 128 + c
  · have hadd : overflowingAdd 128 (n % 2 ^ 128) c = ((n % 2 ^ 128 + c) % 2 ^ 128, true) := by
      rw [overflowingAdd, decide_eq_true hcarry]
    have hsplit : (n / 2 ^ 128 + 1) * 2 ^ 128 + (n % 2 ^ 128 + c) % 2 ^ 128 = n + c := by omega
    dsimp only
    rw [hadd]
    dsimp only
    rw [if_pos rfl, add_bind (by omega), div256By128_eq hlo hd hpos, hsplit]
  · have hadd : overflowingAdd 128 (n % 2 ^ 128) c = ((n % 2 ^ 128 + c) % 2 ^ 128, false) := by
      rw [overflowingAdd, decide_eq_false hcarry]
    have hsplit : n / 2 ^ 128 * 2 ^ 128 + (n % 2 ^ 128 + c) % 2 ^ 128 = n + c := by omega
    dsimp only
    rw [hadd]
    dsimp only
    rw [if_neg Bool.false_ne_true, pure_eq, Outcome.ok_bind, div256By128_eq hlo hd hpos, hsplit]

/-- The shim is exact over all 128-bit values: the product in two halves, quotient and remainder
of any 256-bit number and of a product with a summand, and the rounded quotients, which are the
ones of the shipped version.  What does not fit 128 bits is refused, and nothing overflows. -/
theorem shim_exact {c : ℕ} (ha : a < 2 ^ 128) (hb : b < 2 ^ 128) (hc : c < 2 ^ 128)
    (hd : d < 2 ^ 128) (hpos : 0 < d) :
    (∃ hi lo, wideMul a b = .ok (hi, lo) ∧ hi < 2 ^ 128 ∧ lo < 2 ^ 128 ∧
      hi * 2 ^ 128 + lo = a * b) ∧
    (∀ hi < 2 ^ 128, ∀ lo < 2 ^ 128,
      div256By128 hi lo d = (tryFit 128 ((hi * 2 ^ 128 + lo) / d)).map fun q ↦
        (q, (hi * 2 ^ 128 + lo) % d)) ∧
    wideMuladdDiv a b c d =
      ofOption ((tryFit 128 ((a * b + c) / d)).map fun q ↦ (q, (a * b + c) % d)) () ∧
    mulDivFloor a b d = tryFit 128 (a * b / d) ∧
    mulDivCeil a b d = tryFit 128 (a * b ⌈/⌉ d) ∧
    mulDivFloorShim a b d = ofOption (tryFit 128 (a * b / d)) () ∧
    mulDivCeilShim a b d = ofOption (tryFit 128 (a * b ⌈/⌉ d)) () := by
  refine ⟨?_, ?_, wideMuladdDiv_eq ha hb hc hd hpos, mulDivFloor_eq_tryFit hpos,
    mulDivCeil_eq_tryFit hpos, ?_, ?_⟩
  · have hhi : a * b / 2 ^ 128 < 2 ^ 128 := by
      rw [Nat.div_lt_iff_lt_mul (by decide)]
      exact Nat.mul_lt_mul'' ha hb
    exact ⟨_, _, wideMul_eq ha hb, hhi, Nat.mod_lt _ (by decide), Nat.div_add_mod' _ _⟩
  · intro hi _ lo hlo
    exact div256By128_eq hlo hd hpos
  · rw [mulDivFloorShim_eq ha hb hd, mulDivFloor_eq_tryFit hpos]
  · rw [mulDivCeilShim_eq ha hb hd, mulDivCeil_eq_tryFit hpos]

/-- At the largest values the product needs all 256 bits, and its quotient still fits. -/
theorem shim_exact_sample :
    mulDivFloorShim (2 ^ 128 - 1) (2 ^ 128 - 1) (2 ^ 128 - 1) = .ok (2 ^ 128 - 1) ∧
      wideMuladdDiv (2 ^ 128 - 1) (2 ^ 128 - 1) (2 ^ 128 - 1) (2 ^ 128 - 1) = .err () := by
  have hmax : 2 ^ 128 - 1 < 2 ^ 128 := by decide
  obtain ⟨-, -, hadd, -, -, hfloor, -⟩ := shim_exact hmax hmax hmax hmax (by decide)
  exact ⟨hfloor.trans (by decide), hadd.trans (by decide)⟩

end Exact

/-! ## Redistribution over the shim -/

def accumulateShim (l lastError totalStakes amount : ℕ) : Outcome RedistError (ℕ × ℕ) := do
  let (rpu, rem) ←
    Outcome.okOr (wideMuladdDiv amount PRECISION lastError totalStakes) .accumulatorOverflow
  let l ← ofOption (checkedAdd 128 l rpu) .accumulatorOverflow
  pure (l, rem)

/-- Both versions of the accumulator agree. -/
theorem accumulateShim_eq {l err ts amount : ℕ} (herr : err < 2 ^ 128) (hts : ts < 2 ^ 128)
    (hpos : 0 < ts) (hamount : amount < 2 ^ 128) :
    accumulateShim l err ts amount = ofExcept (accumulate l err ts amount) := by
  have hprecision : PRECISION < 2 ^ 128 := by decide
  have hmul : amount * PRECISION < 2 ^ 255 :=
    (Nat.mul_lt_mul_of_pos_right hamount PRECISION_pos).trans (by decide)
  have hnum : (checkedMul 256 amount PRECISION).bind (checkedAdd 256 · err) =
      some (amount * PRECISION + err) := by
    rw [checkedMul, if_pos (by omega), Option.bind_some, checkedAdd, if_pos (by omega)]
  rw [accumulateShim, wideMuladdDiv_eq hamount hprecision herr hts hpos, okOr_ofOption, accumulate,
    hnum, okOr_some, Checked.ok_bind]
  generalize amount * PRECISION + err = n
  have hsplit : n / ts * ts + n % ts = n := Nat.div_add_mod' n ts
  have hrem : n - n / ts * ts = n % ts := by omega
  have hfit : tryFit 128 (n % ts) = some (n % ts) :=
    tryFit_eq_some.mpr ⟨(Nat.mod_lt n hpos).trans hts, rfl⟩
  dsimp only
  rw [hrem, hfit, okOr_some, Checked.ok_bind]
  cases tryFit 128 (n / ts) with
  | none => rfl
  | some rpu =>
    rw [okOr_some, Checked.ok_bind, Option.map_some, ofOption_some, Outcome.ok_bind]
    dsimp only
    cases checkedAdd 128 l rpu with
    | none => rfl
    | some l' => rfl

/-- One unit spread over three stakes leaves a remainder, which is carried. -/
theorem accumulateShim_eq_third : accumulateShim 5 1 3 1 = .ok (333333333333333338, 2) :=
  (accumulateShim_eq (by decide) (by decide) (by decide) (by decide)).trans (by decide)

end FusionCore
