import FusionCore.Lib.Checked
import Mathlib.Tactic.Linarith
import Mathlib.Tactic.Ring

/-!
# Fixed-point arithmetic

The money primitives of `fusd-math`: exact `a * b / d` with either rounding,
interest, the loss waterfall and the redemption base rate.  All values are
`u128` in the source, so a result that does not fit is `none`.
-/

namespace FusionCore

open Checked

def RAY : ℕ := 10 ^ 27

def BPS_DENOMINATOR : ℕ := 10000

theorem RAY_pos : 0 < RAY := by decide

/-- Quotient of `a * b` by `denom` and whether there is a remainder. -/
def wideMulDiv (a b denom : ℕ) : Option (ℕ × Bool) :=
  if denom = 0 then none
  else (tryFit 128 (a * b / denom)).map fun q ↦ (q, a * b % denom != 0)

def mulDivFloor (a b denom : ℕ) : Option ℕ := (wideMulDiv a b denom).map Prod.fst

def mulDivCeil (a b denom : ℕ) : Option ℕ :=
  (wideMulDiv a b denom).bind fun (q, hasRem) ↦
    if hasRem then checkedAdd 128 q 1 else some q

def rayMul (a b : ℕ) : Option ℕ := mulDivFloor a b RAY

@[simp] theorem mulDivFloor_eq_some {a b d q : ℕ} :
    mulDivFloor a b d = some q ↔ 0 < d ∧ q < 2 ^ 128 ∧ a * b / d = q := by
  by_cases hd : d = 0
  · simp [mulDivFloor, wideMulDiv, hd]
  · have hpos : 0 < d := Nat.pos_of_ne_zero hd
    simp only [mulDivFloor, wideMulDiv, hd, if_false, Option.map_map, Option.map_eq_some_iff,
      Function.comp_apply, tryFit_eq_some, hpos, true_and]
    constructor
    · rintro ⟨r, ⟨hlt, hr⟩, rfl⟩
      exact ⟨hr ▸ hlt, hr⟩
    · rintro ⟨hlt, hq⟩
      exact ⟨q, ⟨hq ▸ hlt, hq⟩, rfl⟩

theorem rayMul_eq_some {a b q : ℕ} :
    rayMul a b = some q ↔ q < 2 ^ 128 ∧ a * b / RAY = q := by
  simp [rayMul, RAY_pos]

theorem mulDivCeil_spec {a b d q : ℕ} (h : mulDivCeil a b d = some q) :
    0 < d ∧ q < 2 ^ 128 ∧ a * b ≤ q * d ∧ q * d < a * b + d := by
  by_cases hd : d = 0
  · simp [mulDivCeil, wideMulDiv, hd] at h
  · have hpos : 0 < d := Nat.pos_of_ne_zero hd
    have hdiv : a * b / d * d + a * b % d = a * b := Nat.div_add_mod' _ _
    have hmod : a * b % d < d := Nat.mod_lt _ hpos
    simp only [mulDivCeil, wideMulDiv, hd, if_false, Option.bind_map, Option.bind_eq_some_iff,
      tryFit_eq_some, Function.comp_apply] at h
    obtain ⟨r, ⟨hlt, rfl⟩, hr⟩ := h
    by_cases hrem : a * b % d = 0
    · simp only [hrem, bne_self_eq_false, Bool.false_eq_true, if_false, Option.some.injEq] at hr
      subst hr
      exact ⟨hpos, hlt, by omega, by omega⟩
    · have hne : (a * b % d != 0) = true := by simpa using hrem
      rw [hne, if_pos rfl, checkedAdd_eq_some] at hr
      obtain ⟨hfit, rfl⟩ := hr
      refine ⟨hpos, hfit, ?_, ?_⟩
      · rw [Nat.add_mul]; omega
      · rw [Nat.add_mul]; omega

/-! ## Powers -/

/-- The squaring loop of `ray_pow`. -/
def rayPowLoop (z b exp : ℕ) : Option ℕ :=
  if exp = 0 then some z
  else do
    let b ← rayMul b b
    let z ← (if exp % 2 = 1 then rayMul z b else some z)
    rayPowLoop z b (exp / 2)
termination_by exp
decreasing_by omega

def rayPow (base exp : ℕ) : Option ℕ :=
  rayPowLoop (if exp % 2 = 1 then base else RAY) base (exp / 2)

/-! ## Interest -/

def SECONDS_PER_YEAR : ℕ := 31536000

def INTEREST_RATE_DENOM : ℕ := 10000

def INTEREST_DENOM : ℕ := SECONDS_PER_YEAR * INTEREST_RATE_DENOM

theorem INTEREST_DENOM_pos : 0 < INTEREST_DENOM := by decide

/-- A position's contribution to the market's weighted debt sum. -/
def weightedDebt (recordedDebt rateBps : ℕ) : Option ℕ := checkedMul 128 recordedDebt rateBps

def pendingAggregateInterest (weightedSum dt : ℕ) : Option ℕ :=
  mulDivCeil weightedSum dt INTEREST_DENOM

def accruedInterest (recordedDebt rateBps period : ℕ) : Option ℕ :=
  (weightedDebt recordedDebt rateBps).bind fun weighted ↦
    mulDivFloor weighted period INTEREST_DENOM

def prematureAdjustmentFee (recordedDebt rateBps periodSecs : ℕ) : Option ℕ :=
  (weightedDebt recordedDebt rateBps).bind fun weighted ↦
    mulDivCeil weighted periodSecs INTEREST_DENOM

theorem accruedInterest_eq_some {debt rate period q : ℕ} :
    accruedInterest debt rate period = some q ↔
      debt * rate < 2 ^ 128 ∧ q < 2 ^ 128 ∧ debt * rate * period / INTEREST_DENOM = q := by
  simp [accruedInterest, weightedDebt, Option.bind_eq_some_iff, INTEREST_DENOM_pos]

/-! ## Loss absorption -/

/-- How a liquidated debt is spread over the tiers. -/
structure Absorption where
  reactor : ℕ
  redist : ℕ
  buffer : ℕ
  global : ℕ
  unhomed : ℕ
  deriving DecidableEq, Repr

def absorb (debt reactorCapacity : ℕ) (hasRedistRecipients : Bool)
    (bufferBalance globalAvailable : ℕ) : Absorption :=
  let reactor := min debt reactorCapacity
  let rem := debt - reactor
  let redist := if hasRedistRecipients then rem else 0
  let rem := rem - redist
  let buffer := min rem bufferBalance
  let rem := rem - buffer
  let global := min rem globalAvailable
  ⟨reactor, redist, buffer, global, rem - global⟩

/-- What the waterfall guarantees: every tier within its capacity, redistribution all or
nothing, and the five parts sum to the debt. -/
theorem absorb_spec (debt capacity : ℕ) (recipients : Bool) (buffer global : ℕ) :
    let s := absorb debt capacity recipients buffer global
    s.reactor + s.redist + s.buffer + s.global + s.unhomed = debt ∧
      s.reactor ≤ capacity ∧ s.buffer ≤ buffer ∧ s.global ≤ global ∧
        (recipients = false → s.redist = 0) ∧
          (0 < s.redist → s.buffer = 0 ∧ s.global = 0 ∧ s.unhomed = 0) := by
  cases recipients <;> simp [absorb]

/-! ## Redemption base rate -/

def BASE_RATE_DECAY_PER_MINUTE : ℕ := 998076443575628823990894592

def BASE_RATE_BETA : ℕ := 2

def decayBaseRate (baseRate secsElapsed : ℕ) : ℕ :=
  if baseRate = 0 ∨ secsElapsed = 0 then baseRate
  else
    let minutes := secsElapsed / 60
    if minutes = 0 then baseRate
    else (rayMul baseRate ((rayPow BASE_RATE_DECAY_PER_MINUTE minutes).getD 0)).getD 0

def bumpBaseRate (baseRate redeemed totalDebt : ℕ) : ℕ :=
  if totalDebt = 0 ∨ redeemed = 0 ∨ BASE_RATE_BETA = 0 then baseRate
  else
    let frac := (mulDivFloor redeemed RAY totalDebt).getD 0 / BASE_RATE_BETA
    min (saturatingAdd 128 baseRate frac) RAY

def effectiveFeeBps (baseRate floorBps dynamicMaxBps capBps : ℕ) : ℕ :=
  let dynBps := baseRate / (RAY / BPS_DENOMINATOR)
  let dynCapped := min dynBps dynamicMaxBps
  truncate 16 (min (floorBps + dynCapped) capBps)

theorem effectiveFeeBps_le {baseRate floorBps dynamicMaxBps capBps : ℕ} :
    effectiveFeeBps baseRate floorBps dynamicMaxBps capBps ≤ capBps :=
  (Nat.mod_le _ _).trans (min_le_right _ _)

end FusionCore
