import FusionCore.Math.FixedPoint
import Mathlib.Logic.Function.Basic
import Mathlib.Tactic.Positivity

/-!
# The Reactor Pool product-sum

Depositors of the Reactor Pool absorb liquidated debt and receive the seized
collateral.  A running product `p` scales every deposit at once; a grid of sums
indexed by epoch and scale collects the collateral per unit of deposit.
-/

namespace FusionCore

open Checked

def DECIMAL_PRECISION : ℕ := 10 ^ 18

def SCALE_FACTOR : ℕ := 10 ^ 9

inductive ReactorError where
  | noDeposits
  | debtExceedsDeposits
  | scaleOverflow
  | epochOverflow
  | math
  deriving DecidableEq, Repr

/-- The flat `S` grid. -/
abbrev Grid (len : ℕ) := Fin len → ℕ

structure Snapshot where
  p : ℕ
  s : ℕ
  scale : ℕ
  epoch : ℕ
  deriving DecidableEq, Repr

structure PoolState where
  p : ℕ
  epoch : ℕ
  scale : ℕ
  totalDeposits : ℕ
  lastCollError : ℕ
  lastLossError : ℕ
  deriving DecidableEq, Repr

def PoolState.new : PoolState where
  p := DECIMAL_PRECISION
  epoch := 0
  scale := 0
  totalDeposits := 0
  lastCollError := 0
  lastLossError := 0

variable {len : ℕ}

/-- Flat index of a cell.  The `u128` and `usize` conversions of the source fail only for
indices far above any length, which the last test rejects as well. -/
def sIdx (epoch scale stride len : ℕ) : Option (Fin len) :=
  if stride ≤ scale then none
  else if h : epoch * stride + scale < len then some ⟨epoch * stride + scale, h⟩ else none

/-- The sum stored in a cell; a cell outside the grid reads as zero. -/
def cellAt (grid : Grid len) (stride epoch scale : ℕ) : ℕ :=
  match sIdx epoch scale stride len with
  | some i => grid i
  | none => 0

def PoolState.snapshot (st : PoolState) (grid : Grid len) (stride : ℕ) : Snapshot where
  p := st.p
  s := cellAt grid stride st.epoch st.scale
  scale := st.scale
  epoch := st.epoch

/-- The rescaling loop: `rounds` is the number of iterations left before the loop gives up. -/
def updateProductLoop : (rounds num bumps : ℕ) → Except ReactorError (ℕ × ℕ)
  | 0, _, _ => .error .math
  | rounds + 1, num, bumps =>
      let newP := num / DECIMAL_PRECISION
      if SCALE_FACTOR ≤ newP then
        (okOr (tryFit 128 newP) .math).map fun p ↦ (p, bumps)
      else updateProductLoop rounds (num * SCALE_FACTOR) (bumps + 1)

/-- New product and number of scale bumps. -/
def updateProduct (p factor : ℕ) : Except ReactorError (ℕ × ℕ) :=
  updateProductLoop 5 (p * factor) 0

/-- New loss error and product factor of an offset. -/
def lossFactor (st : PoolState) (debtToOffset : ℕ) : Except ReactorError (ℕ × ℕ) :=
  if debtToOffset = st.totalDeposits then .ok (0, 0)
  else do
    let lossNumerator ← okOr ((checkedMul 128 debtToOffset DECIMAL_PRECISION).bind
      (checkedSub · st.lastLossError)) .math
    let lossPerUnit := lossNumerator / st.totalDeposits + 1
    let scaled ← okOr (checkedMul 128 lossPerUnit st.totalDeposits) .math
    pure (scaled - lossNumerator, DECIMAL_PRECISION - lossPerUnit)

/-- New product, epoch and scale for a product factor. -/
def advance (st : PoolState) (stride len productFactor : ℕ) :
    Except ReactorError (ℕ × ℕ × ℕ) :=
  if productFactor = 0 then do
    let newEpoch ← okOr (checkedAdd 64 st.epoch 1) .epochOverflow
    let _ ← okOr (sIdx newEpoch 0 stride len) .epochOverflow
    pure (DECIMAL_PRECISION, newEpoch, 0)
  else do
    let (newP, bumps) ← updateProduct st.p productFactor
    if 0 < bumps then do
      let newScale ← okOr (checkedAdd 64 st.scale bumps) .scaleOverflow
      let _ ← okOr (sIdx st.epoch newScale stride len) .scaleOverflow
      pure (newP, st.epoch, newScale)
    else pure (newP, st.epoch, st.scale)

/-- Burn `debtToOffset` of the deposits and distribute `collToAdd` to the depositors. -/
def offset (st : PoolState) (grid : Grid len) (stride debtToOffset collToAdd : ℕ) :
    Except ReactorError (PoolState × Grid len) := do
  let total := st.totalDeposits
  require (total ≠ 0) .noDeposits
  require (debtToOffset ≤ total) .debtExceedsDeposits
  let collNumerator ← okOr ((checkedMul 128 collToAdd DECIMAL_PRECISION).bind
    (checkedAdd 128 · st.lastCollError)) .math
  let collGainPerUnit := collNumerator / total
  let lastCollError := collNumerator - collGainPerUnit * total
  let (lastLossError, productFactor) ← lossFactor st debtToOffset
  let marginal ← okOr (checkedMul 128 collGainPerUnit st.p) .math
  let cur ← okOr (sIdx st.epoch st.scale stride len) .epochOverflow
  let cell ← okOr (checkedAdd 128 (grid cur) marginal) .math
  let (p, epoch, scale) ← advance st stride len productFactor
  pure ({ p, epoch, scale, totalDeposits := total - debtToOffset, lastCollError,
          lastLossError }, Function.update grid cur cell)

def compoundedDeposit (st : PoolState) (initialDeposit : ℕ) (snap : Snapshot) : ℕ :=
  if initialDeposit = 0 ∨ snap.epoch < st.epoch then 0
  else
    let scaleDiff := st.scale - snap.scale
    let compounded :=
      if scaleDiff = 0 then (mulDivFloor initialDeposit st.p snap.p).getD 0
      else if scaleDiff = 1 then
        (mulDivFloor initialDeposit st.p snap.p).getD 0 / SCALE_FACTOR
      else 0
    if compounded < initialDeposit / 1000000000 then 0 else compounded

def collateralGain (grid : Grid len) (stride initialDeposit : ℕ) (snap : Snapshot) :
    Except ReactorError ℕ :=
  if initialDeposit = 0 then .ok 0
  else do
    let firstPortion := cellAt grid stride snap.epoch snap.scale - snap.s
    let secondPortion := cellAt grid stride snap.epoch (snap.scale + 1) / SCALE_FACTOR
    let sum ← okOr (checkedAdd 128 firstPortion secondPortion) .math
    let t ← okOr (mulDivFloor initialDeposit sum snap.p) .math
    pure (t / DECIMAL_PRECISION)

/-! ## Cells -/

theorem sIdx_eq_some {epoch scale stride : ℕ} {i : Fin len} :
    sIdx epoch scale stride len = some i ↔ scale < stride ∧ epoch * stride + scale = i.val := by
  unfold sIdx
  by_cases hs : stride ≤ scale
  · simp only [hs, if_true, reduceCtorEq, false_iff]
    omega
  · rw [if_neg hs]
    by_cases hi : epoch * stride + scale < len
    · rw [dif_pos hi, Option.some.injEq, Fin.ext_iff]
      simp only [not_le.mp hs, true_and]
    · rw [dif_neg hi]
      simp only [reduceCtorEq, false_iff]
      have := i.isLt
      omega

theorem sIdx_injective {e s e' s' stride : ℕ} {i : Fin len}
    (h : sIdx e s stride len = some i) (h' : sIdx e' s' stride len = some i) :
    e = e' ∧ s = s' := by
  obtain ⟨hs, hi⟩ := sIdx_eq_some.mp h
  obtain ⟨hs', hi'⟩ := sIdx_eq_some.mp h'
  have hpos : 0 < stride := by omega
  have hdiv (x y : ℕ) (hy : y < stride) : (x * stride + y) / stride = x := by
    rw [Nat.add_comm, Nat.add_mul_div_right _ _ hpos, Nat.div_eq_of_lt hy, Nat.zero_add]
  have he : e = e' := by
    calc
      e = (e * stride + s) / stride := (hdiv e s hs).symm
      _ = (e' * stride + s') / stride := by rw [hi, hi']
      _ = e' := hdiv e' s' hs'
  subst he
  exact ⟨rfl, by omega⟩

/-- Raising one cell changes the sum read at its epoch and scale only. -/
theorem cellAt_update (grid : Grid len) {stride epoch scale : ℕ} {cur : Fin len} (v : ℕ)
    (hcur : sIdx epoch scale stride len = some cur) (e s : ℕ) :
    cellAt (Function.update grid cur v) stride e s =
      if e = epoch ∧ s = scale then v else cellAt grid stride e s := by
  unfold cellAt
  cases h : sIdx e s stride len with
  | none =>
      have hne : ¬(e = epoch ∧ s = scale) := by
        rintro ⟨rfl, rfl⟩
        simp [hcur] at h
      simp [hne]
  | some i =>
      by_cases hi : i = cur
      · subst hi
        simp [sIdx_injective h hcur]
      · have hne : ¬(e = epoch ∧ s = scale) := by
          rintro ⟨rfl, rfl⟩
          rw [hcur] at h
          exact hi (Option.some.inj h).symm
        simp [hne, hi]

theorem cellAt_of_sIdx (grid : Grid len) {stride epoch scale : ℕ} {cur : Fin len}
    (h : sIdx epoch scale stride len = some cur) : cellAt grid stride epoch scale = grid cur := by
  simp [cellAt, h]

/-! ## The product -/

variable {st st' : PoolState} {grid grid' : Grid len} {stride debt coll : ℕ}

/-- The rescaled product is the exact quotient at some number of bumps, and at least the
rescaling threshold. -/
theorem updateProductLoop_spec {rounds num bumps p b : ℕ}
    (h : updateProductLoop rounds num bumps = .ok (p, b)) :
    ∃ k, b = bumps + k ∧ p = num * SCALE_FACTOR ^ k / DECIMAL_PRECISION ∧ SCALE_FACTOR ≤ p ∧
      (0 < k → num * SCALE_FACTOR ^ (k - 1) / DECIMAL_PRECISION < SCALE_FACTOR) := by
  induction rounds generalizing num bumps with
  | zero => simp [updateProductLoop] at h
  | succ rounds ih =>
      simp only [updateProductLoop] at h
      split at h
      next hle =>
        -- the quotient is large enough: this is the last round
        cases hfit : tryFit 128 (num / DECIMAL_PRECISION) with
        | none => simp [hfit, okOr, Except.map] at h
        | some q =>
            obtain ⟨-, rfl⟩ := tryFit_eq_some.mp hfit
            simp only [hfit, okOr, Except.map, Except.ok.injEq, Prod.mk.injEq] at h
            obtain ⟨rfl, rfl⟩ := h
            exact ⟨0, rfl, by simp, hle, by simp⟩
      next hlt =>
        obtain ⟨k, rfl, rfl, hle, hprev⟩ := ih h
        have hpow (j : ℕ) : num * SCALE_FACTOR * SCALE_FACTOR ^ j =
            num * SCALE_FACTOR ^ (j + 1) := by ring
        refine ⟨k + 1, by omega, by rw [hpow], hle, fun _ ↦ ?_⟩
        rcases Nat.eq_zero_or_pos k with rfl | hk
        · simpa using hlt
        · have := hprev hk
          rwa [hpow, Nat.sub_add_cancel hk] at this

theorem updateProduct_spec {p factor p' b : ℕ} (h : updateProduct p factor = .ok (p', b)) :
    p' = p * factor * SCALE_FACTOR ^ b / DECIMAL_PRECISION ∧ SCALE_FACTOR ≤ p' ∧
      (0 < b → p * factor * SCALE_FACTOR ^ (b - 1) / DECIMAL_PRECISION < SCALE_FACTOR) := by
  obtain ⟨k, rfl, hp, hle, hprev⟩ := updateProductLoop_spec h
  simp only [Nat.zero_add]
  exact ⟨hp, hle, hprev⟩

theorem updateProduct_le {p factor p' b : ℕ} (hp : p ≤ DECIMAL_PRECISION)
    (hf : factor ≤ DECIMAL_PRECISION) (h : updateProduct p factor = .ok (p', b)) :
    p' ≤ DECIMAL_PRECISION := by
  obtain ⟨rfl, -, hprev⟩ := updateProduct_spec h
  rcases Nat.eq_zero_or_pos b with rfl | hb
  · rw [pow_zero, Nat.mul_one]
    exact Nat.div_le_of_le_mul (Nat.mul_le_mul hp hf)
  · have hlt := hprev hb
    rw [Nat.div_lt_iff_lt_mul (by decide)] at hlt
    have hstep : p * factor * SCALE_FACTOR ^ b =
        p * factor * SCALE_FACTOR ^ (b - 1) * SCALE_FACTOR := by
      conv_rhs => rw [mul_assoc, ← pow_succ, Nat.sub_add_cancel hb]
    apply Nat.div_le_of_le_mul
    rw [hstep]
    calc
      p * factor * SCALE_FACTOR ^ (b - 1) * SCALE_FACTOR
          ≤ SCALE_FACTOR * DECIMAL_PRECISION * SCALE_FACTOR :=
        Nat.mul_le_mul_right _ hlt.le
      _ = DECIMAL_PRECISION * DECIMAL_PRECISION := by decide

/-- How often a product with this numerator is rescaled. -/
def scaleBumps (num : ℕ) : ℕ :=
  if DECIMAL_PRECISION * SCALE_FACTOR ≤ num then 0 else if DECIMAL_PRECISION ≤ num then 1 else 2

theorem updateProductLoop_stop {num : ℕ} (rounds bumps : ℕ)
    (hge : SCALE_FACTOR ≤ num / DECIMAL_PRECISION) (hfit : num / DECIMAL_PRECISION < 2 ^ 128) :
    updateProductLoop (rounds + 1) num bumps = .ok (num / DECIMAL_PRECISION, bumps) := by
  have hsome : tryFit 128 (num / DECIMAL_PRECISION) = some (num / DECIMAL_PRECISION) :=
    tryFit_eq_some.mpr ⟨hfit, rfl⟩
  simp only [updateProductLoop, if_pos hge, hsome]
  rfl

theorem updateProductLoop_bump {num : ℕ} (rounds bumps : ℕ)
    (hlt : num / DECIMAL_PRECISION < SCALE_FACTOR) :
    updateProductLoop (rounds + 1) num bumps =
      updateProductLoop rounds (num * SCALE_FACTOR) (bumps + 1) := by
  simp [updateProductLoop, not_le.mpr hlt]

/-- A product of the pool is rescaled at most twice, and the loop always finds the scale. -/
theorem updateProduct_eq {p factor : ℕ} (hp : SCALE_FACTOR ≤ p) (hp' : p ≤ DECIMAL_PRECISION)
    (hf : 0 < factor) (hf' : factor ≤ DECIMAL_PRECISION) :
    ∃ p', updateProduct p factor = .ok (p', scaleBumps (p * factor)) := by
  have hlow : SCALE_FACTOR ≤ p * factor := hp.trans (Nat.le_mul_of_pos_right p hf)
  have hhigh : p * factor ≤ DECIMAL_PRECISION * DECIMAL_PRECISION := Nat.mul_le_mul hp' hf'
  unfold updateProduct scaleBumps
  generalize p * factor = num at hlow hhigh ⊢
  have hS : SCALE_FACTOR = 1000000000 := rfl
  have hD : DECIMAL_PRECISION = 1000000000000000000 := rfl
  rw [hD] at hhigh
  rw [hS] at hlow
  by_cases h₀ : DECIMAL_PRECISION * SCALE_FACTOR ≤ num
  · rw [if_pos h₀]
    rw [hD, hS] at h₀
    exact ⟨_, updateProductLoop_stop _ _ (by rw [hD, hS]; omega) (by rw [hD]; omega)⟩
  rw [if_neg h₀]
  rw [hD, hS] at h₀
  rw [updateProductLoop_bump _ _ (by rw [hD, hS]; omega)]
  by_cases h₁ : DECIMAL_PRECISION ≤ num
  · rw [if_pos h₁]
    rw [hD] at h₁
    exact ⟨_, updateProductLoop_stop _ _ (by rw [hD, hS]; omega) (by rw [hD, hS]; omega)⟩
  · rw [if_neg h₁]
    rw [hD] at h₁
    rw [updateProductLoop_bump _ _ (by rw [hD, hS]; omega)]
    exact ⟨_, updateProductLoop_stop _ _ (by rw [hD, hS]; omega) (by rw [hD, hS]; omega)⟩

/-! ## Offsets -/

theorem lossFactor_spec {err factor : ℕ} (h : lossFactor st debt = .ok (err, factor))
    (hle : debt ≤ st.totalDeposits) :
    (debt = st.totalDeposits ∧ err = 0 ∧ factor = 0) ∨
      ∃ lossPerUnit, debt < st.totalDeposits ∧ factor = DECIMAL_PRECISION - lossPerUnit ∧
        0 < lossPerUnit ∧ lossPerUnit ≤ DECIMAL_PRECISION ∧ err ≤ st.totalDeposits ∧
        lossPerUnit * st.totalDeposits + st.lastLossError = debt * DECIMAL_PRECISION + err := by
  unfold lossFactor at h
  split at h
  next heq =>
    cases h
    exact .inl ⟨heq, rfl, rfl⟩
  next hne =>
    right
    have hlt : debt < st.totalDeposits := by omega
    simp only [bind_eq_ok_iff, okOr_eq_ok, Option.bind_eq_some_iff, checkedMul_eq_some,
      checkedSub_eq_some, pure_eq_ok, Prod.mk.injEq] at h
    obtain ⟨num, ⟨_, ⟨-, rfl⟩, herr, rfl⟩, _, ⟨-, rfl⟩, rfl, rfl⟩ := h
    set T := st.totalDeposits
    set num := debt * DECIMAL_PRECISION - st.lastLossError
    have hT : 0 < T := by omega
    have hdiv : num / T * T + num % T = num := Nat.div_add_mod' _ _
    have hmod : num % T < T := Nat.mod_lt _ hT
    have hbound : num / T + 1 ≤ DECIMAL_PRECISION := by
      -- the pool keeps at least one unit, so the rounded-up loss is at most everything
      rw [Nat.add_one_le_iff, Nat.div_lt_iff_lt_mul hT]
      calc
        num ≤ debt * DECIMAL_PRECISION := Nat.sub_le _ _
        _ < T * DECIMAL_PRECISION := Nat.mul_lt_mul_of_pos_right hlt (by decide)
        _ = DECIMAL_PRECISION * T := Nat.mul_comm _ _
    have hexp : (num / T + 1) * T = num / T * T + T := by rw [Nat.add_mul, Nat.one_mul]
    refine ⟨num / T + 1, hlt, rfl, Nat.succ_pos _, hbound, ?_, ?_⟩
    · omega
    · omega

/-- With fewer than `10 ^ 18` units deposited a partial offset keeps part of the product. -/
theorem factor_pos_of_lt {T err err' lossPerUnit : ℕ} (hT : T < DECIMAL_PRECISION)
    (hdebt : debt < T) (herr : err' ≤ T)
    (h : lossPerUnit * T + err = debt * DECIMAL_PRECISION + err') :
    lossPerUnit < DECIMAL_PRECISION := by
  by_contra hcon
  have h1 : DECIMAL_PRECISION * T ≤ lossPerUnit * T :=
    Nat.mul_le_mul_right T (not_lt.mp hcon)
  have h2 : debt * DECIMAL_PRECISION + DECIMAL_PRECISION ≤ T * DECIMAL_PRECISION := by
    calc
      debt * DECIMAL_PRECISION + DECIMAL_PRECISION = (debt + 1) * DECIMAL_PRECISION := by ring
      _ ≤ T * DECIMAL_PRECISION := Nat.mul_le_mul_right _ hdebt
  have h3 : DECIMAL_PRECISION * T = T * DECIMAL_PRECISION := Nat.mul_comm _ _
  omega

theorem advance_spec {factor p epoch scale : ℕ}
    (h : advance st stride len factor = .ok (p, epoch, scale)) :
    (factor = 0 ∧ p = DECIMAL_PRECISION ∧ epoch = st.epoch + 1 ∧ scale = 0) ∨
      (0 < factor ∧ epoch = st.epoch ∧
        ∃ bumps, updateProduct st.p factor = .ok (p, bumps) ∧ scale = st.scale + bumps) := by
  unfold advance at h
  split at h
  next h0 =>
    simp only [bind_eq_ok_iff, okOr_eq_ok, checkedAdd_eq_some, pure_eq_ok, Prod.mk.injEq] at h
    obtain ⟨_, ⟨-, rfl⟩, _, -, rfl, rfl, rfl⟩ := h
    exact .inl ⟨h0, rfl, rfl, rfl⟩
  next h0 =>
    right
    obtain ⟨⟨newP, bumps⟩, hup, h⟩ := bind_eq_ok_iff.mp h
    refine ⟨Nat.pos_of_ne_zero h0, ?_⟩
    dsimp only at h
    split at h
    next hb =>
      simp only [bind_eq_ok_iff, okOr_eq_ok, checkedAdd_eq_some, pure_eq_ok,
        Prod.mk.injEq] at h
      obtain ⟨_, ⟨-, rfl⟩, _, -, rfl, rfl, rfl⟩ := h
      exact ⟨rfl, bumps, hup, rfl⟩
    next hb =>
      simp only [pure_eq_ok, Prod.mk.injEq] at h
      obtain ⟨rfl, rfl, rfl⟩ := h
      exact ⟨rfl, bumps, hup, by omega⟩

theorem advance_addressed {factor p epoch scale : ℕ}
    (hcur : (sIdx st.epoch st.scale stride len).isSome)
    (h : advance st stride len factor = .ok (p, epoch, scale)) :
    (sIdx epoch scale stride len).isSome := by
  unfold advance at h
  split at h
  · simp only [bind_eq_ok_iff, okOr_eq_ok, pure_eq_ok, Prod.mk.injEq] at h
    obtain ⟨_, -, _, hidx, -, rfl, rfl⟩ := h
    exact Option.isSome_of_eq_some hidx
  · obtain ⟨⟨newP, bumps⟩, -, h⟩ := bind_eq_ok_iff.mp h
    dsimp only at h
    split at h
    · simp only [bind_eq_ok_iff, okOr_eq_ok, pure_eq_ok, Prod.mk.injEq] at h
      obtain ⟨_, -, _, hidx, -, rfl, rfl⟩ := h
      exact Option.isSome_of_eq_some hidx
    · simp only [pure_eq_ok, Prod.mk.injEq] at h
      obtain ⟨-, rfl, rfl⟩ := h
      exact hcur

theorem offset_spec (h : offset st grid stride debt coll = .ok (st', grid')) :
    0 < st.totalDeposits ∧ debt ≤ st.totalDeposits ∧
      st'.totalDeposits = st.totalDeposits - debt ∧
      ∃ factor gain cur, lossFactor st debt = .ok (st'.lastLossError, factor) ∧
        advance st stride len factor = .ok (st'.p, st'.epoch, st'.scale) ∧
        sIdx st.epoch st.scale stride len = some cur ∧
        grid' = Function.update grid cur (grid cur + gain * st.p) ∧
        st'.lastCollError < st.totalDeposits ∧
        gain * st.totalDeposits + st'.lastCollError =
          coll * DECIMAL_PRECISION + st.lastCollError := by
  simp only [offset, bind_eq_ok_iff, require_eq_ok, okOr_eq_ok, Option.bind_eq_some_iff,
    checkedMul_eq_some, checkedAdd_eq_some, pure_eq_ok, Prod.mk.injEq] at h
  obtain ⟨-, hT, -, hle, num, ⟨_, ⟨-, rfl⟩, -, rfl⟩, ⟨err, factor⟩, hloss, _, ⟨-, rfl⟩, cur,
    hcur, _, ⟨-, rfl⟩, ⟨p, epoch, scale⟩, hadv, rfl, rfl⟩ := h
  set T := st.totalDeposits
  set num := coll * DECIMAL_PRECISION + st.lastCollError
  have hpos : 0 < T := Nat.pos_of_ne_zero hT
  have hdiv : num / T * T + num % T = num := Nat.div_add_mod' _ _
  have hmod : num % T < T := Nat.mod_lt _ hpos
  refine ⟨hpos, hle, rfl, factor, num / T, cur, hloss, hadv, hcur, rfl, ?_, ?_⟩
  · simp only; omega
  · simp only; omega

theorem offset_product (hp : st.p ≤ DECIMAL_PRECISION)
    (h : offset st grid stride debt coll = .ok (st', grid')) :
    SCALE_FACTOR ≤ st'.p ∧ st'.p ≤ DECIMAL_PRECISION := by
  obtain ⟨-, hle, -, factor, -, -, hloss, hadv, -⟩ := offset_spec h
  have hfactor : factor ≤ DECIMAL_PRECISION := by
    rcases lossFactor_spec hloss hle with ⟨-, -, rfl⟩ | ⟨lossPerUnit, -, rfl, -⟩
    · exact Nat.zero_le _
    · exact Nat.sub_le _ _
  rcases advance_spec hadv with ⟨-, hone, -⟩ | ⟨-, -, bumps, hup, -⟩
  · rw [hone]
    decide
  · exact ⟨(updateProduct_spec hup).2.1, updateProduct_le hp hfactor hup⟩

/-- Below `10 ^ 18` units a successful offset either drains the pool and opens a new epoch, or
shrinks the product by the loss per unit. -/
theorem offset_cases (hT : st.totalDeposits < DECIMAL_PRECISION)
    (h : offset st grid stride debt coll = .ok (st', grid')) :
    (debt = st.totalDeposits ∧ st'.lastLossError = 0 ∧ st'.p = DECIMAL_PRECISION ∧
        st'.epoch = st.epoch + 1 ∧ st'.scale = 0) ∨
      ∃ lossPerUnit bumps, debt < st.totalDeposits ∧ lossPerUnit < DECIMAL_PRECISION ∧
        st'.lastLossError ≤ st.totalDeposits ∧
        lossPerUnit * st.totalDeposits + st.lastLossError =
          debt * DECIMAL_PRECISION + st'.lastLossError ∧
        st'.epoch = st.epoch ∧ st'.scale = st.scale + bumps ∧
        updateProduct st.p (DECIMAL_PRECISION - lossPerUnit) = .ok (st'.p, bumps) := by
  obtain ⟨-, hle, -, factor, -, -, hloss, hadv, -⟩ := offset_spec h
  rcases lossFactor_spec hloss hle with ⟨hdebt, herr, rfl⟩ | ⟨lpu, hlt, rfl, -, hlpu, herr, heq⟩
  · rcases advance_spec hadv with ⟨-, hp, he, hs⟩ | ⟨hpos, -⟩
    · exact .inl ⟨hdebt, herr, hp, he, hs⟩
    · exact absurd hpos (lt_irrefl 0)
  · have hkeep := factor_pos_of_lt hT hlt herr heq
    rcases advance_spec hadv with ⟨h0, -⟩ | ⟨-, he, bumps, hup, hs⟩
    · omega
    · exact .inr ⟨lpu, bumps, hlt, hkeep, herr, heq, he, hs, hup⟩

end FusionCore
