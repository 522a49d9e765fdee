import Mathlib.Algebra.Order.Field.Basic
import Mathlib.Tactic.LinearCombination
import Mathlib.Tactic.Linarith
import Mathlib.Tactic.Ring

/-!
# Product-sum accounting

A pool of deposits shrinks by a common factor at every loss: the running product is a price,
and a deposit is worth its amount times the price now over the price at its snapshot.  The
loss per unit is rounded up and the excess is fed back into the next loss, so the recorded
total and the sum of the exact shares drift apart.  The potential below bounds the drift.
-/

namespace ProductSum

variable {K : Type*} [Field K]

/-- What a deposit made at the price `entry` is worth at the price `price`. -/
def share (price entry deposit : K) : K := deposit * (price / entry)

theorem share_self {price deposit : K} (h : price ≠ 0) : share price price deposit = deposit := by
  rw [share, div_self h, mul_one]

variable [LinearOrder K] [IsStrictOrderedRing K]

section Share

variable {price price' entry deposit f : K}

theorem share_nonneg (hp : 0 ≤ price) (he : 0 ≤ entry) (hd : 0 ≤ deposit) :
    0 ≤ share price entry deposit :=
  mul_nonneg hd (div_nonneg hp he)

theorem share_le_mul (hp : price' ≤ f * price) (he : 0 ≤ entry) (hd : 0 ≤ deposit) :
    share price' entry deposit ≤ f * share price entry deposit := by
  have hdiv : price' / entry ≤ f * price / entry := div_le_div_of_nonneg_right hp he
  calc
    deposit * (price' / entry) ≤ deposit * (f * price / entry) :=
      mul_le_mul_of_nonneg_left hdiv hd
    _ = f * (deposit * (price / entry)) := by ring

end Share

/-- The exact shares exceed the recorded total by less than one unit, and by less still the
more of the last loss is carried as the error `err`; `unit` is the fixed-point unit of the
loss per unit. -/
def Backed (unit total shares err : K) : Prop :=
  err - (unit - 1) ≤ unit * (total - shares)

section Backed

variable {unit total total' shares shares' err err' loss perUnit : K}

theorem backed_zero (h : 1 ≤ unit) : Backed unit 0 0 0 := by
  unfold Backed
  linarith

/-- A loss whose rounded-up rate is charged to every share keeps the potential. -/
theorem Backed.charge (h : Backed unit total shares err) (herr : err ≤ unit - 1)
    (hpos : 0 ≤ perUnit) (hle : perUnit ≤ unit)
    (hloss : perUnit * total + err = loss * unit + err')
    (hshares : unit * shares' ≤ (unit - perUnit) * shares) :
    Backed unit (total - loss) shares' err' := by
  unfold Backed at h ⊢
  -- the gap shrinks by the factor of the loss, and a negative gap only gets smaller
  have hgap : err - (unit - 1) ≤ (unit - perUnit) * (total - shares) := by
    rcases le_total 0 (total - shares) with hsign | hsign
    · have := mul_nonneg (sub_nonneg.mpr hle) hsign
      linarith
    · have := mul_nonpos_of_nonneg_of_nonpos hpos hsign
      linarith [sub_mul unit perUnit (total - shares)]
  have hexpand : unit * (total - loss - shares') =
      (unit - perUnit) * (total - shares) + (err' - err) +
        ((unit - perUnit) * shares - unit * shares') := by
    linear_combination hloss
  linarith

/-- Moves that raise the shares by at most as much as the total keep the potential. -/
theorem Backed.shift (h : Backed unit total shares err) (hunit : 0 ≤ unit)
    (hle : shares' + total ≤ shares + total') : Backed unit total' shares' err := by
  unfold Backed at h ⊢
  have hmul : unit * (total - shares) ≤ unit * (total' - shares') :=
    mul_le_mul_of_nonneg_left (by linarith) hunit
  linarith

theorem Backed.shares_lt (h : Backed unit total shares err) (hunit : 0 < unit)
    (herr : 0 ≤ err) : shares < total + 1 := by
  unfold Backed at h
  by_contra hcon
  have hmul : unit * (total - shares) ≤ unit * (-1) :=
    mul_le_mul_of_nonneg_left (by linarith) hunit.le
  linarith

end Backed

end ProductSum
