import FusionCore.Oracle.Twap
import Mathlib.Tactic.Linarith

/-!
# The retained observations of a ring

A push appends one observation to those that are retained and, once every slot is in use, drops the
oldest of them.  Observations that are kept a least distance apart therefore span the whole ring.
-/

namespace FusionCore
namespace Oracle
namespace ObservationRing

open Checked

variable {n : ℕ} [NeZero n] {r r' : ObservationRing n} {price : ℕ} {ts gap : ℤ} {k : ℕ}

/-! ## Slots -/

/-- Fewer than `n` slots apart, two slots are distinct. -/
theorem ofNat_add_ne {a i j : ℕ} (hij : i < j) (hj : j < i + n) :
    Fin.ofNat n (a + i) ≠ Fin.ofNat n (a + j) := by
  intro h
  have hmod : (a + j) % n = (a + i) % n := (congrArg Fin.val h).symm
  have hdvd : n ∣ a + j - (a + i) := Nat.dvd_of_mod_eq_zero (Nat.sub_mod_eq_zero_of_mod_eq hmod)
  have hzero := Nat.eq_zero_of_dvd_of_lt hdvd (by omega)
  omega

theorem at_congr {i j : ℕ} (h : i % n = j % n) : r.at_ i = r.at_ j := by
  have hslot : Fin.ofNat n i = Fin.ofNat n j := Fin.ext h
  unfold at_
  rw [hslot]

theorem nth_eq_at (r : ObservationRing n) (k : ℕ) :
    r.nth k = r.at_ (r.next + (n - r.count) + k) := by
  apply at_congr
  rw [Nat.mod_add_mod, Nat.add_sub_assoc r.count_le]

theorem last_eq_nth (h : 0 < r.count) : r.last = some (r.nth (r.count - 1)) := by
  have hle := r.count_le
  unfold last
  rw [if_neg (by omega), nth_eq_at]
  congr 2
  omega

theorem last_eq_none (h : r.count = 0) : r.last = none := if_pos h

/-! ## One push -/

theorem push_eq_ok (h : r.push price ts = .ok r') :
    (∀ o ∈ r.last, o.ts < ts) ∧ r'.prices = Function.update r.prices r.next price ∧
      r'.ts = Function.update r.ts r.next ts ∧ r'.next = r.next + 1 ∧
      r'.count = min (r.count + 1) n := by
  simp only [push, bind_eq_ok_iff, require_eq_ok, pure_eq_ok, exists_const] at h
  obtain ⟨hlast, rfl⟩ := h
  exact ⟨hlast, rfl, rfl, rfl, rfl⟩

theorem at_push (h : r.push price ts = .ok r') (i : ℕ) :
    r'.at_ i = if Fin.ofNat n i = r.next then ⟨price, ts⟩ else r.at_ i := by
  obtain ⟨-, hprices, hts, -⟩ := push_eq_ok h
  unfold at_
  rw [hprices, hts]
  by_cases hslot : Fin.ofNat n i = r.next
  · rw [if_pos hslot, hslot, Function.update_self, Function.update_self]
  · rw [if_neg hslot, Function.update_of_ne hslot, Function.update_of_ne hslot]

theorem count_push (h : r.push price ts = .ok r') : r'.count = min (r.count + 1) n :=
  (push_eq_ok h).2.2.2.2

theorem nth_push (h : r.push price ts = .ok r') (k : ℕ) :
    r'.nth k = r'.at_ (r.next + (n - r'.count + 1 + k)) := by
  have hone : ((1 : Fin n) : ℕ) = 1 % n := rfl
  have hnext : (r'.next : ℕ) = (r.next + 1) % n := by
    rw [(push_eq_ok h).2.2.2.1, Fin.val_add, hone, Nat.add_mod_mod]
  rw [nth_eq_at, hnext]
  apply at_congr
  rw [Nat.add_assoc, Nat.mod_add_mod]
  congr 1
  omega

theorem nth_push_newest (h : r.push price ts = .ok r') (hk : k + 1 = r'.count) :
    r'.nth k = ⟨price, ts⟩ := by
  have hle := r'.count_le
  have hslot : Fin.ofNat n (r.next + (n - r'.count + 1 + k)) = r.next := by
    apply Fin.ext
    have hall : n - r'.count + 1 + k = n := by omega
    rw [hall]
    simp [Nat.mod_eq_of_lt r.next.isLt]
  rw [nth_push h, at_push h, if_pos hslot]

theorem nth_push_older (h : r.push price ts = .ok r') (hk : k + 1 < r'.count) :
    r'.nth k = r.nth (k + (r.count + 1 - r'.count)) := by
  have hle := r.count_le
  have hcount := count_push h
  have hslot : Fin.ofNat n (r.next + (n - r'.count + 1 + k)) ≠ r.next := by
    have hne := ofNat_add_ne (n := n) (a := r.next) (i := 0) (j := n - r'.count + 1 + k)
      (by omega) (by omega)
    have hself : Fin.ofNat n (r.next + 0) = r.next :=
      Fin.ext (Nat.mod_eq_of_lt r.next.isLt)
    rw [hself] at hne
    exact hne.symm
  rw [nth_push h, at_push h, if_neg hslot, nth_eq_at]
  congr 1
  omega

/-! ## Spacing -/

/-- Consecutive retained observations are at least `gap` seconds apart. -/
def Spaced (r : ObservationRing n) (gap : ℤ) : Prop :=
  ∀ k, k + 1 < r.count → (r.nth k).ts + gap ≤ (r.nth (k + 1)).ts

theorem spaced_new (gap : ℤ) : (new : ObservationRing n).Spaced gap := by
  intro k hk
  exact absurd hk (Nat.not_lt_zero _)

theorem Spaced.push (hr : r.Spaced gap) (h : r.push price ts = .ok r')
    (hgap : ∀ o ∈ r.last, o.ts + gap ≤ ts) : r'.Spaced gap := by
  intro k hk
  have hcount := count_push h
  rw [nth_push_older h hk]
  rcases Nat.lt_or_ge (k + 2) r'.count with holder | hnewest
  · -- both were retained before
    rw [nth_push_older h holder, Nat.add_right_comm k 1]
    apply hr
    omega
  · -- the later one is new, the earlier one was the newest
    have hpos : 0 < r.count := by omega
    rw [nth_push_newest h (by omega : k + 1 + 1 = r'.count)]
    have hidx : k + (r.count + 1 - r'.count) = r.count - 1 := by omega
    rw [hidx]
    exact hgap _ (last_eq_nth hpos)

/-- The `k`-th observation is at least `k` gaps after the oldest. -/
theorem Spaced.oldest_add_le (hr : r.Spaced gap) (hk : k < r.count) :
    (r.nth 0).ts + k * gap ≤ (r.nth k).ts := by
  induction k with
  | zero => simp
  | succ k ih =>
    have hprev := ih (Nat.lt_of_succ_lt hk)
    have hstep := hr k hk
    push_cast
    linarith

theorem oldest_push (h : r.push price ts = .ok r') (hpos : 0 < r.count) (hfree : r.count < n) :
    r'.nth 0 = r.nth 0 := by
  have hcount := count_push h
  rw [nth_push_older h (by omega)]
  congr 1
  omega

end ObservationRing
end Oracle
end FusionCore
