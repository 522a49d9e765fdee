import Mathlib.Algebra.Order.Group.Nat
import Mathlib.Algebra.Order.Ring.Nat
import Mathlib.Tactic.Common

/-!
# Leaky buckets

A bucket of a given capacity leaks its capacity once per window.  Outflow fills it and inflow
empties it.  Over any interval in which the capacity stays below `cap`, the outflow is at most one
capacity, what has leaked in the meantime, and the inflow.
-/

namespace LeakyBucket

variable {window cap cap' start stop level kept last now amount : ℕ}

/-- The outflow and the inflow of an interval. -/
structure Flow where
  outflow : ℕ
  inflow : ℕ
  deriving DecidableEq

/-- Since `start`, the outflow has stayed below the level, the leak up to the last update and the
inflow.  Before the first outflow the bucket may not have been updated since `start`. -/
def Covered (window cap start level last : ℕ) (f : Flow) : Prop :=
  f.outflow = 0 ∨
    start ≤ last ∧ f.outflow ≤ level + cap * (last - start) / window + f.inflow

theorem covered_start : Covered window cap start level last ⟨0, 0⟩ := .inl rfl

theorem leak_add_le (window : ℕ) (hcap : cap' ≤ cap) (hstart : start ≤ last) (hlast : last ≤ now) :
    cap * (last - start) / window + cap' * (now - last) / window ≤ cap * (now - start) / window :=
  calc
    cap * (last - start) / window + cap' * (now - last) / window
      ≤ cap * (last - start) / window + cap * (now - last) / window := by gcongr
    _ ≤ (cap * (last - start) + cap * (now - last)) / window := Nat.div_add_div_le_add_div
    _ = cap * (now - start) / window := by
      rw [← Nat.mul_add]
      congr 2
      omega

theorem Covered.fill {f : Flow} (h : Covered window cap start level last f) (hcap : cap' ≤ cap)
    (hstart : start ≤ now) (hlast : last ≤ now)
    (hleak : level ≤ kept + cap' * (now - last) / window) :
    Covered window cap start (kept + amount) now { f with outflow := f.outflow + amount } := by
  right
  refine ⟨hstart, ?_⟩
  dsimp only
  rcases h with hzero | ⟨hle, hcovered⟩
  · rw [hzero, Nat.zero_add, Nat.add_assoc]
    exact (Nat.le_add_left amount kept).trans (Nat.le_add_right _ _)
  · have hsum := leak_add_le window hcap hle hlast
    omega

theorem Covered.drain {f : Flow} (h : Covered window cap start level last f) (hcap : cap' ≤ cap)
    (hstart : start ≤ now) (hlast : last ≤ now)
    (hleak : level ≤ kept + cap' * (now - last) / window) :
    Covered window cap start (kept - amount) now { f with inflow := f.inflow + amount } := by
  rcases h with hzero | ⟨hle, hcovered⟩
  · exact .inl hzero
  · right
    refine ⟨hstart, ?_⟩
    have hsum := leak_add_le window hcap hle hlast
    dsimp only
    omega

theorem Covered.bound {f : Flow} (h : Covered window cap start level last f) (hlevel : level ≤ cap)
    (hstop : last ≤ stop) : f.outflow ≤ cap + cap * (stop - start) / window + f.inflow := by
  rcases h with hzero | ⟨hle, hcovered⟩
  · rw [hzero]
    exact Nat.zero_le _
  · have hleak : cap * (last - start) / window ≤ cap * (stop - start) / window := by gcongr
    omega

end LeakyBucket
