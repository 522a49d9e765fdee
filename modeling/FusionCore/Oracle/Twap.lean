import FusionCore.Lib.Checked
import Mathlib.Data.List.Range

/-!
# Observation ring

A ring of sampled prices, the oldest overwritten first, and the time-weighted average of the
prices that were in effect during a window.  The average is refused rather than extrapolated.
-/

namespace FusionCore
namespace Oracle

open Checked

structure Observation where
  price : ℕ
  ts : ℤ
  deriving DecidableEq, Repr

inductive TwapError where
  | nonMonotonicTs
  deriving DecidableEq, Repr

structure TwapConfig where
  minSamples : ℕ
  maxStaleness : ℤ
  deriving DecidableEq, Repr

/-- Slots `0 … n - 1`; the next write goes to `next`, and `count` slots before it are valid. -/
structure ObservationRing (n : ℕ) where
  prices : Fin n → ℕ
  ts : Fin n → ℤ
  next : Fin n
  count : ℕ
  count_le : count ≤ n

namespace ObservationRing

variable {n : ℕ} [NeZero n]

/-- All zero is the empty ring. -/
def new : ObservationRing n := ⟨fun _ ↦ 0, fun _ ↦ 0, 0, 0, Nat.zero_le n⟩

def at_ (r : ObservationRing n) (i : ℕ) : Observation :=
  ⟨r.prices (Fin.ofNat n i), r.ts (Fin.ofNat n i)⟩

/-- The newest observation. -/
def last (r : ObservationRing n) : Option Observation :=
  if r.count = 0 then none else some (r.at_ (r.next + n - 1))

/-- The `k`-th retained observation, oldest first. -/
def nth (r : ObservationRing n) (k : ℕ) : Observation := r.at_ ((r.next + n - r.count) % n + k)

/-- Timestamps must increase: a sampler that races itself cannot re-weight history. -/
def push (r : ObservationRing n) (price : ℕ) (ts : ℤ) :
    Except TwapError (ObservationRing n) := do
  require (∀ o ∈ r.last, o.ts < ts) .nonMonotonicTs
  pure
    { prices := Function.update r.prices r.next price
      ts := Function.update r.ts r.next ts
      next := r.next + 1
      count := min (r.count + 1) n
      count_le := min_le_right _ _ }

/-- One segment of the step function: the price holds until the next observation, the newest one
until `now`.  A segment before the window adds nothing. -/
def addSegment (r : ObservationRing n) (now start : ℤ) (acc k : ℕ) : Option ℕ :=
  let o := r.nth k
  let segStart := max o.ts start
  let segEnd := min (if k + 1 < r.count then (r.nth (k + 1)).ts else now) now
  if segEnd ≤ segStart then some acc
  else (checkedMul 128 o.price (segEnd - segStart).toNat).bind (checkedAdd 128 acc)

/-- Average over the `window` seconds before `now`, rounded down. -/
def twap (r : ObservationRing n) (now window : ℤ) (cfg : TwapConfig) : Option ℕ :=
  if window ≤ 0 ∨ r.count < cfg.minSamples ∨ r.count = 0 then none
  else do
    let newest ← r.last
    if now < newest.ts ∨ cfg.maxStaleness < now - newest.ts then none
    else
      let start := now - window
      if start < -2 ^ 63 ∨ start < (r.nth 0).ts then none
      else do
        let acc ← (List.range r.count).foldlM (r.addSegment now start) 0
        pure (acc / window.toNat)

end ObservationRing

end Oracle
end FusionCore
