import FusionCore.Lib.Checked
import Mathlib.Data.List.FinRange
import Mathlib.Logic.Function.Basic

/-!
# The rate-bucket bitmap

Non-empty rate buckets are bits of an array of 64-bit words.  Redemption starts
at the lowest set bit, so the word operations are specified by the set of buckets they
mark, and `firstSet` by the least marked bucket.
-/

namespace FusionCore
namespace RateBucket

/-- The words of a bitmap with `64 * n` buckets. -/
abbrev Words (n : ℕ) := Fin n → BitVec 64

def bucketOf (rateBps widthBps numBuckets : ℕ) : ℕ :=
  min (rateBps / max widthBps 1) (numBuckets - 1)

theorem bucketOf_lt {rate width num : ℕ} (h : 0 < num) : bucketOf rate width num < num := by
  unfold bucketOf
  omega

variable {n : ℕ}

def wordOf (b : Fin (64 * n)) : Fin n := ⟨b / 64, by omega⟩

def maskOf (b : Fin (64 * n)) : BitVec 64 := 1#64 <<< (b.val % 64)

def set (words : Words n) (b : Fin (64 * n)) : Words n :=
  Function.update words (wordOf b) (words (wordOf b) ||| maskOf b)

def clear (words : Words n) (b : Fin (64 * n)) : Words n :=
  Function.update words (wordOf b) (words (wordOf b) &&& ~~~ maskOf b)

def isSet (words : Words n) (b : Fin (64 * n)) : Bool :=
  words (wordOf b) &&& maskOf b != 0#64

def trailingZeros (w : BitVec 64) : ℕ := ((List.range 64).find? fun i ↦ w.getLsbD i).getD 64

/-- The lowest non-empty bucket. -/
def firstSet (words : Words n) : Option ℕ :=
  (List.finRange n).findSome? fun i ↦
    if words i ≠ 0#64 then some (i * 64 + trailingZeros (words i)) else none

/-- Order of two positions by collateral ratio, cross-multiplied. -/
def cmpCollateralRatio (inkA artA inkB artB : ℕ) : Ordering :=
  compare (inkA * artB) (inkB * artA)

/-! ## Marked buckets -/

theorem getLsbD_maskOf (b : Fin (64 * n)) {i : ℕ} (hi : i < 64) :
    (maskOf b).getLsbD i = decide (i = b.val % 64) := by
  have hb : b.val % 64 < 64 := Nat.mod_lt _ (by decide)
  simp only [maskOf, BitVec.getLsbD_shiftLeft, BitVec.getLsbD_one, hi, decide_true, Bool.true_and]
  by_cases h : i < b.val % 64
  · simp [h, h.ne]
  · rw [Bool.eq_iff_iff]
    simp only [h, decide_false, Bool.not_false, Bool.true_and, Bool.and_eq_true,
      decide_eq_true_eq]
    omega

theorem isSet_eq_getLsbD (words : Words n) (b : Fin (64 * n)) :
    isSet words b = (words (wordOf b)).getLsbD (b.val % 64) := by
  have hb : b.val % 64 < 64 := Nat.mod_lt _ (by decide)
  cases h : (words (wordOf b)).getLsbD (b.val % 64) with
  | true =>
      simp only [isSet, bne_iff_ne, ne_eq]
      intro h0
      have := congrArg (fun w ↦ w.getLsbD (b.val % 64)) h0
      simp [getLsbD_maskOf b hb, h] at this
  | false =>
      simp only [isSet, bne_eq_false_iff_eq]
      apply BitVec.eq_of_getLsbD_eq
      intro i hi
      rw [BitVec.getLsbD_and, getLsbD_maskOf b hi]
      by_cases hib : i = b.val % 64
      · simp [hib, h]
      · simp [hib]

theorem eq_of_wordOf {b c : Fin (64 * n)} (hw : wordOf b = wordOf c)
    (hm : b.val % 64 = c.val % 64) : b = c := by
  have : b.val / 64 = c.val / 64 := congrArg Fin.val hw
  apply Fin.ext
  omega

theorem isSet_set (words : Words n) (b c : Fin (64 * n)) :
    isSet (set words b) c = (decide (c = b) || isSet words c) := by
  have hc : c.val % 64 < 64 := Nat.mod_lt _ (by decide)
  rw [isSet_eq_getLsbD, isSet_eq_getLsbD, set]
  by_cases hw : wordOf c = wordOf b
  · rw [hw, Function.update_self, BitVec.getLsbD_or, getLsbD_maskOf b hc, Bool.or_comm]
    congr 1
    by_cases hm : c.val % 64 = b.val % 64
    · simp [eq_of_wordOf hw hm]
    · have hne : c ≠ b := fun h ↦ hm (by rw [h])
      simp [hm, hne]
  · have hne : c ≠ b := fun h ↦ hw (by rw [h])
    rw [Function.update_of_ne hw]
    simp [hne]

theorem isSet_clear (words : Words n) (b c : Fin (64 * n)) :
    isSet (clear words b) c = (decide (c ≠ b) && isSet words c) := by
  have hc : c.val % 64 < 64 := Nat.mod_lt _ (by decide)
  rw [isSet_eq_getLsbD, isSet_eq_getLsbD, clear]
  by_cases hw : wordOf c = wordOf b
  · rw [hw, Function.update_self, BitVec.getLsbD_and, BitVec.getLsbD_not, getLsbD_maskOf b hc,
      Bool.and_comm]
    congr 1
    by_cases hm : c.val % 64 = b.val % 64
    · simp [eq_of_wordOf hw hm]
    · have hne : c ≠ b := fun h ↦ hm (by rw [h])
      simp [hm, hne, hc]
  · have hne : c ≠ b := fun h ↦ hw (by rw [h])
    rw [Function.update_of_ne hw]
    simp [hne]

/-! ## Find first set -/

/-- The number of trailing zeros of a nonzero word is the index of its lowest set bit. -/
theorem trailingZeros_spec {w : BitVec 64} (h : w ≠ 0#64) :
    trailingZeros w < 64 ∧ w.getLsbD (trailingZeros w) = true ∧
      ∀ i < trailingZeros w, w.getLsbD i = false := by
  obtain ⟨i, hi⟩ : ∃ i, (List.range 64).find? (fun i ↦ w.getLsbD i) = some i := by
    by_contra hnone
    rw [← Option.isSome_iff_exists, Bool.not_eq_true, Option.isSome_eq_false_iff,
      Option.isNone_iff_eq_none, List.find?_eq_none] at hnone
    apply h
    apply BitVec.eq_of_getLsbD_eq
    intro j hj
    simpa using hnone j (List.mem_range.mpr hj)
  have htz : trailingZeros w = i := by simp [trailingZeros, hi]
  rw [List.find?_range_eq_some] at hi
  rw [htz]
  obtain ⟨hbit, hlt, hmin⟩ := hi
  refine ⟨List.mem_range.mp hlt, hbit, fun j hj ↦ ?_⟩
  simpa using hmin j hj

theorem word_eq_zero_of_firstSet {words : Words n} {i : Fin n} {k : ℕ}
    (h : firstSet words = some k) (hi : i.val < k / 64) : words i = 0#64 := by
  obtain ⟨l₁, a, l₂, hl, ha, hnone⟩ := List.findSome?_eq_some_iff.mp h
  have hak : a.val = k / 64 := by
    by_cases hz : words a = 0#64
    · simp [hz] at ha
    · have htz := (trailingZeros_spec hz).1
      simp only [ne_eq, hz, not_false_eq_true, if_true, Option.some.injEq] at ha
      omega
  have hmem : i ∈ l₁ ++ a :: l₂ := hl ▸ List.mem_finRange i
  have hsorted : (l₁ ++ a :: l₂).Pairwise (· < ·) := hl ▸ List.pairwise_lt_finRange n
  have hi₁ : i ∈ l₁ := by
    rcases List.mem_append.mp hmem with h₁ | h₂
    · exact h₁
    · exfalso
      rcases List.mem_cons.mp h₂ with rfl | h₃
      · omega
      · have hlt : a < i := List.rel_of_pairwise_cons (List.pairwise_append.mp hsorted).2.1 h₃
        omega
  simpa using hnone i hi₁

theorem firstSet_spec {words : Words n} {k : ℕ} (h : firstSet words = some k) :
    ∃ hk : k < 64 * n, isSet words ⟨k, hk⟩ = true ∧
      ∀ c : Fin (64 * n), c.val < k → isSet words c = false := by
  obtain ⟨l₁, a, l₂, -, ha, -⟩ := List.findSome?_eq_some_iff.mp h
  by_cases hz : words a = 0#64
  · simp [hz] at ha
  obtain ⟨hlt, hbit, hmin⟩ := trailingZeros_spec hz
  simp only [ne_eq, hz, not_false_eq_true, if_true, Option.some.injEq] at ha
  have hk : k < 64 * n := by omega
  have hword : wordOf (⟨k, hk⟩ : Fin (64 * n)) = a := by
    apply Fin.ext
    simp only [wordOf]
    omega
  refine ⟨hk, ?_, fun c hc ↦ ?_⟩
  · rw [isSet_eq_getLsbD, hword]
    simpa [show k % 64 = trailingZeros (words a) by omega] using hbit
  · rw [isSet_eq_getLsbD]
    by_cases hcw : c.val / 64 < k / 64
    · rw [word_eq_zero_of_firstSet h (i := wordOf c) hcw]
      simp
    · have hca : wordOf c = a := by
        apply Fin.ext
        simp only [wordOf]
        omega
      rw [hca]
      exact hmin _ (by omega)

theorem firstSet_eq_none {words : Words n} (h : firstSet words = none) (c : Fin (64 * n)) :
    isSet words c = false := by
  have hzero := List.findSome?_eq_none_iff.mp h (wordOf c) (List.mem_finRange _)
  rw [isSet_eq_getLsbD]
  have : words (wordOf c) = 0#64 := by simpa using hzero
  simp [this]

end RateBucket
end FusionCore
