import FusionCore.Lib.Table
import Mathlib.Algebra.BigOperators.Ring.Finset
import Mathlib.Algebra.Order.BigOperators.Group.Finset
import Mathlib.Tactic.Ring

/-!
# Lazily settled shares of a rising index

A participant of weight `w` owes, or is owed, `w` for every unit the index has risen
since the level in its snapshot.  Raising the index moves the sum of all shares by the rise
times the sum of the weights; settling a participant takes its own share out.

Shares are counted in `1 / unit` and taken out in whole units.  Whatever is distributed by raising
the index is then, up to a carried residual and less than one unit per settlement, either taken out
or still owed.
-/

namespace LazyIndex

variable {K V : Type*} (w snap : V → ℕ) {level level' : ℕ}

/-- The share collected since the snapshot. -/
def owed (level : ℕ) (v : V) : ℕ := w v * (level - snap v)

/-- A participant with weight has its snapshot at or below the index. -/
def Behind (level : ℕ) (v : V) : Prop := 0 < w v → snap v ≤ level

theorem owed_settled {v : V} (h : 0 < w v → snap v = level) : owed w snap level v = 0 := by
  rcases Nat.eq_zero_or_pos (w v) with h0 | hpos
  · simp [owed, h0]
  · simp [owed, h hpos]

theorem Behind.raise {v : V} (h : Behind w snap level v) (hl : level ≤ level') :
    Behind w snap level' v :=
  fun hw ↦ (h hw).trans hl

theorem owed_raise {v : V} (h : Behind w snap level v) (hl : level ≤ level') :
    owed w snap level' v = owed w snap level v + (level' - level) * w v := by
  rcases Nat.eq_zero_or_pos (w v) with h0 | hpos
  · simp [owed, h0]
  · have hsplit : level' - snap v = level - snap v + (level' - level) := by
      have := h hpos
      omega
    rw [owed, owed, hsplit]
    ring

variable [DecidableEq K] {t : Table K V}

theorem total_owed_raise (h : t.All (Behind w snap level)) (hl : level ≤ level') :
    Table.total (owed w snap level') t =
      Table.total (owed w snap level) t + (level' - level) * Table.total w t := by
  rw [← Table.total_mul_left, ← Table.total_add]
  exact Table.total_congr fun k v hv ↦ owed_raise w snap (h k v hv) hl

/-! ## Settling in whole units -/

/-- What a step that takes the index from `level` to `level'` does to one participant.  A settled
one starts again at the new level; with a weight it may do so only where the index has not risen. -/
inductive Move (level level' : ℕ) : Option V → Option V → Prop where
  | absent : Move level level' none none
  | keep {v v' : V} (hw : w v' = w v) (hsnap : snap v' = snap v) :
      Move level level' (some v) (some v')
  | settle {v v' : V} (hsnap : snap v' = level') (hraise : w v' = 0 ∨ level' = level) :
      Move level level' (some v) (some v')
  | enter {v' : V} (hw : w v' = 0) : Move level level' none (some v')
  | leave {v : V} (hw : w v = 0) : Move level level' (some v) none

/-- The whole units that a participant has taken out, if its snapshot has moved. -/
def taken (unit level : ℕ) : Option V → Option V → ℕ
  | some v, some v' => if snap v' = snap v then 0 else owed w snap level v / unit
  | _, _ => 0

/-- One, if a participant was settled after the index had risen over its snapshot. -/
def settlements (level : ℕ) : Option V → Option V → ℕ
  | some v, some v' => if snap v' = snap v ∨ level ≤ snap v then 0 else 1
  | _, _ => 0

/-- Settling one participant loses less than one unit. -/
theorem Move.balance (unit : ℕ) {x y : Option V} (h : Move w snap level level' x y)
    (hbehind : ∀ v ∈ x, Behind w snap level v) (hl : level ≤ level') (hunit : 0 < unit) :
    unit * taken w snap unit level x y + y.elim 0 (owed w snap level')
        ≤ x.elim 0 (owed w snap level) + (level' - level) * y.elim 0 w ∧
      x.elim 0 (owed w snap level) + (level' - level) * y.elim 0 w
        ≤ unit * taken w snap unit level x y + y.elim 0 (owed w snap level')
          + (unit - 1) * settlements snap level x y := by
  cases h with
  | absent => simp [taken, settlements]
  | @keep v v' hw hsnap =>
    have hraise := owed_raise w snap (hbehind v rfl) hl
    have hsame : owed w snap level' v' = owed w snap level' v := by
      simp only [owed, hw, hsnap]
    simp only [taken, settlements, hsnap, if_true, true_or, Option.elim_some, hsame, hraise, hw]
    omega
  | @settle v v' hsnap hraise =>
    have hnew : owed w snap level' v' = 0 := owed_settled w snap fun _ ↦ hsnap
    have hrise : (level' - level) * w v' = 0 := by
      rcases hraise with hzero | heq
      · rw [hzero, Nat.mul_zero]
      · rw [heq, Nat.sub_self, Nat.zero_mul]
    simp only [taken, settlements, Option.elim_some, hnew, hrise, Nat.add_zero]
    by_cases hmoved : snap v' = snap v
    · have hold : owed w snap level v = 0 := by
        rw [owed, ← hmoved, hsnap, Nat.sub_eq_zero_of_le hl, Nat.mul_zero]
      simp [hmoved, hold]
    · by_cases hlevel : level ≤ snap v
      · have hold : owed w snap level v = 0 := by
          rw [owed, Nat.sub_eq_zero_of_le hlevel, Nat.mul_zero]
        simp [hold]
      · have hmod := Nat.mod_lt (owed w snap level v) hunit
        have hdiv := Nat.div_add_mod (owed w snap level v) unit
        simp only [hmoved, hlevel, or_self, if_false, Nat.mul_one]
        omega
  | @enter v' hw => simp [taken, settlements, owed, hw]
  | @leave v hw => simp [taken, settlements, owed, hw]

/-- What all participants have taken out in a step. -/
def takenTotal (unit level : ℕ) (t t' : Table K V) : ℕ :=
  t.sumKeys fun k ↦ taken w snap unit level (t.lookup k) (t'.lookup k)

def settlementsTotal (level : ℕ) (t t' : Table K V) : ℕ :=
  t.sumKeys fun k ↦ settlements snap level (t.lookup k) (t'.lookup k)

theorem total_balance {unit : ℕ} {t t' : Table K V}
    (h : ∀ k, Move w snap level level' (t.lookup k) (t'.lookup k))
    (hbehind : t.All (Behind w snap level)) (hl : level ≤ level') (hunit : 0 < unit) :
    unit * takenTotal w snap unit level t t' + t'.total (owed w snap level')
        ≤ t.total (owed w snap level) + (level' - level) * t'.total w ∧
      t.total (owed w snap level) + (level' - level) * t'.total w
        ≤ unit * takenTotal w snap unit level t t' + t'.total (owed w snap level')
          + (unit - 1) * settlementsTotal snap level t t' := by
  -- compare the sums key by key over the keys of both tables
  set s := t.keys.toFinset ∪ t'.keys.toFinset
  have hs : t.keys.toFinset ⊆ s := Finset.subset_union_left
  have hs' : t'.keys.toFinset ⊆ s := Finset.subset_union_right
  have htaken : takenTotal w snap unit level t t'
      = ∑ k ∈ s, taken w snap unit level (t.lookup k) (t'.lookup k) :=
    Table.sumKeys_eq_sum hs fun k hk ↦ by rw [hk]; rfl
  have hcount : settlementsTotal snap level t t'
      = ∑ k ∈ s, settlements snap level (t.lookup k) (t'.lookup k) :=
    Table.sumKeys_eq_sum hs fun k hk ↦ by rw [hk]; rfl
  have hkey := fun k ↦ (h k).balance w snap unit (fun v hv ↦ hbehind k v hv) hl hunit
  rw [htaken, hcount, Table.total_eq_sum hs, Table.total_eq_sum hs', Table.total_eq_sum hs',
    Finset.mul_sum, Finset.mul_sum, Finset.mul_sum, ← Finset.sum_add_distrib,
    ← Finset.sum_add_distrib, ← Finset.sum_add_distrib]
  exact ⟨Finset.sum_le_sum fun k _ ↦ (hkey k).1, Finset.sum_le_sum fun k _ ↦ (hkey k).2⟩

/-- The running sums of a distribution, in whole units, and the number of settlements. -/
structure Flow where
  distributed : ℕ
  taken : ℕ
  settlements : ℕ
  deriving DecidableEq

/-- Everything distributed has been taken out, is owed, or is the carried residual, up to less than
one unit for each settlement. -/
structure Conserved (unit level err : ℕ) (t : Table K V) (f : Flow) : Prop where
  covered : t.total (owed w snap level) + err + unit * f.taken ≤ unit * f.distributed
  tight : unit * f.distributed ≤
    t.total (owed w snap level) + err + unit * f.taken + (unit - 1) * f.settlements

/-- A step that distributes `amount` by raising the index for the weights that are left, and keeps
a new residual. -/
theorem Conserved.step {unit err err' amount : ℕ} {t t' : Table K V} {f : Flow}
    (hc : Conserved w snap unit level err t f)
    (h : ∀ k, Move w snap level level' (t.lookup k) (t'.lookup k))
    (hbehind : t.All (Behind w snap level)) (hl : level ≤ level') (hunit : 0 < unit)
    (hamount : amount * unit + err = (level' - level) * t'.total w + err') :
    Conserved w snap unit level' err' t'
      ⟨f.distributed + amount, f.taken + takenTotal w snap unit level t t',
        f.settlements + settlementsTotal snap level t t'⟩ := by
  obtain ⟨hlow, hhigh⟩ := total_balance w snap h hbehind hl hunit
  have hcovered := hc.covered
  have htight := hc.tight
  constructor <;> simp only [Nat.mul_add, Nat.mul_comm unit amount]
  · omega
  · omega

/-- In whole units: nothing is taken or owed beyond what was distributed, and what is missing is
less than one unit for each settlement and each participant, and the residual. -/
theorem Conserved.bounds {unit err : ℕ} {t : Table K V} {f : Flow}
    (hc : Conserved w snap unit level err t f) (hunit : 0 < unit) :
    f.taken + t.total (fun v ↦ owed w snap level v / unit) ≤ f.distributed ∧
      f.distributed ≤ f.taken + t.total (fun v ↦ owed w snap level v / unit)
        + (f.settlements + t.entries.length + err / unit) := by
  have hlow : t.total (fun v ↦ unit * (owed w snap level v / unit)) ≤
      t.total (owed w snap level) :=
    Table.total_le_total fun _ v _ ↦ Nat.mul_div_le _ _
  have hhigh : t.total (owed w snap level) ≤
      t.total (fun v ↦ unit * (owed w snap level v / unit + 1)) :=
    Table.total_le_total fun _ v _ ↦ (Nat.lt_mul_div_succ _ hunit).le
  rw [Table.total_mul_left] at hlow hhigh
  rw [Table.total_add, Table.total_one] at hhigh
  set pending := t.total fun v ↦ owed w snap level v / unit
  have hcovered := hc.covered
  have htight := hc.tight
  constructor
  · refine Nat.le_of_mul_le_mul_left ?_ hunit
    rw [Nat.mul_add]
    omega
  · -- compare in `1 / unit`, then divide the residual
    have hcount : (unit - 1) * f.settlements ≤ unit * f.settlements :=
      Nat.mul_le_mul_right _ (Nat.sub_le _ _)
    have hscaled : unit * f.distributed ≤
        unit * (f.taken + pending + f.settlements + t.entries.length) + err := by
      simp only [Nat.mul_add] at hhigh ⊢
      omega
    have hmissing : f.distributed - (f.taken + pending + f.settlements + t.entries.length)
        ≤ err / unit := by
      rw [Nat.le_div_iff_mul_le hunit, Nat.mul_comm, Nat.mul_sub]
      omega
    omega

end LazyIndex
