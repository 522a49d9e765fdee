import Mathlib.MeasureTheory.Integral.IntervalIntegral.Basic

/-!
# Step functions

A list of steps, each a time and the value that holds from then on until the time of the next
step.  Over an interval that begins after the first step the integral of such a function is the sum
of the values, each weighted with the part of the interval during which it holds.
-/

namespace StepFunction

open MeasureTheory

/-- The value at `t`: that of the first step until the second begins, and so on. -/
noncomputable def value : List (ℝ × ℝ) → ℝ → ℝ
  | [], _ => 0
  | [s], _ => s.2
  | s :: s' :: l, t => if t < s'.1 then s.2 else value (s' :: l) t

/-- The area of each step within `[a, b]`. -/
noncomputable def areas (a b : ℝ) : List (ℝ × ℝ) → List ℝ
  | [] => []
  | [s] => [s.2 * max 0 (b - max s.1 a)]
  | s :: s' :: l => s.2 * max 0 (min s'.1 b - max s.1 a) :: areas a b (s' :: l)

variable {s s' : ℝ × ℝ} {l : List (ℝ × ℝ)} {a a' b t : ℝ}

theorem value_of_lt (h : t < s'.1) : value (s :: s' :: l) t = s.2 := if_pos h

theorem value_of_le (h : s'.1 ≤ t) : value (s :: s' :: l) t = value (s' :: l) t :=
  if_neg (not_lt.mpr h)

theorem value_mem (s : ℝ × ℝ) (l : List (ℝ × ℝ)) (t : ℝ) :
    ∃ u ∈ s :: l, value (s :: l) t = u.2 := by
  induction l generalizing s with
  | nil => exact ⟨s, List.mem_singleton_self s, rfl⟩
  | cons s' l ih =>
    by_cases h : t < s'.1
    · exact ⟨s, List.mem_cons_self, value_of_lt h⟩
    · obtain ⟨u, hu, heq⟩ := ih s'
      exact ⟨u, List.mem_cons_of_mem s hu, (value_of_le (not_lt.mp h)).trans heq⟩

theorem finite_range_value (l : List (ℝ × ℝ)) : (Set.range (value l)).Finite := by
  cases l with
  | nil => exact (Set.finite_singleton 0).subset (by rintro _ ⟨t, rfl⟩; rfl)
  | cons s l =>
    refine (List.finite_toSet ((s :: l).map Prod.snd)).subset ?_
    rintro _ ⟨t, rfl⟩
    obtain ⟨u, hu, heq⟩ := value_mem s l t
    exact List.mem_map.mpr ⟨u, hu, heq.symm⟩

theorem measurable_value (l : List (ℝ × ℝ)) : Measurable (value l) := by
  induction l with
  | nil => exact measurable_const
  | cons s l ih =>
    cases l with
    | nil => exact measurable_const
    | cons s' l => exact Measurable.ite measurableSet_Iio measurable_const ih

theorem intervalIntegrable_value (l : List (ℝ × ℝ)) (a b : ℝ) :
    IntervalIntegrable (value l) volume a b := by
  obtain ⟨c, hc⟩ := (finite_range_value l).isBounded.exists_norm_le
  refine IntervalIntegrable.mono_fun' (g := fun _ ↦ c) intervalIntegrable_const ?_ ?_
  · exact (measurable_value l).aestronglyMeasurable
  · exact Filter.Eventually.of_forall fun t ↦ hc _ ⟨t, rfl⟩

theorem areas_congr (h : ∀ s ∈ l, a ≤ s.1) (h' : ∀ s ∈ l, a' ≤ s.1) :
    areas a b l = areas a' b l := by
  induction l with
  | nil => rfl
  | cons s l ih =>
    have hs : max s.1 a = max s.1 a' := by
      rw [max_eq_left (h s List.mem_cons_self), max_eq_left (h' s List.mem_cons_self)]
    have htail := ih (fun u hu ↦ h u (List.mem_cons_of_mem s hu))
      fun u hu ↦ h' u (List.mem_cons_of_mem s hu)
    cases l with
    | nil => simp only [areas, hs]
    | cons s' l => simp only [areas, hs, htail]

theorem integral_value_const {c : ℝ} (hab : a ≤ b)
    (h : ∀ t, a < t → t < b → value l t = c) : ∫ t in a..b, value l t = c * (b - a) := by
  have hcongr : ∫ t in a..b, value l t = ∫ _ in a..b, c :=
    intervalIntegral.integral_congr_Ioo_of_le hab fun t ht ↦ h t ht.1 ht.2
  rw [hcongr, intervalIntegral.integral_const, smul_eq_mul, mul_comm]

theorem integral_value (hsorted : (s :: l).Pairwise fun u v ↦ u.1 < v.1) (ha : s.1 ≤ a)
    (hb : ∀ u ∈ s :: l, u.1 ≤ b) (hab : a ≤ b) :
    ∫ t in a..b, value (s :: l) t = (areas a b (s :: l)).sum := by
  induction l generalizing s a with
  | nil =>
    rw [integral_value_const hab fun _ _ _ ↦ rfl]
    simp only [areas, List.sum_singleton, max_eq_right ha, max_eq_right (sub_nonneg.mpr hab)]
  | cons s' l ih =>
    have htail := (List.pairwise_cons.mp hsorted).2
    have hb' : ∀ u ∈ s' :: l, u.1 ≤ b := fun u hu ↦ hb u (List.mem_cons_of_mem s hu)
    have hs'b : s'.1 ≤ b := hb' s' List.mem_cons_self
    simp only [areas, List.sum_cons, min_eq_left hs'b, max_eq_right ha]
    rcases le_or_gt s'.1 a with hle | hlt
    · -- the first step is over before the interval begins
      have hcongr : ∫ t in a..b, value (s :: s' :: l) t = ∫ t in a..b, value (s' :: l) t :=
        intervalIntegral.integral_congr_Ioo_of_le hab
          fun t ht ↦ value_of_le (hle.trans ht.1.le)
      rw [hcongr, ih htail hle hb' hab, max_eq_left (sub_nonpos.mpr hle), mul_zero, zero_add]
    · -- it holds until the second one begins, where the rest of the interval begins
      have hfirst : ∫ t in a..s'.1, value (s :: s' :: l) t = s.2 * (s'.1 - a) :=
        integral_value_const hlt.le fun t _ ht ↦ value_of_lt ht
      have hrest : ∫ t in s'.1..b, value (s :: s' :: l) t = (areas a b (s' :: l)).sum := by
        have hcongr : ∫ t in s'.1..b, value (s :: s' :: l) t = ∫ t in s'.1..b, value (s' :: l) t :=
          intervalIntegral.integral_congr_Ioo_of_le hs'b fun t ht ↦ value_of_le ht.1.le
        have hlater : ∀ u ∈ s' :: l, s'.1 ≤ u.1 := by
          intro u hu
          rcases List.mem_cons.mp hu with rfl | hu
          · exact le_rfl
          · exact ((List.pairwise_cons.mp htail).1 u hu).le
        rw [hcongr, ih htail le_rfl hb' hs'b]
        rw [areas_congr hlater fun u hu ↦ hlt.le.trans (hlater u hu)]
      rw [← intervalIntegral.integral_add_adjacent_intervals
        (intervalIntegrable_value _ a s'.1) (intervalIntegrable_value _ s'.1 b), hfirst, hrest,
        max_eq_right (sub_nonneg.mpr hlt.le)]

/-! ## The average over an interval -/

theorem le_integral_value {c : ℝ} (hab : a ≤ b) (h : ∀ t ∈ Set.Icc a b, c ≤ value l t) :
    c * (b - a) ≤ ∫ t in a..b, value l t := by
  have hconst : ∫ _ in a..b, c = c * (b - a) := by
    rw [intervalIntegral.integral_const, smul_eq_mul, mul_comm]
  rw [← hconst]
  exact intervalIntegral.integral_mono_on hab intervalIntegrable_const
    (intervalIntegrable_value l a b) h

theorem integral_value_le {c : ℝ} (hab : a ≤ b) (h : ∀ t ∈ Set.Icc a b, value l t ≤ c) :
    ∫ t in a..b, value l t ≤ c * (b - a) := by
  have hconst : ∫ _ in a..b, c = c * (b - a) := by
    rw [intervalIntegral.integral_const, smul_eq_mul, mul_comm]
  rw [← hconst]
  exact intervalIntegral.integral_mono_on hab (intervalIntegrable_value l a b)
    intervalIntegrable_const h

/-- The average lies between the least and the greatest value that are attained. -/
theorem exists_average_bounds (l : List (ℝ × ℝ)) (hab : a < b) : ∃ lo hi,
    IsLeast (value l '' Set.Icc a b) lo ∧ IsGreatest (value l '' Set.Icc a b) hi ∧
      lo ≤ (∫ t in a..b, value l t) / (b - a) ∧ (∫ t in a..b, value l t) / (b - a) ≤ hi := by
  have hfinite : (value l '' Set.Icc a b).Finite :=
    (finite_range_value l).subset (Set.image_subset_range _ _)
  have hne : (value l '' Set.Icc a b).Nonempty := (Set.nonempty_Icc.mpr hab.le).image _
  obtain ⟨lo, hlo⟩ := hfinite.isCompact.exists_isLeast hne
  obtain ⟨hi, hhi⟩ := hfinite.isCompact.exists_isGreatest hne
  have hlength : 0 < b - a := sub_pos.mpr hab
  refine ⟨lo, hi, hlo, hhi, ?_, ?_⟩
  · rw [le_div_iff₀ hlength]
    exact le_integral_value hab.le fun t ht ↦ hlo.2 ⟨t, ht, rfl⟩
  · rw [div_le_iff₀ hlength]
    exact integral_value_le hab.le fun t ht ↦ hhi.2 ⟨t, ht, rfl⟩

end StepFunction
