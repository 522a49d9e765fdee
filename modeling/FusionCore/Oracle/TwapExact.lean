import FusionCore.Lib.StepFunction
import FusionCore.Oracle.TwapRing
import Mathlib.Algebra.Order.Floor.Semifield
import Mathlib.Data.List.DropRight

/-!
# The average is the exact average

The ring stands for the list of the last observations, whatever the number of wrap-arounds.  The
loop over its segments adds up the areas of the step function that holds each price until the next
observation, so that the average it returns is the integral over the window, divided by the window
and rounded down.
-/

namespace FusionCore
namespace Oracle
namespace ObservationRing

open Checked

variable {n : ℕ} [NeZero n] {r r' : ObservationRing n} {price : ℕ} {ts : ℤ}

/-! ## The ring as a list -/

/-- The retained observations, oldest first. -/
def retained (r : ObservationRing n) : List Observation := (List.range r.count).map r.nth

@[simp] theorem length_retained (r : ObservationRing n) : r.retained.length = r.count := by
  simp [retained]

theorem retained_push (h : r.push price ts = .ok r') :
    r'.retained = (r.retained ++ [Observation.mk price ts]).rtake n := by
  have hcount := count_push h
  have hle := r.count_le
  apply List.ext_getElem
  · simp only [length_retained, List.rtake, List.length_drop, List.length_append,
      List.length_singleton]
    omega
  · intro k hk _
    rw [length_retained] at hk
    simp only [List.rtake, List.getElem_drop, List.length_append, length_retained,
      List.length_singleton]
    rcases Nat.lt_or_ge (k + 1) r'.count with holder | hnewest
    · have hidx : r.count + 1 - n + k < r.retained.length := by
        rw [length_retained]
        omega
      rw [List.getElem_append_left hidx]
      simp only [retained, List.getElem_map, List.getElem_range]
      rw [nth_push_older h holder]
      congr 1
      omega
    · have hidx : r.retained.length ≤ r.count + 1 - n + k := by
        rw [length_retained]
        omega
      rw [List.getElem_append_right hidx]
      simp only [retained, List.getElem_map, List.getElem_range]
      rw [nth_push_newest h (by omega)]
      simp

/-- Push a list of observations into an empty ring. -/
def record (obs : List Observation) : Except TwapError (ObservationRing n) :=
  obs.foldlM (fun r o ↦ r.push o.price o.ts) new

theorem mem_retained_of_last {o : Observation} (h : o ∈ r.last) : o ∈ r.retained := by
  have hpos : 0 < r.count := by
    by_contra hzero
    rw [last_eq_none (Nat.eq_zero_of_not_pos hzero)] at h
    cases h
  rw [last_eq_nth hpos] at h
  obtain rfl := Option.some.inj h
  exact List.mem_map.mpr ⟨r.count - 1, List.mem_range.mpr (by omega), rfl⟩

theorem rtake_rtake_concat (obs : List Observation) (o : Observation) :
    (obs.rtake n ++ [o]).rtake n = (obs ++ [o]).rtake n := by
  obtain ⟨m, rfl⟩ := Nat.exists_eq_succ_of_ne_zero (NeZero.ne n)
  rw [List.rtake_concat_succ, List.rtake_concat_succ, List.rtake_eq_reverse_take_reverse,
    List.rtake_eq_reverse_take_reverse, List.rtake_eq_reverse_take_reverse, List.reverse_reverse,
    List.take_take, min_eq_left (Nat.le_succ m)]

/-- Observations with increasing times are all accepted, and the last of them are retained. -/
theorem exists_record {obs : List Observation} (h : obs.Pairwise fun o o' ↦ o.ts < o'.ts) :
    ∃ r : ObservationRing n, record obs = .ok r ∧ r.retained = obs.rtake n := by
  induction obs using List.reverseRecOn with
  | nil => exact ⟨new, rfl, (List.rtake_nil n).symm⟩
  | append_singleton obs o ih =>
    obtain ⟨hbefore, -, hafter⟩ := List.pairwise_append.mp h
    obtain ⟨r, hr, hretained⟩ := ih hbefore
    have haccept : ∀ o' ∈ r.last, o'.ts < o.ts := by
      intro o' ho'
      have hmem : o' ∈ obs.rtake n := hretained ▸ mem_retained_of_last ho'
      exact hafter o' (List.drop_subset _ _ hmem) o (List.mem_singleton_self o)
    have hpush : ∃ r', r.push o.price o.ts = .ok r' := by
      simp only [push, bind_eq_ok_iff, require_eq_ok, pure_eq_ok, exists_const]
      exact ⟨_, haccept, rfl⟩
    obtain ⟨r', hr'⟩ := hpush
    refine ⟨r', ?_, ?_⟩
    · rw [record, List.foldlM_append]
      rw [record] at hr
      rw [hr]
      simp [hr']
    · rw [retained_push hr', hretained, rtake_rtake_concat]

/-! ## The loop over the segments -/

/-- What each observation adds to the sum over the window from `start` to `now`: its price times
the seconds of the window until the next observation. -/
def segments (now start : ℤ) : List Observation → List ℕ
  | [] => []
  | [o] => [o.price * (now - max o.ts start).toNat]
  | o :: o' :: obs =>
      o.price * (min o'.ts now - max o.ts start).toNat :: segments now start (o' :: obs)

/-- The contribution of the `k`-th retained observation, as the loop computes it. -/
def segment (r : ObservationRing n) (now start : ℤ) (k : ℕ) : ℕ :=
  (r.nth k).price *
    (min (if k + 1 < r.count then (r.nth (k + 1)).ts else now) now - max (r.nth k).ts start).toNat

variable {now start : ℤ} {acc v k : ℕ}

theorem addSegment_eq_some (hacc : acc < 2 ^ 128) : r.addSegment now start acc k = some v ↔
    acc + r.segment now start k < 2 ^ 128 ∧ acc + r.segment now start k = v := by
  unfold addSegment segment
  dsimp only
  set stop := min (if k + 1 < r.count then (r.nth (k + 1)).ts else now) now
  by_cases hskip : stop ≤ max (r.nth k).ts start
  · rw [if_pos hskip, Int.toNat_eq_zero.mpr (by omega), Nat.mul_zero, Nat.add_zero]
    rw [Option.some.injEq]
    exact ⟨fun h ↦ ⟨hacc, h⟩, fun h ↦ h.2⟩
  · rw [if_neg hskip, Option.bind_eq_some_iff]
    simp only [checkedMul_eq_some, checkedAdd_eq_some]
    constructor
    · rintro ⟨_, ⟨-, rfl⟩, hfit, rfl⟩
      exact ⟨hfit, rfl⟩
    · rintro ⟨hfit, rfl⟩
      exact ⟨_, ⟨by omega, rfl⟩, hfit, rfl⟩

/-- The loop succeeds exactly if no partial sum leaves the width, and returns the whole sum. -/
theorem foldlM_addSegment {ks : List ℕ} (hacc : acc < 2 ^ 128) :
    ks.foldlM (r.addSegment now start) acc = some v ↔
      (∀ j, acc + ((ks.map (r.segment now start)).take j).sum < 2 ^ 128) ∧
        acc + (ks.map (r.segment now start)).sum = v := by
  induction ks generalizing acc with
  | nil =>
    simp only [List.foldlM_nil, Option.pure_def, Option.some.injEq, List.map_nil, List.take_nil,
      List.sum_nil, Nat.add_zero]
    exact ⟨fun h ↦ ⟨fun _ ↦ hacc, h⟩, fun h ↦ h.2⟩
  | cons k ks ih =>
    rw [List.foldlM_cons, Option.bind_eq_bind, Option.bind_eq_some_iff]
    simp only [addSegment_eq_some hacc, List.map_cons, List.sum_cons]
    constructor
    · rintro ⟨_, ⟨hfit, rfl⟩, hrest⟩
      obtain ⟨hsums, hsum⟩ := (ih hfit).mp hrest
      refine ⟨?_, by rw [← Nat.add_assoc, hsum]⟩
      intro j
      cases j with
      | zero => simpa using hacc
      | succ j =>
        rw [List.take_succ_cons, List.sum_cons, ← Nat.add_assoc]
        exact hsums j
    · rintro ⟨hsums, hsum⟩
      have hfit : acc + r.segment now start k < 2 ^ 128 := by simpa using hsums 1
      refine ⟨_, ⟨hfit, rfl⟩, (ih hfit).mpr ⟨?_, by rw [Nat.add_assoc, hsum]⟩⟩
      intro j
      have hj := hsums (j + 1)
      rwa [List.take_succ_cons, List.sum_cons, ← Nat.add_assoc] at hj

theorem segments_map_range (now start : ℤ) (f : ℕ → Observation) (m : ℕ) :
    segments now start ((List.range m).map f) = (List.range m).map fun k ↦ (f k).price *
      (min (if k + 1 < m then (f (k + 1)).ts else now) now - max (f k).ts start).toNat := by
  induction m generalizing f with
  | zero => rfl
  | succ m ih =>
    rw [List.range_succ_eq_map, List.map_cons, List.map_map, List.map_cons, List.map_map]
    cases m with
    | zero => simp [segments]
    | succ m =>
      have htail := ih (f ∘ Nat.succ)
      rw [List.range_succ_eq_map] at htail ⊢
      simp only [List.map_cons, List.map_map] at htail ⊢
      rw [segments, htail]
      simp [Function.comp_def, Nat.succ_le_iff]

theorem segments_retained (r : ObservationRing n) (now start : ℤ) :
    segments now start r.retained = (List.range r.count).map (r.segment now start) :=
  segments_map_range now start r.nth r.count

/-! ## The integral -/

/-- The price in effect at `t`: each observation's price holds until the next one. -/
noncomputable def priceAt (obs : List Observation) : ℝ → ℝ :=
  StepFunction.value (obs.map fun o ↦ ((o.ts : ℝ), (o.price : ℝ)))

theorem exists_priceAt (obs : List Observation) (t : ℝ) : ∃ p : ℕ, priceAt obs t = p := by
  cases obs with
  | nil => exact ⟨0, Nat.cast_zero.symm⟩
  | cons o obs =>
    obtain ⟨u, hu, heq⟩ := StepFunction.value_mem ((o.ts : ℝ), (o.price : ℝ))
      (obs.map fun o ↦ ((o.ts : ℝ), (o.price : ℝ))) t
    rw [← List.map_cons (f := fun o : Observation ↦ ((o.ts : ℝ), (o.price : ℝ)))] at hu
    obtain ⟨o', -, rfl⟩ := List.mem_map.mp hu
    exact ⟨o'.price, heq⟩

theorem cast_toNat (z : ℤ) : ((z.toNat : ℕ) : ℝ) = max 0 (z : ℝ) := by
  have hz : ((z.toNat : ℕ) : ℤ) = max 0 z := by omega
  have hcast : (((z.toNat : ℕ) : ℤ) : ℝ) = ((max 0 z : ℤ) : ℝ) := congrArg _ hz
  push_cast at hcast
  exact hcast

theorem map_cast_segments (now start : ℤ) (obs : List Observation) :
    (segments now start obs).map (Nat.cast : ℕ → ℝ) =
      StepFunction.areas start now (obs.map fun o ↦ ((o.ts : ℝ), (o.price : ℝ))) := by
  induction obs with
  | nil => rfl
  | cons o obs ih =>
    cases obs with
    | nil => simp [segments, StepFunction.areas, cast_toNat]
    | cons o' obs =>
      simp only [List.map_cons] at ih
      simp [segments, StepFunction.areas, cast_toNat, ih]

theorem cast_sum_segments {o : Observation} {obs : List Observation}
    (hsorted : (o :: obs).Pairwise fun o o' ↦ o.ts < o'.ts) (hstart : o.ts ≤ start)
    (hnow : ∀ o' ∈ o :: obs, o'.ts ≤ now) (hle : start ≤ now) :
    (((segments now start (o :: obs)).sum : ℕ) : ℝ) =
      ∫ t in (start : ℝ)..now, priceAt (o :: obs) t := by
  rw [Nat.cast_list_sum, map_cast_segments, priceAt, List.map_cons]
  symm
  apply StepFunction.integral_value
  · rw [← List.map_cons (f := fun o : Observation ↦ ((o.ts : ℝ), (o.price : ℝ))),
      List.pairwise_map]
    exact hsorted.imp fun h ↦ Int.cast_lt.mpr h
  · exact Int.cast_le.mpr hstart
  · rw [← List.map_cons (f := fun o : Observation ↦ ((o.ts : ℝ), (o.price : ℝ)))]
    intro u hu
    obtain ⟨o', ho', rfl⟩ := List.mem_map.mp hu
    exact Int.cast_le.mpr (hnow o' ho')
  · exact Int.cast_le.mpr hle

/-! ## The average -/

/-- The observations `obs` cover the window before `now`: there are enough of them, the newest is
neither in the future nor stale, the oldest is not later than the start of the window, and no sum of
the loop leaves the width. -/
structure Covers (obs : List Observation) (now window : ℤ) (cfg : TwapConfig) : Prop where
  samples : max 1 cfg.minSamples ≤ obs.length
  newest : ∀ o ∈ obs.getLast?, o.ts ≤ now ∧ now - o.ts ≤ cfg.maxStaleness
  oldest : ∀ o ∈ obs.head?, o.ts ≤ now - window
  fits : ∀ k, ((segments now (now - window) obs).take k).sum < 2 ^ 128

theorem head?_retained (hpos : 0 < r.count) : r.retained.head? = some (r.nth 0) := by
  obtain ⟨m, hm⟩ := Nat.exists_eq_succ_of_ne_zero hpos.ne'
  rw [retained, hm, List.range_succ_eq_map]
  rfl

theorem getLast?_retained (hpos : 0 < r.count) :
    r.retained.getLast? = some (r.nth (r.count - 1)) := by
  obtain ⟨m, hm⟩ := Nat.exists_eq_succ_of_ne_zero hpos.ne'
  rw [retained, hm, List.range_succ, List.map_append, List.map_singleton,
    List.getLast?_append_of_ne_nil _ (by simp)]
  rfl

variable {window : ℤ} {cfg : TwapConfig}

theorem covers_retained_iff (hpos : 0 < r.count) : Covers r.retained now window cfg ↔
    cfg.minSamples ≤ r.count ∧ ((r.nth (r.count - 1)).ts ≤ now ∧
      now - (r.nth (r.count - 1)).ts ≤ cfg.maxStaleness) ∧ (r.nth 0).ts ≤ now - window ∧
      ∀ k, ((segments now (now - window) r.retained).take k).sum < 2 ^ 128 := by
  constructor
  · rintro ⟨hsamples, hnewest, holdest, hfits⟩
    rw [length_retained] at hsamples
    exact ⟨(le_max_right _ _).trans hsamples, hnewest _ (getLast?_retained hpos),
      holdest _ (head?_retained hpos), hfits⟩
  · rintro ⟨hsamples, hnewest, holdest, hfits⟩
    refine ⟨?_, ?_, ?_, hfits⟩
    · rw [length_retained]
      exact max_le hpos hsamples
    · intro o ho
      rw [getLast?_retained hpos] at ho
      obtain rfl := Option.some.inj ho
      exact hnewest
    · intro o ho
      rw [head?_retained hpos] at ho
      obtain rfl := Option.some.inj ho
      exact holdest

theorem twap_eq_some (hwindow : 0 < window) (hstart : -2 ^ 63 ≤ now - window) :
    r.twap now window cfg = some v ↔ Covers r.retained now window cfg ∧
      (segments now (now - window) r.retained).sum / window.toNat = v := by
  rcases Nat.eq_zero_or_pos r.count with hzero | hpos
  · -- an empty ring has no average and covers nothing
    have hnone : r.twap now window cfg = none := if_pos (.inr (.inr hzero))
    rw [hnone]
    constructor
    · intro h
      cases h
    · rintro ⟨hcovers, -⟩
      have hsamples := hcovers.samples
      rw [length_retained, hzero] at hsamples
      exact absurd ((le_max_left _ _).trans hsamples) (by decide)
  rw [covers_retained_iff hpos, segments_retained]
  unfold twap
  rw [last_eq_nth hpos]
  by_cases hsamples : cfg.minSamples ≤ r.count
  · rw [if_neg (by omega), Option.bind_eq_bind, Option.bind_some]
    by_cases hnewest : (r.nth (r.count - 1)).ts ≤ now ∧
        now - (r.nth (r.count - 1)).ts ≤ cfg.maxStaleness
    · rw [if_neg (by omega)]
      by_cases holdest : (r.nth 0).ts ≤ now - window
      · rw [if_neg (by omega)]
        rw [Option.bind_eq_bind, Option.bind_eq_some_iff]
        simp only [foldlM_addSegment (Nat.two_pow_pos 128), Nat.zero_add, Option.pure_def,
          Option.some.injEq]
        constructor
        · rintro ⟨_, ⟨hfits, rfl⟩, hv⟩
          exact ⟨⟨hsamples, hnewest, holdest, hfits⟩, hv⟩
        · rintro ⟨⟨-, -, -, hfits⟩, hv⟩
          exact ⟨_, ⟨hfits, rfl⟩, hv⟩
      · rw [if_pos (by omega)]
        simp only [holdest, false_and, and_false, reduceCtorEq]
    · rw [if_pos (by omega)]
      simp only [hnewest, false_and, and_false, reduceCtorEq]
  · rw [if_pos (by omega)]
    simp only [hsamples, false_and, reduceCtorEq]

theorem ts_le_of_getLast? {obs : List Observation}
    (hsorted : obs.Pairwise fun o o' ↦ o.ts < o'.ts) {o newest : Observation}
    (hnewest : obs.getLast? = some newest) (ho : o ∈ obs) : o.ts ≤ newest.ts := by
  obtain ⟨older, rfl⟩ := List.getLast?_eq_some_iff.mp hnewest
  rcases List.mem_append.mp ho with hold | hnew
  · exact ((List.pairwise_append.mp hsorted).2.2 o hold newest (List.mem_singleton_self _)).le
  · rw [List.mem_singleton.mp hnew]

/-- The sum over a covered window is the integral of the price over it. -/
theorem Covers.sum_eq_integral {obs : List Observation} (h : Covers obs now window cfg)
    (hsorted : obs.Pairwise fun o o' ↦ o.ts < o'.ts) (hwindow : 0 < window) :
    (((segments now (now - window) obs).sum : ℕ) : ℝ) =
      ∫ t in (now - window : ℝ)..now, priceAt obs t := by
  cases obs with
  | nil => exact absurd ((le_max_left _ _).trans h.samples) (by decide)
  | cons o obs =>
    obtain ⟨newest, hlast⟩ : ∃ newest, (o :: obs).getLast? = some newest :=
      ⟨_, List.getLast?_eq_some_getLast (List.cons_ne_nil o obs)⟩
    have hnewest : ∀ o' ∈ o :: obs, o'.ts ≤ now := fun o' ho' ↦
      (ts_le_of_getLast? hsorted hlast ho').trans (h.newest newest hlast).1
    have hstart : o.ts ≤ now - window := h.oldest o rfl
    rw [cast_sum_segments hsorted hstart hnewest (by omega), Int.cast_sub]

/-- A rounded average lies between the least and the greatest price in effect: prices are whole. -/
theorem average_bounds (obs : List Observation) {a b : ℝ} (hab : 0 < b) (hfloor :
    v = ⌊(∫ t in (a - b)..a, priceAt obs t) / b⌋₊) :
    ∃ lo hi, IsLeast (priceAt obs '' Set.Icc (a - b) a) lo ∧
      IsGreatest (priceAt obs '' Set.Icc (a - b) a) hi ∧ lo ≤ v ∧ v ≤ hi := by
  obtain ⟨lo, hi, hlo, hhi, hle, hge⟩ := StepFunction.exists_average_bounds
    (obs.map fun o ↦ ((o.ts : ℝ), (o.price : ℝ))) (sub_lt_self a hab)
  rw [sub_sub_cancel] at hle hge
  obtain ⟨t, -, ht⟩ := hlo.1
  obtain ⟨p, hp⟩ := exists_priceAt obs t
  have hlop : lo = p := ht.symm.trans hp
  refine ⟨lo, hi, hlo, hhi, ?_, ?_⟩
  · rw [hlop] at hle ⊢
    rw [hfloor]
    exact Nat.cast_le.mpr (Nat.le_floor hle)
  · rw [hfloor]
    refine (Nat.floor_le ?_).trans hge
    exact (Nat.cast_nonneg p).trans (hlop ▸ hle)

/-- For every capacity and every sequence of observations with increasing times: an average is
returned exactly if the retained observations, the last `n` of the sequence, cover the window, and
it is then the exact average of the price over the window, rounded down. -/
theorem twap_exact {obs : List Observation} (hsorted : obs.Pairwise fun o o' ↦ o.ts < o'.ts)
    (hnow : 0 ≤ now ∧ now < 2 ^ 62) (hwindow : 0 < window ∧ window < 2 ^ 62)
    (cfg : TwapConfig) :
    ∃ r : ObservationRing n, record obs = .ok r ∧
      ((∃ v, r.twap now window cfg = some v) ↔ Covers (obs.rtake n) now window cfg) ∧
      ∀ v, r.twap now window cfg = some v →
        v = ⌊(∫ t in (now - window : ℝ)..now, priceAt (obs.rtake n) t) / window⌋₊ ∧
        ∃ lo hi, IsLeast (priceAt (obs.rtake n) '' Set.Icc (now - window : ℝ) now) lo ∧
          IsGreatest (priceAt (obs.rtake n) '' Set.Icc (now - window : ℝ) now) hi ∧
          lo ≤ v ∧ v ≤ hi := by
  obtain ⟨r, hr, hretained⟩ := exists_record (n := n) hsorted
  have hlow : -2 ^ 63 ≤ now - window := by omega
  refine ⟨r, hr, ?_, ?_⟩
  · rw [← hretained]
    constructor
    · rintro ⟨v, hv⟩
      exact ((twap_eq_some hwindow.1 hlow).mp hv).1
    · intro h
      exact ⟨_, (twap_eq_some hwindow.1 hlow).mpr ⟨h, rfl⟩⟩
  · intro v hv
    obtain ⟨hcovers, hsum⟩ := (twap_eq_some hwindow.1 hlow).mp hv
    rw [hretained] at hcovers hsum
    have hkept : (obs.rtake n).Pairwise fun o o' ↦ o.ts < o'.ts :=
      hsorted.sublist (List.drop_sublist _ _)
    have hintegral := hcovers.sum_eq_integral hkept hwindow.1
    have hlength : ((window.toNat : ℕ) : ℝ) = window := by
      rw [cast_toNat, max_eq_right (by exact_mod_cast hwindow.1.le)]
    have hfloor : v = ⌊(∫ t in (now - window : ℝ)..now, priceAt (obs.rtake n) t) / window⌋₊ := by
      rw [← hintegral, ← hlength, Nat.floor_div_eq_div, hsum]
    exact ⟨hfloor, average_bounds _ (by exact_mod_cast hwindow.1) hfloor⟩

/-- Six observations for a ring of four slots. -/
def wrapped : List Observation :=
  [⟨100, 0⟩, ⟨100, 10⟩, ⟨100, 20⟩, ⟨100, 30⟩, ⟨200, 40⟩, ⟨200, 50⟩]

/-- The first two of them are overwritten; a window of forty seconds is covered by the others. -/
theorem twap_exact_wrapped : ∃ r : ObservationRing 4, record wrapped = .ok r ∧
    r.twap 60 40 ⟨1, 1000⟩ = some 150 ∧
      150 = ⌊(∫ t in (((60 : ℤ) : ℝ) - ((40 : ℤ) : ℝ))..((60 : ℤ) : ℝ),
        priceAt (wrapped.rtake 4) t) / ((40 : ℤ) : ℝ)⌋₊ := by
  have hrun : (record wrapped : Except TwapError (ObservationRing 4)).toOption.bind
      (fun r ↦ r.twap 60 40 ⟨1, 1000⟩) = some 150 := by decide +kernel
  obtain ⟨r', hr', htwap⟩ := Option.bind_eq_some_iff.mp hrun
  have hsorted : wrapped.Pairwise fun o o' ↦ o.ts < o'.ts := by decide
  have hnow : (0 : ℤ) ≤ 60 ∧ (60 : ℤ) < 2 ^ 62 := by decide
  have hwindow : (0 : ℤ) < 40 ∧ (40 : ℤ) < 2 ^ 62 := by decide
  obtain ⟨r, hr, -, hexact⟩ := twap_exact (n := 4) hsorted hnow hwindow ⟨1, 1000⟩
  obtain rfl : r = r' := by
    rw [toOption_eq_some, hr] at hr'
    exact Except.ok.inj hr'
  exact ⟨r, hr, htwap, (hexact 150 htwap).1⟩

end ObservationRing
end Oracle
end FusionCore
