import FusionCore.Lib.Checked
import Mathlib.Data.List.AList
import Mathlib.Algebra.BigOperators.Group.Finset.Basic
import Mathlib.Algebra.BigOperators.Group.List.Basic
import Mathlib.Algebra.BigOperators.Ring.List
import Mathlib.Algebra.Order.BigOperators.Group.List
import Mathlib.Tactic.Abel

/-!
# Keyed tables and their sums

A table is an association list with distinct keys.  On top of the operations
`lookup`, `insert` and `erase` this module sums a weight over the entries and
says how the sum moves when one entry is added, replaced or removed.  Every
aggregate of a ledger that is maintained by deltas is such a sum.
-/

abbrev Table (K V : Type*) := AList (fun _ : K ↦ V)

namespace Table

variable {K V M : Type*}

section Sums

variable [AddCommMonoid M] (f g : V → M)

/-- The sum of the weight `f` over all entries. -/
def total (t : Table K V) : M :=
  (t.entries.map fun e ↦ f e.2).sum

@[simp] theorem total_empty : total f (∅ : Table K V) = 0 := rfl

theorem total_add (t : Table K V) :
    total (fun v ↦ f v + g v) t = total f t + total g t := by
  simp only [total, List.sum_map_add]

theorem map_total {N : Type*} [AddCommMonoid N] (φ : M →+ N) (t : Table K V) :
    φ (total f t) = total (fun v ↦ φ (f v)) t := by
  simp [total, map_list_sum, List.map_map, Function.comp_def]

/-- The sum of a weight over the keys of a table. -/
def sumKeys (t : Table K V) (g : K → M) : M := (t.keys.map g).sum

theorem sumKeys_add (t : Table K V) (g h : K → M) :
    t.sumKeys (fun k ↦ g k + h k) = t.sumKeys g + t.sumKeys h := by
  simp only [sumKeys, List.sum_map_add]

end Sums

theorem total_mul_left {R : Type*} [NonUnitalNonAssocSemiring R] (c : R) (f : V → R)
    (t : Table K V) : total (fun v ↦ c * f v) t = c * total f t := by
  simp only [total, List.sum_map_mul_left]

theorem total_one (t : Table K V) : total (fun _ ↦ 1) t = t.entries.length := by
  simp [total]

theorem total_ite_one (P : V → Prop) [DecidablePred P] (t : Table K V) :
    total (fun v ↦ if P v then 1 else 0) t = t.entries.countP fun e ↦ P e.2 := by
  simp only [total, List.countP_eq_length_filter]
  induction t.entries with
  | nil => rfl
  | cons e l ih =>
    rw [List.map_cons, List.sum_cons, ih, List.filter_cons]
    by_cases he : P e.2
    · simp [he, Nat.add_comm]
    · simp [he]

variable [DecidableEq K]

/-- Every value stored in the table satisfies `P`. -/
def All (P : V → Prop) (t : Table K V) : Prop :=
  ∀ k v, t.lookup k = some v → P v

variable {t : Table K V} {j k : K} {u v w : V} {P : V → Prop}

theorem lookup_eq_some_iff :
    t.lookup k = some v ↔ (⟨k, v⟩ : Sigma fun _ : K ↦ V) ∈ t.entries :=
  AList.mem_lookup_iff

theorem exists_entries_eq (h : t.lookup k = some v) :
    ∃ l₁ l₂, t.entries = l₁ ++ ⟨k, v⟩ :: l₂ ∧ (t.erase k).entries = l₁ ++ l₂ := by
  have hmem := lookup_eq_some_iff.mp h
  have hkey : k ∈ t.entries.keys := List.mem_keys_of_mem hmem
  obtain ⟨w, l₁, l₂, -, hl, he⟩ := List.exists_of_kerase hkey
  have hw : t.lookup k = some w := lookup_eq_some_iff.mpr (by rw [hl]; simp)
  obtain rfl : w = v := by simpa [h] using hw.symm
  exact ⟨l₁, l₂, hl, he⟩

section Updates

variable [AddCommMonoid M] (f : V → M)

theorem total_erase (h : t.lookup k = some v) :
    total f (t.erase k) + f v = total f t := by
  obtain ⟨l₁, l₂, hl, he⟩ := exists_entries_eq h
  simp only [total, hl, he, List.map_append, List.map_cons, List.sum_append, List.sum_cons]
  rw [add_assoc, add_comm _ (f v)]

theorem total_insert_eq (t : Table K V) (k : K) (v : V) :
    total f (t.insert k v) = f v + total f (t.erase k) := by
  have herase : (t.erase k).entries = t.entries.kerase k := rfl
  simp [total, AList.entries_insert, herase]

theorem erase_of_lookup_eq_none (h : t.lookup k = none) :
    t.erase k = t :=
  AList.ext (List.kerase_of_notMem_keys (AList.lookup_eq_none.mp h))

theorem total_insert_of_none (v : V) (h : t.lookup k = none) :
    total f (t.insert k v) = total f t + f v := by
  rw [total_insert_eq, erase_of_lookup_eq_none h, add_comm]

theorem total_insert_of_some (w : V) (h : t.lookup k = some v) :
    total f (t.insert k w) + f v = total f t + f w := by
  rw [total_insert_eq, add_assoc, total_erase f h, add_comm]

theorem total_congr {f g : V → M} (h : t.All fun v ↦ f v = g v) :
    total f t = total g t := by
  unfold total
  congr 1
  refine List.map_congr_left fun e he ↦ ?_
  exact h e.1 e.2 (lookup_eq_some_iff.mpr he)

theorem total_eq_zero {f : V → M} (h : t.All fun v ↦ f v = 0) :
    total f t = 0 := by
  refine List.sum_eq_zero fun x hx ↦ ?_
  obtain ⟨e, he, rfl⟩ := List.mem_map.mp hx
  exact h e.1 e.2 (lookup_eq_some_iff.mpr he)

/-- Replacing an entry while the weight changes to one that agrees on all other entries. -/
theorem total_insert_reweigh {f g : V → M} (w : V) (h : t.lookup k = some v)
    (hfg : ∀ j u, j ≠ k → t.lookup j = some u → f u = g u) :
    total g (t.insert k w) + f v = total f t + g w := by
  have hrest : total g (t.erase k) = total f (t.erase k) := by
    refine total_congr fun j u hu ↦ ?_
    by_cases hj : j = k
    · subst hj
      simp at hu
    · rw [AList.lookup_erase_ne hj] at hu
      exact (hfg j u hj hu).symm
  rw [total_insert_eq, hrest, ← total_erase f h]
  abel

end Updates

section Order

variable [AddCommMonoid M] [PartialOrder M] [IsOrderedAddMonoid M]

theorem total_le_total {f g : V → M} (h : t.All fun v ↦ f v ≤ g v) :
    total f t ≤ total g t := by
  refine List.sum_le_sum fun e he ↦ ?_
  exact h e.1 e.2 (lookup_eq_some_iff.mpr he)

theorem total_nonneg {f : V → M} (h : t.All fun v ↦ 0 ≤ f v) :
    0 ≤ total f t := by
  refine List.sum_nonneg fun x hx ↦ ?_
  obtain ⟨e, he, rfl⟩ := List.mem_map.mp hx
  exact h e.1 e.2 (lookup_eq_some_iff.mpr he)

theorem le_total {f : V → M} (hnonneg : ∀ v, 0 ≤ f v) (h : t.lookup k = some v) :
    f v ≤ total f t := by
  have hrest : 0 ≤ total f (t.erase k) := total_nonneg fun _ w _ ↦ hnonneg w
  calc
    f v ≤ total f (t.erase k) + f v := le_add_of_nonneg_left hrest
    _ = total f t := total_erase f h

end Order

/-! ## Predicates on all entries -/

instance {P : V → Prop} [DecidablePred P] (t : Table K V) : Decidable (t.All P) :=
  decidable_of_iff (∀ e ∈ t.entries, P e.2)
    ⟨fun h _ _ hv ↦ h _ (lookup_eq_some_iff.mp hv),
      fun h e he ↦ h e.1 e.2 (lookup_eq_some_iff.mpr he)⟩

theorem lookup_erase_eq_some_iff :
    (t.erase k).lookup j = some v ↔ j ≠ k ∧ t.lookup j = some v := by
  by_cases hj : j = k
  · subst hj
    simp
  · simp [AList.lookup_erase_ne hj, hj]

theorem lookup_insert_eq_some_iff :
    (t.insert k w).lookup j = some v ↔ j = k ∧ w = v ∨ j ≠ k ∧ t.lookup j = some v := by
  by_cases hj : j = k
  · subst hj
    simp
  · simp [AList.lookup_insert_ne hj, hj]

theorem All.insert (h : t.All P) (hv : P v) :
    All P (t.insert k v) := by
  intro j w hw
  by_cases hj : j = k
  · subst hj
    obtain rfl : v = w := by simpa using hw
    exact hv
  · rw [AList.lookup_insert_ne hj] at hw
    exact h j w hw

theorem All.erase (h : t.All P) (k : K) :
    All P (t.erase k) := by
  intro j w hw
  by_cases hj : j = k
  · subst hj
    simp at hw
  · rw [AList.lookup_erase_ne hj] at hw
    exact h j w hw

/-- The entry of `k` exists and satisfies `P`. -/
def HoldsAt (P : V → Prop) (t : Table K V) (k : K) : Prop := ∃ v, t.lookup k = some v ∧ P v

instance {P : V → Prop} [DecidablePred P] (t : Table K V) (k : K) : Decidable (t.HoldsAt P k) :=
  decidable_of_iff (∃ v ∈ t.lookup k, P v) Iff.rfl

theorem HoldsAt.insert (h : t.HoldsAt P k) (hv : k = j → P v) :
    Table.HoldsAt P (t.insert j v) k := by
  obtain ⟨u, hu, hP⟩ := h
  by_cases hk : k = j
  · exact ⟨v, by rw [hk, AList.lookup_insert], hv hk⟩
  · exact ⟨u, by rwa [AList.lookup_insert_ne hk], hP⟩

theorem HoldsAt.replace (h : t.HoldsAt P k) (hu : t.lookup j = some u) (hv : P u → P v) :
    Table.HoldsAt P (t.insert j v) k := by
  obtain ⟨w, hw, hP⟩ := h
  refine HoldsAt.insert ⟨w, hw, hP⟩ ?_
  rintro rfl
  obtain rfl : u = w := Option.some.inj (hu.symm.trans hw)
  exact hv hP

theorem holdsAt_insert_self (t : Table K V) (k : K) (hv : P v) :
    Table.HoldsAt P (t.insert k v) k :=
  ⟨v, AList.lookup_insert t, hv⟩

theorem All.mono {Q : V → Prop} (h : t.All P) (hPQ : ∀ v, P v → Q v) :
    t.All Q :=
  fun k v hv ↦ hPQ v (h k v hv)

/-! ## Sums over keys -/

section Keys

variable [AddCommMonoid M]

/-- A sum over the keys is a sum over any set that holds them, if the weight vanishes outside. -/
theorem sumKeys_eq_sum {g : K → M} {s : Finset K} (hs : t.keys.toFinset ⊆ s)
    (hzero : ∀ k, t.lookup k = none → g k = 0) : t.sumKeys g = ∑ k ∈ s, g k := by
  have hnodup : t.keys.Nodup := t.nodupKeys
  rw [sumKeys, ← List.sum_toFinset g hnodup]
  refine Finset.sum_subset hs fun k _ hk ↦ hzero k ?_
  rw [List.mem_toFinset] at hk
  exact AList.lookup_eq_none.mpr hk

theorem total_eq_sumKeys (f : V → M) (t : Table K V) :
    total f t = t.sumKeys fun k ↦ (t.lookup k).elim 0 f := by
  simp only [total, sumKeys, AList.keys, List.keys, List.map_map]
  congr 1
  refine List.map_congr_left fun e he ↦ ?_
  simp only [Function.comp_apply, lookup_eq_some_iff.mpr (show ⟨e.1, e.2⟩ ∈ t.entries from he),
    Option.elim_some]

theorem total_eq_sum {f : V → M} {s : Finset K} (hs : t.keys.toFinset ⊆ s) :
    total f t = ∑ k ∈ s, (t.lookup k).elim 0 f := by
  rw [total_eq_sumKeys]
  refine sumKeys_eq_sum hs fun k hk ↦ ?_
  rw [hk, Option.elim_none]

/-- A table whose entries gain `g` and lose `h`, at old entries only. -/
theorem total_add_sumKeys {t' : Table K V} {f : V → M} {g h : K → M}
    (hnone : ∀ k, t.lookup k = none → g k = 0 ∧ h k = 0)
    (hkey : ∀ k, (t'.lookup k).elim 0 f + h k = (t.lookup k).elim 0 f + g k) :
    total f t' + t.sumKeys h = total f t + t.sumKeys g := by
  set s := t.keys.toFinset ∪ t'.keys.toFinset
  have hs : t.keys.toFinset ⊆ s := Finset.subset_union_left
  have hs' : t'.keys.toFinset ⊆ s := Finset.subset_union_right
  rw [total_eq_sum hs, total_eq_sum hs', sumKeys_eq_sum hs fun k hk ↦ (hnone k hk).1,
    sumKeys_eq_sum hs fun k hk ↦ (hnone k hk).2, ← Finset.sum_add_distrib,
    ← Finset.sum_add_distrib]
  exact Finset.sum_congr rfl fun k _ ↦ hkey k

end Keys

/-! ## Loops -/

/-- A loop whose every pass rewrites the entry it names: what happens to one entry, if the passes
that name it compose. -/
theorem foldlM_lookup {ε β γ : Type*} {t : β → Table K V} {n : γ → K} {R : K → V → V → Prop}
    {P : β → Prop} {body : β → γ → Except ε β} {xs : List γ}
    (hcomp : ∀ k u v w, R k u v → R k v w → R k u w)
    (hbody : ∀ x ∈ xs, ∀ b b', P b → body b x = .ok b' → P b' ∧
      ∃ v w, (t b).lookup (n x) = some v ∧ R (n x) v w ∧
        t b' = (t b).insert (n x) w) {b b' : β} (hb : P b) (h : xs.foldlM body b = .ok b')
    (hv : (t b).lookup k = some v) :
    ∃ w, (t b').lookup k = some w ∧
      ((k ∉ xs.map n ∧ w = v) ∨ (k ∈ xs.map n ∧ R k v w)) := by
  induction xs generalizing b v with
  | nil =>
    rw [List.foldlM_nil, Checked.pure_eq_ok] at h
    subst h
    exact ⟨v, hv, .inl ⟨by simp, rfl⟩⟩
  | cons x xs ih =>
    rw [List.foldlM_cons] at h
    obtain ⟨c, hc, h⟩ := Checked.bind_eq_ok_iff.mp h
    obtain ⟨hP, u, w, hu, hR, ht⟩ := hbody x List.mem_cons_self b c hb hc
    have hrest : ∀ y ∈ xs, ∀ b b', P b → body b y = .ok b' → P b' ∧
        ∃ v w, (t b).lookup (n y) = some v ∧ R (n y) v w ∧
          t b' = (t b).insert (n y) w :=
      fun y hy ↦ hbody y (List.mem_cons_of_mem x hy)
    by_cases hk : k = n x
    · subst hk
      obtain rfl : u = v := Option.some.inj (hu.symm.trans hv)
      have hw : (t c).lookup (n x) = some w := by rw [ht, AList.lookup_insert]
      obtain ⟨w', hw', ⟨-, rfl⟩ | ⟨-, hR'⟩⟩ := ih hrest hP h hw
      · exact ⟨w', hw', .inr ⟨by simp, hR⟩⟩
      · exact ⟨w', hw', .inr ⟨by simp, hcomp _ _ _ _ hR hR'⟩⟩
    · have hv' : (t c).lookup k = some v := by rw [ht, AList.lookup_insert_ne hk, hv]
      obtain ⟨w', hw', hcase⟩ := ih hrest hP h hv'
      refine ⟨w', hw', ?_⟩
      rw [List.map_cons, List.mem_cons]
      obtain ⟨hnot, rfl⟩ | ⟨hmem, hR'⟩ := hcase
      · exact .inl ⟨fun hor ↦ hor.elim hk hnot, rfl⟩
      · exact .inr ⟨.inr hmem, hR'⟩

theorem foldlM_lookup_eq_none {ε β γ : Type*} {t : β → Table K V} {n : γ → K} {P : β → Prop}
    {body : β → γ → Except ε β} {xs : List γ}
    (hbody : ∀ x ∈ xs, ∀ b b', P b → body b x = .ok b' → P b' ∧
      ∃ v w, (t b).lookup (n x) = some v ∧ t b' = (t b).insert (n x) w) {b b' : β} (hb : P b)
    (h : xs.foldlM body b = .ok b') (hk : (t b).lookup k = none) : (t b').lookup k = none := by
  refine (Checked.foldlM_invariant (P := fun b ↦ P b ∧ (t b).lookup k = none) ?_ ⟨hb, hk⟩ h).2
  rintro x hx b b' ⟨hP, hnone⟩ hc
  obtain ⟨hP', v, w, hv, ht⟩ := hbody x hx b b' hP hc
  refine ⟨hP', ?_⟩
  have hne : k ≠ n x := by
    rintro rfl
    rw [hnone] at hv
    cases hv
  rw [ht, AList.lookup_insert_ne hne, hnone]

end Table
