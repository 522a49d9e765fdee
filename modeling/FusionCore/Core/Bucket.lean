import FusionCore.Core.Accrual

/-!
# Redemption index

Every position with debt is a member of one normal rate bucket or of the zombie
pen.  `reconcile` is the only entry point; its lemma says that one position's
membership moves and that the bitmap still marks exactly the non-empty buckets.
-/

namespace FusionCore

open Checked

def bucketFor (m : Market) (p : Position) : ℕ :=
  RateBucket.bucketOf p.userRateBps m.bucketWidthBps NUM_RATE_BUCKETS

/-- The membership a position should hold. -/
def target (m : Market) (p : Position) : Option ℕ :=
  if p.recordedDebt = 0 then none
  else if p.ink = 0 ∨ p.recordedDebt < m.minDebt then some ZOMBIE_BUCKET
  else some (bucketFor m p)

def bitOf (k : Fin NUM_RATE_BUCKETS) : Fin (64 * BITMAP_WORDS) := k

def addMember (bm : RedemptionBitmap) (bucket : ℕ) : Except ProgramError RedemptionBitmap :=
  if bucket = ZOMBIE_BUCKET then do
    let zombieCount ← okOr (checkedAdd 64 bm.zombieCount 1) .mathOverflow
    pure { bm with zombieCount }
  else if h : bucket < NUM_RATE_BUCKETS then do
    let k : Fin NUM_RATE_BUCKETS := ⟨bucket, h⟩
    let words := if bm.counts k = 0 then RateBucket.set bm.words (bitOf k) else bm.words
    let count ← okOr (checkedAdd 32 (bm.counts k) 1) .mathOverflow
    pure { bm with words, counts := Function.update bm.counts k count }
  else .error .indexOutOfBounds

def removeMember (bm : RedemptionBitmap) (bucket : ℕ) : Except ProgramError RedemptionBitmap :=
  if bucket = ZOMBIE_BUCKET then do
    let zombieCount ← okOr (checkedSub bm.zombieCount 1) .mathOverflow
    pure { bm with zombieCount }
  else if h : bucket < NUM_RATE_BUCKETS then do
    let k : Fin NUM_RATE_BUCKETS := ⟨bucket, h⟩
    let count ← okOr (checkedSub (bm.counts k) 1) .mathOverflow
    let words := if count = 0 then RateBucket.clear bm.words (bitOf k) else bm.words
    pure { bm with words, counts := Function.update bm.counts k count }
  else .error .indexOutOfBounds

/-- Move a position to the bucket it belongs to, given the debt it had at the start of the
instruction. -/
def reconcile (bm : RedemptionBitmap) (m : Market) (p : Position) (artBefore : ℕ) :
    Except ProgramError (RedemptionBitmap × Position) :=
  match decide (0 < artBefore), target m p with
  | false, none => .ok (bm, p)
  | false, some new => do
      let bm ← addMember bm new
      pure (bm, { p with bucket := new })
  | true, none => do
      let bm ← removeMember bm p.bucket
      pure (bm, p)
  | true, some new =>
      if p.bucket ≠ new then do
        let bm ← removeMember bm p.bucket
        let bm ← addMember bm new
        pure (bm, { p with bucket := new })
      else .ok (bm, p)

/-! ## Membership -/

/-- One if a position with this debt and label counts towards `bucket`. -/
def member (debt label bucket : ℕ) : ℕ := if 0 < debt ∧ label = bucket then 1 else 0

/-- Members of a normal bucket, or of the pen. -/
def RedemptionBitmap.size (bm : RedemptionBitmap) (bucket : ℕ) : ℕ :=
  if h : bucket < NUM_RATE_BUCKETS then bm.counts ⟨bucket, h⟩ else bm.zombieCount

@[simp] theorem RedemptionBitmap.size_zombie (bm : RedemptionBitmap) :
    bm.size ZOMBIE_BUCKET = bm.zombieCount := dif_neg (lt_irrefl _)

/-- A bit is set exactly when its bucket has a member. -/
def RedemptionBitmap.Coupled (bm : RedemptionBitmap) : Prop :=
  ∀ k, RateBucket.isSet bm.words (bitOf k) = decide (0 < bm.counts k)

theorem RedemptionBitmap.size_zeroed (bucket : ℕ) : RedemptionBitmap.zeroed.size bucket = 0 := by
  unfold RedemptionBitmap.size
  split <;> rfl

theorem RedemptionBitmap.coupled_zeroed : RedemptionBitmap.zeroed.Coupled := by
  intro k
  simp [RateBucket.isSet, RedemptionBitmap.zeroed]

theorem bitOf_injective {k j : Fin NUM_RATE_BUCKETS} (h : bitOf k = bitOf j) : k = j := h

section Members

variable {bm bm' : RedemptionBitmap} {bucket : ℕ}

theorem RedemptionBitmap.size_setPen (n : ℕ) {j : ℕ} (hj : j ≤ ZOMBIE_BUCKET) :
    ({ bm with zombieCount := n } : RedemptionBitmap).size j =
      if ZOMBIE_BUCKET = j then n else bm.size j := by
  by_cases hlt : j < NUM_RATE_BUCKETS
  · have hne : ZOMBIE_BUCKET ≠ j := Nat.ne_of_gt hlt
    simp [RedemptionBitmap.size, hlt, hne]
  · have heq : ZOMBIE_BUCKET = j := le_antisymm (not_lt.mp hlt) hj
    simp [RedemptionBitmap.size, hlt, heq]

theorem RedemptionBitmap.size_setCount (hlt : bucket < NUM_RATE_BUCKETS)
    (words : RateBucket.Words BITMAP_WORDS) (n j : ℕ) :
    ({ bm with
        words
        counts := Function.update bm.counts ⟨bucket, hlt⟩ n } : RedemptionBitmap).size j =
      if bucket = j then n else bm.size j := by
  by_cases hj : j < NUM_RATE_BUCKETS
  · simp [RedemptionBitmap.size, hj, Function.update_apply, eq_comm]
  · have hne : bucket ≠ j := by omega
    simp [RedemptionBitmap.size, hj, hne]

theorem RedemptionBitmap.Coupled.setCount {words : RateBucket.Words BITMAP_WORDS}
    {b : Fin NUM_RATE_BUCKETS} {n : ℕ} (h : bm.Coupled)
    (hbit : RateBucket.isSet words (bitOf b) = decide (0 < n))
    (hothers : ∀ c, c ≠ bitOf b → RateBucket.isSet words c = RateBucket.isSet bm.words c) :
    ({ bm with words, counts := Function.update bm.counts b n } : RedemptionBitmap).Coupled := by
  intro k
  by_cases hk : k = b
  · subst hk
    simpa using hbit
  · have hbits : bitOf k ≠ bitOf b := fun heq ↦ hk (bitOf_injective heq)
    simpa [hk, hothers _ hbits] using h k

theorem addMember_spec (h : addMember bm bucket = .ok bm') :
    bucket ≤ ZOMBIE_BUCKET ∧
      (∀ j ≤ ZOMBIE_BUCKET, bm'.size j = bm.size j + if bucket = j then 1 else 0) ∧
      (bm.Coupled → bm'.Coupled) := by
  unfold addMember at h
  split at h
  next hz =>
    simp only [bind_eq_ok_iff, okOr_eq_ok, checkedAdd_eq_some, pure_eq_ok] at h
    obtain ⟨_, ⟨-, rfl⟩, rfl⟩ := h
    subst hz
    refine ⟨le_rfl, fun j hj ↦ ?_, id⟩
    rw [RedemptionBitmap.size_setPen _ hj]
    split
    next heq => rw [← heq, RedemptionBitmap.size_zombie]
    next => rfl
  next hz =>
    split at h
    next hlt =>
      simp only [bind_eq_ok_iff, okOr_eq_ok, checkedAdd_eq_some, pure_eq_ok] at h
      obtain ⟨_, ⟨-, rfl⟩, rfl⟩ := h
      refine ⟨hlt.le, fun j hj ↦ ?_, fun hc ↦ hc.setCount ?_ ?_⟩
      · rw [RedemptionBitmap.size_setCount hlt]
        split
        next heq => simp [← heq, RedemptionBitmap.size, hlt]
        next => rfl
      · split
        next => simp [RateBucket.isSet_set]
        next hmany => simp [hc _, Nat.pos_of_ne_zero hmany]
      · intro c hne
        split
        next => simp [RateBucket.isSet_set, hne]
        next => rfl
    next => cases h

/-- Another member fits into every normal bucket and into the pen. -/
structure RedemptionBitmap.Room (bm : RedemptionBitmap) : Prop where
  bucket : ∀ j < NUM_RATE_BUCKETS, bm.size j + 1 < 2 ^ 32
  pen : bm.size ZOMBIE_BUCKET + 1 < 2 ^ 64

theorem exists_addMember (hle : bucket ≤ ZOMBIE_BUCKET) (hroom : bm.Room) :
    ∃ bm', addMember bm bucket = .ok bm' := by
  unfold addMember
  by_cases hz : bucket = ZOMBIE_BUCKET
  · have hcount : bm.zombieCount + 1 < 2 ^ 64 := by
      simpa [RedemptionBitmap.size, ZOMBIE_BUCKET] using hroom.pen
    rw [if_pos hz]
    simp only [bind_eq_ok_iff, okOr_eq_ok, checkedAdd_eq_some, pure_eq_ok]
    exact ⟨_, _, ⟨hcount, rfl⟩, rfl⟩
  · have hlt : bucket < NUM_RATE_BUCKETS := lt_of_le_of_ne hle hz
    have hcount : bm.counts ⟨bucket, hlt⟩ + 1 < 2 ^ 32 := by
      simpa [RedemptionBitmap.size, hlt] using hroom.bucket bucket hlt
    rw [if_neg hz, dif_pos hlt]
    simp only [bind_eq_ok_iff, okOr_eq_ok, checkedAdd_eq_some, pure_eq_ok]
    exact ⟨_, _, ⟨hcount, rfl⟩, rfl⟩

theorem exists_removeMember (hle : bucket ≤ ZOMBIE_BUCKET) (hpos : 0 < bm.size bucket) :
    ∃ bm', removeMember bm bucket = .ok bm' := by
  unfold removeMember
  by_cases hz : bucket = ZOMBIE_BUCKET
  · have hcount : 0 < bm.zombieCount := by
      simpa [RedemptionBitmap.size, hz, ZOMBIE_BUCKET] using hpos
    simp [hz, checkedSub, Nat.one_le_iff_ne_zero, hcount.ne.symm]
  · have hlt : bucket < NUM_RATE_BUCKETS := lt_of_le_of_ne hle hz
    have hcount : 0 < bm.counts ⟨bucket, hlt⟩ := by
      simpa [RedemptionBitmap.size, hlt] using hpos
    simp [hz, hlt, checkedSub, Nat.one_le_iff_ne_zero, hcount.ne.symm]

theorem removeMember_spec (h : removeMember bm bucket = .ok bm') :
    bucket ≤ ZOMBIE_BUCKET ∧
      (∀ j ≤ ZOMBIE_BUCKET, bm'.size j + (if bucket = j then 1 else 0) = bm.size j) ∧
      (bm.Coupled → bm'.Coupled) := by
  unfold removeMember at h
  split at h
  next hz =>
    simp only [bind_eq_ok_iff, okOr_eq_ok, checkedSub_eq_some, pure_eq_ok] at h
    obtain ⟨_, ⟨hle, rfl⟩, rfl⟩ := h
    subst hz
    refine ⟨le_rfl, fun j hj ↦ ?_, id⟩
    rw [RedemptionBitmap.size_setPen _ hj]
    split
    next heq => rw [← heq, RedemptionBitmap.size_zombie, Nat.sub_add_cancel hle]
    next => rfl
  next hz =>
    split at h
    next hlt =>
      simp only [bind_eq_ok_iff, okOr_eq_ok, checkedSub_eq_some, pure_eq_ok] at h
      obtain ⟨_, ⟨hle, rfl⟩, rfl⟩ := h
      refine ⟨hlt.le, fun j hj ↦ ?_, fun hc ↦ hc.setCount ?_ ?_⟩
      · rw [RedemptionBitmap.size_setCount hlt]
        split
        next heq => simp [← heq, RedemptionBitmap.size, hlt, Nat.sub_add_cancel hle]
        next => rfl
      · split
        next hlast => simp [hlast, RateBucket.isSet_clear]
        next hmany =>
          rw [hc ⟨bucket, hlt⟩, decide_eq_decide]
          omega
      · intro c hne
        split
        next => simp [RateBucket.isSet_clear, hne]
        next => rfl
    next => cases h

end Members

variable {bm bm' : RedemptionBitmap} {m : Market} {p p' : Position} {artBefore : ℕ}

theorem RedemptionBitmap.Room.remove {bucket : ℕ} (hroom : bm.Room)
    (h : removeMember bm bucket = .ok bm') : bm'.Room := by
  obtain ⟨-, hsize, -⟩ := removeMember_spec h
  constructor
  · intro j hj
    have h1 := hsize j hj.le
    have h2 := hroom.bucket j hj
    omega
  · have h1 := hsize ZOMBIE_BUCKET le_rfl
    have h2 := hroom.pen
    omega

theorem target_eq_some {k : ℕ} (h : target m p = some k) :
    0 < p.recordedDebt ∧ k ≤ ZOMBIE_BUCKET := by
  unfold target at h
  split at h
  · cases h
  next hd =>
    refine ⟨Nat.pos_of_ne_zero hd, ?_⟩
    split at h
    · cases h; exact le_rfl
    · cases h
      exact (RateBucket.bucketOf_lt (by decide)).le

theorem target_eq_none : target m p = none ↔ p.recordedDebt = 0 := by
  unfold target
  split
  next h => simp [h]
  next h => split <;> simp [h]

theorem reconcile_position (h : reconcile bm m p artBefore = .ok (bm', p')) :
    ∃ label, p' = { p with bucket := label } := by
  unfold reconcile at h
  split at h
  next =>
    cases h
    exact ⟨p.bucket, rfl⟩
  next new _ _ =>
    obtain ⟨bm₁, -, h⟩ := bind_eq_ok_iff.mp h
    cases h
    exact ⟨new, rfl⟩
  next =>
    obtain ⟨bm₁, -, h⟩ := bind_eq_ok_iff.mp h
    cases h
    exact ⟨p.bucket, rfl⟩
  next new _ _ =>
    split at h
    next =>
      obtain ⟨bm₁, -, h⟩ := bind_eq_ok_iff.mp h
      obtain ⟨bm₂, -, h⟩ := bind_eq_ok_iff.mp h
      cases h
      exact ⟨new, rfl⟩
    next =>
      cases h
      exact ⟨p.bucket, rfl⟩

/-- Reconciling moves one membership: from the label the position carried, if it had debt
before, to the label it carries now, if it has debt now. -/
theorem reconcile_spec (h : reconcile bm m p artBefore = .ok (bm', p'))
    (hlabel : 0 < artBefore → p.bucket ≤ ZOMBIE_BUCKET) :
    (∃ label, p' = { p with bucket := label } ∧ (0 < p.recordedDebt → label ≤ ZOMBIE_BUCKET) ∧
      (0 < p.recordedDebt → target m p = some label)) ∧
      (∀ j ≤ ZOMBIE_BUCKET, bm'.size j + member artBefore p.bucket j =
        bm.size j + member p.recordedDebt p'.bucket j) ∧
      (bm.Coupled → bm'.Coupled) := by
  unfold reconcile at h
  split at h
  next hb ht =>
    cases h
    have h0 : artBefore = 0 := by simpa using hb
    have hd : p.recordedDebt = 0 := target_eq_none.mp ht
    exact ⟨⟨p.bucket, rfl, by simp [hd], by simp [hd]⟩, fun j _ ↦ by simp [member, h0, hd], id⟩
  next new hb ht =>
    obtain ⟨bm₁, hadd, h⟩ := bind_eq_ok_iff.mp h
    cases h
    have h0 : artBefore = 0 := by simpa using hb
    obtain ⟨hd, hle⟩ := target_eq_some ht
    obtain ⟨-, hsize, hcoup⟩ := addMember_spec hadd
    refine ⟨⟨new, rfl, fun _ ↦ hle, fun _ ↦ ht⟩, fun j hj ↦ ?_, hcoup⟩
    simp [hsize j hj, member, h0, hd]
  next hb ht =>
    obtain ⟨bm₁, hrem, h⟩ := bind_eq_ok_iff.mp h
    cases h
    have hpos : 0 < artBefore := by simpa using hb
    have hd : p.recordedDebt = 0 := target_eq_none.mp ht
    obtain ⟨-, hsize, hcoup⟩ := removeMember_spec hrem
    refine ⟨⟨p.bucket, rfl, by simp [hd], by simp [hd]⟩, fun j hj ↦ ?_, hcoup⟩
    simp [← hsize j hj, member, hpos, hd]
  next new hb ht =>
    have hpos : 0 < artBefore := by simpa using hb
    obtain ⟨hd, hle⟩ := target_eq_some ht
    split at h
    next hne =>
      obtain ⟨bm₁, hrem, h⟩ := bind_eq_ok_iff.mp h
      obtain ⟨bm₂, hadd, h⟩ := bind_eq_ok_iff.mp h
      cases h
      obtain ⟨-, hsize₁, hcoup₁⟩ := removeMember_spec hrem
      obtain ⟨-, hsize₂, hcoup₂⟩ := addMember_spec hadd
      refine ⟨⟨new, rfl, fun _ ↦ hle, fun _ ↦ ht⟩, fun j hj ↦ ?_, fun hc ↦ hcoup₂ (hcoup₁ hc)⟩
      have h1 := hsize₁ j hj
      have h2 := hsize₂ j hj
      simp only [member, hpos, hd, true_and]
      omega
    next heq =>
      cases h
      have heq : p.bucket = new := not_not.mp heq
      refine ⟨⟨p.bucket, rfl, fun _ ↦ hlabel hpos, fun _ ↦ heq ▸ ht⟩, fun j _ ↦ ?_, id⟩
      simp [member, hpos, hd]

theorem exists_reconcile (m : Market) (hart : 0 < artBefore) (hroom : bm.Room)
    (hmember : ∃ bm', removeMember bm p.bucket = .ok bm') :
    ∃ bm' p', reconcile bm m p artBefore = .ok (bm', p') := by
  obtain ⟨bm₁, hremove⟩ := hmember
  unfold reconcile
  rw [decide_eq_true hart]
  cases ht : target m p with
  | none =>
    simp only [hremove, ok_bind]
    exact ⟨_, _, rfl⟩
  | some new =>
    obtain ⟨bm₂, hadd⟩ := exists_addMember (target_eq_some ht).2 (hroom.remove hremove)
    by_cases hne : p.bucket ≠ new
    · simp only [hne, ne_eq, not_false_eq_true, if_true, hremove, hadd, ok_bind]
      exact ⟨_, _, rfl⟩
    · simp only [hne, if_false]
      exact ⟨_, _, rfl⟩

end FusionCore
