import FusionCore.Core.SupplyTransition

/-!
# Touching a position

What every position-touching instruction runs: accrue the market, realise the
position, apply the instruction's own change, reweight, and recompute the stake.
Each function comes with one lemma that says everything a successful call does.
-/

namespace FusionCore

open Checked

/-! ## Market interest -/

/-- Advance the aggregate interest to `now`.  A shut-down market accrues nothing. -/
def accrue (m : Market) (now : ℕ) : Except ProgramError Market :=
  if now ≤ m.lastUpdateTs ∨ m.shutdown = true then .ok m
  else do
    let pending ← okOr (pendingAggregateInterest m.aggWeightedDebtSum (now - m.lastUpdateTs))
      .mathOverflow
    let d ← okOr (SupplyTransition.bookInterest m.aggRecordedDebt m.unmintedInterest pending)
      .mathOverflow
    pure { m with
      aggRecordedDebt := d.newAgg
      unmintedInterest := d.newUnminted
      lastUpdateTs := now }

/-- Count one accrual that booked interest. -/
def Tally.book (t : Tally) (before after : Market) : Tally :=
  if before.unmintedInterest < after.unmintedInterest then { t with bookings := t.bookings + 1 }
  else t

/-- Count `k` foldings of a position. -/
def Tally.realized (t : Tally) (k : ℕ) : Tally := { t with realizes := t.realizes + k }

/-- What an accrual does: interest `x`, rounded up, enters the aggregate and the unminted
interest, and the clock moves to `ts`. -/
structure Accrued (m m' : Market) (now x ts : ℕ) : Prop where
  eq : m' = { m with
    aggRecordedDebt := m.aggRecordedDebt + x
    unmintedInterest := m.unmintedInterest + x
    lastUpdateTs := ts }
  mono : m.lastUpdateTs ≤ ts
  ts_le : ts ≤ now
  current : m.shutdown = true ∨ ts = now
  frozen : m.shutdown = true → ts = m.lastUpdateTs ∧ x = 0
  covers : m.aggWeightedDebtSum * (ts - m.lastUpdateTs) ≤ x * INTEREST_DENOM
  tight : x * INTEREST_DENOM < m.aggWeightedDebtSum * (ts - m.lastUpdateTs) + INTEREST_DENOM
  fits : x = 0 ∨ m.aggRecordedDebt + x < 2 ^ 128

variable {m m' : Market} {p p' : Position} {now old : ℕ}

theorem accrue_spec (hle : m.lastUpdateTs ≤ now) (h : accrue m now = .ok m') :
    ∃ x ts, Accrued m m' now x ts := by
  unfold accrue at h
  split at h
  next hstop =>
    cases h
    refine ⟨0, m.lastUpdateTs, rfl, le_rfl, hle, ?_, by simp, by simp, ?_, .inl rfl⟩
    · rcases hstop with h | h
      · exact .inr (le_antisymm hle h)
      · exact .inl h
    · simpa using INTEREST_DENOM_pos
  next hgo =>
    push Not at hgo
    simp only [bind_eq_ok_iff, okOr_eq_ok, SupplyTransition.bookInterest_eq_some,
      pure_eq_ok] at h
    obtain ⟨x, hx, _, ⟨hfit, -, rfl⟩, rfl⟩ := h
    obtain ⟨-, -, hcov, htight⟩ := mulDivCeil_spec hx
    exact ⟨x, now, rfl, hle, le_rfl, .inr rfl, fun hs ↦ absurd hs hgo.2, hcov, htight,
      .inr hfit⟩

/-! ## Redistribution glue -/

def redistState (m : Market) : RedistState where
  lColl := m.lColl
  lArt := m.lArt
  lastCollError := m.lastCollRedistError
  lastArtError := m.lastArtRedistError

def writeState (m : Market) (st : RedistState) : Market :=
  { m with
    lColl := st.lColl
    lArt := st.lArt
    lastCollRedistError := st.lastCollError
    lastArtRedistError := st.lastArtError }

def snapshotOf (p : Position) : RedistSnapshot := ⟨p.redistLCollSnapshot, p.redistLArtSnapshot⟩

def RedistError.toProgramError : RedistError → ProgramError
  | .noStakes => .noRedistributionRecipients
  | .accumulatorOverflow => .redistributionAccumulatorOverflow
  | .math => .mathOverflow

def redistPending (m : Market) (p : Position) : Except ProgramError (ℕ × ℕ) :=
  (pending p.stake (redistState m) (snapshotOf p)).mapError RedistError.toProgramError

theorem mapError_eq_ok {ε ε' α : Type} {f : ε → ε'} {x : Except ε α} {a : α} :
    x.mapError f = .ok a ↔ x = .ok a := by
  cases x <;> simp [Except.mapError]

def rollSnapshot (m : Market) (p : Position) : Position :=
  { p with redistLCollSnapshot := m.lColl, redistLArtSnapshot := m.lArt }

/-- Recompute the stake of a position from its collateral. -/
def setStake (m : Market) (p : Position) : Except ProgramError (Market × Position) := do
  let newStake ← (computeStake p.ink m.totalStakesSnapshot
    m.totalCollateralSnapshot).mapError RedistError.toProgramError
  let totalStakes ← okOr ((checkedSub m.totalStakes p.stake).bind (checkedAdd 128 · newStake))
    .mathOverflow
  pure ({ m with totalStakes }, { p with stake := newStake })

theorem setStake_spec (h : setStake m p = .ok (m', p')) :
    ∃ stake total, computeStake p.ink m.totalStakesSnapshot m.totalCollateralSnapshot =
        .ok stake ∧ total + p.stake = m.totalStakes + stake ∧ p.stake ≤ m.totalStakes ∧
      total < 2 ^ 128 ∧ m' = { m with totalStakes := total } ∧
        p' = { p with stake := stake } := by
  simp only [setStake, bind_eq_ok_iff, okOr_eq_ok, mapError_eq_ok, Option.bind_eq_some_iff,
    checkedSub_eq_some, checkedAdd_eq_some, pure_eq_ok, Prod.mk.injEq] at h
  obtain ⟨stake, hstake, total, ⟨_, ⟨hle, rfl⟩, hfit, rfl⟩, rfl, rfl⟩ := h
  exact ⟨stake, _, hstake, by omega, hle, hfit, rfl, rfl⟩

theorem exists_setStake
    (hsnap : m.totalCollateralSnapshot = 0 ∨ m.totalStakesSnapshot ≤ m.totalCollateralSnapshot)
    (hstake : p.stake ≤ m.totalStakes) (hfit : m.totalStakes + p.ink < 2 ^ 128) :
    ∃ m' p', setStake m p = .ok (m', p') := by
  obtain ⟨stake, hs⟩ := exists_computeStake hsnap (show p.ink < 2 ^ 128 by omega)
  have hle := computeStake_le hsnap hs
  simp only [setStake, bind_eq_ok_iff, okOr_eq_ok, mapError_eq_ok, Option.bind_eq_some_iff,
    checkedSub_eq_some, checkedAdd_eq_some, pure_eq_ok]
  exact ⟨_, _, stake, hs, _, ⟨_, ⟨hstake, rfl⟩, by omega, rfl⟩, rfl⟩

/-! ## Realising a position -/

/-- Interest a position accrues from its last update until `ts`, rounded down. -/
def interestUntil (p : Position) (ts : ℕ) : ℕ :=
  p.recordedDebt * p.userRateBps * (ts - p.lastDebtUpdate) / INTEREST_DENOM

/-- Redistributed debt a position has not folded in yet. -/
def pendingDebt (m : Market) (p : Position) : ℕ :=
  p.stake * (m.lArt - p.redistLArtSnapshot) / PRECISION

/-- Redistributed collateral a position has not folded in yet. -/
def pendingColl (m : Market) (p : Position) : ℕ :=
  p.stake * (m.lColl - p.redistLCollSnapshot) / PRECISION

/-- Fold accrued interest and pending redistribution into a position. -/
def realize (m : Market) (p : Position) (now : ℕ) : Except ProgramError Position := do
  let cap := if m.shutdown then m.lastUpdateTs else now
  let period := cap - p.lastDebtUpdate
  let accrued ← okOr (accruedInterest p.recordedDebt p.userRateBps period) .mathOverflow
  let (coll, debt) ← redistPending m p
  let p₁ ← (if 0 < coll then do
      let add ← okOr (tryFit 64 coll) .mathOverflow
      let newInk ← okOr (checkedAdd 64 p.ink add) .mathOverflow
      pure (p.setInk newInk)
    else pure p)
  let withInterest ← okOr (checkedAdd 128 p₁.recordedDebt accrued) .mathOverflow
  let recordedDebt ← okOr (checkedAdd 128 withInterest debt) .mathOverflow
  pure (rollSnapshot m { p₁ with recordedDebt, lastDebtUpdate := cap })

section SetInk

variable (p : Position) (ink : ℕ)

@[simp] theorem Position.setInk_ink : (p.setInk ink).ink = ink := by
  unfold Position.setInk
  split
  · rfl
  · simp_all

@[simp] theorem Position.setInk_recordedDebt : (p.setInk ink).recordedDebt = p.recordedDebt := by
  unfold Position.setInk; split <;> rfl

@[simp] theorem Position.setInk_userRateBps : (p.setInk ink).userRateBps = p.userRateBps := by
  unfold Position.setInk; split <;> rfl

@[simp] theorem Position.setInk_lastDebtUpdate :
    (p.setInk ink).lastDebtUpdate = p.lastDebtUpdate := by
  unfold Position.setInk; split <;> rfl

@[simp] theorem Position.setInk_stake : (p.setInk ink).stake = p.stake := by
  unfold Position.setInk; split <;> rfl

@[simp] theorem Position.setInk_bucket : (p.setInk ink).bucket = p.bucket := by
  unfold Position.setInk; split <;> rfl

@[simp] theorem Position.setInk_collSurplus : (p.setInk ink).collSurplus = p.collSurplus := by
  unfold Position.setInk; split <;> rfl

@[simp] theorem Position.setInk_redistLCollSnapshot :
    (p.setInk ink).redistLCollSnapshot = p.redistLCollSnapshot := by
  unfold Position.setInk; split <;> rfl

@[simp] theorem Position.setInk_redistLArtSnapshot :
    (p.setInk ink).redistLArtSnapshot = p.redistLArtSnapshot := by
  unfold Position.setInk; split <;> rfl

/-- The nonce of `q` is not behind that of `p`, and the collateral is the same if the nonce is,
unless the nonce has saturated. -/
def Position.Advances (p q : Position) : Prop :=
  p.inkNonce < 2 ^ 64 → p.inkNonce ≤ q.inkNonce ∧ q.inkNonce < 2 ^ 64 ∧
    (q.inkNonce = p.inkNonce → q.ink = p.ink ∨ p.inkNonce = 2 ^ 64 - 1)

variable {p} {q r : Position}

theorem Position.Advances.trans (h : p.Advances q) (h' : q.Advances r) : p.Advances r := by
  intro hp
  obtain ⟨h1, h2, h3⟩ := h hp
  obtain ⟨h4, h5, h6⟩ := h' h2
  refine ⟨h1.trans h4, h5, fun heq ↦ ?_⟩
  have hq : q.inkNonce = p.inkNonce := by omega
  rcases h3 hq with hink | hsat
  · rcases h6 (by omega) with hink' | hsat'
    · exact .inl (hink'.trans hink)
    · exact .inr (hq ▸ hsat')
  · exact .inr hsat

@[simp] theorem Position.advances_of_eq (hink : q.ink = p.ink)
    (hnonce : q.inkNonce = p.inkNonce) : p.Advances q :=
  fun hp ↦ ⟨hnonce.ge, hnonce ▸ hp, fun _ ↦ .inl hink⟩

@[refl] theorem Position.Advances.refl (p : Position) : p.Advances p :=
  Position.advances_of_eq rfl rfl

@[simp] theorem Position.advances_setInk (hink : q.ink = p.ink)
    (hnonce : q.inkNonce = p.inkNonce) : p.Advances (q.setInk ink) := by
  intro hp
  unfold Position.setInk
  split
  · simp only [hnonce, saturatingAdd]
    omega
  · exact Position.advances_of_eq hink hnonce hp

end SetInk

/-- What realising does to the fields the ledgers depend on. -/
structure Realized (m : Market) (p p' : Position) (ts : ℕ) : Prop where
  interest : accruedInterest p.recordedDebt p.userRateBps (ts - p.lastDebtUpdate) =
    some (interestUntil p ts)
  recordedDebt : p'.recordedDebt = p.recordedDebt + interestUntil p ts + pendingDebt m p
  ink : p'.ink = p.ink + pendingColl m p
  ink_lt : p.ink < 2 ^ 64 → p'.ink < 2 ^ 64
  debt_lt : p'.recordedDebt < 2 ^ 128
  userRateBps : p'.userRateBps = p.userRateBps
  stake : p'.stake = p.stake
  bucket : p'.bucket = p.bucket
  collSurplus : p'.collSurplus = p.collSurplus
  lastDebtUpdate : p'.lastDebtUpdate = ts
  lColl : p'.redistLCollSnapshot = m.lColl
  lArt : p'.redistLArtSnapshot = m.lArt
  advances : p.Advances p'

theorem realize_capped (h : realize m p now = .ok p') :
    Realized m p p' (if m.shutdown then m.lastUpdateTs else now) := by
  simp only [realize, bind_eq_ok_iff, okOr_eq_ok, redistPending, mapError_eq_ok,
    accruedInterest_eq_some, checkedAdd_eq_some, pure_eq_ok] at h
  obtain ⟨accrued, ⟨hweight, hinterest, rfl⟩, ⟨coll, debt⟩, hpend, p₁, hp₁, _, ⟨-, rfl⟩, _,
    ⟨hfit, rfl⟩, rfl⟩ := h
  obtain ⟨hcoll, hdebt⟩ : pendingColl m p = coll ∧ pendingDebt m p = debt := pending_eq_ok hpend
  subst hcoll hdebt
  -- the collateral fold writes `ink` only, and nothing when no collateral is pending
  obtain ⟨ink, hp₁, hink, hlt⟩ : ∃ ink, (p₁ = p.setInk ink ∨ p₁ = p) ∧
      p₁.ink = p.ink + pendingColl m p ∧ (p.ink < 2 ^ 64 → p₁.ink < 2 ^ 64) := by
    rcases ite_eq_ok.mp hp₁ with ⟨-, hp₁⟩ | ⟨hzero, hp₁⟩
    · simp only [bind_eq_ok_iff, okOr_eq_ok, tryFit_eq_some, checkedAdd_eq_some,
        pure_eq_ok] at hp₁
      obtain ⟨_, ⟨-, rfl⟩, _, ⟨hwidth, rfl⟩, rfl⟩ := hp₁
      exact ⟨_, .inl rfl, Position.setInk_ink _ _, fun _ ↦ by simpa using hwidth⟩
    · cases hp₁
      have hnone : pendingColl m p = 0 := Nat.eq_zero_of_not_pos hzero
      exact ⟨0, .inr rfl, by simp [hnone], id⟩
  have hd : p₁.recordedDebt = p.recordedDebt := by rcases hp₁ with rfl | rfl <;> simp
  exact
    { interest := accruedInterest_eq_some.mpr ⟨hweight, hinterest, rfl⟩
      recordedDebt := by simp [rollSnapshot, hd, interestUntil]
      ink := hink
      ink_lt := hlt
      debt_lt := hfit
      userRateBps := by rcases hp₁ with rfl | rfl <;> simp [rollSnapshot]
      stake := by rcases hp₁ with rfl | rfl <;> simp [rollSnapshot]
      bucket := by rcases hp₁ with rfl | rfl <;> simp [rollSnapshot]
      collSurplus := by rcases hp₁ with rfl | rfl <;> simp [rollSnapshot]
      lastDebtUpdate := rfl
      lColl := rfl
      lArt := rfl
      advances := by
        have hadv : p.Advances p₁ := by rcases hp₁ with rfl | rfl <;> simp
        exact hadv }

theorem realize_spec (hcur : m.shutdown = true ∨ m.lastUpdateTs = now)
    (h : realize m p now = .ok p') :
    Realized m p p' m.lastUpdateTs := by
  have hcap : (if m.shutdown then m.lastUpdateTs else now) = m.lastUpdateTs := by
    rcases hcur with h | h
    · simp [h]
    · simp [h]
  rw [← hcap]
  exact realize_capped h

/-! ## The weighted debt sum -/

/-- A position's contribution to the weighted debt sum. -/
def weighted (p : Position) : Except ProgramError ℕ :=
  okOr (weightedDebt p.recordedDebt p.userRateBps) .mathOverflow

def reweight (m : Market) (p : Position) (oldWeighted : ℕ) : Except ProgramError Market := do
  let newWeighted ← weighted p
  let raised ← okOr (checkedAdd 128 m.aggWeightedDebtSum newWeighted) .mathOverflow
  let sum ← okOr (checkedSub raised oldWeighted) .mathOverflow
  pure { m with aggWeightedDebtSum := sum }

/-- The weight of a position, without the width check. -/
def weightOf (p : Position) : ℕ := p.recordedDebt * p.userRateBps

theorem weighted_eq_ok {w : ℕ} :
    weighted p = .ok w ↔ weightOf p < 2 ^ 128 ∧ weightOf p = w := by
  simp [weighted, weightedDebt, weightOf]

theorem reweight_spec (h : reweight m p old = .ok m') :
    ∃ sum, (sum + old = m.aggWeightedDebtSum + weightOf p ∧ sum < 2 ^ 128) ∧
      m' = { m with aggWeightedDebtSum := sum } := by
  simp only [reweight, bind_eq_ok_iff, weighted_eq_ok, okOr_eq_ok, checkedAdd_eq_some,
    checkedSub_eq_some, pure_eq_ok] at h
  obtain ⟨_, ⟨-, rfl⟩, _, ⟨hfit, rfl⟩, sum, ⟨hle, rfl⟩, rfl⟩ := h
  exact ⟨_, ⟨by omega, by omega⟩, rfl⟩

theorem exists_reweight (hfit : m.aggWeightedDebtSum + weightOf p < 2 ^ 128)
    (hold : old ≤ m.aggWeightedDebtSum) :
    ∃ m', reweight m p old = .ok m' := by
  simp only [reweight, bind_eq_ok_iff, weighted_eq_ok, okOr_eq_ok, checkedAdd_eq_some,
    checkedSub_eq_some, pure_eq_ok]
  exact ⟨_, _, ⟨by omega, rfl⟩, _, ⟨hfit, rfl⟩, _, ⟨by omega, rfl⟩, rfl⟩

end FusionCore
