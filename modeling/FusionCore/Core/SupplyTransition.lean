import FusionCore.Core.State

/-!
# Supply transitions

The single definition of every step of `agg_recorded_debt`, `unminted_interest` and
`bad_debt`.  A transition that would leave the `u128` range is `none`.
-/

namespace FusionCore

open Checked

namespace SupplyTransition

structure BorrowDelta where
  debtDelta : ℕ
  newAgg : ℕ
  newUnminted : ℕ
  minted : ℕ

def borrow (agg0 unminted0 amount fee : ℕ) : Option BorrowDelta := do
  let debtDelta ← checkedAdd 128 amount fee
  let newAgg ← checkedAdd 128 agg0 debtDelta
  let newUnminted ← checkedAdd 128 unminted0 fee
  pure ⟨debtDelta, newAgg, newUnminted, amount⟩

structure RepayDelta where
  burn : ℕ
  newPositionDebt : ℕ
  newAgg : ℕ

def repay (agg0 positionDebt amount : ℕ) : Option RepayDelta := do
  let burn := min amount positionDebt
  let newPositionDebt ← checkedSub positionDebt burn
  let newAgg ← checkedSub agg0 burn
  pure ⟨burn, newPositionDebt, newAgg⟩

/-- `floor(x * bps / 10_000)`. -/
def bpsCut (x bps : ℕ) : Option ℕ :=
  (checkedMul 128 x bps).map (· / BPS_DENOMINATOR)

structure RefreshDelta where
  amount : ℕ
  keeperCut : ℕ
  paydown : ℕ
  backstopCut : ℕ
  bufferAmount : ℕ
  newUnminted : ℕ
  newBad : ℕ

def refresh (pending bad0 keeperBps paydownBps backstopCutBps backstopHeadroom : ℕ) :
    Option RefreshDelta := do
  let amount := min pending (2 ^ 64 - 1)
  let keeperCut ← (if 0 < keeperBps then bpsCut amount keeperBps else some 0)
  let postKeeper ← checkedSub amount keeperCut
  let paydown ←
    (if 0 < paydownBps ∧ 0 < bad0 then (bpsCut postKeeper paydownBps).map (min · bad0)
    else some 0)
  let postPaydown ← checkedSub postKeeper paydown
  let backstopCut ←
    (if 0 < backstopCutBps then (bpsCut postPaydown backstopCutBps).map (min · backstopHeadroom)
    else some 0)
  let bufferAmount ← checkedSub postPaydown backstopCut
  let newUnminted ← checkedSub pending amount
  let newBad ← checkedSub bad0 paydown
  pure ⟨amount, keeperCut, paydown, backstopCut, bufferAmount, newUnminted, newBad⟩

structure LiquidateDelta where
  burned : ℕ
  newAgg : ℕ
  newBad : ℕ

/-- The redistributed part stays in the aggregate. -/
def liquidate (agg0 bad0 reactor _redist buffer global unhomed : ℕ) :
    Option LiquidateDelta := do
  let a1 ← checkedSub agg0 reactor
  let a2 ← checkedSub a1 buffer
  let a3 ← checkedSub a2 global
  let newAgg ← checkedSub a3 unhomed
  let b1 ← checkedAdd 128 reactor buffer
  let burned ← checkedAdd 128 b1 global
  let newBad ← checkedAdd 128 bad0 unhomed
  pure ⟨burned, newAgg, newBad⟩

structure RedeemStepDelta where
  burned : ℕ
  newAgg : ℕ

def redeemStep (agg0 redeemAmt : ℕ) : Option RedeemStepDelta := do
  let newAgg ← checkedSub agg0 redeemAmt
  pure ⟨redeemAmt, newAgg⟩

def settleBadDebt (bad0 burned : ℕ) : Option ℕ := checkedSub bad0 burned

structure InterestDelta where
  newAgg : ℕ
  newUnminted : ℕ

def bookInterest (agg0 unminted0 x : ℕ) : Option InterestDelta := do
  let newAgg ← checkedAdd 128 agg0 x
  let newUnminted ← checkedAdd 128 unminted0 x
  pure ⟨newAgg, newUnminted⟩

theorem borrow_eq_some {agg unminted amount fee : ℕ} {d : BorrowDelta} :
    borrow agg unminted amount fee = some d ↔
      amount + fee < 2 ^ 128 ∧ agg + (amount + fee) < 2 ^ 128 ∧ unminted + fee < 2 ^ 128 ∧
        d = ⟨amount + fee, agg + (amount + fee), unminted + fee, amount⟩ := by
  simp only [borrow, Option.bind_eq_bind, Option.bind_eq_some_iff, checkedAdd_eq_some,
    Option.pure_def, Option.some.injEq]
  constructor
  · rintro ⟨_, ⟨h1, rfl⟩, _, ⟨h2, rfl⟩, _, ⟨h3, rfl⟩, rfl⟩
    exact ⟨h1, h2, h3, rfl⟩
  · rintro ⟨h1, h2, h3, rfl⟩
    exact ⟨_, ⟨h1, rfl⟩, _, ⟨h2, rfl⟩, _, ⟨h3, rfl⟩, rfl⟩

theorem repay_eq_some {agg debt amount : ℕ} {d : RepayDelta} :
    repay agg debt amount = some d ↔
      min amount debt ≤ agg ∧
        d = ⟨min amount debt, debt - min amount debt, agg - min amount debt⟩ := by
  simp only [repay, Option.bind_eq_bind, Option.bind_eq_some_iff, checkedSub_eq_some,
    Option.pure_def, Option.some.injEq]
  constructor
  · rintro ⟨_, ⟨-, rfl⟩, _, ⟨h, rfl⟩, rfl⟩
    exact ⟨h, rfl⟩
  · rintro ⟨h, rfl⟩
    exact ⟨_, ⟨min_le_right _ _, rfl⟩, _, ⟨h, rfl⟩, rfl⟩

theorem bookInterest_eq_some {agg unminted x : ℕ} {d : InterestDelta} :
    bookInterest agg unminted x = some d ↔
      agg + x < 2 ^ 128 ∧ unminted + x < 2 ^ 128 ∧ d = ⟨agg + x, unminted + x⟩ := by
  simp only [bookInterest, Option.bind_eq_bind, Option.bind_eq_some_iff, checkedAdd_eq_some,
    Option.pure_def, Option.some.injEq]
  constructor
  · rintro ⟨_, ⟨h1, rfl⟩, _, ⟨h2, rfl⟩, rfl⟩
    exact ⟨h1, h2, rfl⟩
  · rintro ⟨h1, h2, rfl⟩
    exact ⟨_, ⟨h1, rfl⟩, _, ⟨h2, rfl⟩, rfl⟩

theorem redeemStep_eq_some {agg amt : ℕ} {d : RedeemStepDelta} :
    redeemStep agg amt = some d ↔ amt ≤ agg ∧ d = ⟨amt, agg - amt⟩ := by
  simp only [redeemStep, Option.bind_eq_bind, Option.bind_eq_some_iff, checkedSub_eq_some,
    Option.pure_def, Option.some.injEq]
  constructor
  · rintro ⟨_, ⟨h, rfl⟩, rfl⟩
    exact ⟨h, rfl⟩
  · rintro ⟨h, rfl⟩
    exact ⟨_, ⟨h, rfl⟩, rfl⟩

theorem liquidate_eq_some {agg bad reactor redist buffer global unhomed : ℕ}
    {d : LiquidateDelta} :
    liquidate agg bad reactor redist buffer global unhomed = some d ↔
      reactor + buffer + global + unhomed ≤ agg ∧ reactor + buffer + global < 2 ^ 128 ∧
        bad + unhomed < 2 ^ 128 ∧
        d = ⟨reactor + buffer + global, agg - (reactor + buffer + global + unhomed),
          bad + unhomed⟩ := by
  simp only [liquidate, Option.bind_eq_bind, Option.bind_eq_some_iff, checkedSub_eq_some,
    checkedAdd_eq_some, Option.pure_def, Option.some.injEq]
  constructor
  · rintro ⟨_, ⟨h1, rfl⟩, _, ⟨h2, rfl⟩, _, ⟨h3, rfl⟩, _, ⟨h4, rfl⟩, _, ⟨h5, rfl⟩, _, ⟨h6, rfl⟩,
      _, ⟨h7, rfl⟩, rfl⟩
    refine ⟨by omega, h6, h7, ?_⟩
    congr 1
    omega
  · rintro ⟨h1, h2, h3, rfl⟩
    refine ⟨_, ⟨by omega, rfl⟩, _, ⟨by omega, rfl⟩, _, ⟨by omega, rfl⟩, _, ⟨by omega, rfl⟩, _,
      ⟨by omega, rfl⟩, _, ⟨h2, rfl⟩, _, ⟨h3, rfl⟩, ?_⟩
    congr 1
    omega

theorem refresh_spec {pending bad keeperBps paydownBps cutBps headroom : ℕ} {d : RefreshDelta}
    (h : refresh pending bad keeperBps paydownBps cutBps headroom = some d) :
    d.amount = min pending (2 ^ 64 - 1) ∧
      d.keeperCut + d.paydown + d.backstopCut + d.bufferAmount = d.amount ∧
      d.newUnminted + d.amount = pending ∧ d.newBad + d.paydown = bad ∧
      (keeperBps = 0 → d.keeperCut = 0) ∧ (cutBps = 0 → d.backstopCut = 0) ∧
      d.backstopCut ≤ headroom := by
  simp only [refresh, Option.bind_eq_bind, Option.bind_eq_some_iff, checkedSub_eq_some,
    Option.pure_def, Option.some.injEq] at h
  obtain ⟨keeper, hk, _, ⟨h1, rfl⟩, paydown, hp, _, ⟨h2, rfl⟩, cut, hc, _, ⟨h3, rfl⟩, _,
    ⟨h4, rfl⟩, _, ⟨h5, rfl⟩, rfl⟩ := h
  refine ⟨rfl, ?_, ?_, ?_, ?_, ?_, ?_⟩
  · simp only; omega
  · simp only; omega
  · simp only; omega
  · rintro rfl
    simpa using hk.symm
  · rintro rfl
    simpa using hc.symm
  · split at hc
    · obtain ⟨w, -, rfl⟩ := Option.map_eq_some_iff.mp hc
      exact min_le_right _ _
    · obtain rfl : 0 = cut := by simpa using hc
      exact Nat.zero_le _

end SupplyTransition

end FusionCore
