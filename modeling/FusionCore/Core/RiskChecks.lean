import FusionCore.Core.Liquidation

/-!
# After a checked operation

Borrowing, withdrawing under debt and a rate change that costs a fee all test the position at the
low price of the market.  The test runs on the folded position, so a liquidation at the same time
finds nothing left to fold and repeats it at the high price.
-/

namespace FusionCore

open Checked

/-- What a checked operation leaves behind: the position is folded up to the present, owes
something, and carries its debt at the low price, which is recent. -/
structure JustTested (clk : Clock) (a : Accounts) (owner : Pubkey) (p : Position) : Prop where
  position : a.state.positions.lookup owner = some p
  current : p.Current a.state.market
  clock : a.state.market.shutdown = true ∨ a.state.market.lastUpdateTs = clk.unixTimestamp
  owes : 0 < p.recordedDebt
  debt_lt : p.recordedDebt < 2 ^ 128
  priced : 0 < a.state.market.spot
  fresh : a.state.market.fresh clk.slot
  healthy : isHealthy p.ink p.recordedDebt a.state.market.spot a.state.market.mcrBps = true

/-! ## The operations -/

section Operations

variable {clk : Clock} {owner : Pubkey} {amount : ℕ} {a a' : Accounts}

theorem borrow_justTested (hi : Inv clk.unixTimestamp a) (h : borrow clk owner amount a = .ok a') :
    ∃ p, JustTested clk a' owner p := by
  obtain ⟨run, rfl⟩ := borrow_run h
  obtain ⟨x, ts, hacc⟩ := accrue_spec hi.book.clock run.visit.accrue_eq
  have hreal := realize_spec hacc.realizable run.visit.realize_eq
  have hpos := run.amount_pos
  exact ⟨_, AList.lookup_insert _, ⟨hreal.lastDebtUpdate, hreal.lColl, hreal.lArt⟩,
    hacc.realizable, by dsimp only [borrowed, Visit.position]; omega, run.debt_lt, run.priced,
    run.fresh, run.healthy⟩

theorem withdraw_justTested (hi : Inv clk.unixTimestamp a)
    (h : withdraw clk owner amount a = .ok a') {q : Position}
    (hq : a'.state.positions.lookup owner = some q) (hdebt : 0 < q.recordedDebt) :
    JustTested clk a' owner q := by
  obtain ⟨run, rfl⟩ := exists_withdrawRun (of_vaultChecked h)
  obtain ⟨x, ts, hacc⟩ := accrue_spec hi.book.clock run.visit.accrue_eq
  have hreal := realize_spec hacc.realizable run.visit.realize_eq
  obtain rfl := Option.some.inj ((AList.lookup_insert _).symm.trans hq)
  have howed : run.visit.position.recordedDebt = run.visit.p₁.recordedDebt :=
    Position.setInk_recordedDebt _ _
  have hink : run.visit.position.ink = run.visit.p₁.ink - amount := Position.setInk_ink _ _
  obtain ⟨hspot, hfresh, hhealthy⟩ := run.tested (howed ▸ hdebt)
  refine ⟨AList.lookup_insert _, ?_, hacc.realizable, hdebt, ?_, hspot, hfresh, ?_⟩
  · exact ⟨(Position.setInk_lastDebtUpdate _ _).trans hreal.lastDebtUpdate,
      (Position.setInk_redistLCollSnapshot _ _).trans hreal.lColl,
      (Position.setInk_redistLArtSnapshot _ _).trans hreal.lArt⟩
  · rw [howed]
    exact hreal.debt_lt
  · rw [howed, hink]
    exact hhealthy

theorem adjustRate_justTested {newRateBps : ℕ} {m : Market} (hi : Inv clk.unixTimestamp a)
    (h : adjustRate clk owner newRateBps a = .ok a')
    (hm : accrue a.state.market clk.unixTimestamp = .ok m)
    (hfee : m.unmintedInterest < a'.state.market.unmintedInterest) :
    ∃ p, JustTested clk a' owner p := by
  obtain ⟨run, rfl⟩ := adjustRate_run h
  obtain rfl : run.visit.m₁ = m := Except.ok.inj (run.visit.accrue_eq.symm.trans hm)
  obtain ⟨x, ts, hacc⟩ := accrue_spec hi.book.clock run.visit.accrue_eq
  have hreal := realize_spec hacc.realizable run.visit.realize_eq
  have hpos : 0 < run.fee := Nat.lt_add_right_iff_pos.mp hfee
  obtain ⟨-, hfit, hspot, hfresh, hhealthy⟩ := run.charged hpos
  exact ⟨_, AList.lookup_insert _, ⟨hreal.lastDebtUpdate, hreal.lColl, hreal.lArt⟩,
    hacc.realizable, by dsimp only [readjusted, Visit.position]; omega, hfit, hspot, hfresh,
    hhealthy⟩

end Operations

/-! ## The liquidation that follows -/

theorem realize_of_current {m : Market} {p : Position} {now : ℕ} (hcur : p.Current m)
    (hclock : m.shutdown = true ∨ m.lastUpdateTs = now) (hweight : weightOf p < 2 ^ 128)
    (hdebt : p.recordedDebt < 2 ^ 128) : realize m p now = .ok p := by
  have hcap : (if m.shutdown then m.lastUpdateTs else now) = m.lastUpdateTs := by
    rcases hclock with h | h
    · simp [h]
    · simp [h]
  have hinterest : accruedInterest p.recordedDebt p.userRateBps
      (m.lastUpdateTs - p.lastDebtUpdate) = some 0 := by
    rw [hcur.lastDebtUpdate, accruedInterest_eq_some]
    exact ⟨hweight, by decide, by simp⟩
  have hpending : redistPending m p = .ok (0, 0) := by
    simp only [redistPending, snapshotOf, hcur.lColl, hcur.lArt]
    simp [pending, pendingOne, redistState, Except.mapError, ok_bind, pure, Except.pure]
  have hadd : checkedAdd 128 p.recordedDebt 0 = some p.recordedDebt :=
    checkedAdd_eq_some.mpr ⟨hdebt, rfl⟩
  have hroll : rollSnapshot m { p with lastDebtUpdate := m.lastUpdateTs } = p := by
    simp only [rollSnapshot, ← hcur.lastDebtUpdate, ← hcur.lColl, ← hcur.lArt]
  simp only [realize, hcap, hinterest, hpending, okOr_some, ok_bind, lt_irrefl, if_false, hadd,
    pure, Except.pure, hroll]

/-- Why a liquidation is refused at a healthy position. -/
def liquidationRefusal (a : Accounts) (slot : ℕ) (withBackstop : Bool) : ProgramError :=
  if withBackstop = true ∧ a.backstop = none then .accountNotInitialized
  else if slot < a.state.market.liqGraceUntil then .liquidationGracePeriod
  else if slot < a.state.market.liqDivergenceUntil then .oracleDivergent
  else .positionHealthy

section Refusal

variable {clk : Clock} {liquidator owner : Pubkey} {withBackstop : Bool} {a : Accounts}
  {p : Position}

theorem JustTested.healthy_high (hc : JustTested clk a owner p) (hi : Inv clk.unixTimestamp a)
    (hordered : a.state.market.spot ≤ a.state.market.debtSpot)
    (hwidth : a.state.market.debtSpot < 2 ^ 128) :
    isHealthy p.ink p.recordedDebt a.state.market.debtSpot a.state.market.mcrBps = true := by
  have hink : p.ink < 2 ^ 64 := by
    have hle := hi.book.coll_le hc.position hc.current.folded
    have hvault := hi.vault
    have hlt := a.state.coll.balance_lt .vault
    simp only [tracked] at hvault
    omega
  have hmcr : 0 < a.state.market.mcrBps := lt_of_lt_of_le (by decide) hi.valid.mcr_ge
  have hlow := (isHealthy_iff hink (hordered.trans_lt hwidth) hmcr).mp hc.healthy
  exact (isHealthy_iff hink hwidth hmcr).mpr (hlow.trans (debtLimit_mono hordered))

theorem backstopAccounts_isOk (h : ¬ (withBackstop = true ∧ a.backstop = none)) :
    ∃ bs, backstopAccounts a withBackstop = .ok bs := by
  unfold backstopAccounts
  split
  next hwith =>
    obtain ⟨reserve, hreserve⟩ := Option.ne_none_iff_exists'.mp fun hnone ↦ h ⟨hwith, hnone⟩
    exact ⟨some reserve, by rw [hreserve]; rfl⟩
  next => exact ⟨none, rfl⟩

/-- With a recent price only the two pauses can hold a liquidation back. -/
theorem liquidationGates_eq {m : Market} {slot : ℕ} (hspot : 0 < m.spot) (hhigh : 0 < m.debtSpot)
    (hfresh : m.fresh slot) : liquidationGates m slot =
      if slot < m.liqGraceUntil then .error .liquidationGracePeriod
      else if slot < m.liqDivergenceUntil then .error .oracleDivergent
      else .ok () := by
  simp only [liquidationGates, require_of (And.intro hspot hhigh), require_of hfresh, ok_bind]
  split
  next hgrace => rw [require_of_not (not_le.mpr hgrace), error_bind]
  next hgrace =>
    rw [require_of (not_lt.mp hgrace), ok_bind]
    split
    next hdivergence => exact require_of_not (not_le.mpr hdivergence)
    next hdivergence => exact require_of (not_lt.mp hdivergence)

theorem liquidate_refused (hc : JustTested clk a owner p) (hi : Inv clk.unixTimestamp a)
    (hreactor : a.state.reactor.isSome) (hbuffer : a.state.buffer.isSome)
    (hordered : a.state.market.spot ≤ a.state.market.debtSpot)
    (hwidth : a.state.market.debtSpot < 2 ^ 128) :
    liquidate clk liquidator owner withBackstop a
      = .error (liquidationRefusal a clk.slot withBackstop) := by
  obtain ⟨rp, hrp⟩ := Option.isSome_iff_exists.mp hreactor
  obtain ⟨buf, hbuf⟩ := Option.isSome_iff_exists.mp hbuffer
  have haccrue : accrue a.state.market clk.unixTimestamp = .ok a.state.market := by
    rw [accrue, if_pos]
    exact hc.clock.symm.imp_left ge_of_eq
  have hweight : weightOf p < 2 ^ 128 :=
    (hi.book.weight_le hc.position).trans_lt hi.book.weights_lt
  have hweighted : weighted p = .ok (weightOf p) := weighted_eq_ok.mpr ⟨hweight, rfl⟩
  have hrealize := realize_of_current hc.current hc.clock hweight hc.debt_lt
  have hhigh := hc.healthy_high hi hordered hwidth
  have hhighPos : 0 < a.state.market.debtSpot := lt_of_lt_of_le hc.priced hordered
  have hunchecked : liquidateUnchecked clk liquidator owner withBackstop a
      = .error (liquidationRefusal a clk.slot withBackstop) := by
    simp only [liquidateUnchecked, hc.position, hrp, hbuf, okOr_some, ok_bind, haccrue]
    -- the checks in the order of the handler: backstop accounts, the two pauses, the ratio
    by_cases hnone : withBackstop = true ∧ a.backstop = none
    · simp only [backstopAccounts, hnone, if_true, liquidationRefusal, and_self]
      rfl
    obtain ⟨bs, hbs⟩ := backstopAccounts_isOk hnone
    simp only [hbs, ok_bind, liquidationGates_eq hc.priced hhighPos hc.fresh, liquidationRefusal,
      if_neg hnone]
    by_cases hgrace : clk.slot < a.state.market.liqGraceUntil
    · simp only [if_pos hgrace, error_bind]
    by_cases hdivergence : clk.slot < a.state.market.liqDivergenceUntil
    · simp only [if_neg hgrace, if_pos hdivergence, error_bind]
    have hunhealthy : ¬ isHealthy p.ink p.recordedDebt a.state.market.debtSpot
        a.state.market.mcrBps = false := by simp [hhigh]
    simp only [if_neg hgrace, if_neg hdivergence, ok_bind, hweighted, hrealize,
      require_of hc.owes, require_of_not hunhealthy, error_bind]
  rw [liquidate, vaultChecked, hunchecked]
  rfl

end Refusal

end FusionCore
