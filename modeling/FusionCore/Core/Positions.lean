import FusionCore.Core.Effect

/-!
# Position instructions

Opening and closing a position, moving collateral and debt, changing the rate, and claiming
a liquidation surplus.  The handlers keep the order of the source; subscripts number the
successive states of the market and of the position.
-/

namespace FusionCore

open Checked

/-- The price is recent enough for a new risk to be taken on it. -/
def Market.fresh (m : Market) (slot : ℕ) : Prop :=
  slot - m.spotUpdatedSlot ≤ MAX_PRICE_STALENESS_SLOTS

instance (m : Market) (slot : ℕ) : Decidable (m.fresh slot) :=
  inferInstanceAs (Decidable (_ ≤ _))

/-- A repayment gives its amount back to the outflow limiter, if that is on. -/
def Market.restoreOutflow (m : Market) (now inflow : ℕ) : Market :=
  if 0 < m.rlCap then
    { m with
      rlAccrued := ratelimitRestore m.rlAccrued m.rlLastUpdate now m.rlCap
        RATELIMIT_WINDOW_SECS inflow
      rlLastUpdate := now }
  else m

theorem Market.restoreOutflow_eq (m : Market) (now inflow : ℕ) : ∃ rlAccrued rlLastUpdate,
    m.restoreOutflow now inflow =
      { m with rlAccrued := rlAccrued, rlLastUpdate := rlLastUpdate } := by
  unfold Market.restoreOutflow
  split
  · exact ⟨_, _, rfl⟩
  · exact ⟨m.rlAccrued, m.rlLastUpdate, rfl⟩

/-! ## Handlers -/

def openPosition (clk : Clock) (owner : Pubkey) (userRateBps : ℕ) (a : Accounts) :
    Except ProgramError Accounts := do
  require (a.state.positions.lookup owner = none) .accountAlreadyInUse
  require (MIN_USER_RATE_BPS ≤ userRateBps ∧ userRateBps ≤ MAX_USER_RATE_BPS)
    .interestRateOutOfBounds
  let m := a.state.market
  let now := clk.unixTimestamp
  let p : Position :=
    { ink := 0
      recordedDebt := 0
      userRateBps
      lastDebtUpdate := now
      stake := 0
      redistLCollSnapshot := m.lColl
      redistLArtSnapshot := m.lArt
      reserveLamports := m.reserveLamports
      bucket := 0
      collSurplus := 0
      lastRateAdjustTs := now
      inkNonce := 0 }
  pure { a with state := { a.state with positions := a.state.positions.insert owner p } }

def closePosition (owner : Pubkey) (a : Accounts) : Except ProgramError Accounts := do
  let p ← okOr (a.state.positions.lookup owner) .accountNotInitialized
  require (p.recordedDebt = 0) .positionNotEmpty
  require (p.ink = 0) .positionNotEmpty
  require (p.collSurplus = 0) .positionNotEmpty
  pure { a with state := { a.state with positions := a.state.positions.erase owner } }

def depositUnchecked (clk : Clock) (owner : Pubkey) (amount : ℕ) (a : Accounts) :
    Except ProgramError Accounts := do
  let p ← okOr (a.state.positions.lookup owner) .accountNotInitialized
  require (0 < amount) .zeroAmount
  let now := clk.unixTimestamp
  let artBefore := p.recordedDebt
  let oldWeighted ← weighted p
  let coll ← tokenCall (a.state.coll.transfer (.wallet owner) .vault amount)
  let m₁ ← accrue a.state.market now
  let p₁ ← realize m₁ p now
  let newInk ← okOr (checkedAdd 64 p₁.ink amount) .mathOverflow
  let p₂ := p₁.setInk newInk
  let totalCollateral ← okOr (checkedAdd 128 m₁.totalCollateral amount) .mathOverflow
  let m₂ := { m₁ with totalCollateral }
  let m₃ ← reweight m₂ p₂ oldWeighted
  let (m₄, p₃) ← setStake m₃ p₂
  -- the bond is topped up to the market's current one, never lowered
  let p₄ := { p₃ with
    reserveLamports :=
      if p₃.reserveLamports < m₄.reserveLamports then m₄.reserveLamports
      else p₃.reserveLamports }
  let (bitmap, p₅) ← reconcile a.state.bitmap m₄ p₄ artBefore
  pure { a with
    state := { a.state with
      market := m₄
      bitmap
      positions := a.state.positions.insert owner p₅
      coll
      tally := (a.state.tally.book a.state.market m₁).realized 1 } }

def deposit (clk : Clock) (owner : Pubkey) (amount : ℕ) (a : Accounts) :
    Except ProgramError Accounts :=
  vaultChecked (depositUnchecked clk owner amount a)

def withdrawUnchecked (clk : Clock) (owner : Pubkey) (amount : ℕ) (a : Accounts) :
    Except ProgramError Accounts := do
  let p ← okOr (a.state.positions.lookup owner) .accountNotInitialized
  require (0 < amount) .zeroAmount
  let now := clk.unixTimestamp
  let artBefore := p.recordedDebt
  let oldWeighted ← weighted p
  let m₁ ← accrue a.state.market now
  let p₁ ← realize m₁ p now
  require (amount ≤ p₁.ink) .insufficientCollateral
  let newInk := p₁.ink - amount
  (if 0 < p₁.recordedDebt then do
    require (0 < m₁.spot) .oracleUnavailable
    require (m₁.fresh clk.slot) .stalePrice
    require (isHealthy newInk p₁.recordedDebt m₁.spot m₁.mcrBps) .belowMinCollateralRatio
  else pure ())
  (if 0 < m₁.ccrBps ∧ m₁.shutdown = false ∧ 0 < m₁.spot ∧ m₁.fresh clk.slot then do
    let postCollateral ← okOr (checkedSub m₁.totalCollateral amount) .mathOverflow
    require (tcrBelow postCollateral m₁.aggRecordedDebt m₁.spot m₁.ccrBps = false)
      .ccrRestricted
  else pure ())
  let coll ← tokenCall (a.state.coll.transfer .vault (.wallet owner) amount)
  let p₂ := p₁.setInk newInk
  let totalCollateral ← okOr (checkedSub m₁.totalCollateral amount) .mathOverflow
  let m₂ := { m₁ with totalCollateral }
  let m₃ ← reweight m₂ p₂ oldWeighted
  let (m₄, p₃) ← setStake m₃ p₂
  let (bitmap, p₄) ← reconcile a.state.bitmap m₄ p₃ artBefore
  pure { a with
    state := { a.state with
      market := m₄
      bitmap
      positions := a.state.positions.insert owner p₄
      coll
      tally := (a.state.tally.book a.state.market m₁).realized 1 } }

def withdraw (clk : Clock) (owner : Pubkey) (amount : ℕ) (a : Accounts) :
    Except ProgramError Accounts :=
  vaultChecked (withdrawUnchecked clk owner amount a)

def borrow (clk : Clock) (owner : Pubkey) (amount : ℕ) (a : Accounts) :
    Except ProgramError Accounts := do
  let p ← okOr (a.state.positions.lookup owner) .accountNotInitialized
  require (0 < amount) .zeroAmount
  let now := clk.unixTimestamp
  let artBefore := p.recordedDebt
  let oldWeighted ← weighted p
  let m₁ ← accrue a.state.market now
  let p₁ ← realize m₁ p now
  require (m₁.shutdown = false) .marketShutdown
  require (m₁.liqInfraFlags.ready = true) .liquidationInfraNotReady
  require (0 < m₁.spot) .oracleUnavailable
  require (m₁.mintFrozen = false) .mintFrozen
  require (m₁.guardianPausedUntil ≤ now) .guardianPaused
  require (m₁.fresh clk.slot) .stalePrice
  let fee ← (if 0 < m₁.borrowFeeBps then
      okOr (mulDivCeil amount m₁.borrowFeeBps BPS_DENOMINATOR) .mathOverflow
    else pure 0)
  let d ← okOr (SupplyTransition.borrow m₁.aggRecordedDebt m₁.unmintedInterest amount fee)
    .mathOverflow
  let newDebt ← okOr (checkedAdd 128 p₁.recordedDebt d.debtDelta) .mathOverflow
  require (isHealthy p₁.ink newDebt m₁.spot m₁.mcrBps) .belowMinCollateralRatio
  require (m₁.minDebt = 0 ∨ m₁.minDebt ≤ newDebt) .debtBelowMinimum
  require (d.newAgg ≤ m₁.debtCeiling) .debtCeilingExceeded
  (if 0 < m₁.ccrBps then
    require (tcrBelow m₁.totalCollateral d.newAgg m₁.spot m₁.ccrBps = false) .ccrRestricted
  else pure ())
  let m₂ ← (if 0 < m₁.rlCap then do
      let rlAccrued ← okOr (ratelimitConsume m₁.rlAccrued m₁.rlLastUpdate now m₁.rlCap
        RATELIMIT_WINDOW_SECS amount) .rateLimitExceeded
      pure { m₁ with rlAccrued, rlLastUpdate := now }
    else pure m₁)
  let p₂ := { p₁ with recordedDebt := newDebt }
  let m₃ := { m₂ with aggRecordedDebt := d.newAgg, unmintedInterest := d.newUnminted }
  let m₄ ← reweight m₃ p₂ oldWeighted
  let (m₅, p₃) ← setStake m₄ p₂
  let fusd ← tokenCall (a.fusd.mintTo (.wallet owner) amount)
  let (bitmap, p₄) ← reconcile a.state.bitmap m₅ p₃ artBefore
  pure { a with
    state := { a.state with
      market := m₅
      bitmap
      positions := a.state.positions.insert owner p₄
      tally := (a.state.tally.book a.state.market m₁).realized 1 }
    fusd }

def repay (clk : Clock) (owner : Pubkey) (amount : ℕ) (a : Accounts) :
    Except ProgramError Accounts := do
  let p ← okOr (a.state.positions.lookup owner) .accountNotInitialized
  require (0 < amount) .zeroAmount
  let now := clk.unixTimestamp
  let artBefore := p.recordedDebt
  let oldWeighted ← weighted p
  let m₁ ← accrue a.state.market now
  let p₁ ← realize m₁ p now
  let tally := (a.state.tally.book a.state.market m₁).realized 1
  if p₁.recordedDebt = 0 then do
    -- the folded collateral still has to enter the stake
    let (m₂, p₂) ← setStake m₁ p₁
    pure { a with
      state := { a.state with
        market := m₂
        positions := a.state.positions.insert owner p₂
        tally } }
  else do
    let d ← okOr (SupplyTransition.repay m₁.aggRecordedDebt p₁.recordedDebt amount)
      .mathOverflow
    let repayAmount := truncate 64 d.burn
    require (m₁.minDebt = 0 ∨ d.newPositionDebt = 0 ∨ m₁.minDebt ≤ d.newPositionDebt)
      .debtBelowMinimum
    let fusd ← tokenCall (a.fusd.burn (.wallet owner) repayAmount)
    let p₂ := { p₁ with recordedDebt := d.newPositionDebt }
    let m₂ := { m₁ with aggRecordedDebt := d.newAgg }
    let m₃ ← reweight m₂ p₂ oldWeighted
    let (m₄, p₃) ← setStake m₃ p₂
    let m₅ := m₄.restoreOutflow now repayAmount
    let (bitmap, p₄) ← reconcile a.state.bitmap m₅ p₃ artBefore
    pure { a with
      state := { a.state with
        market := m₅
        bitmap
        positions := a.state.positions.insert owner p₄
        tally }
      fusd }

def adjustRate (clk : Clock) (owner : Pubkey) (newRateBps : ℕ) (a : Accounts) :
    Except ProgramError Accounts := do
  let p ← okOr (a.state.positions.lookup owner) .accountNotInitialized
  require (a.state.market.shutdown = false) .marketShutdown
  require (MIN_USER_RATE_BPS ≤ newRateBps ∧ newRateBps ≤ MAX_USER_RATE_BPS)
    .interestRateOutOfBounds
  let now := clk.unixTimestamp
  let artBefore := p.recordedDebt
  let oldWeighted ← weighted p
  let m₁ ← accrue a.state.market now
  let p₁ ← realize m₁ p now
  let cooldown := m₁.rateAdjustCooldownSecs
  let withinCooldown := 0 < cooldown ∧ now < min (p₁.lastRateAdjustTs + cooldown) (2 ^ 63 - 1)
  let (m₂, p₂) ← (if withinCooldown ∧ 0 < p₁.recordedDebt then do
      let fee ← okOr (prematureAdjustmentFee p₁.recordedDebt newRateBps cooldown)
        .mathOverflow
      let recordedDebt ← okOr (checkedAdd 128 p₁.recordedDebt fee) .mathOverflow
      let d ← okOr (SupplyTransition.bookInterest m₁.aggRecordedDebt m₁.unmintedInterest fee)
        .mathOverflow
      require (0 < m₁.spot) .oracleUnavailable
      require (m₁.fresh clk.slot) .stalePrice
      require (isHealthy p₁.ink recordedDebt m₁.spot m₁.mcrBps) .belowMinCollateralRatio
      (if 0 < m₁.ccrBps ∧ m₁.shutdown = false then
        require (tcrBelow m₁.totalCollateral d.newAgg m₁.spot m₁.ccrBps = false)
          .ccrRestricted
      else pure ())
      pure ({ m₁ with aggRecordedDebt := d.newAgg, unmintedInterest := d.newUnminted },
        { p₁ with recordedDebt })
    else pure (m₁, p₁))
  let p₃ := { p₂ with lastRateAdjustTs := now, userRateBps := newRateBps }
  let m₃ ← reweight m₂ p₃ oldWeighted
  let (m₄, p₄) ← setStake m₃ p₃
  let (bitmap, p₅) ← reconcile a.state.bitmap m₄ p₄ artBefore
  pure { a with
    state := { a.state with
      market := m₄
      bitmap
      positions := a.state.positions.insert owner p₅
      tally := (a.state.tally.book a.state.market m₁).realized 1 } }

def claimCollSurplusUnchecked (owner : Pubkey) (a : Accounts) : Except ProgramError Accounts := do
  let p ← okOr (a.state.positions.lookup owner) .accountNotInitialized
  let amount := p.collSurplus
  require (0 < amount) .noCollateralSurplus
  let coll ← tokenCall (a.state.coll.transfer .vault (.wallet owner) amount)
  let totalCollSurplus ← okOr (checkedSub a.state.market.totalCollSurplus amount) .mathOverflow
  let m := { a.state.market with totalCollSurplus }
  pure { a with
    state := { a.state with
      market := m
      positions := a.state.positions.insert owner { p with collSurplus := 0 }
      coll } }

def claimCollSurplus (owner : Pubkey) (a : Accounts) : Except ProgramError Accounts :=
  vaultChecked (claimCollSurplusUnchecked owner a)

/-! ## A handler step by step -/

/-- What a handler that touches the position of `owner` has read and computed, under the names of
the handlers.  It accrues the market, folds the position and makes its own `change`; the weight,
the stake and the bucket of the position follow. -/
structure Visit (clk : Clock) (owner : Pubkey) (a : Accounts)
    (change : Market → Position → Market × Position) where
  p : Position
  m₁ : Market
  p₁ : Position
  sum : ℕ
  total : ℕ
  stake : ℕ
  bitmap : RedemptionBitmap
  label : ℕ
  position_eq : a.state.positions.lookup owner = some p
  accrue_eq : accrue a.state.market clk.unixTimestamp = .ok m₁
  realize_eq : realize m₁ p clk.unixTimestamp = .ok p₁
  weights : sum + weightOf p = (change m₁ p₁).1.aggWeightedDebtSum + weightOf (change m₁ p₁).2 ∧
    sum < 2 ^ 128
  setStake_eq : setStake { (change m₁ p₁).1 with aggWeightedDebtSum := sum } (change m₁ p₁).2 =
    .ok ({ (change m₁ p₁).1 with aggWeightedDebtSum := sum, totalStakes := total },
      { (change m₁ p₁).2 with stake := stake })
  reconcile_eq : ∃ m q,
    reconcile a.state.bitmap m q p.recordedDebt = .ok (bitmap, { q with bucket := label }) ∧
      q.recordedDebt = (change m₁ p₁).2.recordedDebt ∧ q.bucket = (change m₁ p₁).2.bucket

namespace Visit

variable {clk : Clock} {owner : Pubkey} {a : Accounts}
  {change : Market → Position → Market × Position} (v : Visit clk owner a change)

def market : Market :=
  { (change v.m₁ v.p₁).1 with aggWeightedDebtSum := v.sum, totalStakes := v.total }

def position : Position :=
  { (change v.m₁ v.p₁).2 with stake := v.stake, bucket := v.label }

def state : MarketState :=
  { a.state with
    market := v.market
    bitmap := v.bitmap
    positions := a.state.positions.insert owner v.position
    tally := (a.state.tally.book a.state.market v.m₁).realized 1 }

theorem touch (hi : Inv clk.unixTimestamp a)
    (hc : Change v.m₁ (change v.m₁ v.p₁).1 v.p₁ (change v.m₁ v.p₁).2)
    (hbucket : (change v.m₁ v.p₁).2.bucket = v.p₁.bucket) :
    Touch 1 v.m₁ v.market v.p v.position v.p₁.recordedDebt v.p₁.ink ∧
      Relabel a.state.bitmap v.bitmap v.p v.position := by
  obtain ⟨x, ts, hacc⟩ := accrue_spec hi.book.clock v.accrue_eq
  have hreal := realize_spec hacc.realizable v.realize_eq
  obtain ⟨ht, -⟩ := touch_of_folded (hi.book.accrue hacc).snapshot_le hreal.folded hc v.weights
    v.setStake_eq
  obtain ⟨m, q, hrec, hdebt, hq⟩ := v.reconcile_eq
  obtain ⟨-, hrel⟩ := relabel_of_reconcile hrec (hq.trans (hbucket.trans hreal.bucket))
    (hi.book.label owner v.p v.position_eq)
  refine ⟨{ ht with }, ?_, hrel.coupled, ?_⟩
  · simp only [position, ← hdebt]
    exact hrel.size
  · simp only [position, ← hdebt]
    exact hrel.label

end Visit

def deposited (amount : ℕ) (m : Market) (p : Position) : Market × Position :=
  ({ m with totalCollateral := m.totalCollateral + amount }, p.setInk (p.ink + amount))

structure DepositRun (clk : Clock) (owner : Pubkey) (amount : ℕ) (a : Accounts) where
  visit : Visit clk owner a (deposited amount)
  coll : TokenLedger CollHolder
  transfer_eq : a.state.coll.transfer (.wallet owner) .vault amount = .ok coll

def withdrawn (amount : ℕ) (m : Market) (p : Position) : Market × Position :=
  ({ m with totalCollateral := m.totalCollateral - amount }, p.setInk (p.ink - amount))

structure WithdrawRun (clk : Clock) (owner : Pubkey) (amount : ℕ) (a : Accounts) where
  visit : Visit clk owner a (withdrawn amount)
  coll : TokenLedger CollHolder
  amount_le : amount ≤ visit.p₁.ink ∧ amount ≤ visit.m₁.totalCollateral
  tested : 0 < visit.p₁.recordedDebt → 0 < visit.m₁.spot ∧ visit.m₁.fresh clk.slot ∧
    isHealthy (visit.p₁.ink - amount) visit.p₁.recordedDebt visit.m₁.spot visit.m₁.mcrBps = true
  transfer_eq : a.state.coll.transfer .vault (.wallet owner) amount = .ok coll

def borrowed (amount fee rlAccrued rlLastUpdate : ℕ) (m : Market) (p : Position) :
    Market × Position :=
  ({ m with
      rlAccrued
      rlLastUpdate
      aggRecordedDebt := m.aggRecordedDebt + (amount + fee)
      unmintedInterest := m.unmintedInterest + fee },
    { p with recordedDebt := p.recordedDebt + (amount + fee) })

structure BorrowRun (clk : Clock) (owner : Pubkey) (amount : ℕ) (a : Accounts) where
  fee : ℕ
  rlAccrued : ℕ
  rlLastUpdate : ℕ
  visit : Visit clk owner a (borrowed amount fee rlAccrued rlLastUpdate)
  fusd : TokenLedger FusdHolder
  amount_pos : 0 < amount
  opened : visit.m₁.shutdown = false
  ready : visit.m₁.liqInfraFlags.ready = true
  priced : 0 < visit.m₁.spot
  fresh : visit.m₁.fresh clk.slot
  debt_lt : visit.p₁.recordedDebt + (amount + fee) < 2 ^ 128
  healthy : isHealthy visit.p₁.ink (visit.p₁.recordedDebt + (amount + fee)) visit.m₁.spot
    visit.m₁.mcrBps = true
  limiter_eq : ratelimitConsume visit.m₁.rlAccrued visit.m₁.rlLastUpdate clk.unixTimestamp
      visit.m₁.rlCap RATELIMIT_WINDOW_SECS amount = some rlAccrued ∧
        rlLastUpdate = clk.unixTimestamp ∨
    visit.m₁.rlCap = 0 ∧ rlAccrued = visit.m₁.rlAccrued ∧ rlLastUpdate = visit.m₁.rlLastUpdate
  mintTo_eq : a.fusd.mintTo (.wallet owner) amount = .ok fusd

def repaid (amount : ℕ) (m : Market) (p : Position) : Market × Position :=
  ({ m with aggRecordedDebt := m.aggRecordedDebt - min amount p.recordedDebt },
    { p with recordedDebt := p.recordedDebt - min amount p.recordedDebt })

structure RepayRun (clk : Clock) (owner : Pubkey) (amount : ℕ) (a : Accounts) where
  visit : Visit clk owner a (repaid amount)
  fusd : TokenLedger FusdHolder
  paid_le : min amount visit.p₁.recordedDebt ≤ visit.m₁.aggRecordedDebt
  burn_eq : a.fusd.burn (.wallet owner) (truncate 64 (min amount visit.p₁.recordedDebt)) = .ok fusd

/-- A repayment that finds no debt: the folded collateral enters the stake. -/
structure RestakeRun (clk : Clock) (owner : Pubkey) (a : Accounts) where
  p : Position
  m₁ : Market
  p₁ : Position
  total : ℕ
  stake : ℕ
  position_eq : a.state.positions.lookup owner = some p
  accrue_eq : accrue a.state.market clk.unixTimestamp = .ok m₁
  realize_eq : realize m₁ p clk.unixTimestamp = .ok p₁
  debtless : p₁.recordedDebt = 0
  setStake_eq : setStake m₁ p₁ =
    .ok ({ m₁ with totalStakes := total }, { p₁ with stake := stake })

def readjusted (now newRateBps fee : ℕ) (m : Market) (p : Position) : Market × Position :=
  ({ m with
      aggRecordedDebt := m.aggRecordedDebt + fee
      unmintedInterest := m.unmintedInterest + fee },
    { p with
      recordedDebt := p.recordedDebt + fee
      lastRateAdjustTs := now
      userRateBps := newRateBps })

/-- Within the cooldown a fee joins the debt, the aggregate and the unminted interest, and the
position is tested with it. -/
structure AdjustRun (clk : Clock) (owner : Pubkey) (newRateBps : ℕ) (a : Accounts) where
  fee : ℕ
  visit : Visit clk owner a (readjusted clk.unixTimestamp newRateBps fee)
  opened : a.state.market.shutdown = false
  charged : 0 < fee → 0 < visit.p₁.recordedDebt ∧ visit.p₁.recordedDebt + fee < 2 ^ 128 ∧
    0 < visit.m₁.spot ∧ visit.m₁.fresh clk.slot ∧
    isHealthy visit.p₁.ink (visit.p₁.recordedDebt + fee) visit.m₁.spot visit.m₁.mcrBps = true

section Runs

variable {clk : Clock} {owner : Pubkey} {amount : ℕ} {a a' : Accounts}

def DepositRun.result (run : DepositRun clk owner amount a) : Accounts :=
  { a with
    state := { run.visit.state with
      positions := a.state.positions.insert owner { run.visit.position with
        reserveLamports :=
          if run.visit.position.reserveLamports < run.visit.market.reserveLamports then
            run.visit.market.reserveLamports
          else run.visit.position.reserveLamports }
      coll := run.coll } }

def WithdrawRun.result (run : WithdrawRun clk owner amount a) : Accounts :=
  { a with state := { run.visit.state with coll := run.coll } }

def BorrowRun.result (run : BorrowRun clk owner amount a) : Accounts :=
  { a with state := run.visit.state, fusd := run.fusd }

def RepayRun.result (run : RepayRun clk owner amount a) : Accounts :=
  { a with
    state := { run.visit.state with
      market := run.visit.market.restoreOutflow clk.unixTimestamp
        (truncate 64 (min amount run.visit.p₁.recordedDebt)) }
    fusd := run.fusd }

def RestakeRun.result (run : RestakeRun clk owner a) : Accounts :=
  { a with
    state := { a.state with
      market := { run.m₁ with totalStakes := run.total }
      positions := a.state.positions.insert owner { run.p₁ with stake := run.stake }
      tally := (a.state.tally.book a.state.market run.m₁).realized 1 } }

def AdjustRun.result {newRateBps : ℕ} (run : AdjustRun clk owner newRateBps a) : Accounts :=
  { a with state := run.visit.state }

theorem exists_depositRun (h : depositUnchecked clk owner amount a = .ok a') :
    ∃ run : DepositRun clk owner amount a, run.result = a' := by
  simp only [depositUnchecked, bind_eq_ok_iff, okOr_eq_ok, require_eq_ok, tokenCall_eq_ok,
    weighted_eq_ok, checkedAdd_eq_some, pure_eq_ok, Prod.exists, exists_const] at h
  obtain ⟨p, hp, -, -, ⟨-, rfl⟩, coll, hcoll, m₁, hm₁, p₁, hp₁, _, ⟨-, rfl⟩, _, ⟨-, rfl⟩, m₃,
    hm₃, m₄, p₃, hs, bm, p₅, hrec, rfl⟩ := h
  obtain ⟨sum, hsum, rfl⟩ := reweight_spec hm₃
  obtain ⟨stake, total, -, -, -, -, rfl, rfl⟩ := setStake_spec hs
  obtain ⟨label, rfl⟩ := reconcile_position hrec
  exact ⟨⟨⟨p, m₁, p₁, sum, total, stake, bm, label, hp, hm₁, hp₁, hsum, hs,
    ⟨_, _, hrec, rfl, rfl⟩⟩, coll, hcoll⟩, rfl⟩

theorem exists_withdrawRun (h : withdrawUnchecked clk owner amount a = .ok a') :
    ∃ run : WithdrawRun clk owner amount a, run.result = a' := by
  simp only [withdrawUnchecked, bind_eq_ok_iff, okOr_eq_ok, require_eq_ok, tokenCall_eq_ok,
    weighted_eq_ok, checkedSub_eq_some, pure_eq_ok, Prod.exists, exists_const] at h
  obtain ⟨p, hp, -, -, ⟨-, rfl⟩, m₁, hm₁, p₁, hp₁, hle, _, htest, -, -, coll, hcoll, _,
    ⟨hle', rfl⟩, m₃, hm₃, m₄, p₃, hs, bm, p₄, hrec, rfl⟩ := h
  obtain ⟨sum, hsum, rfl⟩ := reweight_spec hm₃
  obtain ⟨stake, total, -, -, -, -, rfl, rfl⟩ := setStake_spec hs
  obtain ⟨label, rfl⟩ := reconcile_position hrec
  have htested : 0 < p₁.recordedDebt → 0 < m₁.spot ∧ m₁.fresh clk.slot ∧
      isHealthy (p₁.ink - amount) p₁.recordedDebt m₁.spot m₁.mcrBps = true := by
    intro hdebt
    rw [if_pos hdebt] at htest
    simpa only [bind_eq_ok_iff, require_eq_ok, exists_const] using htest
  exact ⟨⟨⟨p, m₁, p₁, sum, total, stake, bm, label, hp, hm₁, hp₁, hsum, hs,
    ⟨_, _, hrec, rfl, rfl⟩⟩, coll, ⟨hle, hle'⟩, htested, hcoll⟩, rfl⟩

theorem borrow_run (h : borrow clk owner amount a = .ok a') :
    ∃ run : BorrowRun clk owner amount a, run.result = a' := by
  simp only [borrow, bind_eq_ok_iff, okOr_eq_ok, require_eq_ok, tokenCall_eq_ok,
    weighted_eq_ok, checkedAdd_eq_some, SupplyTransition.borrow_eq_some, pure_eq_ok, Prod.exists,
    exists_const] at h
  obtain ⟨p, hp, hamount, _, ⟨-, rfl⟩, m₁, hm₁, p₁, hp₁, hopen, hready, hspot, -, -, hfresh, fee,
    -, _, ⟨-, -, -, rfl⟩, _, ⟨hfit, rfl⟩, hhealthy, -, -, -, -, m₂, hm₂, m₄, hm₄, m₅, p₃, hs, fusd,
    hfusd, bm, p₄, hrec, rfl⟩ := h
  obtain ⟨rlAccrued, rlLastUpdate, rfl, hlimiter⟩ : ∃ rlAccrued rlLastUpdate,
      m₂ = { m₁ with rlAccrued := rlAccrued, rlLastUpdate := rlLastUpdate } ∧
      (ratelimitConsume m₁.rlAccrued m₁.rlLastUpdate clk.unixTimestamp m₁.rlCap
          RATELIMIT_WINDOW_SECS amount = some rlAccrued ∧ rlLastUpdate = clk.unixTimestamp ∨
        m₁.rlCap = 0 ∧ rlAccrued = m₁.rlAccrued ∧ rlLastUpdate = m₁.rlLastUpdate) := by
    rcases ite_eq_ok.mp hm₂ with ⟨-, hm₂⟩ | ⟨hoff, hm₂⟩
    · simp only [bind_eq_ok_iff, okOr_eq_ok, pure_eq_ok] at hm₂
      obtain ⟨rlAccrued, hconsume, rfl⟩ := hm₂
      exact ⟨rlAccrued, _, rfl, .inl ⟨hconsume, rfl⟩⟩
    · exact ⟨_, _, (pure_eq_ok.mp hm₂).symm, .inr ⟨Nat.eq_zero_of_not_pos hoff, rfl, rfl⟩⟩
  obtain ⟨sum, hsum, rfl⟩ := reweight_spec hm₄
  obtain ⟨stake, total, -, -, -, -, rfl, rfl⟩ := setStake_spec hs
  obtain ⟨label, rfl⟩ := reconcile_position hrec
  exact ⟨⟨fee, rlAccrued, rlLastUpdate, ⟨p, m₁, p₁, sum, total, stake, bm, label, hp, hm₁, hp₁,
    hsum, hs, ⟨_, _, hrec, rfl, rfl⟩⟩, fusd, hamount, hopen, hready, hspot, hfresh, hfit,
    hhealthy, hlimiter, hfusd⟩, rfl⟩

theorem repay_run (h : repay clk owner amount a = .ok a') :
    (∃ run : RestakeRun clk owner a, run.result = a') ∨
      ∃ run : RepayRun clk owner amount a, run.result = a' := by
  simp only [repay, bind_eq_ok_iff, okOr_eq_ok, require_eq_ok, weighted_eq_ok, ite_eq_ok,
    exists_const] at h
  obtain ⟨p, hp, -, -, ⟨-, rfl⟩, m₁, hm₁, p₁, hp₁, ⟨hzero, h⟩ | ⟨-, h⟩⟩ := h
  · simp only [Prod.exists, pure_eq_ok] at h
    obtain ⟨m₂, p₂, hs, rfl⟩ := h
    obtain ⟨stake, total, -, -, -, -, rfl, rfl⟩ := setStake_spec hs
    exact .inl ⟨⟨p, m₁, p₁, total, stake, hp, hm₁, hp₁, hzero, hs⟩, rfl⟩
  · simp only [tokenCall_eq_ok, SupplyTransition.repay_eq_some, pure_eq_ok, Prod.exists] at h
    obtain ⟨_, ⟨hle, rfl⟩, -, fusd, hburn, m₃, hm₃, m₄, p₃, hs, bm, p₄, hrec, rfl⟩ := h
    obtain ⟨sum, hsum, rfl⟩ := reweight_spec hm₃
    obtain ⟨stake, total, -, -, -, -, rfl, rfl⟩ := setStake_spec hs
    obtain ⟨label, rfl⟩ := reconcile_position hrec
    exact .inr ⟨⟨⟨p, m₁, p₁, sum, total, stake, bm, label, hp, hm₁, hp₁, hsum, hs,
      ⟨_, _, hrec, rfl, rfl⟩⟩, fusd, hle, hburn⟩, rfl⟩

theorem adjustRate_run {newRateBps : ℕ} (h : adjustRate clk owner newRateBps a = .ok a') :
    ∃ run : AdjustRun clk owner newRateBps a, run.result = a' := by
  simp only [adjustRate, bind_eq_ok_iff, okOr_eq_ok, require_eq_ok, weighted_eq_ok, pure_eq_ok,
    Prod.exists, exists_const] at h
  obtain ⟨p, hp, hopen, -, -, ⟨-, rfl⟩, m₁, hm₁, p₁, hp₁, m₂, p₂, hfee, m₃, hm₃, m₄, p₄, hs, bm,
    p₅, hrec, rfl⟩ := h
  obtain ⟨fee, rfl, rfl, hcharged⟩ : ∃ fee,
      m₂ = { m₁ with
        aggRecordedDebt := m₁.aggRecordedDebt + fee
        unmintedInterest := m₁.unmintedInterest + fee } ∧
      p₂ = { p₁ with recordedDebt := p₁.recordedDebt + fee } ∧
      (0 < fee → 0 < p₁.recordedDebt ∧ p₁.recordedDebt + fee < 2 ^ 128 ∧ 0 < m₁.spot ∧
        m₁.fresh clk.slot ∧
        isHealthy p₁.ink (p₁.recordedDebt + fee) m₁.spot m₁.mcrBps = true) := by
    rcases ite_eq_ok.mp hfee with ⟨⟨-, hpos⟩, hfee⟩ | ⟨-, hfee⟩
    · simp only [bind_eq_ok_iff, okOr_eq_ok, require_eq_ok, checkedAdd_eq_some,
        SupplyTransition.bookInterest_eq_some, pure_eq_ok, Prod.mk.injEq, exists_const] at hfee
      obtain ⟨fee, -, _, ⟨hfit, rfl⟩, _, ⟨-, -, rfl⟩, hspot, hfresh, hhealthy, -, -, rfl, rfl⟩ :=
        hfee
      exact ⟨fee, rfl, rfl, fun _ ↦ ⟨hpos, hfit, hspot, hfresh, hhealthy⟩⟩
    · cases hfee
      exact ⟨0, rfl, rfl, fun h ↦ absurd h (lt_irrefl 0)⟩
  obtain ⟨sum, hsum, rfl⟩ := reweight_spec hm₃
  obtain ⟨stake, total, -, -, -, -, rfl, rfl⟩ := setStake_spec hs
  obtain ⟨label, rfl⟩ := reconcile_position hrec
  exact ⟨⟨fee, ⟨p, m₁, p₁, sum, total, stake, bm, label, hp, hm₁, hp₁, hsum, hs,
    ⟨_, _, hrec, rfl, rfl⟩⟩, hopen, hcharged⟩, rfl⟩

end Runs

/-! ## Effects -/

section Effects

variable {clk : Clock} {owner : Pubkey} {amount : ℕ} {a a' : Accounts}

theorem openPosition_effect {userRateBps : ℕ} (hi : Inv clk.unixTimestamp a)
    (h : openPosition clk owner userRateBps a = .ok a') : Effect clk.unixTimestamp a a' := by
  simp only [openPosition, bind_eq_ok_iff, require_eq_ok, pure_eq_ok, exists_const] at h
  obtain ⟨hnone, -, rfl⟩ := h
  exact
    { inv :=
        { hi with
          book := hi.book.of_empty ⟨rfl, rfl, rfl, rfl⟩
            (fun f hf ↦ by rw [Table.total_insert_of_none f _ hnone, hf, Nat.add_zero])
            (fun P hP hq ↦ hP.insert hq) }
      mint := rfl
      supply := rfl
      spares := Spares.refl _ _
      reactor := .keep _
      ink := by
        refine InkMove.at_owner ?_ fun o ho ↦ AList.lookup_insert_ne ho
        rw [hnone, AList.lookup_insert]
        exact .opened rfl (Nat.two_pow_pos 64) }

theorem closePosition_effect (hi : Inv clk.unixTimestamp a)
    (h : closePosition owner a = .ok a') : Effect clk.unixTimestamp a a' := by
  simp only [closePosition, bind_eq_ok_iff, okOr_eq_ok, require_eq_ok, pure_eq_ok,
    exists_const] at h
  obtain ⟨p, hp, hd, hink, hsur, rfl⟩ := h
  -- without collateral there is no stake that redistributed debt could still reach
  have hstake : p.stake = 0 := by
    have := hi.book.stake_le owner p hp
    omega
  exact
    { inv :=
        { hi with
          book := hi.book.of_empty ⟨hd, hink, hstake, hsur⟩
            (fun f hf ↦ by rw [← Table.total_erase f hp, hf, Nat.add_zero])
            (fun P hP _ ↦ hP.erase owner) }
      mint := rfl
      supply := rfl
      spares := Spares.refl _ _
      reactor := .keep _
      ink := by
        refine InkMove.at_owner ?_ fun o ho ↦ AList.lookup_erase_ne ho
        rw [hp, AList.lookup_erase]
        exact .closed hink }

theorem depositUnchecked_effect (hi : Inv clk.unixTimestamp a)
    (h : depositUnchecked clk owner amount a = .ok a') : Effect clk.unixTimestamp a a' := by
  obtain ⟨run, rfl⟩ := exists_depositRun h
  obtain ⟨x, ts, hacc⟩ := accrue_spec hi.book.clock run.visit.accrue_eq
  have hvault := TokenLedger.transfer_balance run.transfer_eq .vault
  obtain ⟨ht, hrel⟩ := run.visit.touch hi (by
    constructor <;> simp [deposited, redistState, snapshotOf]
    omega) (Position.setInk_bucket _ _)
  refine Effect.of_touch hi hacc run.visit.position_eq { ht with } { hrel with } rfl ?_ rfl
    (Spares.refl _ _)
  simp only [Visit.state, Visit.market, deposited, tracked, if_true, reduceCtorEq,
    if_false] at hvault ⊢
  omega

theorem deposit_effect (hi : Inv clk.unixTimestamp a)
    (h : deposit clk owner amount a = .ok a') : Effect clk.unixTimestamp a a' :=
  depositUnchecked_effect hi (of_vaultChecked h)

theorem withdrawUnchecked_effect (hi : Inv clk.unixTimestamp a)
    (h : withdrawUnchecked clk owner amount a = .ok a') : Effect clk.unixTimestamp a a' := by
  obtain ⟨run, rfl⟩ := exists_withdrawRun h
  obtain ⟨x, ts, hacc⟩ := accrue_spec hi.book.clock run.visit.accrue_eq
  obtain ⟨hle, hle'⟩ := run.amount_le
  have hvault := TokenLedger.transfer_balance run.transfer_eq .vault
  obtain ⟨ht, hrel⟩ := run.visit.touch hi (by
    constructor <;> simp [withdrawn, redistState, snapshotOf]
    omega) (Position.setInk_bucket _ _)
  refine Effect.of_touch hi hacc run.visit.position_eq ht hrel rfl ?_ rfl (Spares.refl _ _)
  simp only [Visit.state, Visit.market, withdrawn, tracked, if_true, reduceCtorEq,
    if_false] at hvault ⊢
  omega

theorem withdraw_effect (hi : Inv clk.unixTimestamp a)
    (h : withdraw clk owner amount a = .ok a') : Effect clk.unixTimestamp a a' :=
  withdrawUnchecked_effect hi (of_vaultChecked h)

theorem borrow_effect (hi : Inv clk.unixTimestamp a)
    (h : borrow clk owner amount a = .ok a') : Effect clk.unixTimestamp a a' := by
  obtain ⟨run, rfl⟩ := borrow_run h
  obtain ⟨x, ts, hacc⟩ := accrue_spec hi.book.clock run.visit.accrue_eq
  obtain ⟨ht, hrel⟩ := run.visit.touch hi (by
    constructor <;> simp [borrowed, redistState, snapshotOf]
    omega) rfl
  refine Effect.of_touch hi hacc run.visit.position_eq ht hrel rfl rfl ?_
    (Spares.of_mintTo run.mintTo_eq)
  rw [TokenLedger.mintTo_supply run.mintTo_eq]
  simp only [Visit.market, borrowed, net]
  push_cast
  ring

theorem repay_effect (hamount : amount < 2 ^ 64) (hi : Inv clk.unixTimestamp a)
    (h : repay clk owner amount a = .ok a') : Effect clk.unixTimestamp a a' := by
  rcases repay_run h with ⟨run, rfl⟩ | ⟨run, rfl⟩
  · obtain ⟨x, ts, hacc⟩ := accrue_spec hi.book.clock run.accrue_eq
    have hreal := realize_spec hacc.realizable run.realize_eq
    have hzero := run.debtless
    -- a debtless position: the fold can only have added collateral
    have hp0 : run.p.recordedDebt = 0 := by
      have := hreal.recordedDebt
      omega
    have hc : Change run.m₁ run.m₁ run.p₁ run.p₁ := by constructor <;> rfl
    obtain ⟨ht, -⟩ := touch_of_folded (hi.book.accrue hacc).snapshot_le hreal.folded hc
      ⟨by simp [weightOf, hzero, hp0], (hi.book.accrue hacc).weights_lt⟩ run.setStake_eq
    exact Effect.of_touch hi hacc run.position_eq ht
      (Relabel.refl (by simp [hzero, hp0]) hreal.bucket (hi.book.label owner run.p run.position_eq))
      rfl rfl rfl (Spares.refl _ _)
  · obtain ⟨x, ts, hacc⟩ := accrue_spec hi.book.clock run.visit.accrue_eq
    have hle := run.paid_le
    have hburn := run.burn_eq
    obtain ⟨ht, hrel⟩ := run.visit.touch hi (by
      constructor <;> simp [repaid, redistState, snapshotOf]
      omega) rfl
    rw [truncate_of_lt ((min_le_left _ _).trans_lt hamount)] at hburn
    have hsupply := TokenLedger.burn_supply hburn
    obtain ⟨rlAccrued, rlLastUpdate, hrestored⟩ := run.visit.market.restoreOutflow_eq
      clk.unixTimestamp (truncate 64 (min amount run.visit.p₁.recordedDebt))
    rw [RepayRun.result, hrestored]
    refine Effect.of_touch hi hacc run.visit.position_eq { ht with } hrel rfl rfl ?_
      (Spares.of_burn hburn fun k _ ↦ by simp)
    simp only [Visit.market, repaid, net]
    omega

theorem adjustRate_effect {newRateBps : ℕ} (hi : Inv clk.unixTimestamp a)
    (h : adjustRate clk owner newRateBps a = .ok a') : Effect clk.unixTimestamp a a' := by
  obtain ⟨run, rfl⟩ := adjustRate_run h
  obtain ⟨x, ts, hacc⟩ := accrue_spec hi.book.clock run.visit.accrue_eq
  obtain ⟨ht, hrel⟩ := run.visit.touch hi (by
    constructor <;> simp [readjusted, redistState, snapshotOf]
    omega) rfl
  refine Effect.of_touch hi hacc run.visit.position_eq ht hrel rfl rfl ?_ (Spares.refl _ _)
  simp only [Visit.market, readjusted, net]
  push_cast
  ring

theorem claimCollSurplusUnchecked_effect (hi : Inv clk.unixTimestamp a)
    (h : claimCollSurplusUnchecked owner a = .ok a') : Effect clk.unixTimestamp a a' := by
  simp only [claimCollSurplusUnchecked, bind_eq_ok_iff, okOr_eq_ok, require_eq_ok, tokenCall_eq_ok,
    checkedSub_eq_some, pure_eq_ok, exists_const] at h
  obtain ⟨p, hp, -, coll, hcoll, _, ⟨hle, rfl⟩, rfl⟩ := h
  have hvault := TokenLedger.transfer_balance hcoll .vault
  exact
    { inv :=
        { hi with
          book := hi.book.claim hp
          vault := by
            have := hi.vault
            simp only [tracked, if_true, reduceCtorEq, if_false] at this hvault ⊢
            omega }
      mint := rfl
      supply := rfl
      spares := Spares.refl _ _
      reactor := .keep _
      ink := fun o ↦ .stay ((Advance.refl _).insert (q := { p with collSurplus := 0 }) hp
        (Position.advances_of_eq rfl rfl) o) }

theorem claimCollSurplus_effect (hi : Inv clk.unixTimestamp a)
    (h : claimCollSurplus owner a = .ok a') : Effect clk.unixTimestamp a a' :=
  claimCollSurplusUnchecked_effect hi (of_vaultChecked h)

end Effects

end FusionCore
