import FusionCore.Core.Positions
import FusionCore.Core.Reactor

/-!
# Liquidation

The debt of a position below its minimum ratio runs through the loss waterfall: Reactor
Pool, redistribution to the other positions, insurance buffer, global backstop, and bad
debt that shuts the market down.  The seized collateral follows the debt.
-/

namespace FusionCore

open Checked

/-- What a market may draw from the global backstop in one liquidation. -/
def drawAvailable (reserve : GlobalBackstopReserve)
    (marketGlobalContributed marketGlobalDrawn marketDebt reserveBalance : ℕ) : ℕ :=
  let contributionArm := saturatingAdd 128 reserve.drawBaseAllowance
    (saturatingMul 128 marketGlobalContributed reserve.drawKBps / BPS_DENOMINATOR)
  let ceilingArm := saturatingMul 128 reserveBalance reserve.drawCeilingShareBps
    / BPS_DENOMINATOR
  let debtArm := saturatingMul 128 marketDebt reserve.drawDebtShareBps / BPS_DENOMINATOR
  let cap := min (min contributionArm ceilingArm) debtArm
  min (cap - marketGlobalDrawn) reserveBalance

theorem drawAvailable_le (reserve : GlobalBackstopReserve) (contributed drawn debt balance : ℕ) :
    drawAvailable reserve contributed drawn debt balance ≤ balance :=
  min_le_right _ _

/-- Tier 1: the Reactor Pool burns its share of the debt and receives its share of the
collateral. -/
def reactorTier (mint : Pubkey) (rp : ReactorPool) (coll : TokenLedger CollHolder)
    (fusd : TokenLedger FusdHolder) (offsetPresent collSp : ℕ) :
    Except ProgramError (ReactorPool × TokenLedger CollHolder × TokenLedger FusdHolder) :=
  if 0 < offsetPresent then do
    let rp ← rp.offset REACTOR_MAX_SCALES offsetPresent collSp
    let offset64 ← okOr (tryFit 64 offsetPresent) .mathOverflow
    let fusd ← tokenCall (fusd.burn (.reactorVault mint) offset64)
    let coll ← (if 0 < collSp then do
        let collSp64 ← okOr (tryFit 64 collSp) .mathOverflow
        tokenCall (coll.transfer .vault .reactorVault collSp64)
      else pure coll)
    pure (rp, coll, fusd)
  else pure (rp, coll, fusd)

/-- Tier 2: the remainder goes to the stakes of the other positions. -/
def redistTier (m : Market) (redist collR : ℕ) : Except ProgramError Market := do
  let st ← (redistribute (redistState m) m.totalStakes collR redist).mapError
    RedistError.toProgramError
  let m := writeState m st
  let totalCollateral ← okOr (checkedAdd 128 m.totalCollateral collR) .mathOverflow
  pure { m with totalCollateral }

/-- Tier 3: the insurance buffer burns its own fUSD. -/
def bufferTier (mint : Pubkey) (buf : InsuranceBuffer) (fusd : TokenLedger FusdHolder)
    (amount : ℕ) : Except ProgramError (InsuranceBuffer × TokenLedger FusdHolder) :=
  if 0 < amount then do
    let amount64 ← okOr (tryFit 64 amount) .mathOverflow
    let fusd ← tokenCall (fusd.burn (.bufferVault mint) amount64)
    let totalAbsorbed ← okOr (checkedAdd 128 buf.totalAbsorbed amount) .mathOverflow
    pure ({ buf with totalAbsorbed }, fusd)
  else pure (buf, fusd)

/-- Tier 3.5: the global backstop burns its own fUSD. -/
def backstopTier (m : Market) (bs : Option GlobalBackstopReserve) (fusd : TokenLedger FusdHolder)
    (amount : ℕ) :
    Except ProgramError (Market × Option GlobalBackstopReserve × TokenLedger FusdHolder) :=
  if 0 < amount then do
    let reserve ← okOr bs .accountNotInitialized
    let amount64 ← okOr (tryFit 64 amount) .mathOverflow
    let fusd ← tokenCall (fusd.burn .backstopVault amount64)
    let globalDrawn ← okOr (checkedAdd 128 m.globalDrawn amount) .mathOverflow
    let totalAbsorbed ← okOr (checkedAdd 128 reserve.totalAbsorbed amount) .mathOverflow
    pure ({ m with globalDrawn }, some { reserve with totalAbsorbed }, fusd)
  else pure (m, bs, fusd)

/-- Tier 4: un-homed debt shuts the market down; the first reason stays. -/
def shutdownTier (m : Market) (unhomed : ℕ) : Market :=
  if 0 < unhomed then
    { m with
      shutdown := true
      shutdownReason :=
        if m.shutdownReason = .none then .unhomedBadDebt else m.shutdownReason }
  else m

/-- What the tiers below the Reactor Pool leave. -/
structure Remainder where
  market : Market
  buffer : InsuranceBuffer
  backstop : Option GlobalBackstopReserve
  fusd : TokenLedger FusdHolder

/-- Tiers 2 to 4.  Without a redistribution recipient the collateral stays in the vault as the
protocol's own. -/
def remainderTiers (mint : Pubkey) (split : Absorption) (collR : ℕ) (r : Remainder) :
    Except ProgramError Remainder :=
  if 0 < split.redist then do
    let market ← redistTier r.market split.redist collR
    pure { r with market }
  else if 0 < split.buffer ∨ 0 < split.global ∨ 0 < split.unhomed then do
    let collR64 ← okOr (tryFit 64 collR) .mathOverflow
    let protocolCollateral ← okOr (checkedAdd 64 r.market.protocolCollateral collR64)
      .mathOverflow
    let m₁ := { r.market with protocolCollateral }
    let (buffer, fusd₁) ← bufferTier mint r.buffer r.fusd split.buffer
    let (m₂, backstop, fusd) ← backstopTier m₁ r.backstop fusd₁ split.global
    pure { market := shutdownTier m₂ split.unhomed, buffer, backstop, fusd }
  else pure r

/-- The backstop accounts, when the caller passes them. -/
def backstopAccounts (a : Accounts) (withBackstop : Bool) :
    Except ProgramError (Option GlobalBackstopReserve) :=
  if withBackstop then do
    let reserve ← okOr a.backstop .accountNotInitialized
    pure (some reserve)
  else pure none

/-- Nothing is available when the backstop accounts are omitted. -/
def globalAvailable (a : Accounts) (m : Market) (bs : Option GlobalBackstopReserve) : ℕ :=
  match bs with
  | some reserve => drawAvailable reserve m.globalContributed m.globalDrawn m.aggRecordedDebt
      (a.fusd.balance .backstopVault)
  | none => 0

/-- Write the backstop back if it was passed. -/
def storeBackstop (a : Accounts) (bs : Option GlobalBackstopReserve) :
    Option GlobalBackstopReserve :=
  bs.or a.backstop

/-- Borrower surplus of the collar: it leaves the position but stays in the vault. -/
def bookSurplus (m : Market) (p : Position) (surplusColl : ℕ) :
    Except ProgramError (Market × Position) :=
  if 0 < surplusColl then do
    let collSurplus ← okOr (checkedAdd 64 p.collSurplus surplusColl) .mathOverflow
    let totalCollSurplus ← okOr (checkedAdd 64 m.totalCollSurplus surplusColl) .mathOverflow
    pure ({ m with totalCollSurplus }, { p with collSurplus })
  else pure (m, p)

/-- A position taken out of its market: what is seized of it, and the part of that which
compensates the liquidator. -/
structure Seizure where
  market : Market
  position : Position
  seizeColl : ℕ
  gasComp : ℕ

/-- Take a position out of the aggregates, so that redistribution reaches the others only, and
apply the collar and the gas compensation to its collateral. -/
def seize (m : Market) (p : Position) : Except ProgramError Seizure := do
  let totalStakes ← okOr (checkedSub m.totalStakes p.stake) .mathOverflow
  let totalCollateral ← okOr (checkedSub m.totalCollateral p.ink) .mathOverflow
  let m₁ := { m with totalStakes, totalCollateral }
  let (seizeColl, surplusColl) ← okOr
    (seizeCollateral p.ink p.recordedDebt m.debtSpot m.liqBonusBps) .mathOverflow
  let (market, position) ← bookSurplus m₁ p surplusColl
  let scaled ← okOr (checkedMul 128 seizeColl m.liqGasCompBps) .mathOverflow
  pure { market, position, seizeColl, gasComp := scaled / BPS_DENOMINATOR }

/-- Liquidation prices against a fresh oracle, off the high price, outside both pauses. -/
def liquidationGates (m : Market) (slot : ℕ) : Except ProgramError Unit := do
  require (0 < m.spot ∧ 0 < m.debtSpot) .oracleUnavailable
  require (m.fresh slot) .stalePrice
  require (m.liqGraceUntil ≤ slot) .liquidationGracePeriod
  require (m.liqDivergenceUntil ≤ slot) .oracleDivergent

/-- The liquidator's compensation, taken from the seized collateral. -/
def payGasComp (coll : TokenLedger CollHolder) (liquidator : Pubkey) (gasComp : ℕ) :
    Except ProgramError (TokenLedger CollHolder) :=
  if 0 < gasComp then do
    let gasComp64 ← okOr (tryFit 64 gasComp) .mathOverflow
    tokenCall (coll.transfer .vault (.wallet liquidator) gasComp64)
  else pure coll

/-- The position after its liquidation; the bond has gone to the liquidator. -/
def closedOut (m : Market) (p : Position) : Position :=
  { ({ p with recordedDebt := 0 }.setInk 0) with
    stake := 0
    reserveLamports := 0
    redistLCollSnapshot := m.lColl
    redistLArtSnapshot := m.lArt }

def liquidateUnchecked (clk : Clock) (liquidator owner : Pubkey) (withBackstop : Bool)
    (a : Accounts) : Except ProgramError Accounts := do
  let p ← okOr (a.state.positions.lookup owner) .accountNotInitialized
  let rp ← okOr a.state.reactor .accountNotInitialized
  let buf ← okOr a.state.buffer .accountNotInitialized
  let bs ← backstopAccounts a withBackstop
  let now := clk.unixTimestamp
  let m₁ ← accrue a.state.market now
  liquidationGates m₁ clk.slot
  let artBefore := p.recordedDebt
  let oldWeighted ← weighted p
  let p₁ ← realize m₁ p now
  let debt := p₁.recordedDebt
  require (0 < debt) .positionHealthy
  require (isHealthy p₁.ink debt m₁.debtSpot m₁.mcrBps = false) .positionHealthy
  let z ← seize m₁ p₁
  let m₃ := z.market
  let distributable := z.seizeColl - z.gasComp
  let split := absorb debt rp.state.totalDeposits (decide (0 < m₃.totalStakes))
    (a.fusd.balance (.bufferVault a.state.mint)) (globalAvailable a m₃ bs)
  let sd ← okOr (SupplyTransition.liquidate m₃.aggRecordedDebt m₃.badDebt split.reactor
    split.redist split.buffer split.global split.unhomed) .mathOverflow
  let m₄ := { m₃ with aggRecordedDebt := sd.newAgg, badDebt := sd.newBad }
  let collSp ← okOr (mulDivFloor distributable split.reactor debt) .mathOverflow
  let collR := distributable - collSp
  let coll₁ ← payGasComp a.state.coll liquidator z.gasComp
  let (rp₁, coll₂, fusd₁) ← reactorTier a.state.mint rp coll₁ a.fusd split.reactor collSp
  let r ← remainderTiers a.state.mint split collR ⟨m₄, buf, bs, fusd₁⟩
  let m₅ := { r.market with
    totalStakesSnapshot := r.market.totalStakes
    totalCollateralSnapshot :=
      if r.market.totalStakes = 0 then 0 else r.market.totalCollateral }
  let p₃ := closedOut m₅ z.position
  let m₆ ← reweight m₅ p₃ oldWeighted
  let (bitmap, p₄) ← reconcile a.state.bitmap m₆ p₃ artBefore
  pure
    { state := { a.state with
        market := m₆
        bitmap
        positions := a.state.positions.insert owner p₄
        reactor := some rp₁
        buffer := some r.buffer
        coll := coll₂
        tally := (a.state.tally.book a.state.market m₁).realized 1 }
      fusd := r.fusd
      backstop := storeBackstop a r.backstop }

def liquidate (clk : Clock) (liquidator owner : Pubkey) (withBackstop : Bool) (a : Accounts) :
    Except ProgramError Accounts :=
  vaultChecked (liquidateUnchecked clk liquidator owner withBackstop a)

/-! ## What the tiers do -/

section Tiers

variable {mint : Pubkey} {coll coll' : TokenLedger CollHolder} {fusd fusd' : TokenLedger FusdHolder}

theorem reactorTier_spec {rp rp' : ReactorPool} {off collSp : ℕ}
    (h : reactorTier mint rp coll fusd off collSp = .ok (rp', coll', fusd'))
    (hzero : off = 0 → collSp = 0) :
    fusd'.supply + off = fusd.supply ∧
      fusd'.balance (.reactorVault mint) + off = fusd.balance (.reactorVault mint) ∧
      Spares {mint}ᶜ fusd fusd' ∧ rp'.state.totalDeposits + off = rp.state.totalDeposits ∧
      coll'.balance .vault + collSp = coll.balance .vault ∧
      PoolMove REACTOR_MAX_SCALES (some rp) (some rp') := by
  rcases ite_eq_ok.mp h with ⟨-, h⟩ | ⟨hoff, h⟩
  · simp only [bind_eq_ok_iff, okOr_eq_ok, tryFit_eq_some, tokenCall_eq_ok,
      pure_eq_ok, Prod.mk.injEq] at h
    obtain ⟨rp₁, hpool, _, ⟨-, rfl⟩, fusd₁, hburn, coll₁, hcoll, rfl, rfl, rfl⟩ := h
    have hmove : PoolMove REACTOR_MAX_SCALES (some rp) (some rp₁) :=
      .exec (.offset off collSp) _ (by simp only [Pool.exec, hpool]; rfl)
    obtain ⟨st, grid, hoffset, rfl⟩ := Pool.offset_eq_ok.mp hpool
    obtain ⟨-, hle, htotal, -⟩ := offset_spec hoffset
    have hvault : coll₁.balance .vault + collSp = coll.balance .vault := by
      rcases ite_eq_ok.mp hcoll with ⟨-, hcoll⟩ | ⟨hsp, hcoll⟩
      · simp only [bind_eq_ok_iff, okOr_eq_ok, tryFit_eq_some, tokenCall_eq_ok] at hcoll
        obtain ⟨_, ⟨-, rfl⟩, hcoll⟩ := hcoll
        simpa using TokenLedger.transfer_balance hcoll .vault
      · cases hcoll
        omega
    refine ⟨TokenLedger.burn_supply hburn, ?_, Spares.of_burn hburn ?_, by dsimp only; omega,
      hvault, hmove⟩
    · simpa using TokenLedger.burn_balance hburn (.reactorVault mint)
    · intro k hk heq
      exact hk (FusdHolder.reactorVault.inj heq).symm
  · cases h
    obtain rfl : off = 0 := Nat.eq_zero_of_not_pos hoff
    rw [hzero rfl]
    exact ⟨rfl, rfl, Spares.refl _ _, rfl, rfl, .keep _⟩

theorem bufferTier_spec {buf buf' : InsuranceBuffer} {amount : ℕ}
    (h : bufferTier mint buf fusd amount = .ok (buf', fusd')) :
    fusd'.supply + amount = fusd.supply ∧ Spares Set.univ fusd fusd' := by
  rcases ite_eq_ok.mp h with ⟨-, h⟩ | ⟨hzero, h⟩
  · simp only [bind_eq_ok_iff, okOr_eq_ok, tryFit_eq_some, tokenCall_eq_ok, pure_eq_ok,
      Prod.mk.injEq] at h
    obtain ⟨_, ⟨-, rfl⟩, fusd₁, hburn, _, -, -, rfl⟩ := h
    exact ⟨TokenLedger.burn_supply hburn, Spares.of_burn hburn fun k _ ↦ by simp⟩
  · cases h
    exact ⟨by omega, Spares.refl _ _⟩

theorem backstopTier_spec {m m' : Market} {bs bs' : Option GlobalBackstopReserve} {amount : ℕ}
    (h : backstopTier m bs fusd amount = .ok (m', bs', fusd')) :
    (∃ drawn, m' = { m with globalDrawn := drawn }) ∧ fusd'.supply + amount = fusd.supply ∧
      Spares Set.univ fusd fusd' := by
  rcases ite_eq_ok.mp h with ⟨-, h⟩ | ⟨hzero, h⟩
  · simp only [bind_eq_ok_iff, okOr_eq_ok, tryFit_eq_some, tokenCall_eq_ok, pure_eq_ok,
      Prod.mk.injEq] at h
    obtain ⟨_, -, _, ⟨-, rfl⟩, fusd₁, hburn, drawn, -, _, -, rfl, -, rfl⟩ := h
    exact ⟨⟨drawn, rfl⟩, TokenLedger.burn_supply hburn, Spares.of_burn hburn fun k _ ↦ by simp⟩
  · cases h
    exact ⟨⟨m.globalDrawn, rfl⟩, by omega, Spares.refl _ _⟩

theorem shutdownTier_eq (m : Market) (unhomed : ℕ) : ∃ shut reason,
    shutdownTier m unhomed = { m with shutdown := shut, shutdownReason := reason } := by
  unfold shutdownTier
  split
  · exact ⟨_, _, rfl⟩
  · exact ⟨m.shutdown, m.shutdownReason, rfl⟩

/-- A market shuts down with a reason, and the first reason stays. -/
structure Shuts (m m' : Market) : Prop where
  shutdown : m.shutdown = true → m'.shutdown = true
  reason : m.shutdownReason ≠ .none → m'.shutdownReason = m.shutdownReason
  opened : m'.shutdown = true → m.shutdown = true ∨ m'.shutdownReason ≠ .none

theorem shutdownTier_shuts (m : Market) (unhomed : ℕ) : Shuts m (shutdownTier m unhomed) := by
  unfold shutdownTier
  split
  · refine ⟨fun _ ↦ rfl, ?_, ?_⟩
    · intro hreason
      exact if_neg hreason
    · intro _
      right
      dsimp only
      split
      next => simp
      next hreason => exact hreason
  · exact ⟨id, fun _ ↦ rfl, .inl⟩

/-- Where the collateral `collR` of the remainder goes: to the stakes, or to the protocol. -/
inductive Placed (m m' : Market) (redist collR : ℕ) : Prop where
  | redistributed (st : RedistState) (hpos : 0 < redist)
      (hst : redistribute (redistState m) m.totalStakes collR redist = .ok st)
      (heq : m' = { writeState m st with totalCollateral := m.totalCollateral + collR })
  | kept (drawn : ℕ) (shut : Bool) (reason : ShutdownReason) (hzero : redist = 0)
      (heq : m' = { m with
        protocolCollateral := m.protocolCollateral + collR
        globalDrawn := drawn
        shutdown := shut
        shutdownReason := reason })
      (hshuts : Shuts m m')

section Placed

variable {m m' : Market} {redist collR : ℕ}

theorem Placed.tracked (h : Placed m m' redist collR) : tracked m' = tracked m + collR := by
  cases h with
  | redistributed st _ _ heq =>
    rw [heq]
    simp only [FusionCore.tracked, writeState]
    omega
  | kept _ _ _ _ heq =>
    rw [heq]
    simp only [FusionCore.tracked]
    omega

theorem Placed.net (h : Placed m m' redist collR) : net m' = net m := by
  cases h with
  | redistributed st _ _ heq => rw [heq]; rfl
  | kept _ _ _ _ heq => rw [heq]; rfl

theorem Placed.params (h : Placed m m' redist collR) :
    m'.toMarketParams = m.toMarketParams := by
  cases h with
  | redistributed st _ _ heq => rw [heq]; rfl
  | kept _ _ _ _ heq => rw [heq]

theorem Placed.weights (h : Placed m m' redist collR) :
    m'.aggWeightedDebtSum = m.aggWeightedDebtSum := by
  cases h with
  | redistributed st _ _ heq => rw [heq]; rfl
  | kept _ _ _ _ heq => rw [heq]

end Placed

theorem remainderTiers_spec {split : Absorption} {collR : ℕ} {r r' : Remainder}
    (h : remainderTiers mint split collR r = .ok r')
    (hredist : 0 < split.redist → split.buffer = 0 ∧ split.global = 0 ∧ split.unhomed = 0)
    (hnone : split.redist = 0 → split.buffer = 0 → split.global = 0 → split.unhomed = 0 →
      collR = 0) :
    Placed r.market r'.market split.redist collR ∧
      r'.fusd.supply + (split.buffer + split.global) = r.fusd.supply ∧
      Spares Set.univ r.fusd r'.fusd := by
  unfold remainderTiers at h
  rcases ite_eq_ok.mp h with ⟨hpos, h⟩ | ⟨hpos, h⟩
  · simp only [redistTier, bind_eq_ok_iff, mapError_eq_ok, okOr_eq_ok, checkedAdd_eq_some,
      pure_eq_ok] at h
    obtain ⟨_, ⟨st, hst, _, ⟨-, rfl⟩, rfl⟩, rfl⟩ := h
    obtain ⟨hb, hg, -⟩ := hredist hpos
    exact ⟨.redistributed st hpos hst rfl, by rw [hb, hg]; rfl, Spares.refl _ _⟩
  have hredist0 : split.redist = 0 := Nat.eq_zero_of_not_pos hpos
  rcases ite_eq_ok.mp h with ⟨-, h⟩ | ⟨hrest, h⟩
  · simp only [bind_eq_ok_iff, okOr_eq_ok, tryFit_eq_some, checkedAdd_eq_some, pure_eq_ok,
      Prod.exists] at h
    obtain ⟨_, ⟨-, rfl⟩, _, ⟨-, rfl⟩, buf, fusd₁, hbuf, m₂, bs, fusd₂, hback, rfl⟩ := h
    obtain ⟨hsup₁, hsp₁⟩ := bufferTier_spec hbuf
    obtain ⟨⟨drawn, rfl⟩, hsup₂, hsp₂⟩ := backstopTier_spec hback
    set m₁ : Market := { r.market with
      protocolCollateral := r.market.protocolCollateral + collR
      globalDrawn := drawn }
    obtain ⟨shut, reason, hshut⟩ := shutdownTier_eq m₁ split.unhomed
    obtain ⟨hshuts, hreason, hopened⟩ := shutdownTier_shuts m₁ split.unhomed
    exact ⟨.kept drawn shut reason hredist0 hshut ⟨hshuts, hreason, hopened⟩,
      by dsimp only; omega, hsp₁.trans hsp₂⟩
  · cases h
    push Not at hrest
    have hcoll : collR = 0 := hnone hredist0 (by omega) (by omega) (by omega)
    refine ⟨.kept r.market.globalDrawn r.market.shutdown r.market.shutdownReason hredist0 ?_
      ⟨id, fun _ ↦ rfl, .inl⟩, by omega, Spares.refl _ _⟩
    rw [hcoll]
    rfl

theorem bufferTier_balance {buf buf' : InsuranceBuffer} {amount : ℕ}
    (h : bufferTier mint buf fusd amount = .ok (buf', fusd')) (k : FusdHolder) :
    fusd'.balance k + (if k = .bufferVault mint then amount else 0) = fusd.balance k := by
  rcases ite_eq_ok.mp h with ⟨-, h⟩ | ⟨hzero, h⟩
  · simp only [bind_eq_ok_iff, okOr_eq_ok, tryFit_eq_some, tokenCall_eq_ok, pure_eq_ok,
      Prod.mk.injEq] at h
    obtain ⟨_, ⟨-, rfl⟩, fusd₁, hburn, _, -, -, rfl⟩ := h
    exact TokenLedger.burn_balance hburn k
  · cases h
    rw [Nat.eq_zero_of_not_pos hzero, ite_self, Nat.add_zero]

theorem backstopTier_balance {m m' : Market} {bs bs' : Option GlobalBackstopReserve} {amount : ℕ}
    (h : backstopTier m bs fusd amount = .ok (m', bs', fusd')) (k : FusdHolder) :
    fusd'.balance k + (if k = .backstopVault then amount else 0) = fusd.balance k := by
  rcases ite_eq_ok.mp h with ⟨-, h⟩ | ⟨hzero, h⟩
  · simp only [bind_eq_ok_iff, okOr_eq_ok, tryFit_eq_some, tokenCall_eq_ok, pure_eq_ok,
      Prod.mk.injEq] at h
    obtain ⟨_, -, _, ⟨-, rfl⟩, fusd₁, hburn, _, -, _, -, -, -, rfl⟩ := h
    exact TokenLedger.burn_balance hburn k
  · cases h
    rw [Nat.eq_zero_of_not_pos hzero, ite_self, Nat.add_zero]

/-- The fUSD of the remainder comes from the insurance buffer and the backstop only. -/
theorem remainderTiers_balance {split : Absorption} {collR : ℕ} {r r' : Remainder}
    (h : remainderTiers mint split collR r = .ok r')
    (hredist : 0 < split.redist → split.buffer = 0 ∧ split.global = 0 ∧ split.unhomed = 0)
    (k : FusdHolder) :
    r'.fusd.balance k + (if k = .bufferVault mint then split.buffer else 0) +
      (if k = .backstopVault then split.global else 0) = r.fusd.balance k := by
  unfold remainderTiers at h
  rcases ite_eq_ok.mp h with ⟨hpos, h⟩ | ⟨-, h⟩
  · simp only [bind_eq_ok_iff, pure_eq_ok] at h
    obtain ⟨_, -, rfl⟩ := h
    obtain ⟨hb, hg, -⟩ := hredist hpos
    simp only [hb, hg, ite_self, Nat.add_zero]
  rcases ite_eq_ok.mp h with ⟨-, h⟩ | ⟨hrest, h⟩
  · simp only [bind_eq_ok_iff, pure_eq_ok, Prod.exists] at h
    obtain ⟨_, -, _, -, buf, fusd₁, hbuf, m₂, bs, fusd₂, hback, rfl⟩ := h
    have h1 := bufferTier_balance hbuf k
    have h2 := backstopTier_balance hback k
    dsimp only
    omega
  · cases h
    push Not at hrest
    simp only [Nat.le_zero.mp hrest.1, Nat.le_zero.mp hrest.2.1, ite_self, Nat.add_zero]

theorem bookSurplus_spec {m m' : Market} {p p' : Position} {surplus : ℕ}
    (h : bookSurplus m p surplus = .ok (m', p')) :
    m' = { m with totalCollSurplus := m.totalCollSurplus + surplus } ∧
      p' = { p with collSurplus := p.collSurplus + surplus } := by
  rcases ite_eq_ok.mp h with ⟨-, h⟩ | ⟨hzero, h⟩
  · simp only [bind_eq_ok_iff, okOr_eq_ok, checkedAdd_eq_some, pure_eq_ok, Prod.mk.injEq] at h
    obtain ⟨_, ⟨-, rfl⟩, _, ⟨-, rfl⟩, rfl, rfl⟩ := h
    exact ⟨rfl, rfl⟩
  · cases h
    obtain rfl : surplus = 0 := Nat.eq_zero_of_not_pos hzero
    exact ⟨rfl, rfl⟩

/-- The collateral of a seized position is its surplus and what is seized. -/
theorem seize_spec {m : Market} {p : Position} {z : Seizure}
    (hgas : m.liqGasCompBps ≤ BPS_DENOMINATOR) (h : seize m p = .ok z) :
    ∃ surplus, z.seizeColl + surplus = p.ink ∧ z.gasComp ≤ z.seizeColl ∧
      z.market = { m with
        totalStakes := m.totalStakes - p.stake
        totalCollateral := m.totalCollateral - p.ink
        totalCollSurplus := m.totalCollSurplus + surplus } ∧
      z.position = { p with collSurplus := p.collSurplus + surplus } := by
  simp only [seize, bind_eq_ok_iff, okOr_eq_ok, checkedSub_eq_some, checkedMul_eq_some,
    pure_eq_ok, Prod.exists] at h
  obtain ⟨_, ⟨-, rfl⟩, _, ⟨-, rfl⟩, seized, surplus, hseize, m₁, p₁, hsurplus, _, ⟨-, rfl⟩,
    rfl⟩ := h
  obtain ⟨rfl, rfl⟩ := bookSurplus_spec hsurplus
  refine ⟨surplus, seizeCollateral_spec hseize, ?_, rfl, rfl⟩
  refine Nat.div_le_of_le_mul ?_
  rw [Nat.mul_comm BPS_DENOMINATOR]
  exact Nat.mul_le_mul_left _ hgas

theorem payGasComp_balance {liquidator : Pubkey} {gas : ℕ}
    (h : payGasComp coll liquidator gas = .ok coll') :
    coll'.balance .vault + gas = coll.balance .vault := by
  rcases ite_eq_ok.mp h with ⟨-, h⟩ | ⟨hzero, h⟩
  · simp only [bind_eq_ok_iff, okOr_eq_ok, tryFit_eq_some, tokenCall_eq_ok] at h
    obtain ⟨_, ⟨-, rfl⟩, h⟩ := h
    simpa using TokenLedger.transfer_balance h .vault
  · cases h
    rw [Nat.eq_zero_of_not_pos hzero, Nat.add_zero]

end Tiers

/-! ## Closing the position -/

section Closing

variable {now k : ℕ} {m : Market} {bm : RedemptionBitmap} {ps : Table Pubkey Position} {t : Tally}
  {owner : Pubkey} {p pr : Position}

/-- The market once a position has left it with all its debt and collateral. -/
def Market.without (m : Market) (pr : Position) (sum surplus : ℕ) : Market :=
  { m with
    aggRecordedDebt := m.aggRecordedDebt - pr.recordedDebt
    aggWeightedDebtSum := sum
    totalStakes := m.totalStakes - pr.stake
    totalCollateral := m.totalCollateral - pr.ink
    totalCollSurplus := m.totalCollSurplus + surplus }

theorem Book.close {sum surplus : ℕ} {q : Position} {bm' : RedemptionBitmap}
    (hb : Book now m bm ps t) (hp : ps.lookup owner = some p) (hf : Folded k m p pr)
    (hr : Relabel bm bm' p q)
    (hsum : sum + weightOf p = m.aggWeightedDebtSum ∧ sum < 2 ^ 128)
    (hq : q.recordedDebt = 0) (hink : q.ink = 0) (hstake : q.stake = 0)
    (hsurplus : q.collSurplus = pr.collSurplus + surplus) (hadv : p.Advances q) :
    Book now (m.without pr sum surplus) bm' (ps.insert owner q) (t.realized k) := by
  have hweight : weightOf q = 0 := by rw [weightOf, hq, Nat.zero_mul]
  have hst : pr.stake ≤ m.totalStakes := by
    rw [hf.stake]
    exact hb.stake_le_totalStakes hp
  have ht : Touch k m (m.without pr sum surplus) p q pr.recordedDebt pr.ink :=
    { debt_le := hf.debt_le
      le_debt := hf.le_debt
      ink_le := hf.ink_le
      agg := by rw [hq]; exact Nat.sub_add_cancel (hb.debt_le hp hf)
      coll := by rw [hink]; exact Nat.sub_add_cancel (hb.coll_le hp hf)
      weights := by rw [hweight]; exact hsum.1
      weights_lt := hsum.2
      stakes := by rw [hstake, ← hf.stake]; exact Nat.sub_add_cancel hst
      surplus := by
        rw [hsurplus, hf.collSurplus]
        simp only [Market.without]
        omega
      stake_le := by omega
      settled := fun h ↦ by omega
      art_settled := fun h ↦ by omega
      coll_settled := fun h ↦ by omega
      lastUpdateTs := rfl
      lArt := rfl
      lColl := rfl
      artError := rfl
      collError := rfl
      snapshot_le := hb.snapshot_le
      advances := hadv }
  exact hb.touch hp ht hr

theorem Book.resnapshot (hb : Book now m bm ps t) :
    Book now { m with
      totalStakesSnapshot := m.totalStakes
      totalCollateralSnapshot := if m.totalStakes = 0 then 0 else m.totalCollateral } bm ps t := by
  refine { hb with snapshot_le := ?_ }
  by_cases h0 : m.totalStakes = 0
  · exact .inl (if_pos h0)
  · refine .inr ?_
    simp only [h0, if_false]
    exact hb.stakes_le

/-- The market after the waterfall has taken the debt `pr` out of it, except for what is
redistributed, and before the collateral of the remainder is placed. -/
def Market.absorbed (m : Market) (pr : Position) (split : Absorption) (surplus : ℕ) : Market :=
  { m with
    totalStakes := m.totalStakes - pr.stake
    totalCollateral := m.totalCollateral - pr.ink
    totalCollSurplus := m.totalCollSurplus + surplus
    aggRecordedDebt :=
      m.aggRecordedDebt - (split.reactor + split.buffer + split.global + split.unhomed)
    badDebt := m.badDebt + split.unhomed }

/-- The books after a liquidation: close the position out, redistribute if there is anyone to
redistribute to, and restart the stake formula. -/
theorem Book.liquidate {sum surplus collR : ℕ} {q : Position} {bm' : RedemptionBitmap}
    {split : Absorption} {m' : Market} (hb : Book now m bm ps t)
    (hp : ps.lookup owner = some p) (hf : Folded k m p pr) (hr : Relabel bm bm' p q)
    (hparts : split.reactor + split.redist + split.buffer + split.global + split.unhomed
      = pr.recordedDebt)
    (hsum : sum + weightOf p = m.aggWeightedDebtSum ∧ sum < 2 ^ 128) (hq : q.recordedDebt = 0)
    (hink : q.ink = 0) (hstake : q.stake = 0)
    (hsurplus : q.collSurplus = pr.collSurplus + surplus) (hadv : p.Advances q)
    (hm' : Placed (m.absorbed pr split surplus) m' split.redist collR) :
    Book now { m' with
      aggWeightedDebtSum := sum
      totalStakesSnapshot := m'.totalStakes
      totalCollateralSnapshot := if m'.totalStakes = 0 then 0 else m'.totalCollateral }
      bm' (ps.insert owner q) (t.realized k) := by
  have hle := hb.debt_le hp hf
  have hclose := hb.close hp hf hr hsum hq hink hstake hsurplus hadv
  cases hm' with
  | redistributed st hpos hst heq =>
    have hred := (hclose.redistribute hst).resnapshot
    have hnew : m.aggRecordedDebt - (split.reactor + split.buffer + split.global + split.unhomed)
        = m.aggRecordedDebt - pr.recordedDebt + split.redist := by omega
    subst heq
    exact
      { hred with
        debt_covered := by
          simp only [writeState, Market.absorbed, hnew]
          exact hred.debt_covered
        debt_tight := by
          simp only [writeState, Market.absorbed, hnew]
          exact hred.debt_tight }
  | kept drawn shut reason hzero heq =>
    have hdone := hclose.resnapshot
    have hnew : m.aggRecordedDebt - (split.reactor + split.buffer + split.global + split.unhomed)
        = m.aggRecordedDebt - pr.recordedDebt := by omega
    subst heq
    exact
      { hdone with
        debt_covered := by
          simp only [Market.absorbed, hnew]
          exact hdone.debt_covered
        debt_tight := by
          simp only [Market.absorbed, hnew]
          exact hdone.debt_tight }

end Closing

section ClosedOut

variable (m : Market) (p : Position)

@[simp] theorem closedOut_recordedDebt : (closedOut m p).recordedDebt = 0 := by simp [closedOut]

@[simp] theorem closedOut_ink : (closedOut m p).ink = 0 := by simp [closedOut]

@[simp] theorem closedOut_stake : (closedOut m p).stake = 0 := rfl

@[simp] theorem closedOut_collSurplus : (closedOut m p).collSurplus = p.collSurplus := by
  simp [closedOut]

@[simp] theorem closedOut_bucket : (closedOut m p).bucket = p.bucket := by simp [closedOut]

theorem closedOut_advances : p.Advances (closedOut m p) :=
  Position.advances_setInk (q := { p with recordedDebt := 0 }) _ rfl rfl

end ClosedOut

/-! ## A liquidation step by step -/

/-- What a liquidation that succeeds has read and computed, under the names of the handler. -/
structure LiquidationRun (clk : Clock) (liquidator owner : Pubkey) (withBackstop : Bool)
    (a : Accounts) where
  p : Position
  rp : ReactorPool
  buf : InsuranceBuffer
  bs : Option GlobalBackstopReserve
  m₁ : Market
  p₁ : Position
  z : Seizure
  split : Absorption
  collSp : ℕ
  coll₁ : TokenLedger CollHolder
  rp₁ : ReactorPool
  coll₂ : TokenLedger CollHolder
  fusd₁ : TokenLedger FusdHolder
  r : Remainder
  sum : ℕ
  bitmap : RedemptionBitmap
  label : ℕ
  position_eq : a.state.positions.lookup owner = some p
  reactor_eq : a.state.reactor = some rp
  buffer_eq : a.state.buffer = some buf
  backstop_eq : backstopAccounts a withBackstop = .ok bs
  accrue_eq : accrue a.state.market clk.unixTimestamp = .ok m₁
  gates : liquidationGates m₁ clk.slot = .ok ()
  realize_eq : realize m₁ p clk.unixTimestamp = .ok p₁
  owes : 0 < p₁.recordedDebt
  unhealthy : isHealthy p₁.ink p₁.recordedDebt m₁.debtSpot m₁.mcrBps = false
  seize_eq : seize m₁ p₁ = .ok z
  split_eq : split = absorb p₁.recordedDebt rp.state.totalDeposits
    (decide (0 < z.market.totalStakes)) (a.fusd.balance (.bufferVault a.state.mint))
    (globalAvailable a z.market bs)
  closed_le : split.reactor + split.buffer + split.global + split.unhomed ≤
    z.market.aggRecordedDebt
  badDebt_lt : z.market.badDebt + split.unhomed < 2 ^ 128
  collSp_eq : mulDivFloor (z.seizeColl - z.gasComp) split.reactor p₁.recordedDebt = some collSp
  gasComp_eq : payGasComp a.state.coll liquidator z.gasComp = .ok coll₁
  reactorTier_eq : reactorTier a.state.mint rp coll₁ a.fusd split.reactor collSp =
    .ok (rp₁, coll₂, fusd₁)
  remainderTiers_eq : remainderTiers a.state.mint split (z.seizeColl - z.gasComp - collSp)
    ⟨{ z.market with
        aggRecordedDebt := z.market.aggRecordedDebt -
          (split.reactor + split.buffer + split.global + split.unhomed)
        badDebt := z.market.badDebt + split.unhomed }, buf, bs, fusd₁⟩ = .ok r
  weights_eq : sum + weightOf p = r.market.aggWeightedDebtSum
  weights_lt : sum < 2 ^ 128
  reconcile_eq : ∃ m, reconcile a.state.bitmap m (closedOut r.market z.position) p.recordedDebt =
    .ok (bitmap, { closedOut r.market z.position with bucket := label })

section Run

theorem liquidationGates_eq_ok {m : Market} {slot : ℕ} :
    liquidationGates m slot = .ok () ↔ (0 < m.spot ∧ 0 < m.debtSpot) ∧ m.fresh slot ∧
      m.liqGraceUntil ≤ slot ∧ m.liqDivergenceUntil ≤ slot := by
  simp only [liquidationGates, bind_eq_ok_iff, require_eq_ok, exists_const]

variable {clk : Clock} {liquidator owner : Pubkey} {withBackstop : Bool} {a a' : Accounts}

namespace LiquidationRun

variable (run : LiquidationRun clk liquidator owner withBackstop a)

/-- What the liquidation writes. -/
def result : Accounts :=
  { state := { a.state with
      market := { run.r.market with
        totalStakesSnapshot := run.r.market.totalStakes
        totalCollateralSnapshot :=
          if run.r.market.totalStakes = 0 then 0 else run.r.market.totalCollateral
        aggWeightedDebtSum := run.sum }
      bitmap := run.bitmap
      positions := a.state.positions.insert owner
        { closedOut run.r.market run.z.position with bucket := run.label }
      reactor := some run.rp₁
      buffer := some run.r.buffer
      coll := run.coll₂
      tally := (a.state.tally.book a.state.market run.m₁).realized 1 }
    fusd := run.r.fusd
    backstop := storeBackstop a run.r.backstop }

theorem split_spec :
    run.split.reactor + run.split.redist + run.split.buffer + run.split.global
        + run.split.unhomed = run.p₁.recordedDebt ∧
      run.split.global ≤ globalAvailable a run.z.market run.bs ∧
      (0 < run.split.redist →
        run.split.buffer = 0 ∧ run.split.global = 0 ∧ run.split.unhomed = 0) := by
  obtain ⟨hparts, -, -, hglobal, -, hredist⟩ := absorb_spec run.p₁.recordedDebt
    run.rp.state.totalDeposits (decide (0 < run.z.market.totalStakes))
    (a.fusd.balance (.bufferVault a.state.mint)) (globalAvailable a run.z.market run.bs)
  rw [← run.split_eq] at hparts hglobal hredist
  exact ⟨hparts, hglobal, hredist⟩

theorem collSp_floor :
    (run.z.seizeColl - run.z.gasComp) * run.split.reactor / run.p₁.recordedDebt = run.collSp :=
  (mulDivFloor_eq_some.mp run.collSp_eq).2.2

theorem collSp_le : run.collSp ≤ run.z.seizeColl - run.z.gasComp := by
  obtain ⟨hparts, -⟩ := run.split_spec
  rw [← run.collSp_floor]
  refine Nat.div_le_of_le_mul ?_
  rw [Nat.mul_comm run.p₁.recordedDebt]
  exact Nat.mul_le_mul_left _ (by omega)

theorem collSp_eq_zero (h : run.split.reactor = 0) : run.collSp = 0 := by
  rw [← run.collSp_floor, h, Nat.mul_zero, Nat.zero_div]

theorem collSp_eq_all (hredist : run.split.redist = 0) (hbuffer : run.split.buffer = 0)
    (hglobal : run.split.global = 0) (hunhomed : run.split.unhomed = 0) :
    run.z.seizeColl - run.z.gasComp - run.collSp = 0 := by
  obtain ⟨hparts, -⟩ := run.split_spec
  have hall : run.split.reactor = run.p₁.recordedDebt := by omega
  rw [← run.collSp_floor, hall, Nat.mul_div_cancel _ run.owes, Nat.sub_self]

theorem reactorTier_spec :
    run.fusd₁.supply + run.split.reactor = a.fusd.supply ∧
      run.fusd₁.balance (.reactorVault a.state.mint) + run.split.reactor =
        a.fusd.balance (.reactorVault a.state.mint) ∧
      Spares {a.state.mint}ᶜ a.fusd run.fusd₁ ∧
      run.rp₁.state.totalDeposits + run.split.reactor = run.rp.state.totalDeposits ∧
      run.coll₂.balance .vault + run.collSp = run.coll₁.balance .vault ∧
      PoolMove REACTOR_MAX_SCALES (some run.rp) (some run.rp₁) :=
  FusionCore.reactorTier_spec run.reactorTier_eq run.collSp_eq_zero

theorem remainderTiers_spec :
    Placed { run.z.market with
        aggRecordedDebt := run.z.market.aggRecordedDebt - (run.split.reactor + run.split.buffer
          + run.split.global + run.split.unhomed)
        badDebt := run.z.market.badDebt + run.split.unhomed } run.r.market run.split.redist
        (run.z.seizeColl - run.z.gasComp - run.collSp) ∧
      run.r.fusd.supply + (run.split.buffer + run.split.global) = run.fusd₁.supply ∧
      Spares Set.univ run.fusd₁ run.r.fusd :=
  FusionCore.remainderTiers_spec run.remainderTiers_eq run.split_spec.2.2 run.collSp_eq_all

theorem seize_spec (hi : Inv clk.unixTimestamp a) :
    ∃ surplus, run.z.seizeColl + surplus = run.p₁.ink ∧ run.z.gasComp ≤ run.z.seizeColl ∧
      run.z.market = { run.m₁ with
        totalStakes := run.m₁.totalStakes - run.p₁.stake
        totalCollateral := run.m₁.totalCollateral - run.p₁.ink
        totalCollSurplus := run.m₁.totalCollSurplus + surplus } ∧
      run.z.position = { run.p₁ with collSurplus := run.p₁.collSurplus + surplus } := by
  obtain ⟨x, ts, hacc⟩ := accrue_spec hi.book.clock run.accrue_eq
  refine FusionCore.seize_spec ?_ run.seize_eq
  rw [hacc.eq]
  exact hi.valid.gas_le.trans (by decide)

end LiquidationRun

theorem exists_liquidationRun
    (h : liquidateUnchecked clk liquidator owner withBackstop a = .ok a') :
    ∃ run : LiquidationRun clk liquidator owner withBackstop a, run.result = a' := by
  simp only [liquidateUnchecked, bind_eq_ok_iff, okOr_eq_ok, require_eq_ok, weighted_eq_ok,
    SupplyTransition.liquidate_eq_some, pure_eq_ok, Prod.exists, exists_const] at h
  obtain ⟨p, hp, rp, hrp, buf, hbuf, bs, hbs, m₁, hm₁, ⟨⟩, hgates, _, ⟨-, rfl⟩, p₁, hp₁, hdebt,
    hunhealthy, z, hz, _, ⟨hagg, -, hbad, rfl⟩, collSp, hcollSp, coll₁, hgas, rp₁, coll₂, fusd₁,
    htier, r, hrem, m₆, hm₆, bm, p₄, hrec, rfl⟩ := h
  obtain ⟨sum, ⟨hsum, hlt⟩, rfl⟩ := reweight_spec hm₆
  obtain ⟨label, rfl⟩ := reconcile_position hrec
  have hweights : sum + weightOf p = r.market.aggWeightedDebtSum := by
    simpa [weightOf] using hsum
  exact ⟨⟨p, rp, buf, bs, m₁, p₁, z, _, collSp, coll₁, rp₁, coll₂, fusd₁, r, sum, bm, label, hp,
    hrp, hbuf, hbs, hm₁, hgates, hp₁, hdebt, hunhealthy, hz, rfl, hagg, hbad, hcollSp, hgas, htier,
    hrem, hweights, hlt, ⟨_, hrec⟩⟩, rfl⟩

theorem liquidate_run (h : liquidate clk liquidator owner withBackstop a = .ok a') :
    ∃ run : LiquidationRun clk liquidator owner withBackstop a, run.result = a' :=
  exists_liquidationRun (of_vaultChecked h)

end Run

section Effect

variable {clk : Clock} {liquidator owner : Pubkey} {withBackstop : Bool} {a a' : Accounts}

theorem liquidateUnchecked_effect (hi : Inv clk.unixTimestamp a)
    (h : liquidateUnchecked clk liquidator owner withBackstop a = .ok a') :
    Effect clk.unixTimestamp a a' := by
  obtain ⟨run, rfl⟩ := exists_liquidationRun h
  obtain ⟨x, ts, hacc⟩ := accrue_spec hi.book.clock run.accrue_eq
  have hb₁ := hi.book.accrue hacc
  have hfold := (realize_spec hacc.realizable run.realize_eq).folded
  obtain ⟨surplus, hseized, hgasle, hzm, hzp⟩ := run.seize_spec hi
  obtain ⟨hparts, -, -⟩ := run.split_spec
  have hagg := run.closed_le
  have hsple := run.collSp_le
  have hvault₁ := payGasComp_balance run.gasComp_eq
  obtain ⟨hsup₁, hown, hsp₁, hpool, hvault₂, hmove⟩ := run.reactorTier_spec
  obtain ⟨hplaced, hsup₂, hsp₂⟩ := run.remainderTiers_spec
  rw [hzm] at hagg hplaced
  change Placed (run.m₁.absorbed run.p₁ run.split surplus) _ _ _ at hplaced
  dsimp only at hagg
  obtain ⟨m₆, hrec⟩ := run.reconcile_eq
  obtain ⟨-, hrel⟩ := relabel_of_reconcile hrec
    (by rw [closedOut_bucket, hzp]; exact hfold.bucket) (hi.book.label owner run.p run.position_eq)
  have hW : run.sum + weightOf run.p = run.m₁.aggWeightedDebtSum ∧ run.sum < 2 ^ 128 :=
    ⟨run.weights_eq.trans hplaced.weights, run.weights_lt⟩
  have hadv : run.p.Advances (closedOut run.r.market run.z.position) :=
    hfold.advances.trans
      ((by simp [hzp] : run.p₁.Advances run.z.position).trans (closedOut_advances _ _))
  have hbook := hb₁.liquidate run.position_eq hfold hrel hparts hW (by simp) (by simp) (by simp)
    (by simp [hzp]) hadv hplaced
  have hinkle := hb₁.coll_le run.position_eq hfold
  exact
    { inv :=
        { book := { hbook with }
          vault := by
            have h1 := hi.vault
            have h2 := hacc.tracked
            have h3 := hplaced.tracked
            simp only [tracked, Market.absorbed, LiquidationRun.result] at h1 h2 h3 ⊢
            omega
          pool := by
            rintro _ ⟨⟩
            have h1 := hi.pool run.rp run.reactor_eq
            have h2 := hsp₂ a.state.mint trivial
            dsimp only [LiquidationRun.result]
            omega
          valid := by
            have h1 : run.r.market.toMarketParams = run.m₁.toMarketParams := hplaced.params
            change run.r.market.toMarketParams.Valid
            rw [h1, hacc.params]
            exact hi.valid }
      mint := rfl
      supply := by
        have h1 := hacc.net
        have h2 := hplaced.net
        simp only [net, Market.absorbed, LiquidationRun.result] at h1 h2 ⊢
        omega
      spares := hsp₁.trans (hsp₂.mono (Set.subset_univ _))
      reactor := by
        rw [run.reactor_eq]
        exact hmove
      ink := fun o ↦ .stay ((Advance.refl _).insert run.position_eq (by exact hadv) o) }

theorem liquidate_effect (hi : Inv clk.unixTimestamp a)
    (h : liquidate clk liquidator owner withBackstop a = .ok a') :
    Effect clk.unixTimestamp a a' :=
  liquidateUnchecked_effect hi (of_vaultChecked h)

end Effect
end FusionCore
