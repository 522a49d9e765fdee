import FusionCore.Core.Liquidation

/-!
# Maintenance of a market

Interest minting, bad debt, shutdown, protocol collateral, debt-ceiling lines, the guardian
and the price commit.  None of these instructions touches a position.
-/

namespace FusionCore

open Checked

/-! ## Set-up -/

def initReactorPool (cfg : Config) (authority : Pubkey) (a : Accounts) :
    Except ProgramError Accounts := do
  require (authority = cfg.govAuthority) .unauthorized
  require (a.state.reactor.isNone) .accountAlreadyInUse
  let m := a.state.market
  pure { a with
    state := { a.state with
      market := { m with liqInfraFlags := { m.liqInfraFlags with reactorPool := true } }
      reactor := some Pool.new } }

def initInsuranceBuffer (cfg : Config) (authority : Pubkey) (a : Accounts) :
    Except ProgramError Accounts := do
  require (authority = cfg.govAuthority) .unauthorized
  require (a.state.buffer.isNone) .accountAlreadyInUse
  let m := a.state.market
  pure { a with
    state := { a.state with
      market := { m with liqInfraFlags := { m.liqInfraFlags with insuranceBuffer := true } }
      buffer := some ⟨0, 0⟩ } }

/-! ## Interest -/

/-- Mint a share of the interest; nothing happens for a zero share. -/
def mintShare (fusd : TokenLedger FusdHolder) (dst : Option FusdHolder) (amount : ℕ) :
    Except ProgramError (TokenLedger FusdHolder) :=
  if 0 < amount then do
    let dst ← okOr dst .accountNotInitialized
    tokenCall (fusd.mintTo dst (truncate 64 amount))
  else pure fusd

/-- The backstop's share of the interest. -/
def contribute (m : Market) (bs : Option GlobalBackstopReserve) (fusd : TokenLedger FusdHolder)
    (amount : ℕ) :
    Except ProgramError (Market × Option GlobalBackstopReserve × TokenLedger FusdHolder) := do
  let fusd ← mintShare fusd (bs.map fun _ ↦ .backstopVault) amount
  if 0 < amount then do
    let globalContributed ← okOr (checkedAdd 128 m.globalContributed amount) .mathOverflow
    let reserve ← okOr bs .accountNotInitialized
    let totalContributed ← okOr (checkedAdd 128 reserve.totalContributed amount) .mathOverflow
    pure ({ m with globalContributed }, some { reserve with totalContributed }, fusd)
  else pure (m, bs, fusd)

/-- Cut and headroom of the backstop; both zero without its accounts. -/
def backstopShare (bs : Option GlobalBackstopReserve) (balance : ℕ) : ℕ × ℕ :=
  match bs with
  | some reserve => (reserve.cutBps, reserve.reserveCap - balance)
  | none => (0, 0)

/-- Mint the accrued interest to keeper, backstop and buffer, after paying down bad debt. -/
def refreshMarket (clk : Clock) (cranker : Option FusdHolder) (withBackstop : Bool)
    (a : Accounts) : Except ProgramError Accounts := do
  let buf ← okOr a.state.buffer .accountNotInitialized
  let bs ← backstopAccounts a withBackstop
  let m₁ ← accrue a.state.market clk.unixTimestamp
  let tally := a.state.tally.book a.state.market m₁
  let pending := m₁.unmintedInterest
  if pending = 0 then pure { a with state := { a.state with market := m₁, tally } }
  else do
    let keeperBps := if cranker.isSome then m₁.keeperRewardBps else 0
    let share := backstopShare bs (a.fusd.balance .backstopVault)
    let d ← okOr (SupplyTransition.refresh pending m₁.badDebt keeperBps m₁.badDebtPaydownBps
      share.1 share.2) .mathOverflow
    let fusd₁ ← mintShare a.fusd (some (.bufferVault a.state.mint)) d.bufferAmount
    let fusd₂ ← mintShare fusd₁ cranker d.keeperCut
    let (m₂, bs₁, fusd₃) ← contribute m₁ bs fusd₂ d.backstopCut
    let totalFunded ← okOr (checkedAdd 128 buf.totalFunded d.bufferAmount) .mathOverflow
    pure
      { state := { a.state with
          market := { m₂ with badDebt := d.newBad, unmintedInterest := d.newUnminted }
          buffer := some { buf with totalFunded }
          tally }
        fusd := fusd₃
        backstop := storeBackstop a bs₁ }

/-! ## Bad debt, shutdown and the protocol's collateral -/

def settleBadDebt (cfg : Config) (authority : Pubkey) (amount : ℕ) (a : Accounts) :
    Except ProgramError Accounts := do
  require (authority = cfg.inboundAuthority) .unauthorized
  let m := a.state.market
  require (0 < amount) .zeroAmount
  require (amount ≤ m.badDebt) .insufficientProtocolCollateral
  let fusd ← tokenCall (a.fusd.burn (.wallet authority) amount)
  let badDebt ← okOr (SupplyTransition.settleBadDebt m.badDebt amount) .mathOverflow
  pure { a with state := { a.state with market := { m with badDebt } }, fusd }

/-- Terminal wind-down, on a dead oracle or a breach of the shutdown ratio. -/
def shutdown (clk : Clock) (a : Accounts) : Except ProgramError Accounts := do
  require (a.state.market.shutdown = false) .marketShutdown
  let m ← accrue a.state.market clk.unixTimestamp
  let staleness := clk.slot - m.spotUpdatedSlot
  let oracleFailed := 0 < m.spot ∧ SHUTDOWN_ORACLE_STALENESS_SLOTS < staleness
  let tcrBreach := 0 < m.spot ∧ staleness ≤ MAX_PRICE_STALENESS_SLOTS ∧
    tcrBelow m.totalCollateral m.aggRecordedDebt m.spot m.scrBps = true
  require (oracleFailed ∨ tcrBreach) .shutdownConditionNotMet
  let reason : ShutdownReason := if oracleFailed then .oracleFailure else .scr
  pure { a with
    state := { a.state with
      market := { m with shutdown := true, shutdownReason := reason }
      tally := a.state.tally.book a.state.market m } }

def fundBuffer (funder : Pubkey) (amount : ℕ) (a : Accounts) :
    Except ProgramError Accounts := do
  let buf ← okOr a.state.buffer .accountNotInitialized
  require (0 < amount) .zeroAmount
  let fusd ← tokenCall (a.fusd.transfer (.wallet funder) (.bufferVault a.state.mint) amount)
  let totalFunded ← okOr (checkedAdd 128 buf.totalFunded amount) .mathOverflow
  pure { a with state := { a.state with buffer := some { buf with totalFunded } }, fusd }

/-- Pay `amount` of vault collateral out of one of the protocol's counters; `m'` is the market
with that counter reduced. -/
def payFromCounter (cfg : Config) (authority : Pubkey) (counter : ℕ) (m' : Market)
    (recipient : CollHolder) (amount : ℕ) (a : Accounts) : Except ProgramError Accounts := do
  require (recipient ≠ .vault) .invalidRecipient
  require (authority = cfg.inboundAuthority) .unauthorized
  require (0 < amount) .zeroAmount
  require (amount ≤ counter) .insufficientProtocolCollateral
  let coll ← tokenCall (a.state.coll.transfer .vault recipient amount)
  pure { a with state := { a.state with market := m', coll } }

def sweepProtocolCollateralUnchecked (cfg : Config) (authority : Pubkey)
    (recipient : CollHolder) (amount : ℕ) (a : Accounts) : Except ProgramError Accounts :=
  let m := a.state.market
  payFromCounter cfg authority m.protocolCollateral
    { m with protocolCollateral := m.protocolCollateral - amount } recipient amount a

def sweepProtocolCollateral (cfg : Config) (authority : Pubkey) (recipient : CollHolder)
    (amount : ℕ) (a : Accounts) : Except ProgramError Accounts :=
  vaultChecked (sweepProtocolCollateralUnchecked cfg authority recipient amount a)

def withdrawSurplusUnchecked (cfg : Config) (authority : Pubkey) (recipient : CollHolder)
    (amount : ℕ) (a : Accounts) : Except ProgramError Accounts :=
  let m := a.state.market
  payFromCounter cfg authority m.surplusCollateral
    { m with surplusCollateral := m.surplusCollateral - amount } recipient amount a

def withdrawSurplus (cfg : Config) (authority : Pubkey) (recipient : CollHolder)
    (amount : ℕ) (a : Accounts) : Except ProgramError Accounts :=
  vaultChecked (withdrawSurplusUnchecked cfg authority recipient amount a)

/-! ## Debt-ceiling line and guardian -/

/-- The ceiling a line puts on the market: `gap` above the debt, at most `line`. -/
def applyLine (line gap : ℕ) (m : Market) : Market :=
  { m with
    debtCeiling := min line (saturatingAdd 64 (min m.aggRecordedDebt (2 ^ 64 - 1)) gap) }

/-- Write a line and apply it to the accrued market. -/
def storeLine (clk : Clock) (l : DebtCeilingLine) (a : Accounts) :
    Except ProgramError Accounts := do
  let m ← accrue a.state.market clk.unixTimestamp
  pure { a with
    state := { a.state with
      market := applyLine l.line l.gap m
      line := some { l with lastBumpTs := clk.unixTimestamp }
      tally := a.state.tally.book a.state.market m } }

def initDebtCeilingLine (cfg : Config) (authority : Pubkey) (clk : Clock) (line gap ttl : ℕ)
    (a : Accounts) : Except ProgramError Accounts := do
  require (authority = cfg.govAuthority) .unauthorized
  require (a.state.line.isNone) .accountAlreadyInUse
  storeLine clk ⟨line, gap, ttl, 0⟩ a

def setDebtCeilingLine (cfg : Config) (authority : Pubkey) (clk : Clock) (line gap ttl : ℕ)
    (a : Accounts) : Except ProgramError Accounts := do
  require (authority = cfg.govAuthority) .unauthorized
  require (a.state.line.isSome) .accountNotInitialized
  storeLine clk ⟨line, gap, ttl, 0⟩ a

def bumpDebtCeiling (clk : Clock) (a : Accounts) : Except ProgramError Accounts := do
  let l ← okOr a.state.line .accountNotInitialized
  require (min (l.lastBumpTs + l.ttl) (2 ^ 63 - 1) ≤ clk.unixTimestamp) .rateLimitExceeded
  storeLine clk l a

def GUARDIAN_MAX_PAUSE_SECS : ℕ := 604800

def guardianDerisk (cfg : Config) (authority : Pubkey) (clk : Clock) (pauseSecs : ℕ)
    (a : Accounts) : Except ProgramError Accounts := do
  require (authority = cfg.guardian) .unauthorized
  require (pauseSecs ≤ GUARDIAN_MAX_PAUSE_SECS) .paramOutOfBounds
  pure { a with
    state := { a.state with
      market := { a.state.market with
        guardianPausedUntil := min (clk.unixTimestamp + pauseSecs) (2 ^ 63 - 1) } } }

/-! ## Price -/

/-- What the oracle aggregate hands to the market: whether minting stays frozen, whether the
sources diverge grossly, the low and high price when the aggregate is fresh and plausible, and
whether the canonical rate fell. -/
structure PriceCommit where
  mintFrozen : Bool
  liqDivergent : Bool
  price : Option (ℕ × ℕ)
  rateFell : Bool
  deriving DecidableEq, Repr

/-- Commit a price and its slot.  A price that resumes after a stall arms the
liquidation grace. -/
def Market.commitFreshSpot (m : Market) (spot debtSpot slot : ℕ) : Market :=
  { m with
    liqGraceUntil :=
      if 0 < m.spot ∧ MAX_PRICE_STALENESS_SLOTS < slot - m.spotUpdatedSlot then
        max m.liqGraceUntil (saturatingAdd 64 slot LIQ_RESUME_GRACE_SLOTS)
      else m.liqGraceUntil
    spot
    debtSpot
    spotUpdatedSlot := slot }

/-- Without a canonical rate the crank only freezes minting. -/
def updatePrice (clk : Clock) (commit : Option PriceCommit) (a : Accounts) :
    Except ProgramError Accounts :=
  let m := a.state.market
  let m' : Market :=
    match commit with
    | none => { m with mintFrozen := true }
    | some c =>
      let m₁ : Market := { m with
        mintFrozen := c.mintFrozen
        liqDivergenceUntil :=
          if c.liqDivergent then
            max m.liqDivergenceUntil (saturatingAdd 64 clk.slot LIQ_DIVERGENCE_GRACE_SLOTS)
          else m.liqDivergenceUntil }
      match c.price with
      | none => m₁
      | some (spot, debtSpot) =>
        if 0 < spot then
          let m₂ := m₁.commitFreshSpot spot debtSpot clk.slot
          { m₂ with
            liqGraceUntil :=
              if c.rateFell then
                max m₂.liqGraceUntil (saturatingAdd 64 clk.slot LIQ_RESUME_GRACE_SLOTS)
              else m₂.liqGraceUntil }
        else m₁
  pure { a with state := { a.state with market := m' } }

/-- Rebinding the feeds makes the cached price stale. -/
def rebindFeeds (cfg : Config) (authority : Pubkey) (clk : Clock) (a : Accounts) :
    Except ProgramError Accounts := do
  require (authority = cfg.govAuthority) .unauthorized
  pure { a with
    state := { a.state with
      market := { a.state.market with
        spotUpdatedSlot := clk.slot - (MAX_PRICE_STALENESS_SLOTS + 1) } } }

/-! ## Effects -/

section Effects

variable {now : ℕ} {a a' : Accounts}

/-- Parameters, gates and the shutdown flag are not part of the book. -/
theorem Book.reset {m : Market} {bm : RedemptionBitmap} {ps : Table Pubkey Position} {t : Tally}
    (hb : Book now m bm ps t) (params : MarketParams) (gates : MarketGates) (shut : Bool) :
    Book now { m with toMarketParams := params, toMarketGates := gates, shutdown := shut } bm ps
      t :=
  { hb with }

/-- An instruction that only moves parameters, gates or the shutdown flag. -/
theorem Effect.of_reset (hi : Inv now a) {params : MarketParams} (hparams : params.Valid)
    (gates : MarketGates) (shut : Bool) :
    Effect now a { a with
      state := { a.state with
        market := { a.state.market with
          toMarketParams := params, toMarketGates := gates, shutdown := shut } } } where
  inv := { hi with book := hi.book.reset params gates shut, valid := hparams }
  mint := rfl
  supply := rfl
  spares := Spares.refl _ _
  reactor := .keep _
  ink := fun o ↦ .stay (Advance.refl _ o)

theorem Effect.of_accrued {m : Market} {x ts : ℕ} (hi : Inv now a)
    (hacc : Accrued a.state.market m now x ts) {params : MarketParams}
    (hparams : params.Valid) (gates : MarketGates) (shut : Bool)
    (line : Option DebtCeilingLine) :
    Effect now a { a with
      state := { a.state with
        market := { m with
          toMarketParams := params, toMarketGates := gates, shutdown := shut }
        line
        tally := a.state.tally.book a.state.market m } } where
  inv :=
    { book := (hi.book.accrue hacc).reset params gates shut
      vault := hi.vault.trans (congrArg (· + _) hacc.tracked.symm)
      pool := hi.pool
      valid := hparams }
  mint := rfl
  supply := congrArg (_ - ·) hacc.net
  spares := Spares.refl _ _
  reactor := .keep _
  ink := fun o ↦ .stay (Advance.refl _ o)

variable {cfg : Config} {authority : Pubkey} {clk : Clock} {amount : ℕ}

theorem initReactorPool_effect (hi : Inv now a)
    (h : initReactorPool cfg authority a = .ok a') : Effect now a a' := by
  simp only [initReactorPool, bind_eq_ok_iff, require_eq_ok, pure_eq_ok, exists_const] at h
  obtain ⟨-, hnone, rfl⟩ := h
  exact
    { inv :=
        { hi with
          book := { hi.book with }
          pool := by rintro _ ⟨⟩; exact Nat.zero_le _ }
      mint := rfl
      supply := rfl
      spares := Spares.refl _ _
      reactor := by rw [Option.isNone_iff_eq_none.mp hnone]; exact .init
      ink := fun o ↦ .stay (Advance.refl _ o) }

theorem initInsuranceBuffer_effect (hi : Inv now a)
    (h : initInsuranceBuffer cfg authority a = .ok a') : Effect now a a' := by
  simp only [initInsuranceBuffer, bind_eq_ok_iff, require_eq_ok, pure_eq_ok,
    exists_const] at h
  obtain ⟨-, -, rfl⟩ := h
  exact
    { inv := { hi with book := { hi.book with } }
      mint := rfl
      supply := rfl
      spares := Spares.refl _ _
      reactor := .keep _
      ink := fun o ↦ .stay (Advance.refl _ o) }

theorem mintShare_spec {fusd fusd' : TokenLedger FusdHolder} {dst : Option FusdHolder}
    (hfit : amount < 2 ^ 64) (h : mintShare fusd dst amount = .ok fusd') :
    fusd'.supply = fusd.supply + amount ∧ Spares Set.univ fusd fusd' := by
  rcases ite_eq_ok.mp h with ⟨-, h⟩ | ⟨hzero, h⟩
  · simp only [bind_eq_ok_iff, okOr_eq_ok, tokenCall_eq_ok, truncate_of_lt hfit] at h
    obtain ⟨dst, -, h⟩ := h
    exact ⟨TokenLedger.mintTo_supply h, Spares.of_mintTo h⟩
  · cases h
    exact ⟨by omega, Spares.refl _ _⟩

theorem contribute_spec {m m' : Market} {bs bs' : Option GlobalBackstopReserve}
    {fusd fusd' : TokenLedger FusdHolder} (hfit : amount < 2 ^ 64)
    (h : contribute m bs fusd amount = .ok (m', bs', fusd')) :
    (∃ contributed, m' = { m with globalContributed := contributed }) ∧
      fusd'.supply = fusd.supply + amount ∧ Spares Set.univ fusd fusd' := by
  obtain ⟨fusd₁, hmint, h⟩ := bind_eq_ok_iff.mp h
  have hspec := mintShare_spec hfit hmint
  rcases ite_eq_ok.mp h with ⟨-, h⟩ | ⟨-, h⟩
  · simp only [bind_eq_ok_iff, okOr_eq_ok, pure_eq_ok, Prod.mk.injEq] at h
    obtain ⟨c, -, _, -, _, -, rfl, -, rfl⟩ := h
    exact ⟨⟨c, rfl⟩, hspec⟩
  · cases h
    exact ⟨⟨m.globalContributed, rfl⟩, hspec⟩

theorem refreshMarket_effect {cranker : Option FusdHolder} {withBackstop : Bool}
    (hi : Inv clk.unixTimestamp a)
    (h : refreshMarket clk cranker withBackstop a = .ok a') : Effect clk.unixTimestamp a a' := by
  simp only [refreshMarket, bind_eq_ok_iff, okOr_eq_ok, ite_eq_ok] at h
  obtain ⟨buf, -, bs, -, m₁, hm₁, ⟨-, h⟩ | ⟨-, h⟩⟩ := h
  · cases h
    obtain ⟨x, ts, hacc⟩ := accrue_spec hi.book.clock hm₁
    exact Effect.of_accrued hi hacc (hacc.params ▸ hi.valid) m₁.toMarketGates m₁.shutdown _
  · simp only [pure_eq_ok, Prod.exists] at h
    obtain ⟨d, hd, fusd₁, hbuf, fusd₂, hkeep, m₂, bs₁, fusd₃, hcon, _, -, rfl⟩ := h
    obtain ⟨x, ts, hacc⟩ := accrue_spec hi.book.clock hm₁
    obtain ⟨hamt, hsplit, hunm, hbad, -⟩ := SupplyTransition.refresh_spec hd
    obtain ⟨hs₁, hsp₁⟩ := mintShare_spec (by omega) hbuf
    obtain ⟨hs₂, hsp₂⟩ := mintShare_spec (by omega) hkeep
    obtain ⟨⟨c, rfl⟩, hs₃, hsp₃⟩ := contribute_spec (by omega) hcon
    have hspares := (hsp₁.trans hsp₂).trans hsp₃
    exact
      { inv :=
          { book := { hi.book.accrue hacc with }
            vault := hi.vault.trans (congrArg (· + _) hacc.tracked.symm)
            pool := fun rp hrp ↦ (hi.pool rp hrp).trans (hspares _ trivial)
            valid := hacc.params ▸ hi.valid }
        mint := rfl
        supply := by
          -- what is minted is what leaves the unminted interest, less the paydown
          have h1 := hacc.net
          simp only [net] at h1 ⊢
          omega
        spares := hspares.mono (Set.subset_univ _)
        reactor := .keep _
        ink := fun o ↦ .stay (Advance.refl _ o) }

theorem settleBadDebt_effect (hi : Inv now a)
    (h : settleBadDebt cfg authority amount a = .ok a') : Effect now a a' := by
  simp only [settleBadDebt, SupplyTransition.settleBadDebt, bind_eq_ok_iff, require_eq_ok,
    okOr_eq_ok, tokenCall_eq_ok, checkedSub_eq_some, pure_eq_ok, exists_const] at h
  obtain ⟨-, -, -, fusd, hburn, _, ⟨hle, rfl⟩, rfl⟩ := h
  have hspares : Spares Set.univ a.fusd fusd := Spares.of_burn hburn fun k _ ↦ by simp
  exact
    { inv :=
        { hi with
          book := { hi.book with }
          pool := fun rp hrp ↦ (hi.pool rp hrp).trans (hspares _ trivial) }
      mint := rfl
      supply := by
        have := TokenLedger.burn_supply hburn
        simp only [net]
        omega
      spares := hspares.mono (Set.subset_univ _)
      reactor := .keep _
      ink := fun o ↦ .stay (Advance.refl _ o) }

theorem shutdown_effect (hi : Inv clk.unixTimestamp a) (h : shutdown clk a = .ok a') :
    Effect clk.unixTimestamp a a' := by
  simp only [shutdown, bind_eq_ok_iff, require_eq_ok, pure_eq_ok, exists_const] at h
  obtain ⟨-, m₁, hm₁, -, rfl⟩ := h
  obtain ⟨x, ts, hacc⟩ := accrue_spec hi.book.clock hm₁
  exact Effect.of_accrued hi hacc (hacc.params ▸ hi.valid)
    { m₁.toMarketGates with shutdownReason := _ } true _

theorem fundBuffer_effect {funder : Pubkey} (hi : Inv now a)
    (h : fundBuffer funder amount a = .ok a') : Effect now a a' := by
  simp only [fundBuffer, bind_eq_ok_iff, require_eq_ok, okOr_eq_ok, tokenCall_eq_ok, pure_eq_ok,
    exists_const] at h
  obtain ⟨buf, -, -, fusd, hfusd, _, -, rfl⟩ := h
  have hspares : Spares Set.univ a.fusd fusd := Spares.of_transfer hfusd fun k _ ↦ by simp
  exact
    { inv :=
        { hi with pool := fun rp hrp ↦ (hi.pool rp hrp).trans (hspares _ trivial) }
      mint := rfl
      supply := by rw [TokenLedger.transfer_supply hfusd]
      spares := hspares.mono (Set.subset_univ _)
      reactor := .keep _
      ink := fun o ↦ .stay (Advance.refl _ o) }

theorem payFromCounter_effect {counter : ℕ} {m' : Market} {recipient : CollHolder}
    (hi : Inv now a) (h : payFromCounter cfg authority counter m' recipient amount a = .ok a')
    (hbook : Book now m' a.state.bitmap a.state.positions a.state.tally)
    (hparams : m'.toMarketParams = a.state.market.toMarketParams)
    (hnet : net m' = net a.state.market)
    (hcounter : amount ≤ counter → tracked m' + amount = tracked a.state.market) :
    Effect now a a' := by
  simp only [payFromCounter, bind_eq_ok_iff, require_eq_ok, tokenCall_eq_ok, pure_eq_ok,
    exists_const] at h
  obtain ⟨hne, -, -, hle, coll, hcoll, rfl⟩ := h
  have hvault := TokenLedger.transfer_balance hcoll .vault
  have htracked := hcounter hle
  exact
    { inv :=
        { hi with
          book := hbook
          vault := by
            have := hi.vault
            simp only [if_true, hne.symm, if_false] at hvault ⊢
            omega
          valid := by
            rw [hparams]
            exact hi.valid }
      mint := rfl
      supply := by
        dsimp only
        rw [hnet]
      spares := Spares.refl _ _
      reactor := .keep _
      ink := fun o ↦ .stay (Advance.refl _ o) }

theorem sweepProtocolCollateralUnchecked_effect {recipient : CollHolder} (hi : Inv now a)
    (h : sweepProtocolCollateralUnchecked cfg authority recipient amount a = .ok a') :
    Effect now a a' :=
  payFromCounter_effect hi h { hi.book with } rfl rfl fun hle ↦ by
    simp only [tracked]
    omega

theorem sweepProtocolCollateral_effect {recipient : CollHolder} (hi : Inv now a)
    (h : sweepProtocolCollateral cfg authority recipient amount a = .ok a') :
    Effect now a a' :=
  sweepProtocolCollateralUnchecked_effect hi (of_vaultChecked h)

theorem withdrawSurplusUnchecked_effect {recipient : CollHolder} (hi : Inv now a)
    (h : withdrawSurplusUnchecked cfg authority recipient amount a = .ok a') : Effect now a a' :=
  payFromCounter_effect hi h { hi.book with } rfl rfl fun hle ↦ by
    simp only [tracked]
    omega

theorem withdrawSurplus_effect {recipient : CollHolder} (hi : Inv now a)
    (h : withdrawSurplus cfg authority recipient amount a = .ok a') : Effect now a a' :=
  withdrawSurplusUnchecked_effect hi (of_vaultChecked h)

theorem storeLine_effect {l : DebtCeilingLine} (hi : Inv clk.unixTimestamp a)
    (h : storeLine clk l a = .ok a') : Effect clk.unixTimestamp a a' := by
  simp only [storeLine, bind_eq_ok_iff, pure_eq_ok] at h
  obtain ⟨m₁, hm₁, rfl⟩ := h
  obtain ⟨x, ts, hacc⟩ := accrue_spec hi.book.clock hm₁
  have hvalid : m₁.toMarketParams.Valid := hacc.params ▸ hi.valid
  have hceiling : (applyLine l.line l.gap m₁).toMarketParams.Valid := { hvalid with }
  exact Effect.of_accrued hi hacc hceiling m₁.toMarketGates m₁.shutdown _

theorem initDebtCeilingLine_effect {line gap ttl : ℕ} (hi : Inv clk.unixTimestamp a)
    (h : initDebtCeilingLine cfg authority clk line gap ttl a = .ok a') :
    Effect clk.unixTimestamp a a' := by
  simp only [initDebtCeilingLine, bind_eq_ok_iff, require_eq_ok, exists_const] at h
  obtain ⟨-, -, h⟩ := h
  exact storeLine_effect hi h

theorem setDebtCeilingLine_effect {line gap ttl : ℕ} (hi : Inv clk.unixTimestamp a)
    (h : setDebtCeilingLine cfg authority clk line gap ttl a = .ok a') :
    Effect clk.unixTimestamp a a' := by
  simp only [setDebtCeilingLine, bind_eq_ok_iff, require_eq_ok, exists_const] at h
  obtain ⟨-, -, h⟩ := h
  exact storeLine_effect hi h

theorem bumpDebtCeiling_effect (hi : Inv clk.unixTimestamp a)
    (h : bumpDebtCeiling clk a = .ok a') : Effect clk.unixTimestamp a a' := by
  simp only [bumpDebtCeiling, bind_eq_ok_iff, require_eq_ok, exists_const] at h
  obtain ⟨l, -, -, h⟩ := h
  exact storeLine_effect hi h

theorem guardianDerisk_effect {pauseSecs : ℕ} (hi : Inv now a)
    (h : guardianDerisk cfg authority clk pauseSecs a = .ok a') : Effect now a a' := by
  simp only [guardianDerisk, bind_eq_ok_iff, require_eq_ok, pure_eq_ok, exists_const] at h
  obtain ⟨-, -, rfl⟩ := h
  exact Effect.of_reset hi hi.valid
    { a.state.market.toMarketGates with guardianPausedUntil := _ } a.state.market.shutdown

theorem updatePrice_effect {commit : Option PriceCommit} (hi : Inv now a)
    (h : updatePrice clk commit a = .ok a') : Effect now a a' := by
  -- whatever the aggregate says, only gates are written
  obtain ⟨gates, rfl⟩ : ∃ gates : MarketGates, a' = { a with
      state := { a.state with market := { a.state.market with toMarketGates := gates } } } := by
    cases h
    cases commit with
    | none => exact ⟨{ a.state.market.toMarketGates with mintFrozen := true }, rfl⟩
    | some c =>
      dsimp only
      cases c.price with
      | none => exact ⟨{ a.state.market.toMarketGates with
          mintFrozen := c.mintFrozen, liqDivergenceUntil := _ }, rfl⟩
      | some price =>
        dsimp only
        split
        · exact ⟨{ a.state.market.toMarketGates with
            mintFrozen := c.mintFrozen
            liqDivergenceUntil := _
            liqGraceUntil := _
            spot := _
            debtSpot := _
            spotUpdatedSlot := _ }, rfl⟩
        · exact ⟨{ a.state.market.toMarketGates with
            mintFrozen := c.mintFrozen, liqDivergenceUntil := _ }, rfl⟩
  exact Effect.of_reset hi hi.valid gates a.state.market.shutdown

theorem rebindFeeds_effect (hi : Inv now a) (h : rebindFeeds cfg authority clk a = .ok a') :
    Effect now a a' := by
  simp only [rebindFeeds, bind_eq_ok_iff, require_eq_ok, pure_eq_ok, exists_const] at h
  obtain ⟨-, rfl⟩ := h
  exact Effect.of_reset hi hi.valid
    { a.state.market.toMarketGates with spotUpdatedSlot := _ } a.state.market.shutdown

end Effects

end FusionCore
