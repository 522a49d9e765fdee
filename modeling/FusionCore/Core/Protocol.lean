import FusionCore.Lib.Machine
import FusionCore.Core.Governance
import FusionCore.Core.Redemption

/-!
# The protocol

All markets over one fUSD mint, the global backstop and the supply reconciliation.  A run of
the protocol is any sequence of successful instructions under a clock that never goes back,
interleaved with transfers between token accounts outside the program.
-/

namespace FusionCore

open Checked

/-! ## The environment of a market -/

/-- Collateral enters circulation. -/
def mintCollateral (owner : Pubkey) (amount : ℕ) (a : Accounts) :
    Except ProgramError Accounts := do
  let coll ← tokenCall (a.state.coll.mintTo (.wallet owner) amount)
  pure { a with state := { a.state with coll } }

/-- Collateral leaves circulation. -/
def burnCollateral (owner : Pubkey) (amount : ℕ) (a : Accounts) :
    Except ProgramError Accounts := do
  let coll ← tokenCall (a.state.coll.burn (.wallet owner) amount)
  pure { a with state := { a.state with coll } }

/-- A holder sends collateral to any account; what reaches the vault is a donation. -/
def transferCollateral (owner : Pubkey) (dst : CollHolder) (amount : ℕ) (a : Accounts) :
    Except ProgramError Accounts := do
  let coll ← tokenCall (a.state.coll.transfer (.wallet owner) dst amount)
  pure { a with
    state := { a.state with
      coll
      donated := a.state.donated + if dst = .vault then amount else 0 } }

/-! ## Instructions on one market -/

inductive MarketInstr where
  | openPosition (owner : Pubkey) (userRateBps : UInt16)
  | closePosition (owner : Pubkey)
  | deposit (owner : Pubkey) (amount : UInt64)
  | withdraw (owner : Pubkey) (amount : UInt64)
  | borrow (owner : Pubkey) (amount : UInt64)
  | repay (owner : Pubkey) (amount : UInt64)
  | adjustRate (owner : Pubkey) (newRateBps : UInt16)
  | claimCollSurplus (owner : Pubkey)
  | redeem (redeemer : Pubkey) (amount : UInt64) (candidates : List Candidate)
  | urgentRedeem (redeemer : Pubkey) (amount : UInt64) (candidates : List Candidate)
  | liquidate (liquidator owner : Pubkey) (withBackstop : Bool)
  | openReactorDeposit (owner : Pubkey)
  | provideToReactor (owner : Pubkey) (amount : UInt64)
  | withdrawFromReactor (owner : Pubkey) (amount : UInt64)
  | claimReactorGains (owner : Pubkey)
  | refreshMarket (cranker : Option FusdHolder) (withBackstop : Bool)
  | settleBadDebt (authority : Pubkey) (amount : UInt64)
  | shutdown
  | fundBuffer (funder : Pubkey) (amount : UInt64)
  | sweepProtocolCollateral (authority : Pubkey) (recipient : CollHolder) (amount : UInt64)
  | withdrawSurplus (authority : Pubkey) (recipient : CollHolder) (amount : UInt64)
  | initReactorPool (authority : Pubkey)
  | initInsuranceBuffer (authority : Pubkey)
  | initDebtCeilingLine (authority : Pubkey) (line gap : UInt64) (ttl : ℕ)
  | setDebtCeilingLine (authority : Pubkey) (line gap : UInt64) (ttl : ℕ)
  | bumpDebtCeiling
  | guardianDerisk (authority : Pubkey) (pauseSecs : ℕ)
  | updatePrice (commit : Option PriceCommit)
  | rebindFeeds (authority : Pubkey)
  | executeParamChange (param : MarketParam) (value : UInt64)
  | mintCollateral (owner : Pubkey) (amount : UInt64)
  | burnCollateral (owner : Pubkey) (amount : UInt64)
  | transferCollateral (owner : Pubkey) (dst : CollHolder) (amount : UInt64)

def MarketInstr.run (cfg : Config) (clk : Clock) :
    MarketInstr → Accounts → Except ProgramError Accounts
  | .openPosition owner rate => FusionCore.openPosition clk owner rate.toNat
  | .closePosition owner => FusionCore.closePosition owner
  | .deposit owner amount => FusionCore.deposit clk owner amount.toNat
  | .withdraw owner amount => FusionCore.withdraw clk owner amount.toNat
  | .borrow owner amount => FusionCore.borrow clk owner amount.toNat
  | .repay owner amount => FusionCore.repay clk owner amount.toNat
  | .adjustRate owner rate => FusionCore.adjustRate clk owner rate.toNat
  | .claimCollSurplus owner => FusionCore.claimCollSurplus owner
  | .redeem redeemer amount candidates =>
      FusionCore.redeem clk redeemer amount.toNat candidates
  | .urgentRedeem redeemer amount candidates =>
      FusionCore.urgentRedeem clk redeemer amount.toNat candidates
  | .liquidate liquidator owner withBackstop =>
      FusionCore.liquidate clk liquidator owner withBackstop
  | .openReactorDeposit owner => FusionCore.openReactorDeposit owner
  | .provideToReactor owner amount => FusionCore.provideToReactor owner amount.toNat
  | .withdrawFromReactor owner amount => FusionCore.withdrawFromReactor owner amount.toNat
  | .claimReactorGains owner => FusionCore.claimReactorGains owner
  | .refreshMarket cranker withBackstop => FusionCore.refreshMarket clk cranker withBackstop
  | .settleBadDebt authority amount => FusionCore.settleBadDebt cfg authority amount.toNat
  | .shutdown => FusionCore.shutdown clk
  | .fundBuffer funder amount => FusionCore.fundBuffer funder amount.toNat
  | .sweepProtocolCollateral authority recipient amount =>
      FusionCore.sweepProtocolCollateral cfg authority recipient amount.toNat
  | .withdrawSurplus authority recipient amount =>
      FusionCore.withdrawSurplus cfg authority recipient amount.toNat
  | .initReactorPool authority => FusionCore.initReactorPool cfg authority
  | .initInsuranceBuffer authority => FusionCore.initInsuranceBuffer cfg authority
  | .initDebtCeilingLine authority line gap ttl =>
      FusionCore.initDebtCeilingLine cfg authority clk line.toNat gap.toNat ttl
  | .setDebtCeilingLine authority line gap ttl =>
      FusionCore.setDebtCeilingLine cfg authority clk line.toNat gap.toNat ttl
  | .bumpDebtCeiling => FusionCore.bumpDebtCeiling clk
  | .guardianDerisk authority pauseSecs =>
      FusionCore.guardianDerisk cfg authority clk pauseSecs
  | .updatePrice commit => FusionCore.updatePrice clk commit
  | .rebindFeeds authority => FusionCore.rebindFeeds cfg authority clk
  | .executeParamChange param value => FusionCore.executeParamChange clk param value.toNat
  | .mintCollateral owner amount => FusionCore.mintCollateral owner amount.toNat
  | .burnCollateral owner amount => FusionCore.burnCollateral owner amount.toNat
  | .transferCollateral owner dst amount => FusionCore.transferCollateral owner dst amount.toNat

/-! ## The protocol state -/

structure SupplyReconciliation where
  lastTs : ℕ
  lastMarketCount : ℕ
  lastMintSupply : ℕ
  lastBacking : ℕ
  lastResidual : ℤ
  deriving DecidableEq, Repr

/-- The accounts of the program.  Markets are keyed by their collateral mint. -/
structure Protocol where
  config : Config
  fusd : TokenLedger FusdHolder
  backstop : Option GlobalBackstopReserve
  markets : Table Pubkey MarketState
  recon : Option SupplyReconciliation

def Protocol.genesis (cfg : Config) : Protocol := ⟨cfg, .empty, none, ∅, none⟩

/-- Run an instruction on one market. -/
def Protocol.onMarket (s : Protocol) (mint : Pubkey)
    (run : Accounts → Except ProgramError Accounts) : Except ProgramError Protocol := do
  let state ← okOr (s.markets.lookup mint) .accountNotInitialized
  let a ← run ⟨state, s.fusd, s.backstop⟩
  pure { s with
    fusd := a.fusd
    backstop := a.backstop
    markets := s.markets.insert mint a.state }

/-! ## Global backstop -/

inductive GlobalParam where
  | cut
  | reserveCap
  | drawBase
  | drawK
  | drawCeilingShare
  | drawDebtShare
  deriving DecidableEq, Repr

def MAX_BACKSTOP_CUT_BPS : ℕ := 3000

def MAX_BACKSTOP_DRAW_K_BPS : ℕ := 100000

def MAX_BACKSTOP_DRAW_CEILING_SHARE_BPS : ℕ := 10000

def MAX_BACKSTOP_DRAW_DEBT_SHARE_BPS : ℕ := 10000

def validateGlobalParam (param : GlobalParam) (value : ℕ) : Except ProgramError Unit :=
  match param with
  | .cut => require (value ≤ MAX_BACKSTOP_CUT_BPS) .paramOutOfBounds
  | .reserveCap => pure ()
  | .drawBase => pure ()
  | .drawK => require (value ≤ MAX_BACKSTOP_DRAW_K_BPS) .paramOutOfBounds
  | .drawCeilingShare => require (value ≤ MAX_BACKSTOP_DRAW_CEILING_SHARE_BPS) .paramOutOfBounds
  | .drawDebtShare => require (value ≤ MAX_BACKSTOP_DRAW_DEBT_SHARE_BPS) .paramOutOfBounds

def applyGlobalParam (b : GlobalBackstopReserve) (param : GlobalParam) (value : ℕ) :
    GlobalBackstopReserve :=
  match param with
  | .cut => { b with cutBps := truncate 16 value }
  | .reserveCap => { b with reserveCap := value }
  | .drawBase => { b with drawBaseAllowance := value }
  | .drawK => { b with drawKBps := value }
  | .drawCeilingShare => { b with drawCeilingShareBps := truncate 16 value }
  | .drawDebtShare => { b with drawDebtShareBps := truncate 16 value }

/-- The reserve starts switched off: every default is zero. -/
def initGlobalBackstop (authority : Pubkey) (s : Protocol) : Except ProgramError Protocol := do
  require (s.backstop.isNone) .accountAlreadyInUse
  require (authority = s.config.govAuthority) .unauthorized
  pure { s with backstop := some ⟨0, 0, 0, 0, 0, 0, 0, 0, 0⟩ }

def fundBackstop (funder : Pubkey) (amount : ℕ) (s : Protocol) :
    Except ProgramError Protocol := do
  let b ← okOr s.backstop .accountNotInitialized
  require (0 < amount) .zeroAmount
  let fusd ← tokenCall (s.fusd.transfer (.wallet funder) .backstopVault amount)
  let totalContributed ← okOr (checkedAdd 128 b.totalContributed amount) .mathOverflow
  pure { s with fusd, backstop := some { b with totalContributed } }

def withdrawBackstopExcess (authority : Pubkey) (recipient : FusdHolder) (amount : ℕ)
    (s : Protocol) : Except ProgramError Protocol := do
  let b ← okOr s.backstop .accountNotInitialized
  require (authority = s.config.inboundAuthority) .unauthorized
  require (0 < amount) .zeroAmount
  require (recipient ≠ .backstopVault) .invalidRecipient
  require (amount ≤ s.fusd.balance .backstopVault - b.reserveCap) .insufficientBackstopExcess
  let fusd ← tokenCall (s.fusd.transfer .backstopVault recipient amount)
  let totalWithdrawn ← okOr (checkedAdd 128 b.totalWithdrawn amount) .mathOverflow
  pure { s with fusd, backstop := some { b with totalWithdrawn } }

def executeGlobalParamChange (param : GlobalParam) (value : ℕ) (s : Protocol) :
    Except ProgramError Protocol := do
  let b ← okOr s.backstop .accountNotInitialized
  validateGlobalParam param value
  pure { s with backstop := some (applyGlobalParam b param value) }

/-! ## Supply reconciliation -/

/-- A cast of a `u128` to `i128`. -/
def asI128 (n : ℕ) : ℤ := Int.bmod n (2 ^ 128)

def saturatingSubI128 (a b : ℤ) : ℤ := max (-2 ^ 127) (min (a - b) (2 ^ 127 - 1))

/-- The two sums of the reconciliation loop, and the markets already counted. -/
structure ReconcileSums where
  seen : List Pubkey
  aggPlusBad : ℕ
  unminted : ℕ

def reconcileOne (s : Protocol) (acc : ReconcileSums) (mint : Pubkey) :
    Except ProgramError ReconcileSums := do
  require (mint ∉ acc.seen) .duplicateRedemptionTarget
  let state ← okOr (s.markets.lookup mint) .invalidRecipient
  let withAgg ← okOr (checkedAdd 128 acc.aggPlusBad state.market.aggRecordedDebt) .mathOverflow
  let aggPlusBad ← okOr (checkedAdd 128 withAgg state.market.badDebt) .mathOverflow
  let unminted ← okOr (checkedAdd 128 acc.unminted state.market.unmintedInterest) .mathOverflow
  pure ⟨mint :: acc.seen, aggPlusBad, unminted⟩

def initSupplyReconciliation (authority : Pubkey) (s : Protocol) :
    Except ProgramError Protocol := do
  require (s.recon.isNone) .accountAlreadyInUse
  require (authority = s.config.govAuthority) .unauthorized
  pure { s with recon := some ⟨0, 0, 0, 0, 0⟩ }

/-- Stamp the difference between what the markets back and what is minted. -/
def reconcileSupply (clk : Clock) (mints : List Pubkey) (s : Protocol) :
    Except ProgramError Protocol := do
  require (s.recon.isSome) .accountNotInitialized
  require (mints.length ≤ MAX_RECONCILE_MARKETS) .tooManyRedemptionCandidates
  let sums ← mints.foldlM (reconcileOne s) ⟨[], 0, 0⟩
  let backing := sums.aggPlusBad - sums.unminted
  pure { s with
    recon := some
      { lastTs := clk.unixTimestamp
        lastMarketCount := mints.length
        lastMintSupply := s.fusd.supply
        lastBacking := backing
        lastResidual := saturatingSubI128 (asI128 backing) (asI128 s.fusd.supply) } }

/-! ## Runs -/

inductive Instr where
  | market (mint : Pubkey) (i : MarketInstr)
  | initMarket (authority mint : Pubkey) (freezeAuthority : Option Pubkey)
      (args : InitMarketArgs)
  | initGlobalBackstop (authority : Pubkey)
  | fundBackstop (funder : Pubkey) (amount : UInt64)
  | withdrawBackstopExcess (authority : Pubkey) (recipient : FusdHolder) (amount : UInt64)
  | executeGlobalParamChange (param : GlobalParam) (value : UInt64)
  | initSupplyReconciliation (authority : Pubkey)
  | reconcileSupply (mints : List Pubkey)
  | transferFusd (owner : Pubkey) (dst : FusdHolder) (amount : UInt64)

def Instr.run (clk : Clock) : Instr → Protocol → Except ProgramError Protocol
  | .market mint i, s => s.onMarket mint (i.run s.config clk)
  | .initMarket authority mint freezeAuthority args, s => do
    require (s.markets.lookup mint = none) .accountAlreadyInUse
    let state ← FusionCore.initMarket s.config authority clk mint freezeAuthority args
    pure { s with markets := s.markets.insert mint state }
  | .initGlobalBackstop authority, s => FusionCore.initGlobalBackstop authority s
  | .fundBackstop funder amount, s => FusionCore.fundBackstop funder amount.toNat s
  | .withdrawBackstopExcess authority recipient amount, s =>
      FusionCore.withdrawBackstopExcess authority recipient amount.toNat s
  | .executeGlobalParamChange param value, s =>
      FusionCore.executeGlobalParamChange param value.toNat s
  | .initSupplyReconciliation authority, s => FusionCore.initSupplyReconciliation authority s
  | .reconcileSupply mints, s => FusionCore.reconcileSupply clk mints s
  | .transferFusd owner dst amount, s => do
    let fusd ← tokenCall (s.fusd.transfer (.wallet owner) dst amount.toNat)
    pure { s with fusd }

/-- One clock is not behind another. -/
structure Clock.Le (c c' : Clock) : Prop where
  slot : c.slot ≤ c'.slot
  unixTimestamp : c.unixTimestamp ≤ c'.unixTimestamp
  epoch : c.epoch ≤ c'.epoch

structure World where
  clock : Clock
  protocol : Protocol

structure Event where
  clock : Clock
  instr : Instr

/-- The program as a machine: any instruction, by anyone, at any later time. -/
def fusdCore : Machine World Event where
  init w := ∃ cfg, w.protocol = Protocol.genesis cfg
  step e w w' := w.clock.Le e.clock ∧ e.instr.run e.clock w.protocol = .ok w'.protocol ∧
    w'.clock = e.clock

theorem fusdCore_init_markets (w : World) (h : fusdCore.init w) : w.protocol.markets = ∅ := by
  obtain ⟨cfg, hw⟩ := h
  rw [hw]
  rfl

instance (c c' : Clock) : Decidable (c.Le c') :=
  decidable_of_iff (c.slot ≤ c'.slot ∧ c.unixTimestamp ≤ c'.unixTimestamp ∧ c.epoch ≤ c'.epoch)
    ⟨fun ⟨h₁, h₂, h₃⟩ ↦ ⟨h₁, h₂, h₃⟩, fun ⟨h₁, h₂, h₃⟩ ↦ ⟨h₁, h₂, h₃⟩⟩

/-- Execute a list of events, each only where the guard `G` allows it; `none` as soon as one of
them fails. -/
def World.execute (G : Event → World → Prop) [∀ e w, Decidable (G e w)] (w : World) :
    List Event → Option World
  | [] => some w
  | e :: es =>
    if G e w ∧ w.clock.Le e.clock then
      match e.instr.run e.clock w.protocol with
      | .ok s => World.execute G ⟨e.clock, s⟩ es
      | .error _ => none
    else none

theorem World.reachable_of_execute {G : Event → World → Prop} [∀ e w, Decidable (G e w)]
    {es : List Event} {w w' : World} (hw : fusdCore.Reachable G w)
    (h : w.execute G es = some w') : fusdCore.Reachable G w' := by
  induction es generalizing w with
  | nil => exact Option.some.inj h ▸ hw
  | cons e es ih =>
    rw [World.execute] at h
    split at h
    next hg =>
      split at h
      next s hs => exact ih (.step e hw hg.1 ⟨hg.2, hs, rfl⟩) h
      next => cases h
    next => cases h

/-! ## The invariant of the protocol -/

structure Protocol.Inv (now : ℕ) (s : Protocol) : Prop where
  markets : ∀ mint state, s.markets.lookup mint = some state →
    state.mint = mint ∧ FusionCore.Inv now ⟨state, s.fusd, s.backstop⟩
  supply : (s.fusd.supply : ℤ) = s.markets.total fun state ↦ net state.market

section Effects

variable {now amount : ℕ} {owner : Pubkey} {a a' : Accounts} {clk : Clock}

theorem Effect.of_coll {coll : TokenLedger CollHolder} {donated : ℕ} (hi : Inv now a)
    (hvault : coll.balance .vault + a.state.donated = a.state.coll.balance .vault + donated) :
    Effect now a { a with state := { a.state with coll, donated } } where
  inv :=
    { hi with
      vault := by
        have := hi.vault
        dsimp only
        omega }
  mint := rfl
  supply := rfl
  spares := Spares.refl _ _
  reactor := .keep _
  ink := fun o ↦ .stay (Advance.refl _ o)

theorem mintCollateral_effect (hi : Inv now a) (h : mintCollateral owner amount a = .ok a') :
    Effect now a a' := by
  simp only [mintCollateral, bind_eq_ok_iff, tokenCall_eq_ok, pure_eq_ok] at h
  obtain ⟨coll, hcoll, rfl⟩ := h
  have := TokenLedger.mintTo_balance hcoll .vault
  exact Effect.of_coll hi (by simpa using this)

theorem burnCollateral_effect (hi : Inv now a) (h : burnCollateral owner amount a = .ok a') :
    Effect now a a' := by
  simp only [burnCollateral, bind_eq_ok_iff, tokenCall_eq_ok, pure_eq_ok] at h
  obtain ⟨coll, hcoll, rfl⟩ := h
  have := TokenLedger.burn_balance hcoll .vault
  exact Effect.of_coll hi (by simpa using this)

theorem transferCollateral_effect {dst : CollHolder} (hi : Inv now a)
    (h : transferCollateral owner dst amount a = .ok a') : Effect now a a' := by
  simp only [transferCollateral, bind_eq_ok_iff, tokenCall_eq_ok, pure_eq_ok] at h
  obtain ⟨coll, hcoll, rfl⟩ := h
  have hbal := TokenLedger.transfer_balance hcoll .vault
  refine Effect.of_coll hi ?_
  by_cases hdst : dst = .vault
  · subst hdst
    simp only [reduceCtorEq, if_false, if_true] at hbal ⊢
    omega
  · have hdst' : CollHolder.vault ≠ dst := fun h ↦ hdst h.symm
    simp only [reduceCtorEq, if_false, hdst', hdst] at hbal ⊢
    omega

theorem MarketInstr.run_effect {cfg : Config} {i : MarketInstr}
    (hi : Inv clk.unixTimestamp a) (h : i.run cfg clk a = .ok a') :
    Effect clk.unixTimestamp a a' := by
  cases i with
  | openPosition => exact openPosition_effect hi h
  | closePosition => exact closePosition_effect hi h
  | deposit => exact deposit_effect hi h
  | withdraw => exact withdraw_effect hi h
  | borrow => exact borrow_effect hi h
  | repay _ amount => exact repay_effect amount.toNat_lt hi h
  | adjustRate => exact adjustRate_effect hi h
  | claimCollSurplus => exact claimCollSurplus_effect hi h
  | redeem _ amount => exact redeem_effect amount.toNat_lt hi h
  | urgentRedeem _ amount => exact urgentRedeem_effect amount.toNat_lt hi h
  | liquidate => exact liquidate_effect hi h
  | openReactorDeposit => exact openReactorDeposit_effect hi h
  | provideToReactor => exact provideToReactor_effect hi h
  | withdrawFromReactor => exact withdrawFromReactor_effect hi h
  | claimReactorGains => exact claimReactorGains_effect hi h
  | refreshMarket => exact refreshMarket_effect hi h
  | settleBadDebt => exact settleBadDebt_effect hi h
  | shutdown => exact shutdown_effect hi h
  | fundBuffer => exact fundBuffer_effect hi h
  | sweepProtocolCollateral => exact sweepProtocolCollateral_effect hi h
  | withdrawSurplus => exact withdrawSurplus_effect hi h
  | initReactorPool => exact initReactorPool_effect hi h
  | initInsuranceBuffer => exact initInsuranceBuffer_effect hi h
  | initDebtCeilingLine => exact initDebtCeilingLine_effect hi h
  | setDebtCeilingLine => exact setDebtCeilingLine_effect hi h
  | bumpDebtCeiling => exact bumpDebtCeiling_effect hi h
  | guardianDerisk => exact guardianDerisk_effect hi h
  | updatePrice => exact updatePrice_effect hi h
  | rebindFeeds => exact rebindFeeds_effect hi h
  | executeParamChange => exact executeParamChange_effect hi h
  | mintCollateral => exact mintCollateral_effect hi h
  | burnCollateral => exact burnCollateral_effect hi h
  | transferCollateral => exact transferCollateral_effect hi h

end Effects

section Runs

variable {now : ℕ} {s s' : Protocol} {clk : Clock}

theorem Inv.frame {state : MarketState} {fusd fusd' : TokenLedger FusdHolder}
    {bs bs' : Option GlobalBackstopReserve} (hi : Inv now ⟨state, fusd, bs⟩)
    (hs : Spares {state.mint} fusd fusd') : Inv now ⟨state, fusd', bs'⟩ :=
  { hi with pool := fun rp hrp ↦ (hi.pool rp hrp).trans (hs state.mint rfl) }

theorem Protocol.Inv.mono {now' : ℕ} (hi : s.Inv now) (h : now ≤ now') : s.Inv now' :=
  { hi with
    markets := fun mint state hl ↦
      ⟨(hi.markets mint state hl).1, (hi.markets mint state hl).2.mono h⟩ }

/-- Steps that leave the markets, the supply and the pools' fUSD alone. -/
theorem Protocol.Inv.of_frame (hi : s.Inv now) (hmarkets : s'.markets = s.markets)
    (hsupply : s'.fusd.supply = s.fusd.supply) (hs : Spares Set.univ s.fusd s'.fusd) :
    s'.Inv now where
  markets := by
    intro mint state hl
    rw [hmarkets] at hl
    obtain ⟨hmint, hinv⟩ := hi.markets mint state hl
    exact ⟨hmint, hinv.frame (hs.mono (Set.subset_univ _))⟩
  supply := by
    rw [hmarkets, hsupply]
    exact hi.supply

theorem Protocol.onMarket_cases {p p' : Protocol} {mint : Pubkey}
    {run : Accounts → Except ProgramError Accounts} (h : p.onMarket mint run = .ok p') :
    ∃ state a', p.markets.lookup mint = some state ∧ run ⟨state, p.fusd, p.backstop⟩ = .ok a' ∧
      p' = { p with
        fusd := a'.fusd
        backstop := a'.backstop
        markets := p.markets.insert mint a'.state } := by
  simp only [Protocol.onMarket, bind_eq_ok_iff, okOr_eq_ok, pure_eq_ok] at h
  obtain ⟨state, hl, a', ha', rfl⟩ := h
  exact ⟨state, a', hl, ha', rfl⟩

theorem Protocol.Inv.onMarket {mint : Pubkey} {run : Accounts → Except ProgramError Accounts}
    (hi : s.Inv now)
    (hrun : ∀ a a', FusionCore.Inv now a → run a = .ok a' → Effect now a a')
    (h : s.onMarket mint run = .ok s') : s'.Inv now := by
  obtain ⟨state, a', hl, ha', rfl⟩ := Protocol.onMarket_cases h
  obtain ⟨rfl, hinv⟩ := hi.markets mint state hl
  have he := hrun _ a' hinv ha'
  exact
    { markets := by
        intro mint' state' hl'
        by_cases hmint : mint' = state.mint
        · subst hmint
          obtain rfl : a'.state = state' := by simpa using hl'
          exact ⟨he.mint, he.inv⟩
        · -- another market sees only what happened to its Reactor Pool vault
          rw [AList.lookup_insert_ne hmint] at hl'
          obtain ⟨rfl, hinv'⟩ := hi.markets mint' state' hl'
          exact ⟨rfl, hinv'.frame (he.spares.mono (by simpa using Ne.symm hmint))⟩
      supply := by
        have h1 := Table.total_insert_of_some (fun s : MarketState ↦ net s.market) a'.state hl
        have h2 := he.supply
        have h3 := hi.supply
        dsimp only at h1 h2 ⊢
        omega }

theorem Protocol.Inv.initMarket {mint : Pubkey} {state : MarketState} (hi : s.Inv now)
    (hnone : s.markets.lookup mint = none) (hmint : state.mint = mint)
    (hnet : net state.market = 0) (hinv : FusionCore.Inv now ⟨state, s.fusd, s.backstop⟩) :
    Protocol.Inv now { s with markets := s.markets.insert mint state } where
  markets := by
    intro mint' state' hl'
    by_cases hne : mint' = mint
    · subst hne
      obtain rfl : state = state' := by simpa using hl'
      exact ⟨hmint, hinv⟩
    · rw [AList.lookup_insert_ne hne] at hl'
      exact hi.markets mint' state' hl'
  supply := by
    have h1 := Table.total_insert_of_none (fun s : MarketState ↦ net s.market) state hnone
    have h3 := hi.supply
    dsimp only at h1 ⊢
    omega

/-- What an instruction does to the markets: it runs on one of them, creates one, or leaves all
of them, the supply and the pools' fUSD alone. -/
inductive ProtocolMove (clk : Clock) (s s' : Protocol) : Prop where
  | market (mint : Pubkey) (i : MarketInstr) (h : s.onMarket mint (i.run s.config clk) = .ok s')
  | birth (mint : Pubkey) (state : MarketState) (hnone : s.markets.lookup mint = none)
      (hmint : state.mint = mint) (hnet : net state.market = 0)
      (hpositions : state.positions = ∅) (hreactor : state.reactor = none)
      (hinv : FusionCore.Inv clk.unixTimestamp ⟨state, s.fusd, s.backstop⟩)
      (heq : s' = { s with markets := s.markets.insert mint state })
  | rest (hmarkets : s'.markets = s.markets) (hsupply : s'.fusd.supply = s.fusd.supply)
      (hspares : Spares Set.univ s.fusd s'.fusd)

theorem Instr.run_cases {i : Instr} (h : i.run clk s = .ok s') : ProtocolMove clk s s' := by
  cases i with
  | market mint i => exact .market mint i h
  | initMarket authority mint freeze args =>
    simp only [Instr.run, bind_eq_ok_iff, require_eq_ok, pure_eq_ok, exists_const] at h
    obtain ⟨hnone, state, hstate, rfl⟩ := h
    obtain ⟨hmint, hnet, hpositions, hreactor, hinv⟩ := initMarket_inv s.fusd s.backstop hstate
    exact .birth mint state hnone hmint hnet hpositions hreactor hinv rfl
  | initGlobalBackstop authority =>
    simp only [Instr.run, FusionCore.initGlobalBackstop, bind_eq_ok_iff, require_eq_ok,
      pure_eq_ok, exists_const] at h
    obtain ⟨-, -, rfl⟩ := h
    exact .rest rfl rfl (Spares.refl _ _)
  | fundBackstop funder amount =>
    simp only [Instr.run, FusionCore.fundBackstop, bind_eq_ok_iff, okOr_eq_ok, require_eq_ok,
      tokenCall_eq_ok, pure_eq_ok, exists_const] at h
    obtain ⟨b, -, -, fusd, hfusd, _, -, rfl⟩ := h
    exact .rest rfl (TokenLedger.transfer_supply hfusd)
      (Spares.of_transfer hfusd fun k _ ↦ by simp)
  | withdrawBackstopExcess authority recipient amount =>
    simp only [Instr.run, FusionCore.withdrawBackstopExcess, bind_eq_ok_iff, okOr_eq_ok,
      require_eq_ok, tokenCall_eq_ok, pure_eq_ok, exists_const] at h
    obtain ⟨b, -, -, -, -, -, fusd, hfusd, _, -, rfl⟩ := h
    exact .rest rfl (TokenLedger.transfer_supply hfusd)
      (Spares.of_transfer hfusd fun k _ ↦ by simp)
  | executeGlobalParamChange param value =>
    simp only [Instr.run, FusionCore.executeGlobalParamChange, bind_eq_ok_iff, okOr_eq_ok,
      pure_eq_ok] at h
    obtain ⟨b, -, _, -, rfl⟩ := h
    exact .rest rfl rfl (Spares.refl _ _)
  | initSupplyReconciliation authority =>
    simp only [Instr.run, FusionCore.initSupplyReconciliation, bind_eq_ok_iff, require_eq_ok,
      pure_eq_ok, exists_const] at h
    obtain ⟨-, -, rfl⟩ := h
    exact .rest rfl rfl (Spares.refl _ _)
  | reconcileSupply mints =>
    simp only [Instr.run, FusionCore.reconcileSupply, bind_eq_ok_iff, require_eq_ok, pure_eq_ok,
      exists_const] at h
    obtain ⟨-, -, sums, -, rfl⟩ := h
    exact .rest rfl rfl (Spares.refl _ _)
  | transferFusd owner dst amount =>
    simp only [Instr.run, bind_eq_ok_iff, tokenCall_eq_ok, pure_eq_ok] at h
    obtain ⟨fusd, hfusd, rfl⟩ := h
    exact .rest rfl (TokenLedger.transfer_supply hfusd)
      (Spares.of_transfer hfusd fun k _ ↦ by simp)

theorem Instr.run_inv {i : Instr} (hi : s.Inv clk.unixTimestamp) (h : i.run clk s = .ok s') :
    s'.Inv clk.unixTimestamp := by
  cases i.run_cases h with
  | market mint i h => exact hi.onMarket (fun a a' ha ↦ i.run_effect ha) h
  | birth mint state hnone hmint hnet _ _ hinv heq =>
    subst heq
    exact hi.initMarket hnone hmint hnet hinv
  | rest hmarkets hsupply hspares => exact hi.of_frame hmarkets hsupply hspares

theorem fusdCore_inv {G : Event → World → Prop} {w : World} (h : fusdCore.Reachable G w) :
    w.protocol.Inv w.clock.unixTimestamp := by
  refine h.invariant (P := fun w ↦ w.protocol.Inv w.clock.unixTimestamp) ?_ ?_
  · rintro w ⟨cfg, hw⟩
    rw [hw]
    exact ⟨fun mint state hl ↦ (by cases hl), rfl⟩
  · rintro e w w' ih - ⟨hclk, hrun, hw'⟩
    rw [hw']
    exact Instr.run_inv (ih.mono hclk.unixTimestamp) hrun

theorem fusdCore_market_inv {G : Event → World → Prop} {w : World} (h : fusdCore.Reachable G w)
    (hclk : w.clock.Le clk) {mint : Pubkey} {state : MarketState}
    (hl : w.protocol.markets.lookup mint = some state) :
    FusionCore.Inv clk.unixTimestamp ⟨state, w.protocol.fusd, w.protocol.backstop⟩ :=
  (((fusdCore_inv h).mono hclk.unixTimestamp).markets mint state hl).2

end Runs

/-! ## A sample run -/

namespace Sample

def clock : Clock := ⟨1000, 1000000, 1⟩

/-- A market at 120 % for a nine-decimal collateral, with its liquidation infrastructure. -/
def onboard (liqBonusBps : ℕ) : List Instr :=
  [.initMarket 1 7 none ⟨12000, 10 ^ 15, 0, 50, liqBonusBps, 10, 50⟩,
    .market 7 (.initReactorPool 1), .market 7 (.initInsuranceBuffer 1)]

def quote (price : ℕ) : Instr :=
  .market 7 (.updatePrice (some ⟨false, false, some (price, price), false⟩))

/-- An owner deposits collateral and borrows a thousand dollars against it. -/
def borrows (owner : Pubkey) (rateBps : UInt16) (coll : UInt64) : List Instr :=
  [.market 7 (.openPosition owner rateBps), .market 7 (.deposit owner coll),
    .market 7 (.borrow owner 1000000000)]

/-- At 150 dollars one owner borrows against ten tokens. -/
def instrs : List Instr :=
  onboard 0 ++ [.initSupplyReconciliation 1, .market 7 (.mintCollateral 100 1000000000000),
    quote (15 * 10 ^ 25)] ++ borrows 100 500 10000000000

/-- The world after a list of instructions that all come at one time, where `G` allows them. -/
def guardedWorld (G : Event → World → Prop) [∀ e w, Decidable (G e w)] (instrs : List Instr) :
    Option World :=
  World.execute G ⟨clock, Protocol.genesis ⟨1, 2, 3⟩⟩ (instrs.map fun i ↦ ⟨clock, i⟩)

theorem reachable {G : Event → World → Prop} [∀ e w, Decidable (G e w)] {instrs : List Instr}
    {w : World} (h : guardedWorld G instrs = some w) : fusdCore.Reachable G w :=
  World.reachable_of_execute (.init ⟨_, rfl⟩) h

/-- The world after a list of instructions that all come at one time. -/
def world (instrs : List Instr) : Option World := guardedWorld (fun _ _ ↦ True) instrs

theorem reach {instrs : List Instr} {w : World} (h : world instrs = some w) :
    fusdCore.Reach w :=
  reachable h

def later : Clock := ⟨1150, 1000060, 1⟩

/-- Another owner joins.  A minute later, after a fall to 110 dollars, the first position is
liquidated into the second. -/
def redistributed : Option World :=
  (world (instrs ++ .market 7 (.mintCollateral 200 30000000000) ::
    borrows 200 500 30000000000)).bind fun w ↦
  World.execute (fun _ _ ↦ True) w
    [⟨later, quote (11 * 10 ^ 25)⟩, ⟨later, .market 7 (.liquidate 6 100 false)⟩]

/-- Interest has accrued, and both sides of the redistribution are pending. -/
theorem redistributed_spec : ∃ w state, redistributed = some w ∧ fusdCore.Reach w ∧
    w.protocol.markets.lookup 7 = some state ∧ w.clock.Le later ∧
    0 < state.positions.total (interestUntil · state.market.lastUpdateTs) ∧
    0 < state.positions.total (pendingDebt state.market) ∧
    0 < state.positions.total (pendingColl state.market) := by
  have hrun : (redistributed.bind fun w ↦ (w.protocol.markets.lookup 7).map fun state ↦
      decide (w.clock.Le later ∧
        0 < state.positions.total (interestUntil · state.market.lastUpdateTs) ∧
        0 < state.positions.total (pendingDebt state.market) ∧
        0 < state.positions.total (pendingColl state.market))) = some true := by decide +kernel
  obtain ⟨w, hw, hrun⟩ := Option.bind_eq_some_iff.mp hrun
  obtain ⟨state, hl, hfacts⟩ := Option.map_eq_some_iff.mp hrun
  refine ⟨w, state, hw, ?_, hl, of_decide_eq_true hfacts⟩
  obtain ⟨w₀, hw₀, hw⟩ := Option.bind_eq_some_iff.mp hw
  exact World.reachable_of_execute (reach hw₀) hw

end Sample

end FusionCore
