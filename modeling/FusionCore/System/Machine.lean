import FusionCore.Core.Frame
import FusionCore.System.Timelock

/-!
# The program as a whole

The protocol together with the oracles of its markets, the timelock and the keys that hold its
privileges.  Prices come only from the feeds and parameters move only through the timelock; every
other instruction is one of the protocol.
-/

namespace FusionCore

open Checked Oracle

/-- The oracle of a market with its observation ring. -/
structure OracleAccounts where
  oracle : MarketOracle
  ring : DexTwap

/-- All accounts of the program.  Queued changes are keyed by their nonce; `decimals` belongs to
the token mints. -/
structure System where
  protocol : Protocol
  pendingGovAuthority : Pubkey
  programs : OraclePrograms
  decimals : Pubkey → ℕ
  oracles : Table Pubkey OracleAccounts
  gate : Option GovernanceGate
  ops : Table ℕ TimelockedParam
  globalOps : Table ℕ TimelockedGlobalParam

namespace System

def genesis (cfg : Config) (ids : OraclePrograms) (decimals : Pubkey → ℕ) : System :=
  ⟨Protocol.genesis cfg, 0, ids, decimals, ∅, none, ∅, ∅⟩

/-! ## Loading accounts -/

def market (s : System) (mint : Pubkey) : Except ProgramError MarketState :=
  okOr (s.protocol.markets.lookup mint) .accountNotInitialized

def oracleAccounts (s : System) (mint : Pubkey) : Except ProgramError OracleAccounts :=
  okOr (s.oracles.lookup mint) .accountNotInitialized

/-- An oracle that the caller may leave out. -/
def optionalOracle (s : System) (mint : Pubkey) (withOracle : Bool) :
    Except ProgramError (Option OracleAccounts) :=
  if withOracle then do
    let acc ← s.oracleAccounts mint
    pure (some acc)
  else pure none

/-! ## Oracles -/

def initMarketOracle (authority mint quoteMint : Pubkey) (args : InitMarketOracleArgs)
    (s : System) : Except ProgramError System := do
  let _ ← s.market mint
  require ((s.oracles.lookup mint).isNone) .accountAlreadyInUse
  let oracle ← Oracle.initMarketOracle s.protocol.config authority mint (s.decimals mint) quoteMint
    (s.decimals quoteMint) args
  pure { s with oracles := s.oracles.insert mint ⟨oracle, .new⟩ }

def sampleTwap (clk : Clock) (mint : Pubkey) (pool : FeedAccount PoolSample) (s : System) :
    Except ProgramError System := do
  let acc ← s.oracleAccounts mint
  let ring ← Oracle.sampleTwap clk mint pool acc.oracle acc.ring
  pure { s with oracles := s.oracles.insert mint { acc with ring } }

def updatePrice (clk : Clock) (mint : Pubkey) (accs : PriceAccounts) (s : System) :
    Except ProgramError System := do
  let _ ← s.market mint
  let acc ← s.oracleAccounts mint
  let (commit, oracle) ← priceUpdate s.programs clk mint (s.decimals mint) accs acc.oracle acc.ring
  let protocol ← Instr.run clk (.market mint (.updatePrice commit)) s.protocol
  pure { s with protocol, oracles := s.oracles.insert mint { acc with oracle } }

def setOracleProgramIds (authority : Pubkey) (pyth pythAlt switchboard : Option Pubkey)
    (s : System) : Except ProgramError System := do
  require (authority = s.protocol.config.govAuthority) .unauthorized
  let programs ← s.programs.update pyth pythAlt switchboard
  pure { s with programs }

def rebindMarketOracleFeeds (clk : Clock) (authority mint : Pubkey) (b : FeedBindings)
    (s : System) : Except ProgramError System := do
  let acc ← s.oracleAccounts mint
  let protocol ← Instr.run clk (.market mint (.rebindFeeds authority)) s.protocol
  let oracle ← acc.oracle.rebind b
  pure { s with protocol, oracles := s.oracles.insert mint { acc with oracle } }

/-! ## Keys -/

/-- Change the keys of the configuration. -/
def setConfig (s : System) (config : Config) : System :=
  { s with protocol := { s.protocol with config } }

/-- The successor of a seat signs for it; until then the seat does not move. -/
def acceptSeat (signer pending : Pubkey) : Except ProgramError Unit := do
  require (pending ≠ 0) .noPendingAuthority
  require (signer = pending) .unauthorized

def migrateGovAuthority (authority successor : Pubkey) (s : System) :
    Except ProgramError System := do
  require (authority = s.protocol.config.govAuthority) .unauthorized
  pure { s with pendingGovAuthority := successor }

def acceptGovAuthority (signer : Pubkey) (s : System) : Except ProgramError System := do
  acceptSeat signer s.pendingGovAuthority
  pure ({ s with pendingGovAuthority := 0 }.setConfig
    { s.protocol.config with govAuthority := s.pendingGovAuthority })

def setGuardian (authority guardian : Pubkey) (s : System) : Except ProgramError System := do
  require (authority = s.protocol.config.govAuthority) .unauthorized
  pure (s.setConfig { s.protocol.config with guardian })

def initGovernanceGate (authority inboundAuthority : Pubkey) (timelockSecs : ℕ) (s : System) :
    Except ProgramError System := do
  require (s.gate.isNone) .accountAlreadyInUse
  require (authority = s.protocol.config.govAuthority) .unauthorized
  require (inboundAuthority ≠ 0) .paramOutOfBounds
  require (MIN_GOV_TIMELOCK_SECS ≤ timelockSecs ∧ timelockSecs ≤ MAX_GOV_TIMELOCK_SECS)
    .paramOutOfBounds
  pure ({ s with gate := some ⟨0, timelockSecs, 0⟩ }.setConfig
    { s.protocol.config with inboundAuthority })

def migrateInboundAuthority (authority successor : Pubkey) (s : System) :
    Except ProgramError System := do
  let gate ← okOr s.gate .accountNotInitialized
  require (authority = s.protocol.config.inboundAuthority) .unauthorized
  pure { s with gate := some { gate with pendingInboundAuthority := successor } }

def acceptInboundAuthority (signer : Pubkey) (s : System) : Except ProgramError System := do
  let gate ← okOr s.gate .accountNotInitialized
  acceptSeat signer gate.pendingInboundAuthority
  pure ({ s with gate := some { gate with pendingInboundAuthority := 0 } }.setConfig
    { s.protocol.config with inboundAuthority := gate.pendingInboundAuthority })

/-! ## Timelock -/

/-- The gate after one more change has been queued. -/
def bumpNonce (gate : GovernanceGate) : Except ProgramError GovernanceGate := do
  let queueNonce ← okOr (checkedAdd 64 gate.queueNonce 1) .mathOverflow
  pure { gate with queueNonce }

def queueParamChange (clk : Clock) (authority mint : Pubkey) (withOracle : Bool)
    (param : GovernedParam) (value : UInt64) (s : System) : Except ProgramError System := do
  let gate ← okOr s.gate .accountNotInitialized
  let state ← s.market mint
  let oracle ← s.optionalOracle mint withOracle
  require (s.ops.lookup gate.queueNonce = none) .accountAlreadyInUse
  require (authority = s.protocol.config.inboundAuthority) .unauthorized
  validateGovernedParam state.market (oracle.map OracleAccounts.oracle) param value.toNat
  let gate₁ ← bumpNonce gate
  pure { s with
    gate := some gate₁
    ops := s.ops.insert gate.queueNonce ⟨gate.eta clk.unixTimestamp, mint, param, value⟩ }

/-- Write a threshold to the oracle, if it was passed. -/
def writeOracle (s : System) (mint : Pubkey) (param : OracleParam) (value : ℕ) :
    Option OracleAccounts → System
  | none => s
  | some acc =>
    { s with
      oracles := s.oracles.insert mint
        { acc with oracle := applyOracleParam acc.oracle param value } }

/-- Anyone may execute a change whose time has come; its account is closed with it. -/
def executeParamChange (clk : Clock) (nonce : ℕ) (mint : Pubkey) (withOracle : Bool)
    (s : System) : Except ProgramError System := do
  let op ← okOr (s.ops.lookup nonce) .accountNotInitialized
  let _ ← s.market mint
  let oracle ← s.optionalOracle mint withOracle
  require (mint = op.market) .timelockMarketMismatch
  require (op.eta ≤ clk.unixTimestamp) .timelockNotElapsed
  match op.param with
  | .market param => do
    let protocol ← Instr.run clk (.market mint (.executeParamChange param op.value)) s.protocol
    pure { s with protocol, ops := s.ops.erase nonce }
  | .oracle param => do
    validateOracleParam (oracle.map OracleAccounts.oracle) param op.value.toNat
    pure ({ s with ops := s.ops.erase nonce }.writeOracle mint param op.value.toNat oracle)

def cancelParamChange (authority : Pubkey) (nonce : ℕ) (s : System) :
    Except ProgramError System := do
  let _ ← okOr s.gate .accountNotInitialized
  let _ ← okOr (s.ops.lookup nonce) .accountNotInitialized
  require (authority = s.protocol.config.inboundAuthority) .unauthorized
  pure { s with ops := s.ops.erase nonce }

def queueGlobalParamChange (clk : Clock) (authority : Pubkey) (param : GlobalParam)
    (value : UInt64) (s : System) : Except ProgramError System := do
  let gate ← okOr s.gate .accountNotInitialized
  require (s.globalOps.lookup gate.queueNonce = none) .accountAlreadyInUse
  require (authority = s.protocol.config.inboundAuthority) .unauthorized
  validateGlobalParam param value.toNat
  let gate₁ ← bumpNonce gate
  pure { s with
    gate := some gate₁
    globalOps := s.globalOps.insert gate.queueNonce ⟨gate.eta clk.unixTimestamp, param, value⟩ }

def executeGlobalParamChange (clk : Clock) (nonce : ℕ) (s : System) :
    Except ProgramError System := do
  let op ← okOr (s.globalOps.lookup nonce) .accountNotInitialized
  require (s.protocol.backstop.isSome) .accountNotInitialized
  require (op.eta ≤ clk.unixTimestamp) .timelockNotElapsed
  let protocol ← Instr.run clk (.executeGlobalParamChange op.param op.value) s.protocol
  pure { s with protocol, globalOps := s.globalOps.erase nonce }

def cancelGlobalParamChange (authority : Pubkey) (nonce : ℕ) (s : System) :
    Except ProgramError System := do
  let _ ← okOr s.gate .accountNotInitialized
  let _ ← okOr (s.globalOps.lookup nonce) .accountNotInitialized
  require (authority = s.protocol.config.inboundAuthority) .unauthorized
  pure { s with globalOps := s.globalOps.erase nonce }

end System

/-! ## Instructions -/

inductive SystemInstr where
  | core (i : Instr) (hplain : i.plain = true)
  | initMarketOracle (authority mint quoteMint : Pubkey) (args : InitMarketOracleArgs)
  | sampleTwap (mint : Pubkey) (pool : FeedAccount PoolSample)
  | updatePrice (mint : Pubkey) (accs : PriceAccounts)
  | setOracleProgramIds (authority : Pubkey) (pyth pythAlt switchboard : Option Pubkey)
  | rebindMarketOracleFeeds (authority mint : Pubkey) (b : FeedBindings)
  | migrateGovAuthority (authority successor : Pubkey)
  | acceptGovAuthority (signer : Pubkey)
  | setGuardian (authority guardian : Pubkey)
  | initGovernanceGate (authority inboundAuthority : Pubkey) (timelockSecs : ℕ)
  | migrateInboundAuthority (authority successor : Pubkey)
  | acceptInboundAuthority (signer : Pubkey)
  | queueParamChange (authority mint : Pubkey) (withOracle : Bool) (param : GovernedParam)
      (value : UInt64)
  | executeParamChange (nonce : ℕ) (mint : Pubkey) (withOracle : Bool)
  | cancelParamChange (authority : Pubkey) (nonce : ℕ)
  | queueGlobalParamChange (authority : Pubkey) (param : GlobalParam) (value : UInt64)
  | executeGlobalParamChange (nonce : ℕ)
  | cancelGlobalParamChange (authority : Pubkey) (nonce : ℕ)

def SystemInstr.run (clk : Clock) : SystemInstr → System → Except ProgramError System
  | .core i _, s => do
    let protocol ← i.run clk s.protocol
    pure { s with protocol }
  | .initMarketOracle authority mint quoteMint args, s =>
      s.initMarketOracle authority mint quoteMint args
  | .sampleTwap mint pool, s => s.sampleTwap clk mint pool
  | .updatePrice mint accs, s => s.updatePrice clk mint accs
  | .setOracleProgramIds authority pyth pythAlt switchboard, s =>
      s.setOracleProgramIds authority pyth pythAlt switchboard
  | .rebindMarketOracleFeeds authority mint b, s => s.rebindMarketOracleFeeds clk authority mint b
  | .migrateGovAuthority authority successor, s => s.migrateGovAuthority authority successor
  | .acceptGovAuthority signer, s => s.acceptGovAuthority signer
  | .setGuardian authority guardian, s => s.setGuardian authority guardian
  | .initGovernanceGate authority inboundAuthority timelockSecs, s =>
      s.initGovernanceGate authority inboundAuthority timelockSecs
  | .migrateInboundAuthority authority successor, s =>
      s.migrateInboundAuthority authority successor
  | .acceptInboundAuthority signer, s => s.acceptInboundAuthority signer
  | .queueParamChange authority mint withOracle param value, s =>
      s.queueParamChange clk authority mint withOracle param value
  | .executeParamChange nonce mint withOracle, s => s.executeParamChange clk nonce mint withOracle
  | .cancelParamChange authority nonce, s => s.cancelParamChange authority nonce
  | .queueGlobalParamChange authority param value, s =>
      s.queueGlobalParamChange clk authority param value
  | .executeGlobalParamChange nonce, s => s.executeGlobalParamChange clk nonce
  | .cancelGlobalParamChange authority nonce, s => s.cancelGlobalParamChange authority nonce

/-! ## What an instruction can do -/

/-- The instructions that only move keys. -/
def SystemInstr.onKeys : SystemInstr → Bool
  | .setOracleProgramIds .. => true
  | .migrateGovAuthority .. => true
  | .acceptGovAuthority .. => true
  | .setGuardian .. => true
  | .migrateInboundAuthority .. => true
  | .acceptInboundAuthority .. => true
  | _ => false

/-- The wait and the next nonce of a gate. -/
def GovernanceGate.queue (g : GovernanceGate) : ℕ × ℕ := (g.timelockSecs, g.queueNonce)

/-- Everything a successful instruction can do. -/
inductive SystemMove (clk : Clock) (s : System) : SystemInstr → System → Prop where
  | core (i : Instr) (hplain : i.plain = true) (p : Protocol)
      (hrun : i.run clk s.protocol = .ok p) :
      SystemMove clk s (.core i hplain) { s with protocol := p }
  | initMarketOracle (authority mint quoteMint : Pubkey) (args : InitMarketOracleArgs)
      (oracle : MarketOracle) (hmarket : (s.protocol.markets.lookup mint).isSome)
      (hnone : s.oracles.lookup mint = none)
      (hinit : Oracle.initMarketOracle s.protocol.config authority mint (s.decimals mint) quoteMint
        (s.decimals quoteMint) args = .ok oracle) :
      SystemMove clk s (.initMarketOracle authority mint quoteMint args)
        { s with oracles := s.oracles.insert mint ⟨oracle, .new⟩ }
  | sampleTwap (mint : Pubkey) (pool : FeedAccount PoolSample) (acc : OracleAccounts)
      (ring : DexTwap) (hacc : s.oracles.lookup mint = some acc)
      (hsample : Oracle.sampleTwap clk mint pool acc.oracle acc.ring = .ok ring) :
      SystemMove clk s (.sampleTwap mint pool)
        { s with oracles := s.oracles.insert mint { acc with ring } }
  | updatePrice (mint : Pubkey) (accs : PriceAccounts) (acc : OracleAccounts)
      (commit : Option PriceCommit) (oracle : MarketOracle) (p : Protocol)
      (hacc : s.oracles.lookup mint = some acc)
      (hprice : priceUpdate s.programs clk mint (s.decimals mint) accs acc.oracle acc.ring
        = .ok (commit, oracle))
      (hrun : Instr.run clk (.market mint (.updatePrice commit)) s.protocol = .ok p) :
      SystemMove clk s (.updatePrice mint accs)
        { s with protocol := p, oracles := s.oracles.insert mint { acc with oracle } }
  | rebind (authority mint : Pubkey) (b : FeedBindings) (acc : OracleAccounts)
      (oracle : MarketOracle) (p : Protocol) (hacc : s.oracles.lookup mint = some acc)
      (hrun : Instr.run clk (.market mint (.rebindFeeds authority)) s.protocol = .ok p)
      (hrebind : acc.oracle.rebind b = .ok oracle) :
      SystemMove clk s (.rebindMarketOracleFeeds authority mint b)
        { s with protocol := p, oracles := s.oracles.insert mint { acc with oracle } }
  | keys (i : SystemInstr) (hi : i.onKeys = true) (config : Config) (pending : Pubkey)
      (programs : OraclePrograms) (gate : Option GovernanceGate)
      (hgate : gate.map GovernanceGate.queue = s.gate.map GovernanceGate.queue) :
      SystemMove clk s i
        { s with
          protocol := { s.protocol with config }
          pendingGovAuthority := pending
          programs
          gate }
  | initGate (authority inbound : Pubkey) (secs : ℕ) (config : Config) (hnone : s.gate = none) :
      SystemMove clk s (.initGovernanceGate authority inbound secs)
        { s with protocol := { s.protocol with config }, gate := some ⟨0, secs, 0⟩ }
  | queue (authority mint : Pubkey) (withOracle : Bool) (param : GovernedParam) (value : UInt64)
      (gate : GovernanceGate) (state : MarketState) (oracle : Option MarketOracle)
      (hgate : s.gate = some gate) (hmarket : s.protocol.markets.lookup mint = some state)
      (hfree : s.ops.lookup gate.queueNonce = none)
      (hvalid : validateGovernedParam state.market oracle param value.toNat = .ok ()) :
      SystemMove clk s (.queueParamChange authority mint withOracle param value)
        { s with
          gate := some { gate with queueNonce := gate.queueNonce + 1 }
          ops := s.ops.insert gate.queueNonce
            ⟨gate.eta clk.unixTimestamp, mint, param, value⟩ }
  | executeMarket (nonce : ℕ) (mint : Pubkey) (withOracle : Bool) (op : TimelockedParam)
      (param : MarketParam) (p : Protocol) (hop : s.ops.lookup nonce = some op)
      (hparam : op.param = .market param) (hmint : op.market = mint)
      (heta : op.eta ≤ clk.unixTimestamp)
      (hrun : Instr.run clk (.market mint (.executeParamChange param op.value)) s.protocol
        = .ok p) :
      SystemMove clk s (.executeParamChange nonce mint withOracle)
        { s with protocol := p, ops := s.ops.erase nonce }
  | executeOracle (nonce : ℕ) (mint : Pubkey) (withOracle : Bool) (op : TimelockedParam)
      (param : OracleParam) (acc : OracleAccounts) (hop : s.ops.lookup nonce = some op)
      (hparam : op.param = .oracle param) (hmint : op.market = mint)
      (heta : op.eta ≤ clk.unixTimestamp) (hacc : s.oracles.lookup mint = some acc)
      (hvalid : validateOracleParam (some acc.oracle) param op.value.toNat = .ok ()) :
      SystemMove clk s (.executeParamChange nonce mint withOracle)
        { s with
          ops := s.ops.erase nonce
          oracles := s.oracles.insert mint
            { acc with oracle := applyOracleParam acc.oracle param op.value.toNat } }
  | cancel (authority : Pubkey) (nonce : ℕ) (op : TimelockedParam)
      (hop : s.ops.lookup nonce = some op) :
      SystemMove clk s (.cancelParamChange authority nonce) { s with ops := s.ops.erase nonce }
  | queueGlobal (authority : Pubkey) (param : GlobalParam) (value : UInt64)
      (gate : GovernanceGate) (hgate : s.gate = some gate)
      (hfree : s.globalOps.lookup gate.queueNonce = none) :
      SystemMove clk s (.queueGlobalParamChange authority param value)
        { s with
          gate := some { gate with queueNonce := gate.queueNonce + 1 }
          globalOps := s.globalOps.insert gate.queueNonce
            ⟨gate.eta clk.unixTimestamp, param, value⟩ }
  | executeGlobal (nonce : ℕ) (op : TimelockedGlobalParam) (p : Protocol)
      (hop : s.globalOps.lookup nonce = some op) (heta : op.eta ≤ clk.unixTimestamp)
      (hrun : Instr.run clk (.executeGlobalParamChange op.param op.value) s.protocol = .ok p) :
      SystemMove clk s (.executeGlobalParamChange nonce)
        { s with protocol := p, globalOps := s.globalOps.erase nonce }
  | cancelGlobal (authority : Pubkey) (nonce : ℕ) (op : TimelockedGlobalParam)
      (hop : s.globalOps.lookup nonce = some op) :
      SystemMove clk s (.cancelGlobalParamChange authority nonce)
        { s with globalOps := s.globalOps.erase nonce }

section Cases

variable {clk : Clock} {s s' : System}

theorem System.optionalOracle_spec {mint : Pubkey} {withOracle : Bool}
    {acc : Option OracleAccounts} (h : s.optionalOracle mint withOracle = .ok acc) :
    ∀ x ∈ acc, s.oracles.lookup mint = some x := by
  rcases ite_eq_ok.mp h with ⟨-, h⟩ | ⟨-, h⟩
  · simp only [System.oracleAccounts, bind_eq_ok_iff, okOr_eq_ok, pure_eq_ok] at h
    obtain ⟨x, hx, rfl⟩ := h
    rintro _ ⟨⟩
    exact hx
  · cases pure_eq_ok.mp h
    rintro _ ⟨⟩

theorem System.bumpNonce_eq_ok {gate gate' : GovernanceGate}
    (h : System.bumpNonce gate = .ok gate') :
    gate' = { gate with queueNonce := gate.queueNonce + 1 } := by
  simp only [System.bumpNonce, bind_eq_ok_iff, okOr_eq_ok, checkedAdd_eq_some, pure_eq_ok] at h
  obtain ⟨_, ⟨-, rfl⟩, rfl⟩ := h
  rfl

theorem System.executeParamChange_cases {nonce : ℕ} {mint : Pubkey} {withOracle : Bool}
    (h : s.executeParamChange clk nonce mint withOracle = .ok s') :
    SystemMove clk s (.executeParamChange nonce mint withOracle) s' := by
  simp only [System.executeParamChange, bind_eq_ok_iff, okOr_eq_ok, require_eq_ok,
    exists_const] at h
  obtain ⟨op, hop, _, -, acc, hacc, hmint, heta, h⟩ := h
  cases hparam : op.param with
  | market param =>
    rw [hparam] at h
    simp only [bind_eq_ok_iff, pure_eq_ok] at h
    obtain ⟨p, hp, rfl⟩ := h
    exact .executeMarket nonce mint withOracle op param p hop hparam hmint.symm heta hp
  | oracle param =>
    rw [hparam] at h
    simp only [bind_eq_ok_iff, pure_eq_ok] at h
    obtain ⟨_, hvalid, rfl⟩ := h
    cases acc with
    | none =>
      -- a threshold is refused without its oracle
      simp [validateOracleParam, bind_eq_ok_iff, okOr] at hvalid
    | some x =>
      exact .executeOracle nonce mint withOracle op param x hop hparam hmint.symm heta
        (System.optionalOracle_spec hacc x rfl) hvalid

theorem SystemInstr.run_cases {i : SystemInstr} (h : i.run clk s = .ok s') :
    SystemMove clk s i s' := by
  cases i with
  | core i hplain =>
    simp only [SystemInstr.run, bind_eq_ok_iff, pure_eq_ok] at h
    obtain ⟨p, hp, rfl⟩ := h
    exact .core i hplain p hp
  | initMarketOracle authority mint quoteMint args =>
    simp only [SystemInstr.run, System.initMarketOracle, System.market, bind_eq_ok_iff, okOr_eq_ok,
      require_eq_ok, pure_eq_ok, exists_const] at h
    obtain ⟨state, hstate, hnone, oracle, hinit, rfl⟩ := h
    exact .initMarketOracle authority mint quoteMint args oracle
      (Option.isSome_iff_exists.mpr ⟨state, hstate⟩) (Option.isNone_iff_eq_none.mp hnone) hinit
  | sampleTwap mint pool =>
    simp only [SystemInstr.run, System.sampleTwap, System.oracleAccounts, bind_eq_ok_iff,
      okOr_eq_ok, pure_eq_ok] at h
    obtain ⟨acc, hacc, ring, hring, rfl⟩ := h
    exact .sampleTwap mint pool acc ring hacc hring
  | updatePrice mint accs =>
    simp only [SystemInstr.run, System.updatePrice, System.market, System.oracleAccounts,
      bind_eq_ok_iff, okOr_eq_ok, pure_eq_ok, Prod.exists] at h
    obtain ⟨_, -, acc, hacc, commit, oracle, hprice, p, hp, rfl⟩ := h
    exact .updatePrice mint accs acc commit oracle p hacc hprice hp
  | setOracleProgramIds authority pyth pythAlt switchboard =>
    simp only [SystemInstr.run, System.setOracleProgramIds, bind_eq_ok_iff, require_eq_ok,
      pure_eq_ok, exists_const] at h
    obtain ⟨-, programs, -, rfl⟩ := h
    exact .keys _ rfl s.protocol.config s.pendingGovAuthority programs s.gate rfl
  | rebindMarketOracleFeeds authority mint b =>
    simp only [SystemInstr.run, System.rebindMarketOracleFeeds, System.oracleAccounts,
      bind_eq_ok_iff, okOr_eq_ok, pure_eq_ok] at h
    obtain ⟨acc, hacc, p, hp, oracle, horacle, rfl⟩ := h
    exact .rebind authority mint b acc oracle p hacc hp horacle
  | migrateGovAuthority authority successor =>
    simp only [SystemInstr.run, System.migrateGovAuthority, bind_eq_ok_iff, require_eq_ok,
      pure_eq_ok, exists_const] at h
    obtain ⟨-, rfl⟩ := h
    exact .keys _ rfl s.protocol.config successor s.programs s.gate rfl
  | acceptGovAuthority signer =>
    simp only [SystemInstr.run, System.acceptGovAuthority, bind_eq_ok_iff, pure_eq_ok] at h
    obtain ⟨_, -, rfl⟩ := h
    exact .keys _ rfl _ 0 s.programs s.gate rfl
  | setGuardian authority guardian =>
    simp only [SystemInstr.run, System.setGuardian, bind_eq_ok_iff, require_eq_ok, pure_eq_ok,
      exists_const] at h
    obtain ⟨-, rfl⟩ := h
    exact .keys _ rfl _ s.pendingGovAuthority s.programs s.gate rfl
  | initGovernanceGate authority inbound secs =>
    simp only [SystemInstr.run, System.initGovernanceGate, bind_eq_ok_iff, require_eq_ok,
      pure_eq_ok, exists_const] at h
    obtain ⟨hnone, -, -, -, rfl⟩ := h
    exact .initGate authority inbound secs _ (Option.isNone_iff_eq_none.mp hnone)
  | migrateInboundAuthority authority successor =>
    simp only [SystemInstr.run, System.migrateInboundAuthority, bind_eq_ok_iff, okOr_eq_ok,
      require_eq_ok, pure_eq_ok, exists_const] at h
    obtain ⟨gate, hgate, -, rfl⟩ := h
    exact .keys _ rfl s.protocol.config s.pendingGovAuthority s.programs _ (by rw [hgate]; rfl)
  | acceptInboundAuthority signer =>
    simp only [SystemInstr.run, System.acceptInboundAuthority, bind_eq_ok_iff, okOr_eq_ok,
      pure_eq_ok] at h
    obtain ⟨gate, hgate, _, -, rfl⟩ := h
    exact .keys _ rfl _ s.pendingGovAuthority s.programs _ (by rw [hgate]; rfl)
  | queueParamChange authority mint withOracle param value =>
    simp only [SystemInstr.run, System.queueParamChange, System.market, bind_eq_ok_iff, okOr_eq_ok,
      require_eq_ok, pure_eq_ok, exists_const] at h
    obtain ⟨gate, hgate, state, hstate, oracle, -, hfree, -, _, hvalid, gate', hbump, rfl⟩ := h
    rw [System.bumpNonce_eq_ok hbump]
    exact .queue authority mint withOracle param value gate state _ hgate hstate hfree hvalid
  | executeParamChange nonce mint withOracle => exact System.executeParamChange_cases h
  | cancelParamChange authority nonce =>
    simp only [SystemInstr.run, System.cancelParamChange, bind_eq_ok_iff, okOr_eq_ok,
      require_eq_ok, pure_eq_ok, exists_const] at h
    obtain ⟨_, -, op, hop, -, rfl⟩ := h
    exact .cancel authority nonce op hop
  | queueGlobalParamChange authority param value =>
    simp only [SystemInstr.run, System.queueGlobalParamChange, bind_eq_ok_iff, okOr_eq_ok,
      require_eq_ok, pure_eq_ok, exists_const] at h
    obtain ⟨gate, hgate, hfree, -, _, -, gate', hbump, rfl⟩ := h
    rw [System.bumpNonce_eq_ok hbump]
    exact .queueGlobal authority param value gate hgate hfree
  | executeGlobalParamChange nonce =>
    simp only [SystemInstr.run, System.executeGlobalParamChange, bind_eq_ok_iff, okOr_eq_ok,
      require_eq_ok, pure_eq_ok, exists_const] at h
    obtain ⟨op, hop, -, heta, p, hp, rfl⟩ := h
    exact .executeGlobal nonce op p hop heta hp
  | cancelGlobalParamChange authority nonce =>
    simp only [SystemInstr.run, System.cancelGlobalParamChange, bind_eq_ok_iff, okOr_eq_ok,
      require_eq_ok, pure_eq_ok, exists_const] at h
    obtain ⟨_, -, op, hop, -, rfl⟩ := h
    exact .cancelGlobal authority nonce op hop

end Cases

/-! ## Runs -/

structure SystemWorld where
  clock : Clock
  system : System

structure SystemEvent where
  clock : Clock
  instr : SystemInstr

/-- Any instruction, by anyone, at any later time. -/
def fusion : Machine SystemWorld SystemEvent where
  init w := ∃ cfg ids decimals, w.system = System.genesis cfg ids decimals
  step e w w' := w.clock.Le e.clock ∧ e.instr.run e.clock w.system = .ok w'.system ∧
    w'.clock = e.clock

theorem fusion_init_markets (w : SystemWorld) (h : fusion.init w) :
    w.system.protocol.markets = ∅ := by
  obtain ⟨cfg, ids, decimals, hw⟩ := h
  rw [hw]
  rfl

theorem fusion_init_oracles (w : SystemWorld) (h : fusion.init w) : w.system.oracles = ∅ := by
  obtain ⟨cfg, ids, decimals, hw⟩ := h
  rw [hw]
  rfl

/-- The successor of a world, if the instruction succeeds. -/
def SystemWorld.next (e : SystemEvent) (w : SystemWorld) : Option SystemWorld :=
  if w.clock.Le e.clock then
    match e.instr.run e.clock w.system with
    | .ok s => some ⟨e.clock, s⟩
    | .error _ => none
  else none

theorem fusion_step_of_next (e : SystemEvent) (w w' : SystemWorld)
    (h : SystemWorld.next e w = some w') : fusion.step e w w' := by
  unfold SystemWorld.next at h
  split at h
  next hclk =>
    split at h
    next s hs =>
      obtain rfl := Option.some.inj h
      exact ⟨hclk, hs, rfl⟩
    next => cases h
  next => cases h

end FusionCore
