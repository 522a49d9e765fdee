import FusionCore.System.Machine

/-!
# One market and one oracle along a run

A step of the program leaves the market of a given mint alone, creates it, runs one of the plain
instructions on it, prices it, rebinds its feeds or moves one of its parameters; likewise for its
oracle.  Everything that is invariant along all runs is proved from these two lists.
-/

namespace FusionCore

open Checked Oracle

section Steps

variable {clk : Clock} {s s' : System} {i : SystemInstr} {mint k : Pubkey}
  {G : SystemEvent → SystemWorld → Prop} {w : SystemWorld}

/-- The accounts that an instruction on the market of a mint gets. -/
def System.accounts (s : System) (state : MarketState) : Accounts :=
  ⟨state, s.protocol.fusd, s.protocol.backstop⟩

/-- The instruction acts on the market of `k`, other than through the timelock. -/
def SystemInstr.actsOn (k : Pubkey) : SystemInstr → Bool
  | .core (.market mint _) _ => mint = k
  | .updatePrice mint _ => mint = k
  | .rebindMarketOracleFeeds _ mint _ => mint = k
  | _ => false

/-- What a step does to the market of `k`. -/
inductive MarketStep (clk : Clock) (s : System) (i : SystemInstr) (k : Pubkey) :
    Option MarketState → Prop where
  | keep (hi : i.actsOn k = false) : MarketStep clk s i k (s.protocol.markets.lookup k)
  | birth (authority : Pubkey) (freeze : Option Pubkey) (args : InitMarketArgs)
      (state : MarketState) (hi : i.actsOn k = false)
      (hnone : s.protocol.markets.lookup k = none)
      (hinit : initMarket s.protocol.config authority clk k freeze args = .ok state) :
      MarketStep clk s i k (some state)
  | plain (j : MarketInstr) (hplain : (Instr.market k j).plain = true)
      (hi : i = .core (.market k j) hplain) (state : MarketState) (a' : Accounts)
      (hstate : s.protocol.markets.lookup k = some state)
      (hrun : j.run s.protocol.config clk (s.accounts state) = .ok a') :
      MarketStep clk s i k (some a'.state)
  | priced (accs : PriceAccounts) (acc : OracleAccounts) (commit : Option PriceCommit)
      (oracle : MarketOracle) (hi : i = .updatePrice k accs)
      (hacc : s.oracles.lookup k = some acc)
      (hprice : priceUpdate s.programs clk k (s.decimals k) accs acc.oracle acc.ring
        = .ok (commit, oracle))
      (state : MarketState) (a' : Accounts)
      (hstate : s.protocol.markets.lookup k = some state)
      (hrun : updatePrice clk commit (s.accounts state) = .ok a') :
      MarketStep clk s i k (some a'.state)
  | rebound (authority : Pubkey) (b : FeedBindings)
      (hi : i = .rebindMarketOracleFeeds authority k b) (state : MarketState) (a' : Accounts)
      (hstate : s.protocol.markets.lookup k = some state)
      (hrun : rebindFeeds s.protocol.config authority clk (s.accounts state) = .ok a') :
      MarketStep clk s i k (some a'.state)
  | governed (nonce : ℕ) (withOracle : Bool) (param : MarketParam) (value : UInt64)
      (hi : i = .executeParamChange nonce k withOracle) (state : MarketState) (a' : Accounts)
      (hstate : s.protocol.markets.lookup k = some state)
      (hrun : executeParamChange clk param value.toNat (s.accounts state) = .ok a') :
      MarketStep clk s i k (some a'.state)

theorem onMarket_step {run : Accounts → Except ProgramError Accounts}
    {p : Protocol} {P : Option MarketState → Prop}
    (h : s.protocol.onMarket mint run = .ok p)
    (hkeep : mint ≠ k → P (s.protocol.markets.lookup k))
    (hstep : ∀ state a', mint = k → s.protocol.markets.lookup k = some state →
      run (s.accounts state) = .ok a' → P (some a'.state)) : P (p.markets.lookup k) := by
  obtain ⟨state, a', hl, ha', rfl⟩ := Protocol.onMarket_cases h
  by_cases hk : mint = k
  · subst hk
    rw [AList.lookup_insert]
    exact hstep state a' rfl hl ha'
  · rw [AList.lookup_insert_ne (Ne.symm hk)]
    exact hkeep hk

theorem Instr.plain_step {j : Instr} {hplain : j.plain = true} {p : Protocol}
    (h : j.run clk s.protocol = .ok p) (k : Pubkey) :
    MarketStep clk s (.core j hplain) k (p.markets.lookup k) := by
  cases j with
  | market mint j =>
    refine onMarket_step h ?_ ?_
    · intro hk
      exact .keep (by simpa [SystemInstr.actsOn] using hk)
    · intro state a' hk hstate hrun
      subst hk
      exact .plain j hplain rfl state a' hstate hrun
  | initMarket authority mint freeze args =>
    simp only [Instr.run, bind_eq_ok_iff, require_eq_ok, pure_eq_ok, exists_const] at h
    obtain ⟨hnone, state, hstate, rfl⟩ := h
    by_cases hk : k = mint
    · subst hk
      rw [AList.lookup_insert]
      exact .birth authority freeze args state rfl hnone hstate
    · rw [AList.lookup_insert_ne hk]
      exact .keep rfl
  | initGlobalBackstop authority =>
    simp only [Instr.run, FusionCore.initGlobalBackstop, bind_eq_ok_iff, require_eq_ok,
      pure_eq_ok, exists_const] at h
    obtain ⟨-, -, rfl⟩ := h
    exact .keep rfl
  | fundBackstop funder amount =>
    simp only [Instr.run, FusionCore.fundBackstop, bind_eq_ok_iff, okOr_eq_ok, require_eq_ok,
      pure_eq_ok, exists_const] at h
    obtain ⟨b, -, -, fusd, -, _, -, rfl⟩ := h
    exact .keep rfl
  | withdrawBackstopExcess authority recipient amount =>
    simp only [Instr.run, FusionCore.withdrawBackstopExcess, bind_eq_ok_iff, okOr_eq_ok,
      require_eq_ok, pure_eq_ok, exists_const] at h
    obtain ⟨b, -, -, -, -, -, fusd, -, _, -, rfl⟩ := h
    exact .keep rfl
  | executeGlobalParamChange param value => cases hplain
  | initSupplyReconciliation authority =>
    simp only [Instr.run, FusionCore.initSupplyReconciliation, bind_eq_ok_iff, require_eq_ok,
      pure_eq_ok, exists_const] at h
    obtain ⟨-, -, rfl⟩ := h
    exact .keep rfl
  | reconcileSupply mints =>
    simp only [Instr.run, FusionCore.reconcileSupply, bind_eq_ok_iff, require_eq_ok, pure_eq_ok,
      exists_const] at h
    obtain ⟨-, -, sums, -, rfl⟩ := h
    exact .keep rfl
  | transferFusd owner dst amount =>
    simp only [Instr.run, bind_eq_ok_iff, pure_eq_ok] at h
    obtain ⟨fusd, -, rfl⟩ := h
    exact .keep rfl

theorem SystemMove.market_step (h : SystemMove clk s i s') (k : Pubkey) :
    MarketStep clk s i k (s'.protocol.markets.lookup k) := by
  cases h with
  | core j hplain p hrun => exact Instr.plain_step hrun k
  | updatePrice mint accs acc commit oracle p hacc hprice hrun =>
    refine onMarket_step hrun ?_ ?_
    · intro hk
      exact .keep (by simpa [SystemInstr.actsOn] using hk)
    · intro state a' hk hstate ha'
      subst hk
      exact .priced accs acc commit oracle rfl hacc hprice state a' hstate ha'
  | rebind authority mint b acc oracle p hacc hrun hrebind =>
    refine onMarket_step hrun ?_ ?_
    · intro hk
      exact .keep (by simpa [SystemInstr.actsOn] using hk)
    · intro state a' hk hstate ha'
      subst hk
      exact .rebound authority b rfl state a' hstate ha'
  | executeMarket nonce mint withOracle op param p hop hparam hmint heta hrun =>
    refine onMarket_step hrun ?_ ?_
    · intro _
      exact .keep rfl
    · intro state a' hk hstate ha'
      subst hk
      exact .governed nonce withOracle param op.value rfl state a' hstate ha'
  | keys i hi =>
    refine .keep ?_
    cases i <;> first | rfl | cases hi
  | executeGlobal nonce op p hop heta hrun =>
    simp only [Instr.run, FusionCore.executeGlobalParamChange, bind_eq_ok_iff, okOr_eq_ok,
      pure_eq_ok] at hrun
    obtain ⟨b, -, _, -, rfl⟩ := hrun
    exact .keep rfl
  | _ => exact .keep rfl

theorem MarketStep.born {after : Option MarketState} (h : MarketStep clk s i k after)
    (hnone : s.protocol.markets.lookup k = none) :
    i.actsOn k = false ∧ ∀ state ∈ after, ∃ authority freeze args,
      initMarket s.protocol.config authority clk k freeze args = .ok state := by
  cases h with
  | keep hi =>
    refine ⟨hi, ?_⟩
    intro state hstate
    rw [hnone] at hstate
    cases hstate
  | birth authority freeze args state hi _ hinit =>
    refine ⟨hi, ?_⟩
    rintro _ ⟨⟩
    exact ⟨authority, freeze, args, hinit⟩
  | plain _ _ _ _ _ hstate | priced _ _ _ _ _ _ _ _ _ hstate | rebound _ _ _ _ _ hstate
  | governed _ _ _ _ _ _ _ hstate =>
    rw [hnone] at hstate
    cases hstate

/-! ## The invariant of the protocol -/

theorem SystemMove.protocol (h : SystemMove clk s i s') :
    (∃ j : Instr, j.run clk s.protocol = .ok s'.protocol) ∨
      ∃ config, s'.protocol = { s.protocol with config } := by
  cases h with
  | core j hplain p hrun => exact .inl ⟨j, hrun⟩
  | updatePrice mint accs acc commit oracle p hacc hprice hrun => exact .inl ⟨_, hrun⟩
  | rebind authority mint b acc oracle p hacc hrun hrebind => exact .inl ⟨_, hrun⟩
  | executeMarket nonce mint withOracle op param p hop hparam hmint heta hrun =>
    exact .inl ⟨_, hrun⟩
  | executeGlobal nonce op p hop heta hrun => exact .inl ⟨_, hrun⟩
  | keys i hi config => exact .inr ⟨config, rfl⟩
  | initGate authority inbound secs config => exact .inr ⟨config, rfl⟩
  | _ => exact .inr ⟨s.protocol.config, rfl⟩

theorem fusion_inv (h : fusion.Reachable G w) :
    w.system.protocol.Inv w.clock.unixTimestamp := by
  refine h.invariant (P := fun w ↦ w.system.protocol.Inv w.clock.unixTimestamp) ?_ ?_
  · rintro w ⟨cfg, ids, decimals, hw⟩
    rw [hw]
    exact ⟨fun mint state hl ↦ (by cases hl), rfl⟩
  · rintro ⟨clk, i⟩ w w' ih - ⟨hclk, hrun, hw'⟩
    have ih := ih.mono hclk.unixTimestamp
    rw [hw']
    rcases (SystemInstr.run_cases hrun).protocol with ⟨j, hj⟩ | ⟨config, hconfig⟩
    · exact j.run_inv ih hj
    · rw [hconfig]
      exact ih.of_frame rfl rfl (Spares.refl _ _)

theorem fusion_market_inv (h : fusion.Reachable G w) (hclk : w.clock.Le clk) {state : MarketState}
    (hl : w.system.protocol.markets.lookup mint = some state) :
    Inv clk.unixTimestamp (w.system.accounts state) :=
  (((fusion_inv h).mono hclk.unixTimestamp).markets mint state hl).2

/-! ## Oracles -/

/-- What a step does to the oracle of `k`. -/
inductive OracleStep (clk : Clock) (s : System) (i : SystemInstr) (k : Pubkey) :
    Option OracleAccounts → Prop where
  | keep (hi : ∀ accs, i ≠ .updatePrice k accs) : OracleStep clk s i k (s.oracles.lookup k)
  | birth (authority quoteMint : Pubkey) (args : InitMarketOracleArgs) (oracle : MarketOracle)
      (hi : i = .initMarketOracle authority k quoteMint args)
      (hnone : s.oracles.lookup k = none)
      (hinit : Oracle.initMarketOracle s.protocol.config authority k (s.decimals k) quoteMint
        (s.decimals quoteMint) args = .ok oracle) :
      OracleStep clk s i k (some ⟨oracle, .new⟩)
  | sampled (pool : FeedAccount PoolSample) (hi : i = .sampleTwap k pool) (acc : OracleAccounts)
      (ring : DexTwap) (hacc : s.oracles.lookup k = some acc)
      (hsample : Oracle.sampleTwap clk k pool acc.oracle acc.ring = .ok ring) :
      OracleStep clk s i k (some { acc with ring })
  | priced (accs : PriceAccounts) (hi : i = .updatePrice k accs) (acc : OracleAccounts)
      (commit : Option PriceCommit) (oracle : MarketOracle)
      (hacc : s.oracles.lookup k = some acc)
      (hprice : priceUpdate s.programs clk k (s.decimals k) accs acc.oracle acc.ring
        = .ok (commit, oracle)) :
      OracleStep clk s i k (some { acc with oracle })
  | rebound (authority : Pubkey) (b : FeedBindings)
      (hi : i = .rebindMarketOracleFeeds authority k b) (acc : OracleAccounts)
      (oracle : MarketOracle) (hacc : s.oracles.lookup k = some acc)
      (hrebind : acc.oracle.rebind b = .ok oracle) :
      OracleStep clk s i k (some { acc with oracle })
  | governed (nonce : ℕ) (withOracle : Bool) (param : OracleParam) (value : UInt64)
      (hi : i = .executeParamChange nonce k withOracle) (acc : OracleAccounts)
      (hacc : s.oracles.lookup k = some acc)
      (hvalid : validateOracleParam (some acc.oracle) param value.toNat = .ok ()) :
      OracleStep clk s i k
        (some { acc with oracle := applyOracleParam acc.oracle param value.toNat })

theorem insert_oracle_step {acc : OracleAccounts} {P : Option OracleAccounts → Prop}
    (hkeep : mint ≠ k → P (s.oracles.lookup k))
    (hstep : mint = k → P (some acc)) : P ((s.oracles.insert mint acc).lookup k) := by
  by_cases hk : mint = k
  · subst hk
    rw [AList.lookup_insert]
    exact hstep rfl
  · rw [AList.lookup_insert_ne (Ne.symm hk)]
    exact hkeep hk

theorem SystemMove.oracle_step (h : SystemMove clk s i s') (k : Pubkey) :
    OracleStep clk s i k (s'.oracles.lookup k) := by
  cases h with
  | initMarketOracle authority mint quoteMint args oracle hmarket hnone hinit =>
    refine insert_oracle_step (fun _ ↦ .keep (by simp)) ?_
    rintro rfl
    exact .birth authority quoteMint args oracle rfl hnone hinit
  | sampleTwap mint pool acc ring hacc hsample =>
    refine insert_oracle_step (fun _ ↦ .keep (by simp)) ?_
    rintro rfl
    exact .sampled pool rfl acc ring hacc hsample
  | updatePrice mint accs acc commit oracle p hacc hprice hrun =>
    refine insert_oracle_step (fun hk ↦ .keep (by simp [hk])) ?_
    rintro rfl
    exact .priced accs rfl acc commit oracle hacc hprice
  | rebind authority mint b acc oracle p hacc hrun hrebind =>
    refine insert_oracle_step (fun _ ↦ .keep (by simp)) ?_
    rintro rfl
    exact .rebound authority b rfl acc oracle hacc hrebind
  | executeOracle nonce mint withOracle op param acc hop hparam hmint heta hacc hvalid =>
    refine insert_oracle_step (fun _ ↦ .keep (by simp)) ?_
    rintro rfl
    exact .governed nonce withOracle param op.value rfl acc hacc hvalid
  | keys i hi =>
    refine .keep ?_
    rintro accs rfl
    cases hi
  | _ => exact .keep (by simp)

end Steps

/-! ## Invariants of single markets and oracles -/

/-- What holds of every market of a reached state besides the books. -/
structure MarketState.Sound (s : MarketState) : Prop where
  ordered : s.market.spot ≤ s.market.debtSpot
  debtSpot_lt : s.market.debtSpot < 2 ^ 128
  backed : s.Backed
  drawn : s.market.aggRecordedDebt = 0 ∨ s.market.liqInfraFlags.ready = true
  governed : s.market.toMarketParams.Governed

section Sound

variable {clk : Clock} {s : System} {i : SystemInstr} {k : Pubkey}
  {G : SystemEvent → SystemWorld → Prop} {w : SystemWorld}

theorem Framed.sound {a a' : Accounts} (h : Framed a a') (hs : a.state.Sound) :
    a'.state.Sound where
  ordered := by
    have hspot := congrArg Terms.spot h.terms
    have hdebtSpot := congrArg Terms.debtSpot h.terms
    exact hspot.trans_le (hs.ordered.trans_eq hdebtSpot.symm)
  debtSpot_lt := (congrArg Terms.debtSpot h.terms).trans_lt hs.debtSpot_lt
  backed := h.backed hs.backed
  drawn := by
    rcases hs.drawn with hzero | hready
    · exact (h.undrawn hzero).imp_right (h.ready hs.backed)
    · exact .inr (h.ready hs.backed hready)
  governed := hs.governed.of_eq (congrArg Terms.params h.terms)

theorem initMarket_sound {cfg : Config} {authority : Pubkey} {freeze : Option Pubkey}
    {args : InitMarketArgs} {state : MarketState}
    (h : initMarket cfg authority clk k freeze args = .ok state) : state.Sound := by
  have hgoverned := initMarket_governed h
  obtain rfl := initMarket_eq h
  refine ⟨le_rfl, Nat.two_pow_pos 128, ⟨rfl, ?_, ?_⟩, .inl rfl, hgoverned⟩
  · rintro ⟨⟩
  · rintro ⟨⟩

theorem MarketStep.sound {after : Option MarketState} (h : MarketStep clk s i k after)
    (hinv : s.protocol.Inv clk.unixTimestamp)
    (hsound : ∀ state ∈ s.protocol.markets.lookup k, state.Sound) :
    ∀ state ∈ after, state.Sound := by
  cases h with
  | keep hi => exact hsound
  | birth authority freeze args state hi hnone hinit =>
    rintro _ ⟨⟩
    exact initMarket_sound hinit
  | plain j hplain hi state a' hstate hrun =>
    rintro _ ⟨⟩
    exact (MarketInstr.run_framed hplain (hinv.markets k state hstate).2 hrun).sound
      (hsound state hstate)
  | priced accs acc commit oracle hi hacc hprice state a' hstate hrun =>
    rintro _ ⟨⟩
    obtain ⟨m, hm, rfl⟩ := updatePrice_cases hrun
    have hs := hsound state hstate
    cases hm with
    | withheld => exact { hs with backed := { hs.backed with } }
    | assessed c hnone => exact { hs with backed := { hs.backed with } }
    | committed c spot debtSpot hcommit hpos =>
      obtain ⟨hordered, hfit⟩ := priceUpdate_ordered hprice hcommit
      exact ⟨hordered, hfit, { hs.backed with }, hs.drawn, hs.governed⟩
  | rebound authority b hi state a' hstate hrun =>
    rintro _ ⟨⟩
    obtain ⟨anchor, -, rfl⟩ := rebindFeeds_cases hrun
    have hs := hsound state hstate
    exact { hs with backed := { hs.backed with } }
  | governed nonce withOracle param value hi state a' hstate hrun =>
    rintro _ ⟨⟩
    obtain ⟨hvalid, rlAccrued, rfl⟩ := executeParamChange_cases hrun
    have hs := hsound state hstate
    exact
      { hs with
        backed := { hs.backed with }
        governed := applyParam_governed hs.governed hvalid }

theorem fusion_sound (h : fusion.Reachable G w) :
    w.system.protocol.markets.All MarketState.Sound := by
  refine h.all_entries (P := fun _ ↦ MarketState.Sound) fusion_init_markets ?_
  intro e w w' mint hreach hg hs ih
  obtain ⟨hclk, hrun, -⟩ := hs
  exact ((SystemInstr.run_cases hrun).market_step mint).sound
    ((fusion_inv hreach).mono hclk.unixTimestamp) ih

theorem OracleStep.valid {after : Option OracleAccounts} (h : OracleStep clk s i k after)
    (hvalid : ∀ acc ∈ s.oracles.lookup k, acc.oracle.Valid) :
    ∀ acc ∈ after, acc.oracle.Valid := by
  cases h with
  | keep hi => exact hvalid
  | birth authority quoteMint args oracle hi hnone hinit =>
    rintro _ ⟨⟩
    exact initMarketOracle_valid hinit
  | sampled pool hi acc ring hacc hsample =>
    rintro _ ⟨⟩
    exact hvalid acc hacc
  | priced accs hi acc commit oracle hacc hprice =>
    rintro _ ⟨⟩
    have ho := hvalid acc hacc
    cases priceUpdate_cases hprice with
    | withheld hviews => exact ho
    | assessed v price hviews hp =>
      obtain ⟨hcur, hfixed⟩ := MarketOracle.remember_current acc.oracle price v.rate
      exact ho.of_current hcur hfixed
  | rebound authority b hi acc oracle hacc hrebind =>
    rintro _ ⟨⟩
    obtain ⟨hcur, hfixed, -⟩ := MarketOracle.rebind_spec hrebind
    exact (hvalid acc hacc).of_current hcur hfixed
  | governed nonce withOracle param value hi acc hacc hparam =>
    rintro _ ⟨⟩
    exact applyOracleParam_valid (hvalid acc hacc) hparam

theorem fusion_oracles_valid (h : fusion.Reachable G w) :
    w.system.oracles.All fun acc ↦ acc.oracle.Valid := by
  refine h.all_entries (P := fun _ acc ↦ acc.oracle.Valid) fusion_init_oracles ?_
  intro e w w' mint hreach hg hs ih
  obtain ⟨hclk, hrun, -⟩ := hs
  exact ((SystemInstr.run_cases hrun).oracle_step mint).valid ih

end Sound

/-! ## A sample launch -/

namespace Sample

/-- Collateral with nine decimals, everything else with six. -/
def decimals (mint : Pubkey) : ℕ := if mint = 7 then 9 else 6

/-- The price is composed from the dollar price of SOL and the rate of a stake pool; the low price
is cut by two percent. -/
def oracleArgs : InitMarketOracleArgs where
  pythFeedId := PYTH_SOL_USD_FEED_ID
  switchboardFeed := 72
  orcaPool := 0
  raydiumPool := 0
  maxConfBps := 200
  maxDeviationBps := 200
  twapMaxDivergenceBps := 500
  maxAgeSecs := 60
  kBps := 10000
  twapWindowSecs := 300
  twapMinSamples := 3
  twapMaxStalenessSecs := 600
  priceBandLowerRay := 0
  priceBandUpperRay := 0
  liqMaxDivergenceBps := 1000
  lstStakePool := 75
  canonicalPrimary := true
  liquidityHaircutBps := 200

/-- Both feeds agree on a price of `cents`, and the pool token is worth one SOL. -/
def feeds (clk : Clock) (cents : ℕ) : PriceAccounts where
  pyth := ⟨90, 501, some ⟨true, PYTH_SOL_USD_FEED_ID, cents * 10 ^ 6, 0, -8, clk.unixTimestamp⟩⟩
  switchboard := some ⟨72, 502, some ⟨cents * 10 ^ 16, 0, 1, clk.unixTimestamp, 1, 1⟩⟩
  solUsd := none
  stakePool := some ⟨75, FUSION_STAKE_POOL_PROGRAM_ID, some ⟨7, 10 ^ 15, 10 ^ 15, clk.epoch⟩⟩
  epochSlots := ⟨0, 432000⟩

def initMarket : SystemInstr := .core (.initMarket 1 7 none ⟨11000, 10 ^ 15, 0, 50, 0, 10, 50⟩) rfl

/-- Launch a market whose minimum and shutdown ratios are both 110 %, with its oracle and the
gate; one owner holds a thousand tokens. -/
def launch : List SystemInstr :=
  [initMarket,
    .core (.market 7 (.initReactorPool 1)) rfl,
    .core (.market 7 (.initInsuranceBuffer 1)) rfl,
    .initMarketOracle 1 7 8 oracleArgs,
    .initGovernanceGate 1 3 0,
    .core (.market 7 (.mintCollateral 100 1000000000000)) rfl]

/-- The owner deposits ten tokens at the price `cents` and borrows against them. -/
def drawn (clk : Clock) (cents : ℕ) (amount : UInt64) : List SystemInstr :=
  [.updatePrice 7 (feeds clk cents),
    .core (.market 7 (.openPosition 100 500)) rfl,
    .core (.market 7 (.deposit 100 10000000000)) rfl,
    .core (.market 7 (.borrow 100 amount)) rfl]

/-- Instructions that all come at one time. -/
def at_ (clk : Clock) (instrs : List SystemInstr) : List SystemEvent :=
  instrs.map fun i ↦ ⟨clk, i⟩

def genesis : SystemWorld := ⟨⟨0, 0, 0⟩, System.genesis ⟨1, 2, 3⟩ ⟨501, 0, 502⟩ decimals⟩

theorem genesis_init : fusion.init genesis := ⟨_, _, _, rfl⟩

/-- The world after a run under a guard satisfies a test. -/
def test (G : SystemEvent → SystemWorld → Prop) [∀ e w, Decidable (G e w)]
    (events : List SystemEvent) (P : SystemWorld → Bool) : Option Bool :=
  (Machine.execute G SystemWorld.next genesis events).map P

theorem of_test {G : SystemEvent → SystemWorld → Prop} [∀ e w, Decidable (G e w)]
    {events : List SystemEvent} {P : SystemWorld → Bool} (h : test G events P = some true) :
    ∃ w, fusion.Reachable G w ∧ P w = true := by
  obtain ⟨w, hw, hP⟩ := Option.map_eq_some_iff.mp h
  exact ⟨w, Machine.Reachable.execute fusion_step_of_next (.init genesis_init) hw, hP⟩

/-- The worlds before and after the last event of a run satisfy a test. -/
def testLast (events : List SystemEvent) (e : SystemEvent) (P : SystemWorld → SystemWorld → Bool) :
    Option Bool :=
  (Machine.execute (fun _ _ ↦ True) SystemWorld.next genesis events).bind fun w ↦
    (SystemWorld.next e w).map (P w)

theorem of_testLast {events : List SystemEvent} {e : SystemEvent}
    {P : SystemWorld → SystemWorld → Bool} (h : testLast events e P = some true) :
    ∃ w w', fusion.Reach w ∧ fusion.step e w w' ∧ P w w' = true := by
  obtain ⟨w, hw, h⟩ := Option.bind_eq_some_iff.mp h
  obtain ⟨w', hw', hP⟩ := Option.map_eq_some_iff.mp h
  exact ⟨w, w', Machine.Reachable.execute fusion_step_of_next (.init genesis_init) hw,
    fusion_step_of_next e w w' hw', hP⟩

/-- The world and the history after a list of events. -/
def history {Γ : Type} (upd : SystemEvent → SystemWorld → SystemWorld → Γ → Γ) (g₀ : Γ)
    (events : List SystemEvent) : Option (SystemWorld × Γ) :=
  Machine.execute (fun _ _ ↦ True) (Machine.ghostNext SystemWorld.next upd) (genesis, g₀) events

theorem history_reach {Γ : Type} {upd : SystemEvent → SystemWorld → SystemWorld → Γ → Γ} {g₀ : Γ}
    {events : List SystemEvent} {x : SystemWorld × Γ} (h : history upd g₀ events = some x) :
    (fusion.withGhost g₀ upd).Reach x :=
  Machine.Reachable.execute (Machine.withGhost_step fusion_step_of_next)
    (.init ⟨genesis_init, rfl⟩) h

/-- The world and the history after a list of events that all meet a guard. -/
def guarded {Γ : Type} (G : SystemEvent → SystemWorld → Prop) [∀ e w, Decidable (G e w)]
    (upd : SystemEvent → SystemWorld → SystemWorld → Γ → Γ) (g₀ : Γ)
    (events : List SystemEvent) : Option (SystemWorld × Γ) :=
  Machine.execute (fun e x ↦ G e x.1) (Machine.ghostNext SystemWorld.next upd) (genesis, g₀) events

theorem guarded_reach {Γ : Type} {G : SystemEvent → SystemWorld → Prop}
    [∀ e w, Decidable (G e w)] {upd : SystemEvent → SystemWorld → SystemWorld → Γ → Γ} {g₀ : Γ}
    {events : List SystemEvent} {x : SystemWorld × Γ} (h : guarded G upd g₀ events = some x) :
    (fusion.withGhost g₀ upd).Reachable (fun e x ↦ G e x.1) x :=
  Machine.Reachable.execute (Machine.withGhost_step fusion_step_of_next)
    (.init ⟨genesis_init, rfl⟩) h

end Sample

end FusionCore
