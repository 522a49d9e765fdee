import FusionCore.System.GraceRuns
import FusionCore.System.Safety

/-!
# The freshness clock of a price

Every test that a price is recent, and the test for a failed oracle, read one slot number.  A fresh
commit sets it to the present.  A rebind of the feeds dates it to a fixed distance before the
present, whatever it was; unless that is a step back, an outage looks shorter afterwards.
-/

namespace FusionCore

open Checked Oracle

/-! ## The price a market serves -/

/-- The aggregate of an update is fresh and plausible, and its price is not zero. -/
def FreshCommit (clk : Clock) (s : System) (k : Pubkey) (accs : PriceAccounts) : Prop :=
  ∃ acc v spot debtSpot, s.oracles.lookup k = some acc ∧
    readViews s.programs clk k accs acc.oracle = .ok (some v) ∧
    (acc.oracle.assess acc.ring clk.unixTimestamp v).fresh = true ∧
    (acc.oracle.assess acc.ring clk.unixTimestamp v).isPlausible = true ∧
    acc.oracle.priceOf (s.decimals k) (acc.oracle.assess acc.ring clk.unixTimestamp v) =
      .ok (some (spot, debtSpot)) ∧ 0 < spot

/-- The instruction commits a price to the market of `k`. -/
def SystemInstr.commitsPrice (clk : Clock) (s : System) (k : Pubkey) : SystemInstr → Bool
  | .updatePrice mint accs =>
    decide (mint = k) && (s.oracles.lookup k).any fun acc ↦
      (priceUpdate s.programs clk k (s.decimals k) accs acc.oracle acc.ring).toOption.any
        fun result ↦ result.1.any PriceCommit.commits
  | _ => false

/-- The instruction rebinds the feeds of the market of `k`. -/
def SystemInstr.rebinds (k : Pubkey) : SystemInstr → Bool
  | .rebindMarketOracleFeeds _ mint _ => decide (mint = k)
  | _ => false

/-- Where the price of a market comes from: the slot of its commit, and whether the feeds were
rebound since. -/
structure PriceSource where
  committed : Option ℕ
  rebound : Bool
  deriving DecidableEq

def recordSource (k : Pubkey) (e : SystemEvent) (w _w' : SystemWorld) (src : PriceSource) :
    PriceSource :=
  if e.instr.commitsPrice e.clock w.system k then ⟨some e.clock.slot, false⟩
  else if e.instr.rebinds k then { src with rebound := true }
  else src

/-! ## One step -/

/-- What a step does to the price of a market and to its clock. -/
inductive ClockStep (clk : Clock) (s : System) (i : SystemInstr) (k : Pubkey) (m m' : Market) :
    Prop where
  | keep (hcommit : i.commitsPrice clk s k = false) (hrebind : i.rebinds k = false)
      (hspot : m'.spot = m.spot) (hslot : m'.spotUpdatedSlot = m.spotUpdatedSlot)
  | commit (accs : PriceAccounts) (hi : i = .updatePrice k accs)
      (hcommit : i.commitsPrice clk s k = true) (hfresh : FreshCommit clk s k accs)
      (hspot : 0 < m'.spot) (hslot : m'.spotUpdatedSlot = clk.slot)
  | rebind (hcommit : i.commitsPrice clk s k = false) (hrebind : i.rebinds k = true)
      (hspot : m'.spot = m.spot)
      (hslot : m'.spotUpdatedSlot = clk.slot - (MAX_PRICE_STALENESS_SLOTS + 1))

section Step

variable {clk : Clock} {s : System} {i : SystemInstr} {k : Pubkey}

theorem SystemInstr.commitsPrice_of_not_actsOn (clk : Clock) (s : System)
    (h : i.actsOn k = false) : i.commitsPrice clk s k = false ∧ i.rebinds k = false := by
  cases i with
  | updatePrice mint accs =>
    simp only [SystemInstr.actsOn, decide_eq_false_iff_not] at h
    simp [SystemInstr.commitsPrice, SystemInstr.rebinds, h]
  | rebindMarketOracleFeeds authority mint b => exact ⟨rfl, h⟩
  | _ => exact ⟨rfl, rfl⟩

theorem SystemInstr.commitsPrice_updatePrice {accs : PriceAccounts} {acc : OracleAccounts}
    {commit : Option PriceCommit} {oracle : MarketOracle} (hacc : s.oracles.lookup k = some acc)
    (hprice : priceUpdate s.programs clk k (s.decimals k) accs acc.oracle acc.ring
      = .ok (commit, oracle)) :
    (SystemInstr.updatePrice k accs).commitsPrice clk s k = commit.any PriceCommit.commits := by
  simp [SystemInstr.commitsPrice, hacc, hprice, Except.toOption]

theorem freshCommit_of_priceUpdate {accs : PriceAccounts} {acc : OracleAccounts}
    {c : PriceCommit} {oracle : MarketOracle} {spot debtSpot : ℕ}
    (hacc : s.oracles.lookup k = some acc)
    (hprice : priceUpdate s.programs clk k (s.decimals k) accs acc.oracle acc.ring
      = .ok (some c, oracle))
    (hc : c.price = some (spot, debtSpot)) (hpos : 0 < spot) : FreshCommit clk s k accs := by
  cases priceUpdate_cases hprice with
  | assessed v price hviews hp =>
    obtain rfl : price = some (spot, debtSpot) := hc
    rcases ite_eq_ok.mp hp with ⟨⟨hfresh, hplausible⟩, -⟩ | ⟨-, hp'⟩
    · exact ⟨acc, v, spot, debtSpot, hacc, hviews, hfresh, hplausible, hp, hpos⟩
    · cases pure_eq_ok.mp hp'

theorem MarketStep.clock {after : Option MarketState} (h : MarketStep clk s i k after)
    (hinv : s.protocol.Inv clk.unixTimestamp) {state : MarketState}
    (hstate : s.protocol.markets.lookup k = some state) :
    ∃ state', after = some state' ∧ ClockStep clk s i k state.market state'.market := by
  cases h with
  | keep hi =>
    obtain ⟨hcommit, hrebind⟩ := SystemInstr.commitsPrice_of_not_actsOn clk s hi
    exact ⟨state, hstate, .keep hcommit hrebind rfl rfl⟩
  | birth authority freeze args state₀ hi hnone hinit =>
    rw [hstate] at hnone
    cases hnone
  | plain j hplain hi state₀ a' hstate₀ hrun =>
    obtain rfl : state₀ = state := Option.some.inj (hstate₀.symm.trans hstate)
    have hterms := (MarketInstr.run_framed hplain (hinv.markets k state₀ hstate).2 hrun).terms
    subst hi
    exact ⟨_, rfl, .keep rfl rfl (congrArg Terms.spot hterms)
      (congrArg Terms.spotUpdatedSlot hterms)⟩
  | priced accs acc commit oracle hi hacc hprice state₀ a' hstate₀ hrun =>
    obtain rfl : state₀ = state := Option.some.inj (hstate₀.symm.trans hstate)
    subst hi
    have hcommits := SystemInstr.commitsPrice_updatePrice hacc hprice
    obtain ⟨m, hm, rfl⟩ := updatePrice_cases hrun
    refine ⟨_, rfl, ?_⟩
    cases hm with
    | withheld => exact .keep hcommits rfl rfl rfl
    | assessed c hnone =>
      refine .keep (hcommits.trans ?_) rfl rfl rfl
      cases hc : c.price with
      | none => simp [PriceCommit.commits, hc]
      | some price => simp [PriceCommit.commits, hc, hnone price.1 price.2 hc]
    | committed c spot debtSpot hc hpos =>
      refine .commit accs rfl (hcommits.trans ?_)
        (freshCommit_of_priceUpdate hacc hprice hc hpos) hpos rfl
      simp [PriceCommit.commits, hc, hpos]
  | rebound authority b hi state₀ a' hstate₀ hrun =>
    obtain rfl : state₀ = state := Option.some.inj (hstate₀.symm.trans hstate)
    subst hi
    obtain ⟨anchor, hanchor, rfl⟩ := rebindFeeds_cases hrun
    exact ⟨_, rfl, .rebind rfl (by simp [SystemInstr.rebinds]) rfl hanchor⟩
  | governed nonce withOracle param value hi state₀ a' hstate₀ hrun =>
    obtain rfl : state₀ = state := Option.some.inj (hstate₀.symm.trans hstate)
    subst hi
    obtain ⟨-, rlAccrued, rfl⟩ := executeParamChange_cases hrun
    exact ⟨_, rfl, .keep rfl rfl rfl rfl⟩

end Step

/-! ## Rebinds that step back -/

/-- Rebinding the feeds of `k` at this slot dates the clock of its price back, and far enough for
the price to be stale. -/
def RebindsBack (k : Pubkey) (e : SystemEvent) (w : SystemWorld) : Prop :=
  e.instr.rebinds k = true → ∀ state ∈ w.system.protocol.markets.lookup k,
    MAX_PRICE_STALENESS_SLOTS < e.clock.slot ∧
      e.clock.slot - (MAX_PRICE_STALENESS_SLOTS + 1) ≤ state.market.spotUpdatedSlot

instance decidableRebindsBack (k : Pubkey) (e : SystemEvent) (w : SystemWorld) :
    Decidable (RebindsBack k e w) :=
  inferInstanceAs (Decidable (_ → ∀ state ∈ w.system.protocol.markets.lookup k, _ ∧ _))

/-- The clock of a market against the source of its price. -/
structure Serves (now : ℕ) (m : Market) (src : PriceSource) : Prop where
  priced : 0 < m.spot → ∃ c, src.committed = some c
  committed : ∀ c ∈ src.committed, m.spotUpdatedSlot ≤ c
  rebound : src.rebound = true → m.spotUpdatedSlot + MAX_PRICE_STALENESS_SLOTS < now

theorem ClockStep.serves {clk : Clock} {s : System} {i : SystemInstr} {k : Pubkey} {m m' : Market}
    {now : ℕ} {src src' : PriceSource} (h : ClockStep clk s i k m m') (hsrc : Serves now m src)
    (hnow : now ≤ clk.slot)
    (hback : i.rebinds k = true → MAX_PRICE_STALENESS_SLOTS < clk.slot ∧
      clk.slot - (MAX_PRICE_STALENESS_SLOTS + 1) ≤ m.spotUpdatedSlot)
    (hsrc' : src' = if i.commitsPrice clk s k then ⟨some clk.slot, false⟩
      else if i.rebinds k then { src with rebound := true } else src) :
    Serves clk.slot m' src' := by
  cases h with
  | keep hcommit hrebind hspot hslot =>
    rw [hcommit, hrebind] at hsrc'
    subst hsrc'
    constructor
    · rw [hspot]
      exact hsrc.priced
    · rw [hslot]
      exact hsrc.committed
    · rw [hslot]
      intro hrebound
      exact (hsrc.rebound hrebound).trans_le hnow
  | commit accs hi hcommit hfresh hspot hslot =>
    rw [hcommit] at hsrc'
    subst hsrc'
    refine ⟨fun _ ↦ ⟨_, rfl⟩, ?_, ?_⟩
    · rintro c ⟨⟩
      exact hslot.le
    · rintro ⟨⟩
  | rebind hcommit hrebind hspot hslot =>
    rw [hcommit, hrebind] at hsrc'
    subst hsrc'
    obtain ⟨hlate, hle⟩ := hback hrebind
    constructor
    · rw [hspot]
      exact hsrc.priced
    · intro c hc
      rw [hslot]
      exact hle.trans (hsrc.committed c hc)
    · intro _
      omega

/-! ## Runs -/

/-- The test of a shutdown for a failed oracle. -/
def Market.OracleFailed (m : Market) (slot : ℕ) : Prop :=
  0 < m.spot ∧ SHUTDOWN_ORACLE_STALENESS_SLOTS < slot - m.spotUpdatedSlot

/-- The instruction values a position at the price of its market: a liquidation, a redemption, a
borrow, or a withdrawal that leaves debt. -/
inductive TakesPrice (a' : Accounts) : MarketInstr → Prop where
  | liquidate (liquidator owner : Pubkey) (withBackstop : Bool) :
      TakesPrice a' (.liquidate liquidator owner withBackstop)
  | redeem (redeemer : Pubkey) (amount : UInt64) (candidates : List Candidate) :
      TakesPrice a' (.redeem redeemer amount candidates)
  | borrow (owner : Pubkey) (amount : UInt64) : TakesPrice a' (.borrow owner amount)
  | withdraw (owner : Pubkey) (amount : UInt64) (p : Position)
      (hp : a'.state.positions.lookup owner = some p) (hdebt : 0 < p.recordedDebt) :
      TakesPrice a' (.withdraw owner amount)

section Runs

variable {clk : Clock} {k : Pubkey}

theorem TakesPrice.fresh {cfg : Config} {a a' : Accounts} {j : MarketInstr}
    (ht : TakesPrice a' j) (hi : Inv clk.unixTimestamp a)
    (hplain : (Instr.market k j).plain = true) (h : j.run cfg clk a = .ok a') :
    0 < a.state.market.spot ∧ a.state.market.fresh clk.slot := by
  have hterms := (MarketInstr.run_framed hplain hi h).terms
  have hspot : a'.state.market.spot = a.state.market.spot := congrArg Terms.spot hterms
  have hslot : a'.state.market.spotUpdatedSlot = a.state.market.spotUpdatedSlot :=
    congrArg Terms.spotUpdatedSlot hterms
  cases ht with
  | liquidate liquidator owner withBackstop =>
    obtain ⟨run, rfl⟩ := liquidate_run h
    obtain ⟨x, ts, hacc⟩ := accrue_spec hi.book.clock run.accrue_eq
    obtain ⟨hprice, hfresh, -, -⟩ := liquidationGates_eq_ok.mp run.gates
    rw [hacc.eq] at hprice hfresh
    exact ⟨hprice.1, hfresh⟩
  | redeem redeemer amount candidates =>
    obtain ⟨run, rfl⟩ := redeem_run h
    obtain ⟨x, ts, hacc⟩ := accrue_spec hi.book.clock run.accrue_eq
    have hprice := run.midPrice_eq
    have hfresh := run.fresh
    simp only [midPrice, bind_eq_ok_iff, require_eq_ok, exists_const] at hprice
    rw [hacc.eq] at hprice hfresh
    exact ⟨hprice.1.1, hfresh⟩
  | borrow owner amount =>
    obtain ⟨p, htested⟩ := borrow_justTested hi h
    refine ⟨hspot ▸ htested.priced, ?_⟩
    have hfresh := htested.fresh
    unfold Market.fresh at hfresh ⊢
    rwa [hslot] at hfresh
  | withdraw owner amount p hp hdebt =>
    have htested := withdraw_justTested hi h hp hdebt
    refine ⟨hspot ▸ htested.priced, ?_⟩
    have hfresh := htested.fresh
    unfold Market.fresh at hfresh ⊢
    rwa [hslot] at hfresh

theorem fusion_clock_step {e : SystemEvent} {w w' : SystemWorld} (hreach : fusion.Reach w)
    (h : fusion.step e w w') {state : MarketState}
    (hstate : w.system.protocol.markets.lookup k = some state) :
    ∃ state', w'.system.protocol.markets.lookup k = some state' ∧
      ClockStep e.clock w.system e.instr k state.market state'.market := by
  obtain ⟨hclk, hrun, -⟩ := h
  exact ((SystemInstr.run_cases hrun).market_step k).clock
    ((fusion_inv hreach).mono hclk.unixTimestamp) hstate

/-- The market of `k` together with the source of its price. -/
def Sourced (k : Pubkey) (w : SystemWorld) (src : PriceSource) : Prop :=
  match w.system.protocol.markets.lookup k with
  | none => src = ⟨none, false⟩
  | some state => Serves w.clock.slot state.market src

/-- No price is committed and no feed rebound before a market exists. -/
theorem fusion_unborn_step {e : SystemEvent} {w w' : SystemWorld} (h : fusion.step e w w')
    (hnone : w.system.protocol.markets.lookup k = none) :
    e.instr.commitsPrice e.clock w.system k = false ∧ e.instr.rebinds k = false ∧
      ∀ state ∈ w'.system.protocol.markets.lookup k, state.market.spot = 0 := by
  obtain ⟨-, hrun, -⟩ := h
  obtain ⟨hi, hborn⟩ := ((SystemInstr.run_cases hrun).market_step k).born hnone
  obtain ⟨hcommit, hrebind⟩ := SystemInstr.commitsPrice_of_not_actsOn e.clock w.system hi
  refine ⟨hcommit, hrebind, ?_⟩
  intro state hstate
  obtain ⟨authority, freeze, args, hinit⟩ := hborn state hstate
  obtain rfl := initMarket_eq hinit
  rfl

theorem fusion_sourced {x : SystemWorld × PriceSource}
    (h : (fusion.withGhost ⟨none, false⟩ (recordSource k)).Reachable
      (fun e x ↦ RebindsBack k e x.1) x) : Sourced k x.1 x.2 := by
  induction h with
  | @init x h =>
    obtain ⟨⟨cfg, ids, decimals, hw⟩, hsrc⟩ := h
    have hnone : x.1.system.protocol.markets.lookup k = none := by
      rw [hw]
      rfl
    rw [Sourced, hnone]
    exact hsrc
  | @step x x' e hreach hback hs ih =>
    obtain ⟨hstep, hsrc⟩ := hs
    have hreach := (Machine.Reachable.forget hreach).reach
    rw [Sourced] at ih
    cases hstate : x.1.system.protocol.markets.lookup k with
    | none =>
      rw [hstate] at ih
      obtain ⟨hcommit, hrebind, hborn⟩ := fusion_unborn_step hstep hstate
      simp only [recordSource, hcommit, hrebind, Bool.false_eq_true, if_false] at hsrc
      rw [hsrc, ih, Sourced]
      split
      · rfl
      next state' hstate' =>
        refine ⟨fun hpos ↦ ?_, nofun, nofun⟩
        rw [hborn state' hstate'] at hpos
        exact absurd hpos (lt_irrefl 0)
    | some state =>
      rw [hstate] at ih
      obtain ⟨state', hstate', hclock⟩ := fusion_clock_step hreach hstep hstate
      rw [Sourced, hstate', hstep.2.2]
      exact hclock.serves ih hstep.1.slot (fun hrebind ↦ hback hrebind state hstate) hsrc

/-- Without a commit the clock of a price never advances, so a failed oracle stays failed. -/
theorem fusion_failed_persists {w w' : SystemWorld} (hreach : fusion.Reach w)
    (h : fusion.Leads (fun e w ↦ RebindsBack k e w ∧
      e.instr.commitsPrice e.clock w.system k = false) w w')
    {state : MarketState} (hstate : w.system.protocol.markets.lookup k = some state) :
    ∃ state', w'.system.protocol.markets.lookup k = some state' ∧
      state'.market.spot = state.market.spot ∧
      state'.market.spotUpdatedSlot ≤ state.market.spotUpdatedSlot := by
  have hinv : fusion.Reach w' ∧ ∃ state', w'.system.protocol.markets.lookup k = some state' ∧
      state'.market.spot = state.market.spot ∧
      state'.market.spotUpdatedSlot ≤ state.market.spotUpdatedSlot := by
    induction h with
    | refl => exact ⟨hreach, state, hstate, rfl, le_rfl⟩
    | step e _ hg hs ih =>
      obtain ⟨hreach₁, state₁, hstate₁, hspot₁, hslot₁⟩ := ih
      refine ⟨hreach₁.step _ trivial hs, ?_⟩
      obtain ⟨state₂, hstate₂, hclock⟩ := fusion_clock_step hreach₁ hs hstate₁
      refine ⟨state₂, hstate₂, ?_⟩
      cases hclock with
      | keep hcommit hrebind hspot hslot => exact ⟨hspot.trans hspot₁, hslot.trans_le hslot₁⟩
      | commit accs hi hcommit =>
        rw [hg.2] at hcommit
        cases hcommit
      | rebind hcommit hrebind hspot hslot =>
        obtain ⟨-, hle⟩ := hg.1 hrebind state₁ hstate₁
        exact ⟨hspot.trans hspot₁, (hslot.trans_le hle).trans hslot₁⟩
  exact hinv.2

/-- In every run whose rebinds date the clock of the price back: the clock advances only with a
fresh, plausible and nonzero price; a failed oracle stays failed until then; and no position is
valued at a price that is too old or that was committed before the latest rebind.  For a rebind the
condition is exact. -/
theorem fusion_price_clock {w : SystemWorld} {src : PriceSource}
    (h : (fusion.withGhost ⟨none, false⟩ (recordSource k)).Reachable
      (fun e x ↦ RebindsBack k e x.1) (w, src))
    {state : MarketState} (hstate : w.system.protocol.markets.lookup k = some state) :
    (∀ e w' state', fusion.step e w w' → RebindsBack k e w →
      w'.system.protocol.markets.lookup k = some state' →
      state.market.spotUpdatedSlot < state'.market.spotUpdatedSlot →
      ∃ accs, e.instr = .updatePrice k accs ∧ FreshCommit e.clock w.system k accs) ∧
    (∀ slot, state.market.OracleFailed slot → ∀ w', fusion.Leads (fun e w ↦ RebindsBack k e w ∧
        e.instr.commitsPrice e.clock w.system k = false) w w' →
      ∃ state', w'.system.protocol.markets.lookup k = some state' ∧
        ∀ later, slot ≤ later → state'.market.OracleFailed later) ∧
    (∀ clk j hplain w' state', fusion.step ⟨clk, .core (.market k j) hplain⟩ w w' →
      w'.system.protocol.markets.lookup k = some state' →
      TakesPrice (w'.system.accounts state') j →
      src.rebound = false ∧ ∃ c, src.committed = some c ∧
        clk.slot - c ≤ MAX_PRICE_STALENESS_SLOTS) ∧
    ∀ clk authority b w' state',
      fusion.step ⟨clk, .rebindMarketOracleFeeds authority k b⟩ w w' →
      w'.system.protocol.markets.lookup k = some state' →
      (state'.market.spotUpdatedSlot ≤ state.market.spotUpdatedSlot ∧
          ¬state'.market.fresh clk.slot ↔
        RebindsBack k ⟨clk, .rebindMarketOracleFeeds authority k b⟩ w) := by
  have hreach : fusion.Reach w := (Machine.Reachable.forget h).reach
  have hserves : Serves w.clock.slot state.market src := by
    have hsourced := fusion_sourced h
    simp only [Sourced, hstate] at hsourced
    exact hsourced
  refine ⟨?_, ?_, ?_, ?_⟩
  · intro e w' state' hstep hback hstate' hlt
    obtain ⟨state₁, hstate₁, hclock⟩ := fusion_clock_step hreach hstep hstate
    obtain rfl := Option.some.inj (hstate₁.symm.trans hstate')
    cases hclock with
    | keep hcommit hrebind hspot hslot => omega
    | commit accs hi hcommit hfresh => exact ⟨accs, hi, hfresh⟩
    | rebind hcommit hrebind hspot hslot =>
      obtain ⟨-, hle⟩ := hback hrebind state hstate
      omega
  · intro slot hfailed w' hleads
    obtain ⟨state', hstate', hspot, hslot⟩ := fusion_failed_persists hreach hleads hstate
    refine ⟨state', hstate', ?_⟩
    intro later hlater
    obtain ⟨hpos, hstale⟩ := hfailed
    refine ⟨hspot ▸ hpos, ?_⟩
    omega
  · intro clk j hplain w' state' hstep hstate' htakes
    obtain ⟨hclk, hrun, hclock⟩ := hstep
    have hi := fusion_market_inv hreach hclk hstate
    obtain ⟨state₀, a', hl₀, ha', hw'⟩ := core_market_cases hrun
    obtain rfl : state₀ = state := Option.some.inj (hl₀.symm.trans hstate)
    obtain rfl : a' = w'.system.accounts state' := by
      rw [hw', AList.lookup_insert] at hstate'
      rw [System.accounts, hw', ← Option.some.inj hstate']
    obtain ⟨hpos, hfresh⟩ := htakes.fresh hi hplain ha'
    obtain ⟨c, hc⟩ := hserves.priced hpos
    have hanchor := hserves.committed c hc
    unfold Market.fresh at hfresh
    have hslot : w.clock.slot ≤ clk.slot := hclk.slot
    refine ⟨?_, c, hc, ?_⟩
    · by_contra hrebound
      have hstale := hserves.rebound (Bool.not_eq_false _ ▸ hrebound)
      change state₀.market.spotUpdatedSlot + _ < w.clock.slot at hstale
      change clk.slot - state₀.market.spotUpdatedSlot ≤ _ at hfresh
      omega
    · change clk.slot - state₀.market.spotUpdatedSlot ≤ _ at hfresh
      omega
  · intro clk authority b w' state' hstep hstate'
    obtain ⟨state₁, hstate₁, hclock⟩ := fusion_clock_step hreach hstep hstate
    obtain rfl := Option.some.inj (hstate₁.symm.trans hstate')
    cases hclock with
    | keep hcommit hrebind => simp [SystemInstr.rebinds] at hrebind
    | commit accs hi => cases hi
    | rebind hcommit hrebind hspot hslot =>
      change _ = clk.slot - _ at hslot
      unfold Market.fresh
      rw [hslot]
      constructor
      · rintro ⟨hle, hstale⟩ - state₀ hstate₀
        obtain rfl := Option.some.inj (hstate.symm.trans hstate₀)
        refine ⟨?_, hle⟩
        change _ < clk.slot
        omega
      · intro hback
        obtain ⟨hlate, hle⟩ := hback hrebind state hstate
        change _ < clk.slot at hlate
        exact ⟨hle, by omega⟩

end Runs

namespace Sample

def rebindOwnFeeds : SystemInstr :=
  .rebindMarketOracleFeeds 1 7 ⟨PYTH_SOL_USD_FEED_ID, 72, 73, 0⟩

def borrowMore : SystemInstr := .core (.market 7 (.borrow 100 1000000)) rfl

/-- A rebind 200 slots after a commit, and a new price after it. -/
def repricedAfterRebind : List SystemEvent :=
  at_ (clockAt 1000) (launch ++ drawn (clockAt 1000) 15000 1000000000) ++
    at_ (clockAt 1200) [rebindOwnFeeds] ++
    at_ (clockAt 1300) [.updatePrice 7 (feeds (clockAt 1300) 15000)]

/-- A price that is nineteen thousand slots old. -/
def longOutage : List SystemEvent :=
  at_ (clockAt 1000) (launch ++ drawn (clockAt 1000) 15000 1000000000)

/-- A rebind at slot 100, where the clock can only be dated back to zero. -/
def earlyRebind : List SystemEvent :=
  at_ (clockAt 100) (launch ++ drawn (clockAt 100) 15000 1000000000 ++ [rebindOwnFeeds])

end Sample

theorem fusion_price_clock_sample :
    ∃ w w' src, (fusion.withGhost ⟨none, false⟩ (recordSource 7)).Reachable
        (fun e x ↦ RebindsBack 7 e x.1) (w, src) ∧
      fusion.step ⟨Sample.clockAt 1300, Sample.borrowMore⟩ w w' ∧ src.rebound = false ∧
      ∃ c, src.committed = some c ∧ 1300 - c ≤ MAX_PRICE_STALENESS_SLOTS := by
  have hrun : ((Sample.guarded (RebindsBack 7) (recordSource 7) ⟨none, false⟩
      Sample.repricedAfterRebind).bind fun x ↦
        (SystemWorld.next ⟨Sample.clockAt 1300, Sample.borrowMore⟩ x.1).map fun w' ↦
          (x.1.system.protocol.markets.lookup 7).isSome &&
            (w'.system.protocol.markets.lookup 7).isSome) = some true := by
    decide +kernel
  obtain ⟨⟨w, src⟩, hx, hnext⟩ := Option.bind_eq_some_iff.mp hrun
  obtain ⟨w', hw', hmarkets⟩ := Option.map_eq_some_iff.mp hnext
  simp only [Bool.and_eq_true, Option.isSome_iff_exists] at hmarkets
  obtain ⟨⟨state, hstate⟩, state', hstate'⟩ := hmarkets
  have hreach := Sample.guarded_reach hx
  have hstep := fusion_step_of_next _ _ _ hw'
  exact ⟨w, w', src, hreach, hstep,
    (fusion_price_clock hreach hstate).2.2.1 _ _ rfl w' state' hstep hstate' (.borrow 100 1000000)⟩

/-- A rebind in a long outage dates the clock forward, so that the oracle no longer counts as
failed although no price was committed.  A rebind in the first slots leaves the old price fresh, and
it is borrowed against. -/
theorem rebind_advances_clock :
    (∃ w w' state state', fusion.Reach w ∧
      fusion.step ⟨Sample.clockAt 20000, Sample.rebindOwnFeeds⟩ w w' ∧
      w.system.protocol.markets.lookup 7 = some state ∧
      w'.system.protocol.markets.lookup 7 = some state' ∧
      state.market.OracleFailed 20000 ∧
      state.market.spotUpdatedSlot < state'.market.spotUpdatedSlot ∧
      ¬state'.market.OracleFailed 20000) ∧
    ∃ w w' src, (fusion.withGhost ⟨none, false⟩ (recordSource 7)).Reach (w, src) ∧
      src.rebound = true ∧ fusion.step ⟨Sample.clockAt 100, Sample.borrowMore⟩ w w' := by
  have houtage := @Sample.of_testLast Sample.longOutage
    ⟨Sample.clockAt 20000, Sample.rebindOwnFeeds⟩ (fun w w' : SystemWorld ↦
      (w.system.protocol.markets.lookup 7).any fun state : MarketState ↦
        (w'.system.protocol.markets.lookup 7).any fun state' : MarketState ↦
          decide ((0 < state.market.spot ∧
              SHUTDOWN_ORACLE_STALENESS_SLOTS < 20000 - state.market.spotUpdatedSlot) ∧
            state.market.spotUpdatedSlot < state'.market.spotUpdatedSlot ∧
            20000 - state'.market.spotUpdatedSlot ≤ SHUTDOWN_ORACLE_STALENESS_SLOTS))
    (by decide +kernel)
  have hearly : ((Sample.history (recordSource 7) ⟨none, false⟩ Sample.earlyRebind).bind fun x ↦
      (SystemWorld.next ⟨Sample.clockAt 100, Sample.borrowMore⟩ x.1).map fun _ ↦
        x.2.rebound) = some true := by
    decide +kernel
  constructor
  · obtain ⟨w, w', hw, hstep, htest⟩ := houtage
    simp only [Option.any_eq_true, decide_eq_true_eq] at htest
    obtain ⟨state, hstate, state', hstate', hfailed, hlt, hle⟩ := htest
    exact ⟨w, w', state, state', hw, hstep, hstate, hstate', hfailed, hlt,
      fun hfailed' ↦ hfailed'.2.not_ge hle⟩
  · obtain ⟨⟨w, src⟩, hx, hnext⟩ := Option.bind_eq_some_iff.mp hearly
    obtain ⟨w', hw', hrebound⟩ := Option.map_eq_some_iff.mp hnext
    exact ⟨w, w', src, Sample.history_reach hx, hrebound, fusion_step_of_next _ _ _ hw'⟩

end FusionCore
