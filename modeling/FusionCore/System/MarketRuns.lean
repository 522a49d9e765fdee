import FusionCore.Core.Bookings
import FusionCore.System.Steps

/-!
# The instructions that reach one market

A step of the program runs one instruction on the market of a given mint, creates that market, or
leaves it alone.  Prices, rebinds and governed changes are instructions on the market like all
others; only the plain ones are named by the step itself.
-/

namespace FusionCore

open Checked Oracle

/-- The plain instruction that a step runs on the market of `k`. -/
def SystemInstr.coreOn (k : Pubkey) : SystemInstr → Option MarketInstr
  | .core (.market mint j) _ => if mint = k then some j else none
  | _ => none

/-- A price, a rebind or a governed change. -/
def MarketInstr.Governs : MarketInstr → Prop
  | .updatePrice _ => True
  | .rebindFeeds _ => True
  | .executeParamChange _ _ => True
  | _ => False

/-- A step, as the market of `k` sees it. -/
inductive MarketRun (clk : Clock) (s s' : System) (i : SystemInstr) (k : Pubkey) : Prop where
  | idle (hcore : i.coreOn k = none)
      (hsame : s'.protocol.markets.lookup k = s.protocol.markets.lookup k)
  | birth (hcore : i.coreOn k = none) (authority : Pubkey) (freeze : Option Pubkey)
      (args : InitMarketArgs) (state : MarketState)
      (hnone : s.protocol.markets.lookup k = none)
      (hinit : initMarket s.protocol.config authority clk k freeze args = .ok state)
      (hstate : s'.protocol.markets.lookup k = some state)
  | run (j : MarketInstr) (state state' : MarketState)
      (hcore : i.coreOn k = some j ∨ i.coreOn k = none ∧ j.Governs)
      (hstate : s.protocol.markets.lookup k = some state)
      (hrun : j.run s.protocol.config clk (s.accounts state) = .ok (s'.accounts state'))
      (hstate' : s'.protocol.markets.lookup k = some state')

section Steps

variable {clk : Clock} {s s' : System} {i : SystemInstr} {k : Pubkey}

theorem onMarket_run {mint : Pubkey} {j : MarketInstr} {p : Protocol}
    (h : Instr.run clk (.market mint j) s.protocol = .ok p) (hs' : s'.protocol = p)
    (hidle : mint ≠ k → i.coreOn k = none)
    (hcore : mint = k → i.coreOn k = some j ∨ i.coreOn k = none ∧ j.Governs) :
    MarketRun clk s s' i k := by
  obtain ⟨state, a', hl, ha', rfl⟩ := Protocol.onMarket_cases h
  by_cases hk : mint = k
  · subst hk
    have haccounts : s'.accounts a'.state = a' := by
      rw [System.accounts, hs']
    refine .run j state a'.state (hcore rfl) hl ?_ ?_
    · rw [haccounts]
      exact ha'
    · rw [hs', AList.lookup_insert]
  · refine .idle (hidle hk) ?_
    rw [hs', AList.lookup_insert_ne (Ne.symm hk)]

theorem Instr.market_run {j : Instr} {hplain : j.plain = true} {p : Protocol}
    (h : j.run clk s.protocol = .ok p) (k : Pubkey) :
    MarketRun clk s { s with protocol := p } (.core j hplain) k := by
  have hstep : MarketStep clk s (.core j hplain) k (p.markets.lookup k) := Instr.plain_step h k
  cases j with
  | market mint j =>
    refine onMarket_run h rfl ?_ ?_
    · exact fun hk ↦ if_neg hk
    · exact fun hk ↦ .inl (if_pos hk)
  | _ =>
    generalize hafter : p.markets.lookup k = after at hstep
    cases hstep with
    | keep => exact .idle rfl hafter
    | birth authority freeze args state _ hnone hinit =>
      exact .birth rfl authority freeze args state hnone hinit hafter
    | plain _ _ hi => cases hi
    | priced _ _ _ _ hi => cases hi
    | rebound _ _ hi => cases hi
    | governed _ _ _ _ hi => cases hi

theorem SystemMove.market_run (h : SystemMove clk s i s') (k : Pubkey) :
    MarketRun clk s s' i k := by
  cases h with
  | core j hplain p hrun => exact Instr.market_run hrun k
  | updatePrice mint accs acc commit oracle p hacc hprice hrun =>
    exact onMarket_run hrun rfl (fun _ ↦ rfl) fun _ ↦ .inr ⟨rfl, trivial⟩
  | rebind authority mint b acc oracle p hacc hrun hrebind =>
    exact onMarket_run hrun rfl (fun _ ↦ rfl) fun _ ↦ .inr ⟨rfl, trivial⟩
  | executeMarket nonce mint withOracle op param p hop hparam hmint heta hrun =>
    exact onMarket_run hrun rfl (fun _ ↦ rfl) fun _ ↦ .inr ⟨rfl, trivial⟩
  | keys i hi =>
    refine .idle ?_ rfl
    cases i <;> first | rfl | cases hi
  | executeGlobal nonce op p hop heta hrun =>
    simp only [Instr.run, FusionCore.executeGlobalParamChange, bind_eq_ok_iff, okOr_eq_ok,
      pure_eq_ok] at hrun
    obtain ⟨b, -, _, -, rfl⟩ := hrun
    exact .idle rfl rfl
  | _ => exact .idle rfl rfl

theorem fusion_market_run {e : SystemEvent} {w w' : SystemWorld} (h : fusion.step e w w')
    (k : Pubkey) : MarketRun e.clock w.system w'.system e.instr k :=
  (SystemInstr.run_cases h.2.1).market_run k

/-- What a step hands out in the market of `k`. -/
def sharesOn (k : Pubkey) (e : SystemEvent) (w : SystemWorld) (s : MarketState) :
    Option (ℕ × ℕ) :=
  (e.instr.coreOn k).bind fun i ↦ i.shares e.clock.unixTimestamp (w.system.accounts s)

/-- What a step puts into the positions of the market of `k` and takes out of them, while the market
goes from `s` to `s'`. -/
def movedOn (k : Pubkey) (e : SystemEvent) (w w' : SystemWorld) (s s' : MarketState) :
    Pubkey → Transfer :=
  (e.instr.coreOn k).elim (fun _ ↦ .none) fun i ↦
    i.moved e.clock.unixTimestamp (w.system.accounts s) (w'.system.accounts s')

theorem fusion_market_booked {e : SystemEvent} {w w' : SystemWorld} {s : MarketState}
    (hw : fusion.Reach w) (hs : fusion.step e w w')
    (hl : w.system.protocol.markets.lookup k = some s) :
    ∃ s' limited, w'.system.protocol.markets.lookup k = some s' ∧
      Booked e.clock.unixTimestamp limited (sharesOn k e w s) (movedOn k e w w' s s')
        (w.system.accounts s) (w'.system.accounts s') := by
  cases fusion_market_run hs k with
  | idle hcore hsame =>
    refine ⟨s, false, hsame.trans hl, ?_⟩
    rw [sharesOn, movedOn, hcore]
    exact .of_eq rfl rfl
  | birth _ _ _ _ _ hnone =>
    rw [hl] at hnone
    cases hnone
  | run j before s' hcore hstate hrun hstate' =>
    obtain rfl := Option.some.inj (hstate.symm.trans hl)
    refine ⟨s', j.limited, hstate', ?_⟩
    have hb := MarketInstr.run_booked (fusion_market_inv hw hs.1 hstate) hrun
    rcases hcore with hcore | ⟨hcore, hgoverns⟩
    · rw [sharesOn, movedOn, hcore]
      exact hb
    · rw [sharesOn, movedOn, hcore]
      cases j <;> first | exact hb | cases hgoverns

/-- A property of single markets, at the time of the state, that time and births and instructions
keep holds of every market of every reached state. -/
theorem fusion_market_rule {G : SystemEvent → SystemWorld → Prop} {P : ℕ → MarketState → Prop}
    {w : SystemWorld} (h : fusion.Reachable G w)
    (hlater : ∀ now later state, now ≤ later → P now state → P later state)
    (hbirth : ∀ cfg authority clk mint freeze args state,
      initMarket cfg authority clk mint freeze args = .ok state → P clk.unixTimestamp state)
    (hrun : ∀ e w mint j state a', G e w →
      (e.instr.coreOn mint = some j ∨ e.instr.coreOn mint = none ∧ j.Governs) →
      w.system.protocol.markets.lookup mint = some state →
      Inv e.clock.unixTimestamp (w.system.accounts state) →
      j.run w.system.protocol.config e.clock (w.system.accounts state) = .ok a' →
      P e.clock.unixTimestamp state → P e.clock.unixTimestamp a'.state) :
    w.system.protocol.markets.All (P w.clock.unixTimestamp) := by
  refine h.all_entries (P := fun w ↦ P w.clock.unixTimestamp) fusion_init_markets ?_
  intro e w w' mint hreach hg hs ih state hl
  rw [hs.2.2]
  cases fusion_market_run hs mint with
  | idle hcore hsame =>
    exact hlater _ _ state hs.1.unixTimestamp (ih state (hsame ▸ hl))
  | birth hcore authority freeze args state₀ hnone hinit hstate =>
    obtain rfl := Option.some.inj (hstate.symm.trans hl)
    exact hbirth _ authority e.clock mint freeze args state₀ hinit
  | run j before state' hcore hstate hj hstate' =>
    obtain rfl := Option.some.inj (hstate'.symm.trans hl)
    exact hrun e w mint j before _ hg hcore hstate (fusion_market_inv hreach hs.1 hstate) hj
      (hlater _ _ before hs.1.unixTimestamp (ih before hstate))

/-- A property of single markets that holds at birth and is kept by every instruction on a market
with its books in order holds of every market of every reached state. -/
theorem fusion_market_invariant {G : SystemEvent → SystemWorld → Prop} {P : MarketState → Prop}
    {w : SystemWorld} (h : fusion.Reachable G w)
    (hbirth : ∀ cfg authority clk mint freeze args state,
      initMarket cfg authority clk mint freeze args = .ok state → P state)
    (hrun : ∀ cfg clk (j : MarketInstr) a a', Inv clk.unixTimestamp a →
      j.run cfg clk a = .ok a' → P a.state → P a'.state) :
    w.system.protocol.markets.All P := by
  refine fusion_market_rule (P := fun _ ↦ P) h (fun _ _ _ _ hstate ↦ hstate) hbirth ?_
  intro e w mint j state a' _ _ _ hi hj hstate
  exact hrun _ e.clock j _ _ hi hj hstate

end Steps

end FusionCore
