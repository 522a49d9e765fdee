import FusionCore.Lib.LeakyBucket
import FusionCore.System.MarketRuns

/-!
# The outflow limiter

The limiter of a market is a leaky bucket: a borrow fills it, a repayment empties it, and governance
may change its capacity at any time.  Over any interval in which the capacity is on and only rises,
what is borrowed is bounded by one capacity, the leak of the interval and what is repaid.
-/

namespace FusionCore

open Checked Oracle

/-! ## One instruction -/

/-- The fields of the limiter. -/
structure Limiter where
  cap : ℕ
  accrued : ℕ
  lastUpdate : ℕ
  deriving DecidableEq

def Market.limiter (m : Market) : Limiter := ⟨m.rlCap, m.rlAccrued, m.rlLastUpdate⟩

/-- What an instruction at `now` does to a limiter while `outflow` is borrowed and `inflow` is
repaid. -/
inductive LimiterMove (now : ℕ) (l l' : Limiter) : LeakyBucket.Flow → Prop where
  | keep (h : l' = l) : LimiterMove now l l' ⟨0, 0⟩
  | off (f : LeakyBucket.Flow) (hoff : l.cap = 0) (h : l' = l) : LimiterMove now l l' f
  | borrowed (amount : ℕ) (hcap : l'.cap = l.cap) (hlast : l'.lastUpdate = now)
      (h : ratelimitConsume l.accrued l.lastUpdate now l.cap RATELIMIT_WINDOW_SECS amount
        = some l'.accrued) : LimiterMove now l l' ⟨amount, 0⟩
  | repaid (amount : ℕ) (hcap : l'.cap = l.cap) (hlast : l'.lastUpdate = now)
      (h : ratelimitRestore l.accrued l.lastUpdate now l.cap RATELIMIT_WINDOW_SECS amount
        = l'.accrued) : LimiterMove now l l' ⟨0, amount⟩
  | recapped (hlast : l'.lastUpdate = l.lastUpdate) (h : l'.accrued = min l.accrued l'.cap) :
      LimiterMove now l l' ⟨0, 0⟩

/-- What a borrow mints and what a repayment burns. -/
def MarketInstr.flow (a a' : Accounts) : MarketInstr → LeakyBucket.Flow
  | .borrow _ _ => ⟨a'.fusd.supply - a.fusd.supply, 0⟩
  | .repay _ _ => ⟨0, a.fusd.supply - a'.fusd.supply⟩
  | _ => ⟨0, 0⟩

section Instructions

variable {clk : Clock} {owner : Pubkey} {amount : ℕ} {a a' : Accounts}

theorem borrow_limiter (hi : Inv clk.unixTimestamp a) (h : borrow clk owner amount a = .ok a') :
    LimiterMove clk.unixTimestamp a.state.market.limiter a'.state.market.limiter
      ⟨a'.fusd.supply - a.fusd.supply, 0⟩ := by
  obtain ⟨run, rfl⟩ := borrow_run h
  obtain ⟨x, ts, hacc⟩ := accrue_spec hi.book.clock run.visit.accrue_eq
  have hlim : run.visit.m₁.limiter = a.state.market.limiter := by
    rw [hacc.eq]
    rfl
  have hminted : run.result.fusd.supply - a.fusd.supply = amount := by
    dsimp only [BorrowRun.result]
    rw [TokenLedger.mintTo_supply run.mintTo_eq, Nat.add_sub_cancel_left]
  rw [hminted, ← hlim]
  rcases run.limiter_eq with ⟨hconsume, hlast⟩ | ⟨hoff, haccrued, hlast⟩
  · exact .borrowed amount rfl hlast hconsume
  · exact .off _ hoff (congrArg₂ (Limiter.mk run.visit.m₁.rlCap) haccrued hlast)

theorem repay_limiter (hi : Inv clk.unixTimestamp a) (h : repay clk owner amount a = .ok a') :
    LimiterMove clk.unixTimestamp a.state.market.limiter a'.state.market.limiter
      ⟨0, a.fusd.supply - a'.fusd.supply⟩ := by
  rcases repay_run h with ⟨run, rfl⟩ | ⟨run, rfl⟩
  · obtain ⟨x, ts, hacc⟩ := accrue_spec hi.book.clock run.accrue_eq
    dsimp only [RestakeRun.result]
    rw [Nat.sub_self]
    refine .keep ?_
    rw [hacc.eq]
    rfl
  · obtain ⟨x, ts, hacc⟩ := accrue_spec hi.book.clock run.visit.accrue_eq
    have hlim : run.visit.market.limiter = a.state.market.limiter := by
      dsimp only [Visit.market, repaid, Market.limiter]
      rw [hacc.eq]
    have hburned : a.fusd.supply - run.result.fusd.supply =
        truncate 64 (min amount run.visit.p₁.recordedDebt) := by
      have hsupply := TokenLedger.burn_supply run.burn_eq
      dsimp only [RepayRun.result]
      omega
    rw [hburned, ← hlim]
    dsimp only [RepayRun.result]
    unfold Market.restoreOutflow
    split
    next => exact .repaid _ rfl rfl rfl
    next hoff => exact .off _ (Nat.eq_zero_of_not_pos hoff) rfl

theorem executeParamChange_limiter {now value : ℕ} {param : MarketParam}
    (h : executeParamChange clk param value a = .ok a') :
    LimiterMove now a.state.market.limiter a'.state.market.limiter ⟨0, 0⟩ := by
  simp only [executeParamChange, bind_eq_ok_iff, pure_eq_ok] at h
  obtain ⟨_, -, rfl⟩ := h
  cases param with
  | rateLimitCap => exact .recapped rfl rfl
  | mcr =>
    refine .keep ?_
    dsimp only
    split <;> rfl
  | _ => exact .keep rfl

theorem MarketInstr.run_limiter {cfg : Config} {i : MarketInstr} (hi : Inv clk.unixTimestamp a)
    (h : i.run cfg clk a = .ok a') :
    LimiterMove clk.unixTimestamp a.state.market.limiter a'.state.market.limiter (i.flow a a') := by
  have hb := MarketInstr.run_booked hi h
  -- the capacity is a parameter, which the plain instructions leave alone
  have hrest : (Instr.market 0 i).plain = true → i.limited = false →
      a'.state.market.limiter = a.state.market.limiter := by
    intro hplain hlimited
    obtain ⟨haccrued, hlast⟩ := hb.limiter hlimited
    have hterms := (MarketInstr.run_framed hplain hi h).terms
    have hcap : a'.state.market.rlCap = a.state.market.rlCap :=
      congrArg (fun t : Terms ↦ t.params.rlCap) hterms
    rw [Market.limiter, haccrued, hlast, hcap]
    rfl
  cases i with
  | borrow => exact borrow_limiter hi h
  | repay => exact repay_limiter hi h
  | executeParamChange => exact executeParamChange_limiter h
  | updatePrice commit =>
    obtain ⟨m, hpriced, rfl⟩ := updatePrice_cases h
    cases hpriced <;> exact .keep rfl
  | rebindFeeds authority =>
    obtain ⟨anchor, -, rfl⟩ := rebindFeeds_cases h
    exact .keep rfl
  | _ => exact .keep (hrest rfl rfl)

end Instructions

/-! ## The bucket -/

section Bucket

variable {now : ℕ} {l l' : Limiter} {f : LeakyBucket.Flow}

theorem le_ratelimitDecayed (accrued last now cap : ℕ) :
    accrued ≤ ratelimitDecayed accrued last now cap RATELIMIT_WINDOW_SECS +
      cap * (now - last) / RATELIMIT_WINDOW_SECS := by
  have hwindow : RATELIMIT_WINDOW_SECS ≠ 0 := by decide
  have hsat : saturatingMul 128 cap (now - last) ≤ cap * (now - last) := min_le_left _ _
  have hleak : saturatingMul 128 cap (now - last) / RATELIMIT_WINDOW_SECS ≤
      cap * (now - last) / RATELIMIT_WINDOW_SECS := Nat.div_le_div_right hsat
  simp only [ratelimitDecayed, if_neg hwindow]
  omega

theorem ratelimitDecayed_le (accrued last now cap window : ℕ) :
    ratelimitDecayed accrued last now cap window ≤ accrued := by
  unfold ratelimitDecayed
  split
  · exact le_rfl
  · exact Nat.sub_le _ _

theorem ratelimitConsume_eq_some {accrued last cap window amount next : ℕ}
    (h : ratelimitConsume accrued last now cap window amount = some next) :
    next = ratelimitDecayed accrued last now cap window + amount ∧ next ≤ cap := by
  simp only [ratelimitConsume, Option.bind_eq_bind, Option.bind_eq_some_iff,
    checkedAdd_eq_some] at h
  obtain ⟨_, ⟨-, rfl⟩, h⟩ := h
  split at h
  next => cases h
  next hle =>
    obtain rfl := Option.some.inj h
    exact ⟨rfl, not_lt.mp hle⟩

/-- The level stays below the capacity, and the last update in the past. -/
structure Limiter.Valid (now : ℕ) (l : Limiter) : Prop where
  accrued_le : l.accrued ≤ l.cap
  lastUpdate_le : l.lastUpdate ≤ now

theorem LimiterMove.valid (h : LimiterMove now l l' f) (hl : l.Valid now) : l'.Valid now := by
  cases h with
  | keep h =>
    rw [h]
    exact hl
  | off f hoff h =>
    rw [h]
    exact hl
  | borrowed amount hcap hlast h =>
    refine ⟨?_, hlast.le⟩
    rw [hcap]
    exact (ratelimitConsume_eq_some h).2
  | repaid amount hcap hlast h =>
    refine ⟨?_, hlast.le⟩
    rw [hcap, ← h]
    exact (Nat.sub_le _ _).trans ((ratelimitDecayed_le _ _ _ _ _).trans hl.accrued_le)
  | recapped hlast h =>
    refine ⟨?_, hlast.trans_le hl.lastUpdate_le⟩
    rw [h]
    exact min_le_right _ _

/-- A limiter that is on stays covered, whatever raises its capacity below `cap`. -/
theorem LimiterMove.covered {cap start : ℕ} {g : LeakyBucket.Flow} (h : LimiterMove now l l' f)
    (hl : l.Valid now) (hon : 0 < l.cap) (hraise : l.cap ≤ l'.cap) (hcap : l'.cap ≤ cap)
    (hstart : start ≤ now)
    (hc : LeakyBucket.Covered RATELIMIT_WINDOW_SECS cap start l.accrued l.lastUpdate g) :
    LeakyBucket.Covered RATELIMIT_WINDOW_SECS cap start l'.accrued l'.lastUpdate
      ⟨g.outflow + f.outflow, g.inflow + f.inflow⟩ := by
  have hle : l.cap ≤ cap := hraise.trans hcap
  have hleak := le_ratelimitDecayed l.accrued l.lastUpdate now l.cap
  cases h with
  | keep h =>
    rw [h]
    exact hc
  | off f hoff h => omega
  | borrowed amount _ hlast h =>
    rw [hlast, (ratelimitConsume_eq_some h).1]
    exact hc.fill hle hstart hl.lastUpdate_le hleak
  | repaid amount _ hlast h =>
    rw [hlast, ← h]
    exact hc.drain hle hstart hl.lastUpdate_le hleak
  | recapped hlast h =>
    -- a raise leaves the level where it is
    have hsame : l'.accrued = l.accrued := by
      rw [h]
      exact min_eq_left (hl.accrued_le.trans hraise)
    rw [hlast, hsame]
    exact hc

end Bucket

/-! ## Runs -/

section Runs

variable {k : Pubkey} {cap start stop : ℕ} {w₀ w w' : SystemWorld}

theorem fusion_limiter_valid {G : SystemEvent → SystemWorld → Prop} (h : fusion.Reachable G w) :
    w.system.protocol.markets.All fun s ↦ s.market.limiter.Valid w.clock.unixTimestamp := by
  refine fusion_market_rule (P := fun now s ↦ s.market.limiter.Valid now) h ?_ ?_ ?_
  · intro now later state hlater hvalid
    exact ⟨hvalid.accrued_le, hvalid.lastUpdate_le.trans hlater⟩
  · intro cfg authority clk mint freeze args state hinit
    obtain rfl := initMarket_eq hinit
    exact ⟨le_rfl, Nat.zero_le _⟩
  · intro e w mint j state a' _ _ _ hi hrun hvalid
    exact (MarketInstr.run_limiter hi hrun).valid hvalid

/-- What a step mints and burns through the limiter of `k`. -/
def limitedFlow (k : Pubkey) (e : SystemEvent) (w w' : SystemWorld) : LeakyBucket.Flow :=
  match e.instr.coreOn k with
  | some (.borrow _ _) => ⟨w'.system.protocol.fusd.supply - w.system.protocol.fusd.supply, 0⟩
  | some (.repay _ _) => ⟨0, w.system.protocol.fusd.supply - w'.system.protocol.fusd.supply⟩
  | _ => ⟨0, 0⟩

/-- In a step the limiter of `k` is on, and its capacity rises at most to `cap`. -/
def CapRises (k : Pubkey) (cap : ℕ) (w w' : SystemWorld) : Prop :=
  ∃ state state', w.system.protocol.markets.lookup k = some state ∧
    w'.system.protocol.markets.lookup k = some state' ∧ 0 < state.market.rlCap ∧
    state.market.rlCap ≤ state'.market.rlCap ∧ state'.market.rlCap ≤ cap

/-- A part of a run that falls into an interval, with what is borrowed from the market of `k` and
repaid to it meanwhile. -/
inductive Interval (k : Pubkey) (cap start stop : ℕ) (w₀ : SystemWorld) :
    SystemWorld → LeakyBucket.Flow → Prop where
  | nil : Interval k cap start stop w₀ w₀ ⟨0, 0⟩
  | step {w w' : SystemWorld} {f : LeakyBucket.Flow} (e : SystemEvent)
      (h : Interval k cap start stop w₀ w f) (hs : fusion.step e w w')
      (hstart : start ≤ e.clock.unixTimestamp) (hstop : e.clock.unixTimestamp ≤ stop)
      (hcap : CapRises k cap w w') :
      Interval k cap start stop w₀ w'
        ⟨f.outflow + (limitedFlow k e w w').outflow, f.inflow + (limitedFlow k e w w').inflow⟩

theorem Interval.reach {f : LeakyBucket.Flow} (h : Interval k cap start stop w₀ w f)
    (hw₀ : fusion.Reach w₀) : fusion.Reach w := by
  induction h with
  | nil => exact hw₀
  | step e _ hs _ _ _ ih => exact .step e ih trivial hs

theorem limiter_step {e : SystemEvent} {state state' : MarketState} (hw : fusion.Reach w)
    (hs : fusion.step e w w') (hl : w.system.protocol.markets.lookup k = some state)
    (hl' : w'.system.protocol.markets.lookup k = some state') :
    LimiterMove e.clock.unixTimestamp state.market.limiter state'.market.limiter
      (limitedFlow k e w w') := by
  cases fusion_market_run hs k with
  | idle hcore hsame =>
    obtain rfl := Option.some.inj (hl.symm.trans (hsame.symm.trans hl'))
    rw [limitedFlow, hcore]
    exact .keep rfl
  | birth _ _ _ _ _ hnone =>
    rw [hl] at hnone
    cases hnone
  | run j before after hcore hstate hrun hstate' =>
    obtain rfl := Option.some.inj (hstate.symm.trans hl)
    obtain rfl := Option.some.inj (hstate'.symm.trans hl')
    have hmove := MarketInstr.run_limiter (fusion_market_inv hw hs.1 hstate) hrun
    have hflow : limitedFlow k e w w' =
        j.flow (w.system.accounts before) (w'.system.accounts after) := by
      rcases hcore with hcore | ⟨hcore, hgoverns⟩
      · rw [limitedFlow, hcore]
        cases j <;> rfl
      · rw [limitedFlow, hcore]
        cases j <;> first | rfl | cases hgoverns
    rw [hflow]
    exact hmove

theorem Interval.covered {f : LeakyBucket.Flow} (h : Interval k cap start stop w₀ w f)
    (hw₀ : fusion.Reach w₀) {state : MarketState}
    (hl : w.system.protocol.markets.lookup k = some state) :
    LeakyBucket.Covered RATELIMIT_WINDOW_SECS cap start state.market.rlAccrued
      state.market.rlLastUpdate f := by
  induction h generalizing state with
  | nil => exact LeakyBucket.covered_start
  | @step w w' f e h hs hstart _ hcap ih =>
    obtain ⟨before, after, hbefore, hafter, hon, hraise, hle⟩ := hcap
    obtain rfl := Option.some.inj (hafter.symm.trans hl)
    have hreach := h.reach hw₀
    have hvalid := fusion_limiter_valid hreach k before hbefore
    exact (limiter_step hreach hs hbefore hafter).covered
      ⟨hvalid.accrued_le, hvalid.lastUpdate_le.trans hs.1.unixTimestamp⟩ hon hraise hle hstart
      (ih hbefore)

/-- What is borrowed in an interval is at most one capacity, the leak of the interval and what is
repaid meanwhile; and however the capacity is changed, the level stays below it. -/
theorem fusion_outflow_bounded (hw₀ : fusion.Reach w₀) :
    (∀ w f, Interval k cap start stop w₀ w f →
      f.outflow ≤ cap + cap * (stop - start) / RATELIMIT_WINDOW_SECS + f.inflow) ∧
    w₀.system.protocol.markets.All fun s ↦ s.market.rlAccrued ≤ s.market.rlCap := by
  constructor
  · intro w f h
    cases h with
    | nil => exact Nat.zero_le _
    | @step w w' f e h hs hstart hstop hcap =>
      obtain ⟨before, after, hbefore, hafter, hon, hraise, hle⟩ := id hcap
      have hvalid := fusion_limiter_valid ((h.reach hw₀).step e trivial hs) k after hafter
      have hcovered := (h.step e hs hstart hstop hcap).covered hw₀ hafter
      refine hcovered.bound (hvalid.accrued_le.trans hle) (hvalid.lastUpdate_le.trans ?_)
      rw [hs.2.2]
      exact hstop
  · intro mint state hl
    exact (fusion_limiter_valid hw₀ mint state hl).accrued_le

end Runs

instance (k : Pubkey) (cap : ℕ) (w w' : SystemWorld) : Decidable (CapRises k cap w w') :=
  decidable_of_iff ((w.system.protocol.markets.lookup k).any (fun s : MarketState ↦
      (w'.system.protocol.markets.lookup k).any fun s' : MarketState ↦
        decide (0 < s.market.rlCap ∧ s.market.rlCap ≤ s'.market.rlCap ∧ s'.market.rlCap ≤ cap))
      = true) <| by
    simp only [CapRises, Option.any_eq_true, decide_eq_true_eq, exists_and_left]

namespace Sample

/-- Play an interval from a world on. -/
def interval (k : Pubkey) (cap start stop : ℕ) (w : SystemWorld) (f : LeakyBucket.Flow) :
    List SystemEvent → Option (SystemWorld × LeakyBucket.Flow)
  | [] => some (w, f)
  | e :: events =>
    (SystemWorld.next e w).bind fun w' ↦
      if start ≤ e.clock.unixTimestamp ∧ e.clock.unixTimestamp ≤ stop ∧ CapRises k cap w w' then
        interval k cap start stop w' ⟨f.outflow + (limitedFlow k e w w').outflow,
          f.inflow + (limitedFlow k e w w').inflow⟩ events
      else none

theorem interval_sound {k : Pubkey} {cap start stop : ℕ} {w₀ w w' : SystemWorld}
    {f f' : LeakyBucket.Flow} {events : List SystemEvent} (h : Interval k cap start stop w₀ w f)
    (hrun : interval k cap start stop w f events = some (w', f')) :
    Interval k cap start stop w₀ w' f' := by
  induction events generalizing w f with
  | nil =>
    obtain ⟨rfl, rfl⟩ := Prod.mk.inj (Option.some.inj hrun)
    exact h
  | cons e events ih =>
    obtain ⟨w₁, hw₁, hrun⟩ := Option.bind_eq_some_iff.mp hrun
    split at hrun
    next hstep =>
      refine ih ?_ hrun
      exact h.step e (fusion_step_of_next e w w₁ hw₁) hstep.1 hstep.2.1 hstep.2.2
    next => cases hrun

/-- The limiter goes on before the first borrow, with a raise of its capacity waiting. -/
def limited : List SystemEvent :=
  at_ clock (launch ++
    [.queueParamChange 3 7 false (.market .rateLimitCap) 2000000000,
      .executeParamChange 0 7 false,
      .queueParamChange 3 7 false (.market .rateLimitCap) 3000000000] ++
    drawn clock 15000 500000000)

/-- A borrow, the raise, and a partial repayment an hour later. -/
def borrowed : List SystemEvent :=
  at_ clock [.core (.market 7 (.borrow 100 250000000)) rfl, .executeParamChange 1 7 false] ++
    at_ ⟨1000, 1003600, 1⟩ [.core (.market 7 (.repay 100 100000000)) rfl]

end Sample

theorem fusion_outflow_bounded_sample : ∃ w₀ w,
    fusion.Reach w₀ ∧
      Interval 7 3000000000 1000000 1003600 w₀ w ⟨250000000, 100000000⟩ ∧
      250000000 ≤ 3000000000 + 3000000000 * 3600 / RATELIMIT_WINDOW_SECS + 100000000 ∧
      w₀.system.protocol.markets.All fun s ↦ s.market.rlAccrued ≤ s.market.rlCap := by
  have hrun : ((Machine.execute (fun _ _ ↦ True) SystemWorld.next Sample.genesis
      Sample.limited).bind fun w₀ ↦ (Sample.interval 7 3000000000 1000000 1003600 w₀ ⟨0, 0⟩
        Sample.borrowed).map Prod.snd) = some ⟨250000000, 100000000⟩ := by
    decide +kernel
  obtain ⟨w₀, hw₀, hrun⟩ := Option.bind_eq_some_iff.mp hrun
  obtain ⟨⟨w, f⟩, hx, rfl⟩ := Option.map_eq_some_iff.mp hrun
  have hreach : fusion.Reach w₀ :=
    Machine.Reachable.execute fusion_step_of_next (.init Sample.genesis_init) hw₀
  have hinterval := Sample.interval_sound .nil hx
  obtain ⟨hbound, hlevel⟩ := fusion_outflow_bounded (k := 7) hreach
  exact ⟨w₀, w, hreach, hinterval, hbound w _ hinterval, hlevel⟩

end FusionCore
