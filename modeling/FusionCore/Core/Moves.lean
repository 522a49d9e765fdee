import FusionCore.Core.PoolRuns
import FusionCore.Core.Protocol

/-!
# One market along a run of the protocol

A step of the protocol leaves a market alone, has the effect of one instruction on it, or
creates it.  From this every Reactor Pool of a reached state is a state of the pool machine.
-/

namespace FusionCore

open Checked

/-- What one step of the protocol does to the market of one collateral mint. -/
inductive MarketMove (now : ℕ) : Option MarketState → Option MarketState → Prop where
  | keep (s : Option MarketState) : MarketMove now s s
  | effect {a a' : Accounts} (he : Effect now a a') : MarketMove now (some a.state) (some a'.state)
  | birth {s : MarketState} (hpositions : s.positions = ∅) (hreactor : s.reactor = none) :
      MarketMove now none (some s)

theorem MarketMove.of_eq {now : ℕ} {s s' : Option MarketState} (h : s' = s) :
    MarketMove now s s' := by
  rw [h]
  exact .keep s

section Run

variable {s s' : Protocol} {clk : Clock}

theorem Protocol.onMarket_move {now : ℕ} {mint : Pubkey}
    {run : Accounts → Except ProgramError Accounts} (hi : s.Inv now)
    (hrun : ∀ a a', FusionCore.Inv now a → run a = .ok a' → Effect now a a')
    (h : s.onMarket mint run = .ok s') (k : Pubkey) :
    MarketMove now (s.markets.lookup k) (s'.markets.lookup k) := by
  obtain ⟨state, a', hl, ha', rfl⟩ := Protocol.onMarket_cases h
  have he := hrun _ a' (hi.markets mint state hl).2 ha'
  by_cases hk : k = mint
  · subst hk
    rw [hl, AList.lookup_insert]
    exact .effect he
  · exact .of_eq (AList.lookup_insert_ne hk)

theorem Instr.run_move {i : Instr} (hi : s.Inv clk.unixTimestamp) (h : i.run clk s = .ok s')
    (k : Pubkey) :
    MarketMove clk.unixTimestamp (s.markets.lookup k) (s'.markets.lookup k) := by
  cases i.run_cases h with
  | market mint i h => exact Protocol.onMarket_move hi (fun a a' ha ↦ i.run_effect ha) h k
  | birth mint state hnone _ _ hpositions hreactor _ heq =>
    subst heq
    by_cases hk : k = mint
    · subst hk
      rw [hnone, AList.lookup_insert]
      exact .birth hpositions hreactor
    · exact .of_eq (AList.lookup_insert_ne hk)
  | rest hmarkets => exact .of_eq (by rw [hmarkets])

/-- A property of single markets that births establish and effects keep holds of every market
of every reached state; the guard speaks about the state before each step. -/
theorem fusdCore_market_invariant {G : Event → World → Prop} {P : MarketState → Prop}
    (hbirth : ∀ s : MarketState, s.positions = ∅ → s.reactor = none → P s)
    (heffect : ∀ e w mint now (a a' : Accounts), G e w →
      w.protocol.markets.lookup mint = some a.state → P a.state → Effect now a a' → P a'.state)
    {w : World} (h : fusdCore.Reachable G w) : w.protocol.markets.All P := by
  refine h.all_entries (P := fun _ ↦ P) fusdCore_init_markets ?_
  intro e w w' mint hreach hg hs ih state hl
  obtain ⟨hclk, hrun, -⟩ := hs
  have hmove := Instr.run_move ((fusdCore_inv hreach).mono hclk.unixTimestamp) hrun mint
  rw [Option.mem_def.mp hl] at hmove
  generalize hbefore : w.protocol.markets.lookup mint = before at hmove
  cases hmove with
  | keep => exact ih state hbefore
  | effect he => exact heffect e w mint _ _ _ hg hbefore (ih _ hbefore) he
  | birth hpositions hreactor => exact hbirth state hpositions hreactor

/-- An instruction, as the market of `k` sees it: it runs on this market, creates it, or leaves it
alone. -/
inductive CoreRun (clk : Clock) (s s' : Protocol) (i : Instr) (k : Pubkey) : Prop where
  | idle (hother : ∀ j, i ≠ .market k j) (hsame : s'.markets.lookup k = s.markets.lookup k)
  | birth (authority : Pubkey) (freeze : Option Pubkey) (args : InitMarketArgs)
      (state : MarketState) (hother : ∀ j, i ≠ .market k j) (hnone : s.markets.lookup k = none)
      (hinit : initMarket s.config authority clk k freeze args = .ok state)
      (hstate : s'.markets.lookup k = some state)
  | run (j : MarketInstr) (state : MarketState) (a' : Accounts) (hon : i = .market k j)
      (hstate : s.markets.lookup k = some state)
      (hrun : j.run s.config clk ⟨state, s.fusd, s.backstop⟩ = .ok a')
      (heq : s' = { s with
        fusd := a'.fusd
        backstop := a'.backstop
        markets := s.markets.insert k a'.state })

theorem Instr.run_markets {i : Instr} (hmarket : ∀ mint j, i ≠ .market mint j)
    (hinit : ∀ authority mint freeze args, i ≠ .initMarket authority mint freeze args) :
    Ensures (i.run clk s) fun s' ↦ s'.markets = s.markets := by
  cases i with
  | market mint j => exact absurd rfl (hmarket mint j)
  | initMarket authority mint freeze args => exact absurd rfl (hinit authority mint freeze args)
  | initGlobalBackstop => exact .after fun _ ↦ .after fun _ ↦ .ok rfl
  | fundBackstop => exact .after fun _ ↦ .after fun _ ↦ .after fun _ ↦ .after fun _ ↦ .ok rfl
  | withdrawBackstopExcess =>
    refine .after fun _ ↦ .after fun _ ↦ .after fun _ ↦ .after fun _ ↦ .after fun _ ↦ ?_
    exact .after fun _ ↦ .after fun _ ↦ .ok rfl
  | executeGlobalParamChange => exact .after fun _ ↦ .after fun _ ↦ .ok rfl
  | initSupplyReconciliation => exact .after fun _ ↦ .after fun _ ↦ .ok rfl
  | reconcileSupply => exact .after fun _ ↦ .after fun _ ↦ .after fun _ ↦ .ok rfl
  | transferFusd => exact .after fun _ ↦ .ok rfl

theorem Instr.core_run {i : Instr} (h : i.run clk s = .ok s') (k : Pubkey) :
    CoreRun clk s s' i k := by
  cases i with
  | market mint j =>
    obtain ⟨state, a', hl, ha', heq⟩ := Protocol.onMarket_cases h
    by_cases hk : mint = k
    · subst hk
      exact .run j state a' rfl hl ha' heq
    · refine .idle ?_ ?_
      · intro j' hj
        exact hk (Instr.market.inj hj).1
      · rw [heq, AList.lookup_insert_ne (Ne.symm hk)]
  | initMarket authority mint freeze args =>
    simp only [Instr.run, bind_eq_ok_iff, require_eq_ok, pure_eq_ok, exists_const] at h
    obtain ⟨hnone, state, hstate, rfl⟩ := h
    by_cases hk : mint = k
    · subst hk
      exact .birth authority freeze args state (by simp) hnone hstate (AList.lookup_insert _)
    · exact .idle (by simp) (AList.lookup_insert_ne (Ne.symm hk))
  | _ =>
    refine .idle (by simp) ?_
    rw [Instr.run_markets (by simp) (by simp) s' h]

/-- The successor of a world, if the instruction succeeds. -/
def World.next (e : Event) (w : World) : Option World :=
  if w.clock.Le e.clock then (e.instr.run e.clock w.protocol).toOption.map (⟨e.clock, ·⟩)
  else none

theorem fusdCore_step_of_next (e : Event) (w w' : World) (h : World.next e w = some w') :
    fusdCore.step e w w' := by
  unfold World.next at h
  split at h
  next hclk =>
    obtain ⟨s, hs, rfl⟩ := Option.map_eq_some_iff.mp h
    exact ⟨hclk, toOption_eq_some.mp hs, rfl⟩
  next => cases h

end Run

/-! ## Reactor Pools -/

/-- Every Reactor Pool holds fewer than `10 ^ 18` units. -/
def World.PoolsSmall (w : World) : Prop :=
  w.protocol.markets.All fun s ↦ ∀ rp ∈ s.reactor, rp.state.totalDeposits < DECIMAL_PRECISION

instance (w : World) : Decidable w.PoolsSmall :=
  inferInstanceAs (Decidable (Table.All _ _))

/-- The Reactor Pool of a market is in a state of the pool machine. -/
theorem market_pool_reachable {w : World}
    (h : fusdCore.Reachable (fun _ w ↦ w.PoolsSmall) w) :
    w.protocol.markets.All fun s ↦ ∀ rp, s.reactor = some rp →
      ∃ flow, (reactorPool REACTOR_GRID_LEN REACTOR_MAX_SCALES).Reachable
        (fun _ r ↦ r.Small) ⟨rp, flow⟩ := by
  refine fusdCore_market_invariant (fun s _ hnone rp hrp ↦ ?_) ?_ h
  · rw [hnone] at hrp
    cases hrp
  · intro e w mint now a a' hsmall hl ih he rp hrp
    have hmove := he.reactor
    rw [hrp] at hmove
    generalize hbefore : a.state.reactor = before at hmove
    cases hmove with
    | keep => exact ih rp hbefore
    | init => exact ⟨⟨0, 0, 0, 0⟩, .init rfl⟩
    | @exec pool _ op flow hexec =>
      obtain ⟨flow₀, hreach⟩ := ih pool hbefore
      exact ⟨flow₀.add flow, .step op hreach (hsmall mint _ hl pool hbefore) ⟨flow, hexec, rfl⟩⟩

end FusionCore
