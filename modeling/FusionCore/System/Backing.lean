import FusionCore.Core.Burns
import FusionCore.Core.SupplyIdentity
import FusionCore.System.MarketRuns

/-!
# The share of a market in the supply

A market backs its debt and its bad debt less the interest that is still to be minted.  The shares
of all markets add up to the supply, and none is negative as long as fUSD is only burned against a
market that can afford it.  Nothing in the program ensures this: fUSD that was minted in one market
may pay off another before the interest of the latter is minted.
-/

namespace FusionCore

open Checked Oracle

/-! ## Reconciliation -/

section Reconcile

variable {s s' : Protocol} {acc sums : ReconcileSums} {mints : List Pubkey} {mint : Pubkey}
  {clk : Clock}

/-- The share of the market with a given mint, zero if there is none. -/
def Protocol.shareAt (s : Protocol) (mint : Pubkey) : ℤ :=
  (s.markets.lookup mint).elim 0 fun state : MarketState ↦ net state.market

theorem Protocol.shareAt_eq (s : Protocol) (mint : Pubkey) :
    s.shareAt mint = (s.weightAt MarketState.backed mint : ℤ) -
      s.weightAt (·.market.unmintedInterest) mint := by
  unfold Protocol.shareAt Protocol.weightAt
  cases s.markets.lookup mint with
  | none => rfl
  | some state =>
    simp only [Option.elim_some, Option.map_some, Option.getD_some, net, MarketState.backed]
    push_cast
    ring

theorem sum_shareAt (s : Protocol) (mints : List Pubkey) :
    (mints.map s.shareAt).sum = ((mints.map (s.weightAt MarketState.backed)).sum : ℤ) -
      (mints.map (s.weightAt (·.market.unmintedInterest))).sum := by
  induction mints with
  | nil => rfl
  | cons mint mints ih =>
    simp only [List.map_cons, List.sum_cons, ih, Protocol.shareAt_eq]
    push_cast
    ring

theorem reconcileLoop_nodup (h : mints.foldlM (reconcileOne s) acc = .ok sums) :
    mints.Nodup ∧ (∀ m ∈ mints, m ∉ acc.seen) ∧ ∀ m ∈ mints, m ∈ s.markets.keys := by
  induction mints generalizing acc with
  | nil => simp
  | cons mint mints ih =>
    rw [List.foldlM_cons] at h
    obtain ⟨acc', hacc, h⟩ := bind_eq_ok_iff.mp h
    simp only [reconcileOne, bind_eq_ok_iff, require_eq_ok, okOr_eq_ok, pure_eq_ok,
      exists_const] at hacc
    obtain ⟨hnew, state, hl, _, -, _, -, _, -, rfl⟩ := hacc
    obtain ⟨hnodup, hseen, hkeys⟩ := ih h
    have hmem : mint ∈ s.markets.keys :=
      AList.mem_keys.mp (AList.lookup_isSome.mp (Option.isSome_iff_exists.mpr ⟨state, hl⟩))
    refine ⟨List.nodup_cons.mpr ⟨?_, hnodup⟩, ?_, ?_⟩
    · intro hin
      exact hseen mint hin List.mem_cons_self
    · rintro m hm
      rcases List.mem_cons.mp hm with rfl | hm
      · exact hnew
      · exact fun hacc ↦ hseen m hm (List.mem_cons_of_mem _ hacc)
    · intro m hm
      rcases List.mem_cons.mp hm with rfl | hm
      · exact hmem
      · exact hkeys m hm

variable (hall : s.markets.All fun state ↦ state.market.ShareNonneg)
include hall

theorem shareAt_nonneg (mint : Pubkey) : 0 ≤ s.shareAt mint := by
  unfold Protocol.shareAt
  cases hl : s.markets.lookup mint with
  | none => exact le_rfl
  | some state =>
    have hshare := hall mint state hl
    simp only [Option.elim_some, net]
    unfold Market.ShareNonneg at hshare
    omega

theorem sum_shareAt_le {now : ℕ} (hi : s.Inv now) (hnodup : mints.Nodup)
    (hkeys : ∀ m ∈ mints, m ∈ s.markets.keys) : (mints.map s.shareAt).sum ≤ s.fusd.supply := by
  have htotal : s.markets.total (fun state ↦ net state.market) =
      ∑ k ∈ s.markets.keys.toFinset, s.shareAt k := Table.total_eq_sum subset_rfl
  calc
    (mints.map s.shareAt).sum = ∑ k ∈ mints.toFinset, s.shareAt k :=
      (List.sum_toFinset _ hnodup).symm
    _ ≤ ∑ k ∈ s.markets.keys.toFinset, s.shareAt k := by
      refine Finset.sum_le_sum_of_subset_of_nonneg ?_ fun k _ _ ↦ shareAt_nonneg hall k
      intro k hk
      rw [List.mem_toFinset] at hk ⊢
      exact hkeys k hk
    _ = s.fusd.supply := by
      rw [← htotal]
      exact hi.supply.symm

/-- Where no share is negative, a reconciliation stamps the sum of the shares that it was handed,
and its distance to the supply. -/
theorem reconcileSupply_exact {now : ℕ} (hi : s.Inv now)
    (h : reconcileSupply clk mints s = .ok s') : ∃ r, s'.recon = some r ∧
      r.lastMintSupply = s.fusd.supply ∧ r.lastBacking = (mints.map s.shareAt).sum ∧
      r.lastResidual = (mints.map s.shareAt).sum - s.fusd.supply := by
  simp only [reconcileSupply, bind_eq_ok_iff, require_eq_ok, pure_eq_ok, exists_const] at h
  obtain ⟨-, -, sums, hsums, rfl⟩ := h
  obtain ⟨hnodup, -, hkeys⟩ := reconcileLoop_nodup hsums
  obtain ⟨hagg, hunm⟩ := reconcileLoop_spec hsums
  have hsum := sum_shareAt s mints
  have hnonneg : 0 ≤ (mints.map s.shareAt).sum := by
    refine List.sum_nonneg ?_
    intro x hx
    obtain ⟨mint, -, rfl⟩ := List.mem_map.mp hx
    exact shareAt_nonneg hall mint
  have hle := sum_shareAt_le hall hi hnodup hkeys
  have hbacking : ((sums.aggPlusBad - sums.unminted : ℕ) : ℤ) = (mints.map s.shareAt).sum := by
    dsimp only at hagg hunm
    omega
  have hlt := s.fusd.supply_lt
  refine ⟨_, rfl, rfl, hbacking, ?_⟩
  dsimp only
  rw [asI128_of_lt (by omega), asI128_of_lt hlt, hbacking]
  unfold saturatingSubI128
  omega

end Reconcile

/-! ## Runs -/

/-- The plain instruction of a step on a market, with the mint of that market. -/
def SystemInstr.onMarket : SystemInstr → Option (Pubkey × MarketInstr)
  | .core (.market mint i) _ => some (mint, i)
  | _ => none

theorem SystemInstr.onMarket_of_coreOn {k : Pubkey} {i : SystemInstr} {j : MarketInstr}
    (h : i.coreOn k = some j) : i.onMarket = some (k, j) := by
  unfold SystemInstr.coreOn at h
  split at h
  next mint j' hplain =>
    split at h
    next heq =>
      obtain rfl := Option.some.inj h
      rw [← heq]
      rfl
    next => cases h
  next => cases h

/-- Whatever burns fUSD against a market comes when the market can afford it. -/
def AffordableBurns (e : SystemEvent) (w : SystemWorld) : Prop :=
  ∀ x ∈ e.instr.onMarket, ∀ state ∈ w.system.protocol.markets.lookup x.1,
    x.2.Affordable e.clock.unixTimestamp (w.system.accounts state)

theorem MarketInstr.Governs.burnLimit {i : MarketInstr} (h : i.Governs) (now : ℕ) (a : Accounts) :
    i.burnLimit now a = none := by
  cases i <;> first | rfl | cases h

theorem fusion_share_nonneg {w : SystemWorld} (h : fusion.Reachable AffordableBurns w) :
    w.system.protocol.markets.All fun state ↦ state.market.ShareNonneg := by
  refine fusion_market_rule (P := fun _ state ↦ state.market.ShareNonneg) h
    (fun _ _ _ _ hshare ↦ hshare) ?_ ?_
  · intro cfg authority clk mint freeze args state hinit
    obtain rfl := initMarket_eq hinit
    exact Nat.zero_le _
  · intro e w mint j state a' hg hcore hstate hi hrun hshare
    have hafford : j.Affordable e.clock.unixTimestamp (w.system.accounts state) := by
      rcases hcore with hcore | ⟨-, hgoverns⟩
      · exact hg _ (SystemInstr.onMarket_of_coreOn hcore) state hstate
      · intro limit hlimit
        rw [hgoverns.burnLimit] at hlimit
        cases hlimit
    exact MarketInstr.run_share hi hafford hshare hrun

/-- In every run that burns fUSD against markets that can afford it, no share is negative, and a
reconciliation of any markets is exact. -/
theorem fusion_backing_exact {w : SystemWorld} (h : fusion.Reachable AffordableBurns w) :
    (w.system.protocol.markets.All fun state ↦
      state.market.unmintedInterest ≤ state.market.aggRecordedDebt + state.market.badDebt) ∧
    ∀ clk mints s', reconcileSupply clk mints w.system.protocol = .ok s' →
      ∃ r, s'.recon = some r ∧ r.lastMintSupply = w.system.protocol.fusd.supply ∧
        r.lastBacking = (mints.map w.system.protocol.shareAt).sum ∧
        r.lastResidual =
          (mints.map w.system.protocol.shareAt).sum - w.system.protocol.fusd.supply := by
  have hall := fusion_share_nonneg h
  refine ⟨hall, ?_⟩
  intro clk mints s' hs'
  exact reconcileSupply_exact hall (fusion_inv h) hs'

instance (m : Market) (now : ℕ) : Decidable (m.Refreshed now) :=
  inferInstanceAs (Decidable (_ ∧ _))

instance (now : ℕ) (a : Accounts) (i : MarketInstr) : Decidable (i.Affordable now a) :=
  inferInstanceAs (Decidable (∀ limit ∈ i.burnLimit now a, _ ∨ _))

instance (e : SystemEvent) (w : SystemWorld) : Decidable (AffordableBurns e w) :=
  inferInstanceAs (Decidable (∀ x ∈ e.instr.onMarket,
    ∀ state ∈ w.system.protocol.markets.lookup x.1, MarketInstr.Affordable _ _ _))

namespace Sample

def initReconciliation : SystemInstr := .core (.initSupplyReconciliation 1) rfl

/-- A partial repayment an hour after a borrow. -/
def repaidInPart : List SystemEvent :=
  at_ clock (initReconciliation :: launch ++ drawn clock 15000 1000000000) ++
    at_ ⟨1000, 1003600, 1⟩ [.core (.market 7 (.repay 100 200000000)) rfl]

/-- Two markets: the collateral of both has nine decimals. -/
def twinGenesis : SystemWorld :=
  ⟨⟨0, 0, 0⟩, System.genesis ⟨1, 2, 3⟩ ⟨501, 0, 502⟩ fun mint ↦ if mint = 8 then 6 else 9⟩

/-- Launch the market of `mint`, priced through the stake pool `pool`, and borrow a thousand dollars
there. -/
def twin (mint pool : Pubkey) : List SystemInstr :=
  [.core (.initMarket 1 mint none ⟨11000, 10 ^ 15, 0, 50, 0, 10, 50⟩) rfl,
    .core (.market mint (.initReactorPool 1)) rfl,
    .core (.market mint (.initInsuranceBuffer 1)) rfl,
    .initMarketOracle 1 mint 8 { oracleArgs with lstStakePool := pool },
    .core (.market mint (.mintCollateral 100 1000000000000)) rfl,
    .updatePrice mint { feeds clock 15000 with
      stakePool := some ⟨pool, FUSION_STAKE_POOL_PROGRAM_ID,
        some ⟨mint, 10 ^ 15, 10 ^ 15, clock.epoch⟩⟩ },
    .core (.market mint (.openPosition 100 500)) rfl,
    .core (.market mint (.deposit 100 10000000000)) rfl,
    .core (.market mint (.borrow 100 1000000000)) rfl]

/-- Both markets lend a thousand dollars; a day later the debt in the first is repaid in full, its
interest with fUSD that the second has minted. -/
def crossRepaid : List SystemEvent :=
  at_ clock (initReconciliation :: twin 7 75 ++ twin 9 76) ++
    [⟨⟨200000, 1086400, 1⟩, .core (.market 7 (.repay 100 2000000000)) rfl⟩]

end Sample

theorem fusion_backing_exact_sample : ∃ w s' r, fusion.Reachable AffordableBurns w ∧
    reconcileSupply Sample.clock [7] w.system.protocol = .ok s' ∧ s'.recon = some r ∧
    r.lastBacking = ([7].map w.system.protocol.shareAt).sum ∧
    r.lastResidual = ([7].map w.system.protocol.shareAt).sum - w.system.protocol.fusd.supply := by
  obtain ⟨w, hw, htest⟩ := @Sample.of_test AffordableBurns _ Sample.repaidInPart
    (fun w : SystemWorld ↦ (reconcileSupply Sample.clock [7] w.system.protocol).toBool)
    (by decide +kernel)
  cases hs' : reconcileSupply Sample.clock [7] w.system.protocol with
  | error e =>
    rw [hs'] at htest
    cases htest
  | ok s' =>
    obtain ⟨r, hr, -, hbacking, hresidual⟩ := (fusion_backing_exact hw).2 Sample.clock [7] s' hs'
    exact ⟨w, s', r, hw, hs', hr, hbacking, hresidual⟩

/-- The first market owes more interest than it has debt, and its reconciliation says zero. -/
theorem cross_repay_leaves_negative_share : ∃ w state s' r, fusion.Reach w ∧
    w.system.protocol.markets.lookup 7 = some state ∧
    state.market.aggRecordedDebt + state.market.badDebt < state.market.unmintedInterest ∧
    reconcileSupply Sample.clock [7] w.system.protocol = .ok s' ∧ s'.recon = some r ∧
    r.lastBacking = 0 ∧ w.system.protocol.shareAt 7 < 0 := by
  have hrun : ((Machine.execute (fun _ _ ↦ True) SystemWorld.next Sample.twinGenesis
      Sample.crossRepaid).map fun w ↦
        ((w.system.protocol.markets.lookup 7).any fun s : MarketState ↦
          decide (s.market.aggRecordedDebt + s.market.badDebt < s.market.unmintedInterest)) &&
        ((reconcileSupply Sample.clock [7] w.system.protocol).toOption.any fun s' : Protocol ↦
          s'.recon.any fun r : SupplyReconciliation ↦ decide (r.lastBacking = 0))) =
      some true := by
    decide +kernel
  obtain ⟨w, hw, htest⟩ := Option.map_eq_some_iff.mp hrun
  have hreach : fusion.Reach w :=
    Machine.Reachable.execute fusion_step_of_next (.init ⟨_, _, _, rfl⟩) hw
  simp only [Bool.and_eq_true, Option.any_eq_true, decide_eq_true_eq] at htest
  obtain ⟨⟨state, hl, hunminted⟩, s', hs', r, hr, hzero⟩ := htest
  refine ⟨w, state, s', r, hreach, hl, hunminted, ?_, hr, hzero, ?_⟩
  · cases hrec : reconcileSupply Sample.clock [7] w.system.protocol with
    | error e =>
      rw [hrec] at hs'
      cases hs'
    | ok s₁ =>
      rw [hrec] at hs'
      cases hs'
      rfl
  · simp only [Protocol.shareAt, hl, Option.elim_some, net]
    omega

end FusionCore
