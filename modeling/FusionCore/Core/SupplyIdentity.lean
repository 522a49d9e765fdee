import FusionCore.Core.Protocol

/-!
# The supply identity

In every run the fUSD supply is the net debt of all markets, so a reconciliation that is
handed all markets finds no residual.
-/

namespace FusionCore

open Checked

/-- The debt of a market, with its bad debt and before its unminted interest is taken off. -/
def MarketState.backed (s : MarketState) : ℕ := s.market.aggRecordedDebt + s.market.badDebt

section Reconcile

variable {s s' : Protocol} {acc sums : ReconcileSums} {mints : List Pubkey} {mint : Pubkey}
  {clk : Clock}

/-- A weight of the market with a given mint, zero if there is none. -/
def Protocol.weightAt (s : Protocol) (f : MarketState → ℕ) (mint : Pubkey) : ℕ :=
  ((s.markets.lookup mint).map f).getD 0

theorem reconcileOne_spec (h : reconcileOne s acc mint = .ok sums) :
    sums.aggPlusBad = acc.aggPlusBad + s.weightAt MarketState.backed mint ∧
      sums.unminted = acc.unminted + s.weightAt (·.market.unmintedInterest) mint := by
  simp only [reconcileOne, bind_eq_ok_iff, require_eq_ok, okOr_eq_ok, checkedAdd_eq_some,
    pure_eq_ok, exists_const] at h
  obtain ⟨-, state, hl, _, ⟨-, rfl⟩, _, ⟨-, rfl⟩, _, ⟨-, rfl⟩, rfl⟩ := h
  simp [Protocol.weightAt, hl, MarketState.backed, Nat.add_assoc]

theorem reconcileLoop_spec (h : mints.foldlM (reconcileOne s) acc = .ok sums) :
    sums.aggPlusBad = acc.aggPlusBad + (mints.map (s.weightAt MarketState.backed)).sum ∧
      sums.unminted =
        acc.unminted + (mints.map (s.weightAt (·.market.unmintedInterest))).sum := by
  induction mints generalizing acc with
  | nil =>
    rw [List.foldlM_nil, pure_eq_ok] at h
    simp [h]
  | cons mint mints ih =>
    rw [List.foldlM_cons] at h
    obtain ⟨acc', hacc, h⟩ := bind_eq_ok_iff.mp h
    obtain ⟨h1, h2⟩ := reconcileOne_spec hacc
    obtain ⟨h3, h4⟩ := ih h
    simp only [List.map_cons, List.sum_cons]
    omega

theorem exists_reconcileLoop (hnodup : mints.Nodup) (hseen : ∀ m ∈ mints, m ∉ acc.seen)
    (hex : ∀ m ∈ mints, ∃ state, s.markets.lookup m = some state)
    (hback : acc.aggPlusBad + (mints.map (s.weightAt MarketState.backed)).sum < 2 ^ 128)
    (hunm : acc.unminted + (mints.map (s.weightAt (·.market.unmintedInterest))).sum
      < 2 ^ 128) : ∃ sums, mints.foldlM (reconcileOne s) acc = .ok sums := by
  induction mints generalizing acc with
  | nil => exact ⟨acc, rfl⟩
  | cons mint mints ih =>
    obtain ⟨hnew, hnodup⟩ := List.nodup_cons.mp hnodup
    obtain ⟨state, hl⟩ := hex mint List.mem_cons_self
    have hw₁ : s.weightAt MarketState.backed mint = state.backed := by simp [Protocol.weightAt, hl]
    have hw₂ : s.weightAt (·.market.unmintedInterest) mint = state.market.unmintedInterest := by
      simp [Protocol.weightAt, hl]
    simp only [List.map_cons, List.sum_cons, hw₁, hw₂, MarketState.backed] at hback hunm
    have hone : reconcileOne s acc mint = .ok ⟨mint :: acc.seen,
        acc.aggPlusBad + state.market.aggRecordedDebt + state.market.badDebt,
        acc.unminted + state.market.unmintedInterest⟩ := by
      simp only [reconcileOne, bind_eq_ok_iff, require_eq_ok, okOr_eq_ok, checkedAdd_eq_some,
        pure_eq_ok, exists_const]
      exact ⟨hseen mint List.mem_cons_self, state, hl, _, ⟨by omega, rfl⟩, _,
        ⟨by omega, rfl⟩, _, ⟨by omega, rfl⟩, rfl⟩
    rw [List.foldlM_cons, hone]
    refine ih hnodup ?_ (fun m hm ↦ hex m (List.mem_cons_of_mem _ hm)) (by dsimp only; omega)
      (by dsimp only; omega)
    intro m hm
    rw [List.mem_cons, not_or]
    exact ⟨fun heq ↦ hnew (heq ▸ hm), hseen m (List.mem_cons_of_mem _ hm)⟩

theorem sum_weightAt (hmints : mints.Perm s.markets.keys) (f : MarketState → ℕ) :
    (mints.map (s.weightAt f)).sum = s.markets.total f := by
  rw [(hmints.map _).sum_eq, Table.total_eq_sumKeys]
  refine congrArg List.sum (List.map_congr_left fun k _ ↦ ?_)
  unfold Protocol.weightAt
  cases s.markets.lookup k <;> rfl

theorem asI128_of_lt {n : ℕ} (h : n < 2 ^ 64) : asI128 n = n := by
  have hpow : ((2 ^ 128 : ℕ) : ℤ) = 2 ^ 128 := by norm_cast
  refine Int.bmod_eq_of_le_mul_two ?_ ?_
  · omega
  · omega

theorem Protocol.Inv.backing {now : ℕ} (hi : s.Inv now) :
    s.markets.total MarketState.backed =
      s.fusd.supply + s.markets.total (·.market.unmintedInterest) := by
  have h1 := hi.supply
  have h2 : (s.markets.total fun state ↦ net state.market)
      + s.markets.total (fun state ↦ (state.market.unmintedInterest : ℤ)) =
      s.markets.total fun state ↦ (state.backed : ℤ) := by
    rw [← Table.total_add]
    congr 1
    funext state
    simp only [net, MarketState.backed]
    push_cast
    ring
  have h3 := Table.map_total MarketState.backed (Nat.castAddMonoidHom ℤ) s.markets
  have h4 := Table.map_total (fun state : MarketState ↦ state.market.unmintedInterest)
    (Nat.castAddMonoidHom ℤ) s.markets
  simp only [Nat.coe_castAddMonoidHom] at h3 h4
  omega

theorem reconcileSupply_residual {now : ℕ} (hi : s.Inv now) (hmints : mints.Perm s.markets.keys)
    (h : reconcileSupply clk mints s = .ok s') :
    ∃ r, s'.recon = some r ∧ r.lastMintSupply = s.fusd.supply ∧ r.lastResidual = 0 := by
  simp only [reconcileSupply, bind_eq_ok_iff, require_eq_ok, pure_eq_ok, exists_const] at h
  obtain ⟨-, -, sums, hsums, rfl⟩ := h
  refine ⟨_, rfl, rfl, ?_⟩
  obtain ⟨h1, h2⟩ := reconcileLoop_spec hsums
  rw [sum_weightAt hmints] at h1 h2
  have hback := hi.backing
  have hback' : sums.aggPlusBad - sums.unminted = s.fusd.supply := by
    dsimp only at h1 h2
    omega
  simp only [hback', asI128_of_lt s.fusd.supply_lt, saturatingSubI128, sub_self]
  decide

theorem exists_reconcileSupply {now : ℕ} (hi : s.Inv now) (hmints : mints.Perm s.markets.keys)
    (hrecon : s.recon.isSome) (hlen : mints.length ≤ MAX_RECONCILE_MARKETS)
    (hfit : s.markets.total MarketState.backed < 2 ^ 128) :
    ∃ s', reconcileSupply clk mints s = .ok s' := by
  have hback := hi.backing
  obtain ⟨sums, hsums⟩ : ∃ sums, mints.foldlM (reconcileOne s) ⟨[], 0, 0⟩ = .ok sums := by
    refine exists_reconcileLoop (hmints.nodup_iff.mpr s.markets.keys_nodup)
      (fun m _ ↦ List.not_mem_nil) ?_ ?_ ?_
    · intro m hm
      exact Option.isSome_iff_exists.mp
        (AList.lookup_isSome.mpr (AList.mem_keys.mpr (hmints.mem_iff.mp hm)))
    · rw [sum_weightAt hmints]
      dsimp only
      omega
    · rw [sum_weightAt hmints]
      dsimp only
      omega
  simp only [reconcileSupply, bind_eq_ok_iff, require_eq_ok, pure_eq_ok, exists_const]
  exact ⟨_, hrecon, hlen, sums, hsums, rfl⟩

end Reconcile

/-- In every run, over any number of markets, the fUSD supply is the signed sum of the net
debts; reconciling all markets stamps a zero residual, and fails only if there are more markets
than one call takes or their debts overflow the sum. -/
theorem supply_eq_net_debt {w : World} (h : fusdCore.Reach w) :
    (w.protocol.fusd.supply : ℤ) = w.protocol.markets.total (fun state ↦
        (state.market.aggRecordedDebt : ℤ) - state.market.unmintedInterest
          + state.market.badDebt) ∧
      ∀ (clk : Clock) (mints : List Pubkey), mints.Perm w.protocol.markets.keys →
        (∀ s', reconcileSupply clk mints w.protocol = .ok s' →
          ∃ r, s'.recon = some r ∧ r.lastResidual = 0) ∧
        (w.protocol.recon.isSome → mints.length ≤ MAX_RECONCILE_MARKETS →
          w.protocol.markets.total MarketState.backed < 2 ^ 128 →
          ∃ s', reconcileSupply clk mints w.protocol = .ok s') := by
  have hi := fusdCore_inv h
  refine ⟨hi.supply, fun clk mints hmints ↦ ⟨fun s' hs' ↦ ?_, fun hrecon hlen hfit ↦ ?_⟩⟩
  · obtain ⟨r, hr, -, hres⟩ := reconcileSupply_residual hi hmints hs'
    exact ⟨r, hr, hres⟩
  · exact exists_reconcileSupply hi hmints hrecon hlen hfit

/-- The sample run mints a thousand dollars, and its only market can be reconciled. -/
theorem supply_eq_net_debt_sample : ∃ w, Sample.world Sample.instrs = some w ∧
    w.protocol.fusd.supply = 1000000000 ∧
    (w.protocol.fusd.supply : ℤ) = w.protocol.markets.total (fun state ↦
        (state.market.aggRecordedDebt : ℤ) - state.market.unmintedInterest
          + state.market.badDebt) ∧
    ∃ s' r, reconcileSupply Sample.clock w.protocol.markets.keys w.protocol = .ok s' ∧
      s'.recon = some r ∧ r.lastResidual = 0 := by
  have hrun : (Sample.world Sample.instrs).map (fun w ↦
      (w.protocol.fusd.supply, w.protocol.recon.isSome,
        decide (w.protocol.markets.keys.length ≤ MAX_RECONCILE_MARKETS),
        decide (w.protocol.markets.total MarketState.backed < 2 ^ 128))) =
      some (1000000000, true, true, true) := by decide +kernel
  obtain ⟨w, hw, hfacts⟩ := Option.map_eq_some_iff.mp hrun
  simp only [Prod.mk.injEq, decide_eq_true_eq] at hfacts
  obtain ⟨hsupply, hrecon, hlen, hfit⟩ := hfacts
  obtain ⟨hid, hcall⟩ := supply_eq_net_debt (Sample.reach hw)
  obtain ⟨hres, hok⟩ := hcall Sample.clock w.protocol.markets.keys (List.Perm.refl _)
  obtain ⟨s', hs'⟩ := hok hrecon hlen hfit
  obtain ⟨r, hr, hzero⟩ := hres s' hs'
  exact ⟨w, hw, hsupply, hid, s', r, hs', hr, hzero⟩

end FusionCore
