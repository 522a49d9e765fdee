import FusionCore.System.Custody
import FusionCore.System.Governance

/-!
# Who can change the seats

Governance and the timelock each have a seat, which changes hands when the successor that its
holder has named accepts.  Nobody else can move a seat or what the seats decide.
-/

namespace FusionCore

open Checked Oracle

/-- Nothing enters a queue, and what leaves it is due. -/
def Drains {V : Type} (eta : V → ℕ) (now : ℕ) (t t' : Table ℕ V) : Prop :=
  ∀ n v, (t'.lookup n = some v → t.lookup n = some v) ∧
    (t.lookup n = some v → t'.lookup n = some v ∨ eta v ≤ now)

section Drains

variable {V : Type} {eta : V → ℕ} {now now' : ℕ} {t t' t'' : Table ℕ V}

theorem Drains.refl : Drains eta now t t := fun _ _ ↦ ⟨id, .inl⟩

theorem Drains.trans (h : Drains eta now t t') (h' : Drains eta now' t' t'') (hle : now ≤ now') :
    Drains eta now' t t'' := by
  intro n v
  refine ⟨fun hv ↦ (h n v).1 ((h' n v).1 hv), fun hv ↦ ?_⟩
  rcases (h n v).2 hv with hv' | hdue
  · exact (h' n v).2 hv'
  · exact .inr (hdue.trans hle)

theorem Drains.erase {nonce : ℕ} {op : V} (hop : t.lookup nonce = some op) (hdue : eta op ≤ now) :
    Drains eta now t (t.erase nonce) := by
  intro n v
  simp only [Table.lookup_erase_eq_some_iff]
  refine ⟨And.right, fun hv ↦ ?_⟩
  by_cases hn : n = nonce
  · subst hn
    obtain rfl := Option.some.inj (hop.symm.trans hv)
    exact .inr hdue
  · exact .inl ⟨hn, hv⟩

end Drains

namespace System

/-- The keys that hold a seat or have been named as a successor. -/
def seats (s : System) : List Pubkey :=
  [s.protocol.config.govAuthority, s.protocol.config.inboundAuthority, s.pendingGovAuthority,
    (s.gate.map GovernanceGate.pendingInboundAuthority).getD 0]

/-- What the seats decide is as it was. -/
structure Governed (s : System) (now : ℕ) (s' : System) : Prop where
  config : s'.protocol.config = s.protocol.config
  pending : s'.pendingGovAuthority = s.pendingGovAuthority
  programs : s'.programs = s.programs
  gate : s'.gate = s.gate
  ops : Drains TimelockedParam.eta now s.ops s'.ops
  globalOps : Drains TimelockedGlobalParam.eta now s.globalOps s'.globalOps

theorem Governed.of_eq {s : System} {now : ℕ} {protocol : Protocol}
    (h : protocol.config = s.protocol.config) (oracles : Table Pubkey OracleAccounts) :
    s.Governed now { s with protocol, oracles } :=
  ⟨h, rfl, rfl, rfl, .refl, .refl⟩

theorem acceptSeat_ensures {signer pending : Pubkey} :
    Ensures (acceptSeat signer pending) fun _ ↦ signer = pending :=
  .after fun _ ↦ require_ensures

end System

section Steps

variable {clk : Clock} {s : System}

theorem Instr.run_config {i : Instr} {p : Protocol} :
    Ensures (i.run clk p) fun p' ↦ p'.config = p.config := by
  cases i with
  | market mint j =>
    intro p' h
    obtain ⟨state, a', hl, ha', rfl⟩ := Protocol.onMarket_cases h
    rfl
  | initMarket | executeGlobalParamChange | initGlobalBackstop | initSupplyReconciliation =>
    exact .after fun _ ↦ .after fun _ ↦ .ok rfl
  | fundBackstop => exact .after fun _ ↦ .after fun _ ↦ .after fun _ ↦ .after fun _ ↦ .ok rfl
  | withdrawBackstopExcess =>
    exact .after fun _ ↦ .after fun _ ↦ .after fun _ ↦ .after fun _ ↦ .after fun _ ↦
      .after fun _ ↦ .after fun _ ↦ .ok rfl
  | transferFusd => exact .after fun _ ↦ .ok rfl
  | reconcileSupply => exact .after fun _ ↦ .after fun _ ↦ .after fun _ ↦ .ok rfl

/-- An instruction that no seat has signed. -/
theorem SystemInstr.run_governed {i : SystemInstr} (hi : ∀ k ∈ s.seats, i.signer ≠ some k) :
    Ensures (i.run clk s) (s.Governed clk.unixTimestamp) := by
  simp only [System.seats, List.forall_mem_cons] at hi
  obtain ⟨hgov, hinbound, hpending, hseat, -⟩ := hi
  cases i with
  | core => exact .bind Instr.run_config fun _ h ↦ .ok (.of_eq h _)
  | initMarketOracle => exact .after fun _ ↦ .after fun _ ↦ .after fun _ ↦ .ok (.of_eq rfl _)
  | sampleTwap => exact .after fun _ ↦ .after fun _ ↦ .ok (.of_eq rfl _)
  | updatePrice =>
    refine .after fun _ ↦ .after fun _ ↦ .after fun priced ↦ .bind Instr.run_config fun _ h ↦ ?_
    exact .ok (.of_eq h _)
  | rebindMarketOracleFeeds =>
    exact .after fun _ ↦ .bind Instr.run_config fun _ h ↦ .after fun _ ↦ .ok (.of_eq h _)
  | executeParamChange =>
    intro s' hrun
    cases SystemInstr.run_cases hrun with
    | keys _ hi => cases hi
    | executeMarket nonce mint withOracle op param p hop hparam hmint heta h =>
      exact ⟨Instr.run_config _ h, rfl, rfl, rfl, .erase hop heta, .refl⟩
    | executeOracle nonce mint withOracle op param acc hop hparam hmint heta =>
      exact ⟨rfl, rfl, rfl, rfl, .erase hop heta, .refl⟩
  | executeGlobalParamChange =>
    refine .bind okOr_ensures fun op hop ↦ .after fun _ ↦ .bind require_ensures fun _ heta ↦ ?_
    exact .bind Instr.run_config fun _ h ↦ .ok ⟨h, rfl, rfl, rfl, .refl, .erase hop heta⟩
  | setOracleProgramIds | migrateGovAuthority | setGuardian =>
    exact .bind require_ensures fun _ h ↦ absurd (congrArg some h) hgov
  | acceptGovAuthority =>
    exact .bind System.acceptSeat_ensures fun _ h ↦ absurd (congrArg some h) hpending
  | initGovernanceGate =>
    exact .after fun _ ↦ .bind require_ensures fun _ h ↦ absurd (congrArg some h) hgov
  | migrateInboundAuthority =>
    exact .after fun _ ↦ .bind require_ensures fun _ h ↦ absurd (congrArg some h) hinbound
  | acceptInboundAuthority =>
    refine .bind okOr_ensures fun gate hgate ↦ .bind System.acceptSeat_ensures fun _ h ↦ ?_
    rw [hgate] at hseat
    exact absurd (congrArg some h) hseat
  | queueParamChange =>
    refine .after fun _ ↦ .after fun _ ↦ .after fun _ ↦ .after fun _ ↦ ?_
    exact .bind require_ensures fun _ h ↦ absurd (congrArg some h) hinbound
  | queueGlobalParamChange | cancelParamChange | cancelGlobalParamChange =>
    refine .after fun _ ↦ .after fun _ ↦ ?_
    exact .bind require_ensures fun _ h ↦ absurd (congrArg some h) hinbound

end Steps

theorem fusion_unqueued {w w' : SystemWorld} {e : SystemEvent} {k : Pubkey} {state : MarketState}
    (h : fusion.Reach w) (hs : fusion.step e w w')
    (hl : w.system.protocol.markets.lookup k = some state)
    (hqueue : ∀ n op, w.system.ops.lookup n = some op → op.market ≠ k) :
    ∃ state', w'.system.protocol.markets.lookup k = some state' ∧
      state'.market.terms.params = state.market.terms.params := by
  have hkept : ∃ state', w'.system.protocol.markets.lookup k = some state' := by
    cases fusion_market_run hs k with
    | idle _ hsame => exact ⟨state, hsame.trans hl⟩
    | birth _ _ _ _ _ hnone =>
      rw [hl] at hnone
      cases hnone
    | run _ _ after _ _ _ hstate' => exact ⟨after, hstate'⟩
  obtain ⟨state', hl'⟩ := hkept
  refine ⟨state', hl', ?_⟩
  by_contra hne
  obtain ⟨n, _, op, -, hop, hmarket⟩ := (SystemInstr.run_cases hs.2.1).of_reconfigured
    ((fusion_inv h).mono hs.1.unixTimestamp) (.inl ⟨state, state', hl, hl', hne⟩)
  exact hqueue n op hop hmarket

/-- From `w` to `w'`, what the seats decide is as it was, and so are the parameters of every market
for which nothing was queued; the debt ceiling, which follows its line, does not count. -/
structure Seated (w w' : SystemWorld) : Prop where
  governed : w.system.Governed w'.clock.unixTimestamp w'.system
  params : ∀ k state, w.system.protocol.markets.lookup k = some state →
    (∀ n op, w.system.ops.lookup n = some op → op.market ≠ k) →
    ∃ state', w'.system.protocol.markets.lookup k = some state' ∧
      state'.market.terms.params = state.market.terms.params

/-- Every run that carries no signature of a seat or of a named successor leaves everything that
the seats decide. -/
theorem fusion_seats {w w' : SystemWorld} (h : fusion.Reach w)
    (hrun : fusion.Leads (fun e _ ↦ ∀ k ∈ w.system.seats, e.instr.signer ≠ some k) w w') :
    Seated w w' := by
  refine hrun.keeps (P := Seated w) h
    ⟨⟨rfl, rfl, rfl, rfl, .refl, .refl⟩, fun _ state hl _ ↦ ⟨state, hl, rfl⟩⟩ ?_
  rintro e t t' ht ⟨ih, hparams⟩ hsigner hstep
  have hseats : t.system.seats = w.system.seats := by
    simp only [System.seats, ih.config, ih.pending, ih.gate]
  have hkept := SystemInstr.run_governed (hseats ▸ hsigner) _ hstep.2.1
  have hnow := hstep.1.unixTimestamp
  rw [← hstep.2.2] at hkept hnow
  refine ⟨⟨hkept.config.trans ih.config, hkept.pending.trans ih.pending,
    hkept.programs.trans ih.programs, hkept.gate.trans ih.gate, ih.ops.trans hkept.ops hnow,
    ih.globalOps.trans hkept.globalOps hnow⟩, fun k state hl hqueue ↦ ?_⟩
  obtain ⟨mid, hmid, heq⟩ := hparams k state hl hqueue
  obtain ⟨state', hl', heq'⟩ := fusion_unqueued ht hstep hmid fun n op hop ↦
    hqueue n op ((ih.ops n op).1 hop)
  exact ⟨state', hl', heq'.trans heq⟩

/-- A queued change of the sample market is executed, which takes no signature of a seat. -/
theorem fusion_seats_execution : ∃ w w',
    fusion.step ⟨⟨1000, 1000000, 5⟩, .executeParamChange 0 7 false⟩ w w' ∧
      w.system.Governed 1000000 w'.system := by
  have hrun : Sample.testLast (Sample.at_ ⟨1000, 1000000, 5⟩ (Sample.launch ++
      [.queueParamChange 3 7 false (.market .mcr) 12000]))
      ⟨⟨1000, 1000000, 5⟩, .executeParamChange 0 7 false⟩ (fun w _ ↦ decide (∀ k ∈ w.system.seats,
        (SystemInstr.executeParamChange 0 7 false).signer ≠ some k)) = some true := by
    decide +kernel
  obtain ⟨w, w', hw, hstep, hseats⟩ := Sample.of_testLast hrun
  have hkept := (fusion_seats hw (.step _ .refl (of_decide_eq_true hseats) hstep)).governed
  rw [hstep.2.2] at hkept
  exact ⟨w, w', hstep, hkept⟩

end FusionCore
