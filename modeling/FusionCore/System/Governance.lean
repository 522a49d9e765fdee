import FusionCore.System.Steps

/-!
# Governance along a run

Beside a run of the program stands the history of its queues: when a change was queued, executed
or cancelled.  A change is executed at most once, not before its time, and not after it was
cancelled; configurations move in no other way and stay valid as a whole.
-/

namespace FusionCore

open Checked Oracle

/-! ## The history of the queues -/

/-- A change of either queue. -/
inductive QueuedOp where
  | market (op : TimelockedParam)
  | global (op : TimelockedGlobalParam)
  deriving DecidableEq

def QueuedOp.eta : QueuedOp → ℕ
  | .market op => op.eta
  | .global op => op.eta

inductive QueueAct where
  | queued
  | executed
  | cancelled
  deriving DecidableEq

/-- What happened to which change, and when. -/
structure QueueEntry where
  time : ℕ
  nonce : ℕ
  op : QueuedOp
  act : QueueAct
  deriving DecidableEq

/-- What an instruction does to the queues. -/
def queueNote (e : SystemEvent) (s : System) : Option QueueEntry :=
  let now := e.clock.unixTimestamp
  match e.instr with
  | .queueParamChange _ mint _ param value =>
      s.gate.map fun g ↦ ⟨now, g.queueNonce, .market ⟨g.eta now, mint, param, value⟩, .queued⟩
  | .executeParamChange nonce _ _ =>
      (s.ops.lookup nonce).map fun op ↦ ⟨now, nonce, .market op, .executed⟩
  | .cancelParamChange _ nonce =>
      (s.ops.lookup nonce).map fun op ↦ ⟨now, nonce, .market op, .cancelled⟩
  | .queueGlobalParamChange _ param value =>
      s.gate.map fun g ↦ ⟨now, g.queueNonce, .global ⟨g.eta now, param, value⟩, .queued⟩
  | .executeGlobalParamChange nonce =>
      (s.globalOps.lookup nonce).map fun op ↦ ⟨now, nonce, .global op, .executed⟩
  | .cancelGlobalParamChange _ nonce =>
      (s.globalOps.lookup nonce).map fun op ↦ ⟨now, nonce, .global op, .cancelled⟩
  | _ => none

/-- The newest entry comes first. -/
def recordQueue (e : SystemEvent) (w _w' : SystemWorld) (log : List QueueEntry) :
    List QueueEntry :=
  (queueNote e w.system).toList ++ log

/-- The change was queued, and nothing else has happened to it since. -/
structure Pending (log : List QueueEntry) (nonce : ℕ) (op : QueuedOp) : Prop where
  queued : ∃ time, ⟨time, nonce, op, .queued⟩ ∈ log
  only : ∀ e ∈ log, e.nonce = nonce → e.act = .queued ∧ e.op = op

/-- A nonce is used for one change; what is executed or cancelled was pending, and what is executed
was due. -/
def Lawful : List QueueEntry → Prop
  | [] => True
  | e :: earlier => Lawful earlier ∧
    match e.act with
    | .queued => ∀ f ∈ earlier, f.nonce ≠ e.nonce
    | .executed => e.op.eta ≤ e.time ∧ Pending earlier e.nonce e.op
    | .cancelled => Pending earlier e.nonce e.op

section History

variable {log : List QueueEntry} {nonce : ℕ} {op : QueuedOp} {e : QueueEntry}

theorem Pending.cons (h : Pending log nonce op) (hne : e.nonce ≠ nonce) :
    Pending (e :: log) nonce op := by
  obtain ⟨⟨time, hmem⟩, honly⟩ := h
  refine ⟨⟨time, List.mem_cons_of_mem _ hmem⟩, ?_⟩
  intro f hf hnonce
  rcases List.mem_cons.mp hf with rfl | hf
  · exact absurd hnonce hne
  · exact honly f hf hnonce

/-- One nonce is pending for one change. -/
theorem Pending.unique {op' : QueuedOp} (h : Pending log nonce op) (h' : Pending log nonce op') :
    op = op' := by
  obtain ⟨time, hmem⟩ := h.queued
  exact (h'.only _ hmem rfl).2

theorem Lawful.of_append {later earlier : List QueueEntry} (h : Lawful (later ++ earlier)) :
    Lawful earlier := by
  induction later with
  | nil => exact h
  | cons e later ih => exact ih h.1

end History

/-! ## The history is lawful -/

/-- The queues of a state agree with their history. -/
structure QueueInv (s : System) (log : List QueueEntry) : Prop where
  lawful : Lawful log
  below : ∀ e ∈ log, ∃ g, s.gate = some g ∧ e.nonce < g.queueNonce
  market : ∀ nonce op, s.ops.lookup nonce = some op → Pending log nonce (.market op)
  global : ∀ nonce op, s.globalOps.lookup nonce = some op → Pending log nonce (.global op)

section Queue

variable {s s' : System} {log : List QueueEntry} {g : GovernanceGate} {e : QueueEntry}

theorem QueueInv.frame (h : QueueInv s log)
    (hgate : s'.gate.map GovernanceGate.queue = s.gate.map GovernanceGate.queue)
    (hops : s'.ops = s.ops) (hglobal : s'.globalOps = s.globalOps) : QueueInv s' log where
  lawful := h.lawful
  below := by
    intro e he
    obtain ⟨g, hg, hlt⟩ := h.below e he
    rw [hg, Option.map_some, Option.map_eq_some_iff] at hgate
    obtain ⟨g', hg', hqueue⟩ := hgate
    have hnonce : g'.queueNonce = g.queueNonce := congrArg Prod.snd hqueue
    exact ⟨g', hg', hnonce ▸ hlt⟩
  market := by
    rw [hops]
    exact h.market
  global := by
    rw [hglobal]
    exact h.global

theorem QueueInv.nonce_lt (h : QueueInv s log) (hg : s.gate = some g) {nonce : ℕ}
    {op : QueuedOp} (hp : Pending log nonce op) : nonce < g.queueNonce := by
  obtain ⟨time, hmem⟩ := hp.queued
  obtain ⟨g', hg', hlt⟩ := h.below _ hmem
  rw [hg] at hg'
  obtain rfl := Option.some.inj hg'
  exact hlt

theorem QueueInv.queue (h : QueueInv s log) (hg : s.gate = some g) (hact : e.act = .queued)
    (hnonce : e.nonce = g.queueNonce)
    (hgate : s'.gate = some { g with queueNonce := g.queueNonce + 1 })
    (hops : ∀ nonce op, s'.ops.lookup nonce = some op →
      s.ops.lookup nonce = some op ∨ nonce = g.queueNonce ∧ e.op = .market op)
    (hglobal : ∀ nonce op, s'.globalOps.lookup nonce = some op →
      s.globalOps.lookup nonce = some op ∨ nonce = g.queueNonce ∧ e.op = .global op) :
    QueueInv s' (e :: log) := by
  have hfresh : ∀ f ∈ log, f.nonce ≠ g.queueNonce := by
    intro f hf
    obtain ⟨g', hg', hlt⟩ := h.below f hf
    rw [hg] at hg'
    obtain rfl := Option.some.inj hg'
    exact hlt.ne
  have hnew : ∀ op, e.op = op → Pending (e :: log) g.queueNonce op := by
    rintro op rfl
    refine ⟨⟨e.time, ?_⟩, ?_⟩
    · rw [← hnonce, ← hact]
      exact List.mem_cons_self
    · intro f hf hf'
      rcases List.mem_cons.mp hf with rfl | hf
      · exact ⟨hact, rfl⟩
      · exact absurd hf' (hfresh f hf)
  have hold : ∀ nonce op, Pending log nonce op → Pending (e :: log) nonce op := by
    intro nonce op hp
    exact hp.cons (hnonce ▸ (h.nonce_lt hg hp).ne')
  constructor
  · refine ⟨h.lawful, ?_⟩
    rw [hact, hnonce]
    exact hfresh
  · intro f hf
    refine ⟨_, hgate, ?_⟩
    rcases List.mem_cons.mp hf with rfl | hf
    · rw [hnonce]
      exact Nat.lt_succ_self _
    · obtain ⟨g', hg', hlt⟩ := h.below f hf
      rw [hg] at hg'
      obtain rfl := Option.some.inj hg'
      exact hlt.trans (Nat.lt_succ_self _)
  · intro nonce op hop
    rcases hops nonce op hop with hop | ⟨rfl, heq⟩
    · exact hold _ _ (h.market nonce op hop)
    · exact hnew _ heq
  · intro nonce op hop
    rcases hglobal nonce op hop with hop | ⟨rfl, heq⟩
    · exact hold _ _ (h.global nonce op hop)
    · exact hnew _ heq

theorem QueueInv.close (h : QueueInv s log) (hp : Pending log e.nonce e.op)
    (hact : e.act = .executed ∧ e.op.eta ≤ e.time ∨ e.act = .cancelled)
    (hgate : s'.gate = s.gate)
    (hops : ∀ nonce op, s'.ops.lookup nonce = some op →
      s.ops.lookup nonce = some op ∧ (nonce = e.nonce → e.op ≠ .market op))
    (hglobal : ∀ nonce op, s'.globalOps.lookup nonce = some op →
      s.globalOps.lookup nonce = some op ∧ (nonce = e.nonce → e.op ≠ .global op)) :
    QueueInv s' (e :: log) := by
  have hold : ∀ nonce op, Pending log nonce op → (nonce = e.nonce → e.op ≠ op) →
      Pending (e :: log) nonce op := by
    intro nonce op hpend hne
    refine hpend.cons ?_
    rintro rfl
    exact hne rfl (hp.unique hpend)
  constructor
  · refine ⟨h.lawful, ?_⟩
    rcases hact with ⟨hact, hdue⟩ | hact
    · rw [hact]
      exact ⟨hdue, hp⟩
    · rw [hact]
      exact hp
  · intro f hf
    rw [hgate]
    rcases List.mem_cons.mp hf with rfl | hf
    · obtain ⟨time, hmem⟩ := hp.queued
      obtain ⟨g, hg, hlt⟩ := h.below _ hmem
      exact ⟨g, hg, hlt⟩
    · exact h.below f hf
  · intro nonce op hop
    obtain ⟨hop, hne⟩ := hops nonce op hop
    exact hold _ _ (h.market nonce op hop) hne
  · intro nonce op hop
    obtain ⟨hop, hne⟩ := hglobal nonce op hop
    exact hold _ _ (h.global nonce op hop) hne

theorem QueueInv.closeMarket {op : TimelockedParam} (h : QueueInv s log)
    (hop : s.ops.lookup e.nonce = some op) (heq : e.op = .market op)
    (hact : e.act = .executed ∧ e.op.eta ≤ e.time ∨ e.act = .cancelled)
    (hgate : s'.gate = s.gate) (hops : s'.ops = s.ops.erase e.nonce)
    (hglobal : s'.globalOps = s.globalOps) : QueueInv s' (e :: log) := by
  refine h.close (heq ▸ h.market e.nonce op hop) hact hgate ?_ ?_
  · intro nonce op' hop'
    rw [hops] at hop'
    obtain ⟨hne, hop'⟩ := Table.lookup_erase_eq_some_iff.mp hop'
    exact ⟨hop', fun hk ↦ absurd hk hne⟩
  · intro nonce op' hop'
    rw [hglobal] at hop'
    exact ⟨hop', fun _ ↦ by simp [heq]⟩

theorem QueueInv.closeGlobal {op : TimelockedGlobalParam} (h : QueueInv s log)
    (hop : s.globalOps.lookup e.nonce = some op) (heq : e.op = .global op)
    (hact : e.act = .executed ∧ e.op.eta ≤ e.time ∨ e.act = .cancelled)
    (hgate : s'.gate = s.gate) (hops : s'.ops = s.ops)
    (hglobal : s'.globalOps = s.globalOps.erase e.nonce) : QueueInv s' (e :: log) := by
  refine h.close (heq ▸ h.global e.nonce op hop) hact hgate ?_ ?_
  · intro nonce op' hop'
    rw [hops] at hop'
    exact ⟨hop', fun _ ↦ by simp [heq]⟩
  · intro nonce op' hop'
    rw [hglobal] at hop'
    obtain ⟨hne, hop'⟩ := Table.lookup_erase_eq_some_iff.mp hop'
    exact ⟨hop', fun hk ↦ absurd hk hne⟩

end Queue

theorem QueueInv.step {clk : Clock} {i : SystemInstr} {s s' : System} {log : List QueueEntry}
    (h : QueueInv s log) (hmove : SystemMove clk s i s') :
    QueueInv s' ((queueNote ⟨clk, i⟩ s).toList ++ log) := by
  cases hmove with
  | core j hplain p hrun => exact h.frame rfl rfl rfl
  | initMarketOracle authority mint quoteMint args oracle hmarket hnone hinit =>
    exact h.frame rfl rfl rfl
  | sampleTwap mint pool acc ring hacc hsample => exact h.frame rfl rfl rfl
  | updatePrice mint accs acc commit oracle p hacc hprice hrun => exact h.frame rfl rfl rfl
  | rebind authority mint b acc oracle p hacc hrun hrebind => exact h.frame rfl rfl rfl
  | keys i hi config pending programs gate hgate =>
    have hnone : queueNote ⟨clk, i⟩ s = none := by
      cases i <;> first | rfl | cases hi
    rw [hnone]
    exact h.frame hgate rfl rfl
  | initGate authority inbound secs config hnone =>
    -- before the gate exists nothing has been queued
    have hlog : ∀ e ∈ log, False := by
      intro e he
      obtain ⟨g, hg, -⟩ := h.below e he
      rw [hnone] at hg
      cases hg
    exact ⟨h.lawful, fun e he ↦ (hlog e he).elim, h.market, h.global⟩
  | queue authority mint withOracle param value gate state oracle hgate hmarket hfree hvalid =>
    simp only [queueNote, hgate, Option.map_some, Option.toList_some, List.singleton_append]
    refine h.queue hgate rfl rfl rfl ?_ ?_
    · intro nonce op hop
      rcases Table.lookup_insert_eq_some_iff.mp hop with ⟨hk, rfl⟩ | ⟨-, hop⟩
      · exact .inr ⟨hk, rfl⟩
      · exact .inl hop
    · exact fun nonce op hop ↦ .inl hop
  | executeMarket nonce mint withOracle op param p hop hparam hmint heta hrun =>
    simp only [queueNote, hop, Option.map_some, Option.toList_some, List.singleton_append]
    exact h.closeMarket hop rfl (.inl ⟨rfl, heta⟩) rfl rfl rfl
  | executeOracle nonce mint withOracle op param acc hop hparam hmint heta hacc hvalid =>
    simp only [queueNote, hop, Option.map_some, Option.toList_some, List.singleton_append]
    exact h.closeMarket hop rfl (.inl ⟨rfl, heta⟩) rfl rfl rfl
  | cancel authority nonce op hop =>
    simp only [queueNote, hop, Option.map_some, Option.toList_some, List.singleton_append]
    exact h.closeMarket hop rfl (.inr rfl) rfl rfl rfl
  | queueGlobal authority param value gate hgate hfree =>
    simp only [queueNote, hgate, Option.map_some, Option.toList_some, List.singleton_append]
    refine h.queue hgate rfl rfl rfl ?_ ?_
    · exact fun nonce op hop ↦ .inl hop
    · intro nonce op hop
      rcases Table.lookup_insert_eq_some_iff.mp hop with ⟨hk, rfl⟩ | ⟨-, hop⟩
      · exact .inr ⟨hk, rfl⟩
      · exact .inl hop
  | executeGlobal nonce op p hop heta hrun =>
    simp only [queueNote, hop, Option.map_some, Option.toList_some, List.singleton_append]
    exact h.closeGlobal hop rfl (.inl ⟨rfl, heta⟩) rfl rfl rfl
  | cancelGlobal authority nonce op hop =>
    simp only [queueNote, hop, Option.map_some, Option.toList_some, List.singleton_append]
    exact h.closeGlobal hop rfl (.inr rfl) rfl rfl rfl

theorem fusion_queues {G : SystemEvent → SystemWorld × List QueueEntry → Prop}
    {x : SystemWorld × List QueueEntry} (h : (fusion.withGhost [] recordQueue).Reachable G x) :
    QueueInv x.1.system x.2 := by
  refine h.invariant (P := fun x ↦ QueueInv x.1.system x.2) ?_ ?_
  · rintro ⟨w, log⟩ ⟨⟨cfg, ids, decimals, hw⟩, hlog⟩
    obtain rfl : log = [] := hlog
    rw [hw]
    refine ⟨trivial, ?_, ?_, ?_⟩
    · rintro e ⟨⟩
    · rintro nonce op ⟨⟩
    · rintro nonce op ⟨⟩
  · rintro ⟨clk, i⟩ ⟨w, log⟩ ⟨w', log'⟩ ih - ⟨⟨hclk, hrun, hw'⟩, hlog⟩
    obtain rfl : log' = (queueNote ⟨clk, i⟩ w.system).toList ++ log := hlog
    exact ih.step (SystemInstr.run_cases hrun)

/-! ## Configurations move through the queues only -/

/-- The configuration of the market or of the oracle of `k` has moved; the debt ceiling, which
also follows the debt-ceiling line, does not count. -/
def System.Reconfigured (s s' : System) (k : Pubkey) : Prop :=
  (∃ state state', s.protocol.markets.lookup k = some state ∧
      s'.protocol.markets.lookup k = some state' ∧
      state'.market.terms.params ≠ state.market.terms.params) ∨
    ∃ acc acc', s.oracles.lookup k = some acc ∧ s'.oracles.lookup k = some acc' ∧
      (acc'.oracle.current ≠ acc.oracle.current ∨ acc'.oracle.fixed ≠ acc.oracle.fixed)

section Reconfigured

variable {clk : Clock} {s s' : System} {i : SystemInstr} {k : Pubkey}

/-- An execution finds its change in the queue, due and for this market. -/
theorem SystemMove.executed {nonce : ℕ} {withOracle : Bool}
    (h : SystemMove clk s (.executeParamChange nonce k withOracle) s') :
    ∃ op, s.ops.lookup nonce = some op ∧ op.market = k := by
  generalize hi : SystemInstr.executeParamChange nonce k withOracle = i at h
  cases h with
  | executeMarket nonce' mint withOracle' op param p hop hparam hmint heta hrun =>
    obtain ⟨rfl, rfl, rfl⟩ := SystemInstr.executeParamChange.inj hi
    exact ⟨op, hop, hmint⟩
  | executeOracle nonce' mint withOracle' op param acc hop hparam hmint heta hacc hvalid =>
    obtain ⟨rfl, rfl, rfl⟩ := SystemInstr.executeParamChange.inj hi
    exact ⟨op, hop, hmint⟩
  | keys i hkeys =>
    subst hi
    cases hkeys
  | _ => cases hi

theorem MarketStep.reconfigured {state : MarketState} {after : Option MarketState}
    (h : MarketStep clk s i k after) (hinv : s.protocol.Inv clk.unixTimestamp)
    (hstate : s.protocol.markets.lookup k = some state) :
    (∃ nonce withOracle, i = .executeParamChange nonce k withOracle) ∨
      ∀ state' ∈ after, state'.market.terms.params = state.market.terms.params := by
  cases h with
  | keep hi =>
    refine .inr fun state' hs ↦ ?_
    rw [hstate] at hs
    rw [Option.some.inj hs]
  | birth authority freeze args st hi hnone hinit =>
    rw [hstate] at hnone
    cases hnone
  | plain j hplain hi st a' hst hrun =>
    refine .inr ?_
    rintro _ ⟨⟩
    rw [hstate] at hst
    obtain rfl := Option.some.inj hst
    exact congrArg Terms.params
      (MarketInstr.run_framed hplain (hinv.markets k state hstate).2 hrun).terms
  | priced accs acc commit oracle hi hacc hprice st a' hst hrun =>
    refine .inr ?_
    rintro _ ⟨⟩
    rw [hstate] at hst
    obtain rfl := Option.some.inj hst
    obtain ⟨m, hm, rfl⟩ := updatePrice_cases hrun
    cases hm <;> rfl
  | rebound authority b hi st a' hst hrun =>
    refine .inr ?_
    rintro _ ⟨⟩
    rw [hstate] at hst
    obtain rfl := Option.some.inj hst
    obtain ⟨anchor, -, rfl⟩ := rebindFeeds_cases hrun
    rfl
  | governed nonce withOracle param value hi st a' hst hrun =>
    exact .inl ⟨nonce, withOracle, hi⟩

theorem OracleStep.reconfigured {acc : OracleAccounts} {after : Option OracleAccounts}
    (h : OracleStep clk s i k after) (hacc : s.oracles.lookup k = some acc) :
    (∃ nonce withOracle, i = .executeParamChange nonce k withOracle) ∨
      ∀ acc' ∈ after, acc'.oracle.current = acc.oracle.current ∧
        acc'.oracle.fixed = acc.oracle.fixed := by
  cases h with
  | keep hi =>
    refine .inr fun acc' hs ↦ ?_
    rw [hacc] at hs
    rw [Option.some.inj hs]
    exact ⟨rfl, rfl⟩
  | birth authority quoteMint args oracle hi hnone hinit =>
    rw [hacc] at hnone
    cases hnone
  | sampled pool hi acc₀ ring hacc₀ hsample =>
    refine .inr ?_
    rintro _ ⟨⟩
    rw [hacc] at hacc₀
    rw [Option.some.inj hacc₀]
    exact ⟨rfl, rfl⟩
  | priced accs hi acc₀ commit oracle hacc₀ hprice =>
    refine .inr ?_
    rintro _ ⟨⟩
    rw [hacc] at hacc₀
    obtain rfl := Option.some.inj hacc₀
    cases priceUpdate_cases hprice with
    | withheld hviews => exact ⟨rfl, rfl⟩
    | assessed v price hviews hp => exact MarketOracle.remember_current _ _ _
  | rebound authority b hi acc₀ oracle hacc₀ hrebind =>
    refine .inr ?_
    rintro _ ⟨⟩
    rw [hacc] at hacc₀
    obtain rfl := Option.some.inj hacc₀
    obtain ⟨hcur, hfixed, -⟩ := MarketOracle.rebind_spec hrebind
    exact ⟨hcur, hfixed⟩
  | governed nonce withOracle param value hi acc₀ hacc₀ hvalid =>
    exact .inl ⟨nonce, withOracle, hi⟩

/-- A configuration moves only when a change for its market is executed. -/
theorem SystemMove.of_reconfigured (h : SystemMove clk s i s')
    (hinv : s.protocol.Inv clk.unixTimestamp) (hmoved : s.Reconfigured s' k) :
    ∃ nonce withOracle op, i = .executeParamChange nonce k withOracle ∧
      s.ops.lookup nonce = some op ∧ op.market = k := by
  have hexec : ∃ nonce withOracle, i = .executeParamChange nonce k withOracle := by
    rcases hmoved with ⟨state, state', hs, hs', hne⟩ | ⟨acc, acc', ha, ha', hne⟩
    · exact ((h.market_step k).reconfigured hinv hs).resolve_right fun hkeep ↦
        hne (hkeep state' hs')
    · refine ((h.oracle_step k).reconfigured ha).resolve_right fun hkeep ↦ ?_
      obtain ⟨hcur, hfixed⟩ := hkeep acc' ha'
      exact hne.elim (fun hc ↦ hc hcur) fun hf ↦ hf hfixed
  obtain ⟨nonce, withOracle, rfl⟩ := hexec
  obtain ⟨op, hop, hmarket⟩ := h.executed
  exact ⟨nonce, withOracle, op, rfl, hop, hmarket⟩

end Reconfigured

/-- Along every run, whatever is queued, executed or cancelled in whatever order: the
configurations of markets and oracles are valid as a whole; an executed change was queued before
with a time that has come, and had been neither executed nor cancelled; a configuration moves only
by such an execution; and a divergence that pauses liquidations always freezes minting. -/
theorem fusion_governance {w : SystemWorld} {log : List QueueEntry}
    (h : (fusion.withGhost [] recordQueue).Reach (w, log)) :
    (w.system.protocol.markets.All fun s ↦ s.market.toMarketParams.Governed) ∧
    (w.system.oracles.All fun acc ↦ acc.oracle.Valid) ∧
    (∀ later earlier e, log = later ++ e :: earlier → e.act = .executed →
      e.op.eta ≤ e.time ∧ (∃ time, ⟨time, e.nonce, e.op, .queued⟩ ∈ earlier) ∧
        ∀ f ∈ earlier, f.nonce = e.nonce → f.act ≠ .executed ∧ f.act ≠ .cancelled) ∧
    (∀ e w' k, fusion.step e w w' → w.system.Reconfigured w'.system k →
      ∃ nonce op, op.market = k ∧
        queueNote e w.system = some ⟨e.clock.unixTimestamp, nonce, .market op, .executed⟩) ∧
    (w.system.oracles.All fun acc ↦ ∀ pyth switchboard dexTwap canonical now,
      (aggregate pyth switchboard dexTwap canonical now acc.oracle.config).liqDivergent = true →
      (aggregate pyth switchboard dexTwap canonical now acc.oracle.config).mode = .mintFrozen) := by
  have hreach : fusion.Reach w := Machine.Reachable.forget (G := fun _ _ ↦ True) h
  have hvalid := fusion_oracles_valid hreach
  refine ⟨(fusion_sound hreach).mono fun _ hs ↦ hs.governed, hvalid, ?_, ?_, ?_⟩
  · intro later earlier e hlog hact
    have hlawful : Lawful (later ++ e :: earlier) := hlog ▸ (fusion_queues h).lawful
    have hlast := hlawful.of_append.2
    rw [hact] at hlast
    obtain ⟨hdue, hpending⟩ := hlast
    refine ⟨hdue, hpending.queued, ?_⟩
    intro f hf hnonce
    rw [(hpending.only f hf hnonce).1]
    exact ⟨by simp, by simp⟩
  · rintro ⟨clk, i⟩ w' k ⟨hclk, hrun, -⟩ hmoved
    obtain ⟨nonce, withOracle, op, rfl, hop, hmarket⟩ :=
      (SystemInstr.run_cases hrun).of_reconfigured ((fusion_inv hreach).mono hclk.unixTimestamp)
        hmoved
    refine ⟨nonce, op, hmarket, ?_⟩
    simp only [queueNote, hop, Option.map_some]
  · intro k acc hacc pyth switchboard dexTwap canonical now
    exact aggregate_mintFrozen_of_liqDivergent (hvalid k acc hacc).looser

/-- Two changes of the minimum ratio are queued; one is cancelled and the other executed. -/
def Sample.ratioChange : List SystemEvent :=
  Sample.at_ Sample.clock (Sample.launch ++
    [.queueParamChange 3 7 false (.market .mcr) 12000,
      .queueParamChange 3 7 false (.market .mcr) 13000,
      .cancelParamChange 3 0,
      .executeParamChange 1 7 false])

theorem fusion_governance_sample :
    ∃ x, (fusion.withGhost [] recordQueue).Reach x ∧
      x.2.map (fun e ↦ (e.nonce, e.act)) =
        [(1, .executed), (0, .cancelled), (1, .queued), (0, .queued)] ∧
      (x.1.system.protocol.markets.All fun s ↦ s.market.toMarketParams.Governed) ∧
      x.1.system.oracles.All fun acc ↦ acc.oracle.Valid := by
  have hrun : (Sample.history recordQueue [] Sample.ratioChange).map
      (fun x ↦ decide (x.2.map (fun e ↦ (e.nonce, e.act)) =
        [(1, .executed), (0, .cancelled), (1, .queued), (0, .queued)])) = some true := by
    decide +kernel
  obtain ⟨x, hx, hlog⟩ := Option.map_eq_some_iff.mp hrun
  have hreach := Sample.history_reach hx
  have hmain := fusion_governance hreach
  exact ⟨x, hreach, of_decide_eq_true hlog, hmain.1, hmain.2.1⟩

end FusionCore
