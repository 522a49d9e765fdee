import FusionCore.Core.Protocol

/-!
# What an instruction leaves alone

The price of a market, its pauses and its parameters belong to the price crank and to governance:
no other instruction writes them.  The same pass over the instructions shows that the flags of the
liquidation infrastructure stand for accounts that exist, and that nothing is owed in a market
before that infrastructure is complete.
-/

namespace FusionCore

open Checked LazyIndex

/-- The instructions of the protocol that neither price a market nor move a parameter. -/
def Instr.plain : Instr → Bool
  | .market _ (.updatePrice _) => false
  | .market _ (.rebindFeeds _) => false
  | .market _ (.executeParamChange _ _) => false
  | .executeGlobalParamChange _ _ => false
  | _ => true

/-- The part of a market that only prices and governance write; the ceiling also moves with the
debt-ceiling line. -/
structure Terms where
  params : MarketParams
  spot : ℕ
  spotUpdatedSlot : ℕ
  debtSpot : ℕ
  liqGraceUntil : ℕ
  liqDivergenceUntil : ℕ
  deriving DecidableEq

def Market.terms (m : Market) : Terms where
  params := { m.toMarketParams with debtCeiling := 0 }
  spot := m.spot
  spotUpdatedSlot := m.spotUpdatedSlot
  debtSpot := m.debtSpot
  liqGraceUntil := m.liqGraceUntil
  liqDivergenceUntil := m.liqDivergenceUntil

/-- The flags of the liquidation infrastructure stand for accounts that exist. -/
structure MarketState.Backed (s : MarketState) : Prop where
  gated : s.market.liqInfraFlags.gated = true
  reactor : s.market.liqInfraFlags.reactorPool = true → s.reactor.isSome
  buffer : s.market.liqInfraFlags.insuranceBuffer = true → s.buffer.isSome

theorem MarketState.Backed.of_ready {s : MarketState} (h : s.Backed)
    (hready : s.market.liqInfraFlags.ready = true) : s.reactor.isSome ∧ s.buffer.isSome := by
  have hboth : s.market.liqInfraFlags.reactorPool = true ∧
      s.market.liqInfraFlags.insuranceBuffer = true := by
    simpa [LiqInfraFlags.ready, h.gated] using hready
  exact ⟨h.reactor hboth.1, h.buffer hboth.2⟩

/-- An instruction that is neither a price nor a governed change. -/
structure Framed (a a' : Accounts) : Prop where
  terms : a'.state.market.terms = a.state.market.terms
  backed : a.state.Backed → a'.state.Backed
  ready : a.state.Backed → a.state.market.liqInfraFlags.ready = true →
    a'.state.market.liqInfraFlags.ready = true
  undrawn : a.state.market.aggRecordedDebt = 0 →
    a'.state.market.aggRecordedDebt = 0 ∨ a.state.market.liqInfraFlags.ready = true

section Rules

variable {now x ts : ℕ} {a a' : Accounts} {m₁ : Market}

theorem MarketState.Backed.of_flags {s s' : MarketState} (h : s.Backed)
    (hflags : s'.market.liqInfraFlags = s.market.liqInfraFlags)
    (hreactor : s.reactor.isSome → s'.reactor.isSome)
    (hbuffer : s.buffer.isSome → s'.buffer.isSome) : s'.Backed := by
  constructor
  · rw [hflags]
    exact h.gated
  · rw [hflags]
    exact fun hset ↦ hreactor (h.reactor hset)
  · rw [hflags]
    exact fun hset ↦ hbuffer (h.buffer hset)

theorem Accrued.undrawn (hi : Inv now a) (hacc : Accrued a.state.market m₁ now x ts)
    (hzero : a.state.market.aggRecordedDebt = 0) : m₁.aggRecordedDebt = 0 := by
  have hcovered := hi.book.debt_covered
  rw [hzero, Nat.zero_mul] at hcovered
  have hshare : a.state.positions.total (debtShare a.state.market) = 0 := by omega
  have hweight : a.state.positions.total weightOf = 0 := by
    refine Table.total_eq_zero fun owner p hp ↦ ?_
    have hle := Table.le_total (f := debtShare a.state.market) (fun _ ↦ Nat.zero_le _) hp
    have hdebt : p.recordedDebt * UNIT ≤ debtShare a.state.market p :=
      (Nat.mul_le_mul_right _ (by unfold owedDebt; omega)).trans (owedDebt_bounds _ p).1
    have hzero : p.recordedDebt * UNIT = 0 := by omega
    rcases Nat.mul_eq_zero.mp hzero with hd | hu
    · change p.recordedDebt * p.userRateBps = 0
      rw [hd, Nat.zero_mul]
    · exact absurd hu UNIT_pos.ne'
  have htight := hacc.tight
  rw [hi.book.weights, hweight, Nat.zero_mul, Nat.zero_add] at htight
  have hx : x = 0 := by
    by_contra hne
    have := Nat.le_mul_of_pos_left INTEREST_DENOM (Nat.pos_of_ne_zero hne)
    omega
  rw [hacc.eq, hx]
  exact hzero

theorem Framed.of_accrued (hi : Inv now a) (hacc : Accrued a.state.market m₁ now x ts)
    (hterms : a'.state.market.terms = m₁.terms)
    (hflags : a'.state.market.liqInfraFlags = m₁.liqInfraFlags)
    (hreactor : a.state.reactor.isSome → a'.state.reactor.isSome)
    (hbuffer : a.state.buffer.isSome → a'.state.buffer.isSome)
    (hagg : m₁.aggRecordedDebt = 0 → a'.state.market.aggRecordedDebt = 0) : Framed a a' where
  terms := by
    rw [hterms, hacc.eq]
    rfl
  backed := fun hb ↦ hb.of_flags (by rw [hflags, hacc.eq]) hreactor hbuffer
  ready := by
    intro _ hready
    rw [hflags, hacc.eq]
    exact hready
  undrawn := fun hzero ↦ .inl (hagg (hacc.undrawn hi hzero))

theorem Framed.of_market (hterms : a'.state.market.terms = a.state.market.terms)
    (hflags : a'.state.market.liqInfraFlags = a.state.market.liqInfraFlags)
    (hreactor : a.state.reactor.isSome → a'.state.reactor.isSome)
    (hbuffer : a.state.buffer.isSome → a'.state.buffer.isSome)
    (hagg : a'.state.market.aggRecordedDebt = a.state.market.aggRecordedDebt) : Framed a a' where
  terms := hterms
  backed := fun hb ↦ hb.of_flags hflags hreactor hbuffer
  ready := fun _ hready ↦ hflags ▸ hready
  undrawn := fun hzero ↦ .inl (hagg.trans hzero)

end Rules

/-! ## Positions -/

section Positions

variable {clk : Clock} {owner : Pubkey} {amount : ℕ} {a a' : Accounts}

theorem deposit_framed (hi : Inv clk.unixTimestamp a) (h : deposit clk owner amount a = .ok a') :
    Framed a a' := by
  obtain ⟨run, rfl⟩ := exists_depositRun (of_vaultChecked h)
  obtain ⟨x, ts, hacc⟩ := accrue_spec hi.book.clock run.visit.accrue_eq
  exact .of_accrued hi hacc rfl rfl id id id

theorem withdraw_framed (hi : Inv clk.unixTimestamp a)
    (h : withdraw clk owner amount a = .ok a') : Framed a a' := by
  obtain ⟨run, rfl⟩ := exists_withdrawRun (of_vaultChecked h)
  obtain ⟨x, ts, hacc⟩ := accrue_spec hi.book.clock run.visit.accrue_eq
  exact .of_accrued hi hacc rfl rfl id id id

theorem borrow_framed (hi : Inv clk.unixTimestamp a) (h : borrow clk owner amount a = .ok a') :
    Framed a a' := by
  obtain ⟨run, rfl⟩ := borrow_run h
  obtain ⟨x, ts, hacc⟩ := accrue_spec hi.book.clock run.visit.accrue_eq
  have hready := run.ready
  have hflags : run.visit.m₁.liqInfraFlags = a.state.market.liqInfraFlags := by rw [hacc.eq]
  refine ⟨?_, ?_, ?_, ?_⟩
  · have hterms : run.visit.m₁.terms = a.state.market.terms := by rw [hacc.eq]; rfl
    exact hterms
  · exact fun hb ↦ hb.of_flags hflags id id
  · exact fun _ _ ↦ hready
  · intro _
    exact .inr (hflags ▸ hready)

theorem repay_framed (hi : Inv clk.unixTimestamp a) (h : repay clk owner amount a = .ok a') :
    Framed a a' := by
  rcases repay_run h with ⟨run, rfl⟩ | ⟨run, rfl⟩
  · obtain ⟨x, ts, hacc⟩ := accrue_spec hi.book.clock run.accrue_eq
    exact .of_accrued hi hacc rfl rfl id id id
  · obtain ⟨x, ts, hacc⟩ := accrue_spec hi.book.clock run.visit.accrue_eq
    obtain ⟨rlAccrued, rlLastUpdate, hrestored⟩ := run.visit.market.restoreOutflow_eq
      clk.unixTimestamp (truncate 64 (min amount run.visit.p₁.recordedDebt))
    rw [RepayRun.result, hrestored]
    refine .of_accrued hi hacc rfl rfl id id fun hzero ↦ ?_
    dsimp only [Visit.market, repaid]
    omega

/-- A fee is charged on a debt only, so it does not appear in an undrawn market. -/
theorem adjustRate_framed {newRateBps : ℕ} (hi : Inv clk.unixTimestamp a)
    (h : adjustRate clk owner newRateBps a = .ok a') : Framed a a' := by
  obtain ⟨run, rfl⟩ := adjustRate_run h
  obtain ⟨x, ts, hacc⟩ := accrue_spec hi.book.clock run.visit.accrue_eq
  have hreal := realize_spec hacc.realizable run.visit.realize_eq
  have hdebt := (hi.book.accrue hacc).debt_le run.visit.position_eq hreal.folded
  refine .of_accrued hi hacc rfl rfl id id fun hzero ↦ ?_
  have hfee : run.fee = 0 := by
    by_contra hne
    have howes := (run.charged (Nat.pos_of_ne_zero hne)).1
    omega
  dsimp only [AdjustRun.result, Visit.state, Visit.market, readjusted]
  omega

end Positions

/-! ## Redemption and liquidation -/

section Waterfall

variable {clk : Clock} {redeemer liquidator owner : Pubkey} {amount : ℕ}
  {candidates : List Candidate} {withBackstop : Bool} {a a' : Accounts}

theorem Framed.of_loop {now x ts paid drawn : ℕ} {m₁ : Market} {s : MarketState}
    (hi : Inv now a) (hacc : Accrued a.state.market m₁ now x ts)
    (hl : LoopInv now (a.state.accrued m₁) s paid drawn)
    (hterms : a'.state.market.terms = s.market.terms)
    (hflags : a'.state.market.liqInfraFlags = s.market.liqInfraFlags)
    (hreactor : a'.state.reactor = s.reactor) (hbuffer : a'.state.buffer = s.buffer)
    (hagg : a'.state.market.aggRecordedDebt = s.market.aggRecordedDebt) : Framed a a' := by
  have hrest : ∀ {α : Type} (f : MarketState → α), f s.rest = f (a.state.accrued m₁).rest :=
    fun f ↦ congrArg f hl.rest
  have hr : s.reactor = a.state.reactor := hrest MarketState.reactor
  have hb : s.buffer = a.state.buffer := hrest MarketState.buffer
  refine .of_accrued hi hacc (hterms.trans ?_) (hflags.trans ?_) ?_ ?_ ?_
  · exact hrest fun s ↦ s.market.terms
  · exact hrest fun s ↦ s.market.liqInfraFlags
  · rw [hreactor, hr]
    exact id
  · rw [hbuffer, hb]
    exact id
  · intro hzero
    have hsum : s.market.aggRecordedDebt + paid = m₁.aggRecordedDebt := hl.agg
    omega

theorem redeem_framed (hi : Inv clk.unixTimestamp a)
    (h : redeem clk redeemer amount candidates a = .ok a') : Framed a a' := by
  obtain ⟨run, rfl⟩ := redeem_run h
  obtain ⟨x, ts, hacc⟩ := accrue_spec hi.book.clock run.accrue_eq
  obtain ⟨baseRate, baseRateTs, hresult⟩ := run.result_eq
  rw [hresult]
  exact .of_loop hi hacc (run.redemptionInv hi).loop rfl rfl rfl rfl rfl

theorem urgentRedeem_framed (hi : Inv clk.unixTimestamp a)
    (h : urgentRedeem clk redeemer amount candidates a = .ok a') : Framed a a' := by
  obtain ⟨run, rfl⟩ := urgentRedeem_run h
  obtain ⟨x, ts, hacc⟩ := accrue_spec hi.book.clock run.accrue_eq
  exact .of_loop hi hacc (run.redemptionInv hi).loop rfl rfl rfl rfl rfl

theorem liquidate_framed (hi : Inv clk.unixTimestamp a)
    (h : liquidate clk liquidator owner withBackstop a = .ok a') : Framed a a' := by
  obtain ⟨run, rfl⟩ := liquidate_run h
  obtain ⟨x, ts, hacc⟩ := accrue_spec hi.book.clock run.accrue_eq
  obtain ⟨surplus, -, -, hzm, -⟩ := run.seize_spec hi
  obtain ⟨hplaced, -, -⟩ := run.remainderTiers_spec
  rw [hzm] at hplaced
  have hkept : run.r.market.terms = run.m₁.terms ∧
      run.r.market.liqInfraFlags = run.m₁.liqInfraFlags ∧
      run.r.market.aggRecordedDebt ≤ run.m₁.aggRecordedDebt := by
    cases hplaced with
    | redistributed st _ _ heq =>
      rw [heq]
      exact ⟨rfl, rfl, Nat.sub_le _ _⟩
    | kept _ _ _ _ heq =>
      rw [heq]
      exact ⟨rfl, rfl, Nat.sub_le _ _⟩
  refine .of_accrued hi hacc hkept.1 hkept.2.1 (fun _ ↦ rfl) (fun _ ↦ rfl) fun hzero ↦ ?_
  exact Nat.le_zero.mp (hkept.2.2.trans hzero.le)

end Waterfall

/-! ## Reactor Pool, maintenance and the environment -/

section Maintenance

variable {cfg : Config} {clk : Clock} {owner authority : Pubkey} {amount : ℕ} {a a' : Accounts}

theorem Framed.of_eq (hmarket : a'.state.market = a.state.market)
    (hreactor : a.state.reactor.isSome → a'.state.reactor.isSome)
    (hbuffer : a.state.buffer.isSome → a'.state.buffer.isSome) : Framed a a' := by
  refine .of_market ?_ ?_ hreactor hbuffer ?_ <;> rw [hmarket]

/-- A flag is raised together with the account it stands for. -/
theorem initReactorPool_framed (h : initReactorPool cfg authority a = .ok a') : Framed a a' := by
  simp only [initReactorPool, bind_eq_ok_iff, require_eq_ok, pure_eq_ok, exists_const] at h
  obtain ⟨-, -, rfl⟩ := h
  refine ⟨rfl, fun hb ↦ ⟨hb.gated, fun _ ↦ rfl, hb.buffer⟩, fun hb hready ↦ ?_, .inl⟩
  simp_all [LiqInfraFlags.ready, hb.gated]

theorem initInsuranceBuffer_framed (h : initInsuranceBuffer cfg authority a = .ok a') :
    Framed a a' := by
  simp only [initInsuranceBuffer, bind_eq_ok_iff, require_eq_ok, pure_eq_ok, exists_const] at h
  obtain ⟨-, -, rfl⟩ := h
  refine ⟨rfl, fun hb ↦ ⟨hb.gated, hb.reactor, fun _ ↦ rfl⟩, fun hb hready ↦ ?_, .inl⟩
  simp_all [LiqInfraFlags.ready, hb.gated]

theorem contribute_market {m m' : Market} {bs bs' : Option GlobalBackstopReserve}
    {fusd fusd' : TokenLedger FusdHolder} (h : contribute m bs fusd amount = .ok (m', bs', fusd')) :
    ∃ contributed, m' = { m with globalContributed := contributed } := by
  obtain ⟨fusd₁, -, h⟩ := bind_eq_ok_iff.mp h
  rcases ite_eq_ok.mp h with ⟨-, h⟩ | ⟨-, h⟩
  · simp only [bind_eq_ok_iff, okOr_eq_ok, pure_eq_ok, Prod.mk.injEq] at h
    obtain ⟨c, -, _, -, _, -, rfl, -, -⟩ := h
    exact ⟨c, rfl⟩
  · cases h
    exact ⟨m.globalContributed, rfl⟩

/-- A refresh accrues, and then pays interest out of what is not minted yet. -/
theorem refreshMarket_cases {cranker : Option FusdHolder} {withBackstop : Bool}
    (h : refreshMarket clk cranker withBackstop a = .ok a') :
    ∃ m₁ badDebt unmintedInterest globalContributed,
      accrue a.state.market clk.unixTimestamp = .ok m₁ ∧ unmintedInterest ≤ m₁.unmintedInterest ∧
      a'.state.market = { m₁ with badDebt, unmintedInterest, globalContributed } ∧
      a'.state.positions = a.state.positions ∧ a'.state.reactor = a.state.reactor ∧
      a'.state.buffer.isSome := by
  simp only [refreshMarket, bind_eq_ok_iff, okOr_eq_ok, ite_eq_ok] at h
  obtain ⟨buf, hbuf, bs, -, m₁, hm₁, ⟨-, h⟩ | ⟨-, h⟩⟩ := h
  · cases h
    exact ⟨m₁, m₁.badDebt, m₁.unmintedInterest, m₁.globalContributed, hm₁, le_rfl, rfl, rfl, rfl,
      Option.isSome_iff_exists.mpr ⟨buf, hbuf⟩⟩
  · simp only [pure_eq_ok, Prod.exists] at h
    obtain ⟨d, hd, fusd₁, -, fusd₂, -, m₂, bs₁, fusd₃, hcon, _, -, rfl⟩ := h
    obtain ⟨c, rfl⟩ := contribute_market hcon
    obtain ⟨-, -, hunminted, -⟩ := SupplyTransition.refresh_spec hd
    exact ⟨m₁, d.newBad, d.newUnminted, c, hm₁, by omega, rfl, rfl, rfl, rfl⟩

theorem refreshMarket_framed {cranker : Option FusdHolder} {withBackstop : Bool}
    (hi : Inv clk.unixTimestamp a) (h : refreshMarket clk cranker withBackstop a = .ok a') :
    Framed a a' := by
  obtain ⟨m₁, _, _, _, hm₁, -, hmarket, -, hreactor, hbuffer⟩ := refreshMarket_cases h
  obtain ⟨x, ts, hacc⟩ := accrue_spec hi.book.clock hm₁
  refine .of_accrued hi hacc ?_ ?_ (fun hsome ↦ hreactor ▸ hsome) (fun _ ↦ hbuffer) fun hzero ↦ ?_
  · rw [hmarket]
    rfl
  · rw [hmarket]
  · rw [hmarket]
    exact hzero

theorem payFromCounter_framed {counter : ℕ} {m' : Market} {recipient : CollHolder}
    (hterms : m'.terms = a.state.market.terms)
    (hflags : m'.liqInfraFlags = a.state.market.liqInfraFlags)
    (hagg : m'.aggRecordedDebt = a.state.market.aggRecordedDebt) :
    Ensures (payFromCounter cfg authority counter m' recipient amount a) (Framed a) :=
  .after fun _ ↦ .after fun _ ↦ .after fun _ ↦ .after fun _ ↦ .after fun _ ↦
    .ok (.of_market hterms hflags id id hagg)

theorem storeLine_framed {l : DebtCeilingLine} (hi : Inv clk.unixTimestamp a) :
    Ensures (storeLine clk l a) (Framed a) := by
  refine .bind (fun _ ↦ accrue_spec hi.book.clock) ?_
  rintro m₁ ⟨x, ts, hacc⟩
  exact .ok (.of_accrued hi hacc rfl rfl id id id)

end Maintenance

theorem MarketInstr.run_framed {cfg : Config} {clk : Clock} {i : MarketInstr} {a a' : Accounts}
    {mint : Pubkey} (hplain : (Instr.market mint i).plain = true) (hi : Inv clk.unixTimestamp a)
    (h : i.run cfg clk a = .ok a') : Framed a a' := by
  suffices hall : Ensures (i.run cfg clk a) (Framed a) from hall a' h
  clear h
  cases i with
  | openPosition => exact .after fun _ ↦ .after fun _ ↦ .ok (.of_eq rfl id id)
  | closePosition =>
    exact .after fun _ ↦ .after fun _ ↦ .after fun _ ↦ .after fun _ ↦ .ok (.of_eq rfl id id)
  | deposit => exact fun _ ↦ deposit_framed hi
  | withdraw => exact fun _ ↦ withdraw_framed hi
  | borrow => exact fun _ ↦ borrow_framed hi
  | repay => exact fun _ ↦ repay_framed hi
  | adjustRate => exact fun _ ↦ adjustRate_framed hi
  | claimCollSurplus =>
    refine vaultChecked_ensures (.after fun _ ↦ .after fun _ ↦ .after fun _ ↦ .after fun _ ↦ .ok ?_)
    exact .of_market rfl rfl id id rfl
  | redeem => exact fun _ ↦ redeem_framed hi
  | urgentRedeem => exact fun _ ↦ urgentRedeem_framed hi
  | liquidate => exact fun _ ↦ liquidate_framed hi
  | openReactorDeposit => exact .after fun _ ↦ .after fun _ ↦ .ok (.of_eq rfl (fun _ ↦ rfl) id)
  | provideToReactor | withdrawFromReactor | claimReactorGains =>
    exact .after fun _ ↦ .after fun _ ↦ .after fun _ ↦ .ok (.of_eq rfl (fun _ ↦ rfl) id)
  | refreshMarket => exact fun _ ↦ refreshMarket_framed hi
  | settleBadDebt =>
    refine .after fun _ ↦ .after fun _ ↦ .after fun _ ↦ .after fun _ ↦ .after fun _ ↦ .ok ?_
    exact .of_market rfl rfl id id rfl
  | shutdown =>
    refine .after fun _ ↦ .bind (fun _ ↦ accrue_spec hi.book.clock) ?_
    rintro m₁ ⟨x, ts, hacc⟩
    exact .after fun _ ↦ .ok (.of_accrued hi hacc rfl rfl id id id)
  | fundBuffer =>
    exact .after fun _ ↦ .after fun _ ↦ .after fun _ ↦ .after fun _ ↦
      .ok (.of_eq rfl id fun _ ↦ rfl)
  | sweepProtocolCollateral | withdrawSurplus =>
    exact vaultChecked_ensures (payFromCounter_framed rfl rfl rfl)
  | initReactorPool => exact fun _ ↦ initReactorPool_framed
  | initInsuranceBuffer => exact fun _ ↦ initInsuranceBuffer_framed
  | initDebtCeilingLine | setDebtCeilingLine | bumpDebtCeiling =>
    exact .after fun _ ↦ .after fun _ ↦ storeLine_framed hi
  | guardianDerisk =>
    exact .after fun _ ↦ .after fun _ ↦ .ok (.of_market rfl rfl id id rfl)
  | updatePrice | rebindFeeds | executeParamChange => cases hplain
  | mintCollateral | burnCollateral | transferCollateral =>
    exact .after fun _ ↦ .ok (.of_eq rfl id id)

/-! ## Prices and governed changes -/

section Governed

variable {clk : Clock} {a a' : Accounts}

/-- The pause of liquidations after an update. -/
def Market.divergenceAfter (m : Market) (slot : ℕ) (c : PriceCommit) : ℕ :=
  if c.liqDivergent then
    max m.liqDivergenceUntil (saturatingAdd 64 slot LIQ_DIVERGENCE_GRACE_SLOTS)
  else m.liqDivergenceUntil

/-- The commit resumes prices after a stall. -/
def Market.Resumes (m : Market) (slot : ℕ) : Prop :=
  0 < m.spot ∧ MAX_PRICE_STALENESS_SLOTS < slot - m.spotUpdatedSlot

instance (m : Market) (slot : ℕ) : Decidable (m.Resumes slot) :=
  inferInstanceAs (Decidable (_ ∧ _))

/-- The liquidation grace after a commit: a resumed price and a fallen rate both arm it. -/
def Market.graceAfter (m : Market) (slot : ℕ) (c : PriceCommit) : ℕ :=
  let resumed :=
    if m.Resumes slot then
      max m.liqGraceUntil (saturatingAdd 64 slot LIQ_RESUME_GRACE_SLOTS)
    else m.liqGraceUntil
  if c.rateFell then max resumed (saturatingAdd 64 slot LIQ_RESUME_GRACE_SLOTS) else resumed

/-- Everything an update does to its market. -/
inductive Priced (clk : Clock) (m : Market) : Option PriceCommit → Market → Prop where
  | withheld : Priced clk m none { m with mintFrozen := true }
  | assessed (c : PriceCommit)
      (hnone : ∀ spot debtSpot, c.price = some (spot, debtSpot) → spot = 0) :
      Priced clk m (some c)
        { m with
          mintFrozen := c.mintFrozen
          liqDivergenceUntil := m.divergenceAfter clk.slot c }
  | committed (c : PriceCommit) (spot debtSpot : ℕ) (hprice : c.price = some (spot, debtSpot))
      (hpos : 0 < spot) :
      Priced clk m (some c)
        { m with
          mintFrozen := c.mintFrozen
          liqDivergenceUntil := m.divergenceAfter clk.slot c
          liqGraceUntil := m.graceAfter clk.slot c
          spot
          debtSpot
          spotUpdatedSlot := clk.slot }

theorem updatePrice_cases {commit : Option PriceCommit} (h : updatePrice clk commit a = .ok a') :
    ∃ m, Priced clk a.state.market commit m ∧
      a' = { a with state := { a.state with market := m } } := by
  cases h
  refine ⟨_, ?_, rfl⟩
  cases commit with
  | none => exact .withheld
  | some c =>
    dsimp only
    cases hprice : c.price with
    | none => exact .assessed c fun spot debtSpot h ↦ by simp [hprice] at h
    | some price =>
      obtain ⟨spot, debtSpot⟩ := price
      dsimp only
      split
      next hpos => exact .committed c spot debtSpot hprice hpos
      next hzero =>
        refine .assessed c fun spot' debtSpot' h ↦ ?_
        rw [hprice] at h
        obtain ⟨rfl, rfl⟩ := Prod.mk.inj (Option.some.inj h)
        exact Nat.eq_zero_of_not_pos hzero

theorem rebindFeeds_cases {cfg : Config} {authority : Pubkey}
    (h : rebindFeeds cfg authority clk a = .ok a') :
    ∃ anchor, anchor = clk.slot - (MAX_PRICE_STALENESS_SLOTS + 1) ∧
      a' = { a with
        state := { a.state with
          market := { a.state.market with spotUpdatedSlot := anchor } } } := by
  simp only [rebindFeeds, bind_eq_ok_iff, require_eq_ok, pure_eq_ok, exists_const] at h
  exact ⟨_, rfl, h.2.symm⟩

/-- The liquidation grace after a governed change: raising the minimum ratio arms it. -/
def Market.graceAfterChange (m : Market) (slot : ℕ) (param : MarketParam) (value : ℕ) : ℕ :=
  if param = .mcr ∧ m.mcrBps < truncate 16 value then
    max m.liqGraceUntil (saturatingAdd 64 slot MCR_RAISE_GRACE_SLOTS)
  else m.liqGraceUntil

theorem executeParamChange_cases {param : MarketParam} {value : ℕ}
    (h : executeParamChange clk param value a = .ok a') :
    validateParamForMarket a.state.market param value = .ok () ∧ ∃ rlAccrued,
      a' = { a with
        state := { a.state with
          market := { a.state.market with
            toMarketParams := (applyParam a.state.market param value).toMarketParams
            liqGraceUntil := a.state.market.graceAfterChange clk.slot param value
            rlAccrued } } } := by
  simp only [executeParamChange, bind_eq_ok_iff, pure_eq_ok] at h
  obtain ⟨_, hvalid, rfl⟩ := h
  refine ⟨hvalid, ?_⟩
  unfold Market.graceAfterChange
  split
  · cases param <;> exact ⟨_, rfl⟩
  · cases param <;> exact ⟨_, rfl⟩

end Governed

end FusionCore
