import FusionCore.Core.Counters

/-!
# The global backstop

All markets share one reserve of fUSD: refreshes pay a cut of the interest into it, liquidations
draw on it, anyone may fund it and its owner may take what exceeds the cap.
-/

namespace FusionCore

open Checked

/-- The reserve after a market has given it `given` and drawn `drawn` from it. -/
def GlobalBackstopReserve.moved (b : GlobalBackstopReserve) (given drawn : ℕ) :
    GlobalBackstopReserve :=
  { b with
    totalContributed := b.totalContributed + given
    totalAbsorbed := b.totalAbsorbed + drawn }

theorem GlobalBackstopReserve.map_moved_zero (bs : Option GlobalBackstopReserve) :
    bs.map (·.moved 0 0) = bs :=
  congrFun Option.map_id bs

/-- What an instruction on a market does to the reserve: `given` is its cut of the interest,
`drawn` what a liquidation burns, and `stray` what else reaches the vault. -/
structure ReserveMove (now : ℕ) (a a' : Accounts) (given drawn stray : ℕ) : Prop where
  contributed : a'.state.market.globalContributed = a.state.market.globalContributed + given
  drawnTotal : a'.state.market.globalDrawn = a.state.market.globalDrawn + drawn
  vault : a'.fusd.balance .backstopVault + drawn = a.fusd.balance .backstopVault + given + stray
  reserve : a'.backstop = a.backstop.map (·.moved given drawn)
  cut : 0 < given → ∃ b ∈ a.backstop, a.fusd.balance .backstopVault + given ≤ b.reserveCap
  draw : 0 < drawn → ∃ b ∈ a.backstop, ∃ m₁, accrue a.state.market now = .ok m₁ ∧
    drawn ≤ drawAvailable b a.state.market.globalContributed a.state.market.globalDrawn
      m₁.aggRecordedDebt (a.fusd.balance .backstopVault)

/-- The base rate and its anchor are as they were. -/
structure BaseRateKept (m m' : Market) : Prop where
  rate : m'.redemptionBaseRate = m.redemptionBaseRate
  anchor : m'.redemptionBaseRateTs = m.redemptionBaseRateTs

theorem Quiet.reserveMove {now : ℕ} {a a' : Accounts} (h : Quiet a a') :
    ReserveMove now a a' 0 0 0 where
  contributed := congrArg Counters.globalContributed h.counters
  drawnTotal := congrArg Counters.globalDrawn h.counters
  vault := h.vault
  reserve := h.backstop.trans (GlobalBackstopReserve.map_moved_zero _).symm
  cut := fun h ↦ absurd h (lt_irrefl 0)
  draw := fun h ↦ absurd h (lt_irrefl 0)

theorem Quiet.rateKept {a a' : Accounts} (h : Quiet a a') :
    BaseRateKept a.state.market a'.state.market where
  rate := congrArg Counters.redemptionBaseRate h.counters
  anchor := congrArg Counters.redemptionBaseRateTs h.counters

/-! ## Draws -/

section Draws

variable {mint : Pubkey} {m : Market} {p : Position} {bs : Option GlobalBackstopReserve}
  {fusd : TokenLedger FusdHolder} {coll : TokenLedger CollHolder} {amount collR : ℕ}

theorem seize_counters : Ensures (seize m p) fun z ↦
    z.market.counters = m.counters ∧ z.market.aggRecordedDebt = m.aggRecordedDebt := by
  unfold seize
  refine .after fun _ ↦ .after fun _ ↦ .after fun s ↦ ?_
  refine Ensures.bind (P := fun r : Market × Position ↦ r.1.counters = m.counters ∧
    r.1.aggRecordedDebt = m.aggRecordedDebt) ?_ fun r hr ↦ ?_
  · refine .ite (fun _ ↦ ?_) fun _ ↦ .ok ⟨rfl, rfl⟩
    exact .after fun _ ↦ .after fun _ ↦ .ok ⟨rfl, rfl⟩
  exact .after fun _ ↦ .ok hr

theorem reactorTier_vault {rp : ReactorPool} {collSp : ℕ} :
    Ensures (reactorTier mint rp coll fusd amount collSp) fun r ↦
      r.2.2.balance .backstopVault = fusd.balance .backstopVault := by
  refine .ite (fun _ ↦ ?_) fun _ ↦ .ok rfl
  refine .after fun _ ↦ .after fun _ ↦ ?_
  refine .bind (burn_vault (by simp)) fun fusd₁ h ↦ ?_
  exact .after fun _ ↦ .ok h

/-- The tiers below the Reactor Pool draw `d` from the reserve. -/
structure Draws (r r' : Remainder) (d : ℕ) : Prop where
  counters : r'.market.counters =
    { r.market.counters with globalDrawn := r.market.globalDrawn + d }
  reserve : r'.backstop = r.backstop.map (·.moved 0 d)
  vault : r'.fusd.balance .backstopVault + d = r.fusd.balance .backstopVault

theorem redistTier_counters {redist : ℕ} :
    Ensures (redistTier m redist collR) fun m' ↦ m'.counters = m.counters := by
  unfold redistTier
  exact .after fun _ ↦ .after fun _ ↦ .ok rfl

theorem shutdownTier_counters (unhomed : ℕ) : (shutdownTier m unhomed).counters = m.counters := by
  obtain ⟨shut, reason, heq⟩ := shutdownTier_eq m unhomed
  rw [heq]
  rfl

theorem backstopTier_draws : Ensures (backstopTier m bs fusd amount) fun r ↦
    r.1.counters = { m.counters with globalDrawn := m.globalDrawn + amount } ∧
      r.2.1 = bs.map (·.moved 0 amount) ∧
      r.2.2.balance .backstopVault + amount = fusd.balance .backstopVault := by
  rintro ⟨m', bs', fusd'⟩ h
  have hvault := backstopTier_balance h .backstopVault
  rw [if_pos rfl] at hvault
  rcases ite_eq_ok.mp h with ⟨-, h⟩ | ⟨hzero, h⟩
  · simp only [bind_eq_ok_iff, okOr_eq_ok, checkedAdd_eq_some, pure_eq_ok, Prod.mk.injEq] at h
    obtain ⟨b, hb, _, -, fusd₁, -, _, ⟨-, rfl⟩, _, ⟨-, rfl⟩, rfl, rfl, rfl⟩ := h
    rw [hb]
    exact ⟨rfl, rfl, hvault⟩
  · obtain rfl : amount = 0 := Nat.eq_zero_of_not_pos hzero
    cases h
    exact ⟨rfl, (GlobalBackstopReserve.map_moved_zero bs).symm, hvault⟩

theorem Draws.none (r : Remainder) {m : Market} (h : m.counters = r.market.counters) :
    Draws r { r with market := m } 0 where
  counters := h
  reserve := (GlobalBackstopReserve.map_moved_zero _).symm
  vault := rfl

theorem remainderTiers_draws {split : Absorption} {r : Remainder}
    (hredist : 0 < split.redist → split.global = 0) :
    Ensures (remainderTiers mint split collR r) fun r' ↦ Draws r r' split.global := by
  unfold remainderTiers
  refine .ite (fun hpos ↦ ?_) fun _ ↦ .ite (fun _ ↦ ?_) fun hnone ↦ ?_
  · rw [hredist hpos]
    exact .bind redistTier_counters fun m₁ h₁ ↦ .ok (.none r h₁)
  · refine .after fun _ ↦ .after fun _ ↦ ?_
    refine Ensures.bind (P := fun r₁ : InsuranceBuffer × TokenLedger FusdHolder ↦
      r₁.2.balance .backstopVault = r.fusd.balance .backstopVault) ?_ fun r₁ h₁ ↦ ?_
    · rintro ⟨buf, fusd₁⟩ hbuf
      have hsum := bufferTier_balance hbuf .backstopVault
      rwa [if_neg (by simp), Nat.add_zero] at hsum
    refine .bind backstopTier_draws fun r₂ h₂ ↦ .ok ?_
    exact ⟨(shutdownTier_counters split.unhomed).trans h₂.1, h₂.2.1, h₂.2.2.trans h₁⟩
  · obtain hzero : split.global = 0 := by omega
    rw [hzero]
    exact .ok (.none r rfl)

end Draws

section Instructions

variable {clk : Clock} {cfg : Config} {a a' : Accounts} {withBackstop : Bool}
  {bs : Option GlobalBackstopReserve}

theorem backstopAccounts_cases (h : backstopAccounts a withBackstop = .ok bs) :
    bs = none ∨ ∃ b, a.backstop = some b ∧ bs = some b := by
  rcases ite_eq_ok.mp h with ⟨-, h⟩ | ⟨-, h⟩
  · simp only [bind_eq_ok_iff, okOr_eq_ok, pure_eq_ok] at h
    obtain ⟨b, hb, rfl⟩ := h
    exact .inr ⟨b, hb, rfl⟩
  · cases h
    exact .inl rfl

theorem storeBackstop_moved {given drawn : ℕ} (h : backstopAccounts a withBackstop = .ok bs)
    (hnone : bs = none → given = 0 ∧ drawn = 0) :
    storeBackstop a (bs.map (·.moved given drawn)) = a.backstop.map (·.moved given drawn) := by
  rcases backstopAccounts_cases h with rfl | ⟨b, hb, rfl⟩
  · obtain ⟨rfl, rfl⟩ := hnone rfl
    exact (GlobalBackstopReserve.map_moved_zero _).symm
  · rw [hb]
    rfl

theorem liquidate_reserve {liquidator owner : Pubkey}
    (h : liquidate clk liquidator owner withBackstop a = .ok a') :
    (∃ d, ReserveMove clk.unixTimestamp a a' 0 d 0) ∧
      BaseRateKept a.state.market a'.state.market := by
  obtain ⟨run, rfl⟩ := liquidate_run h
  obtain ⟨-, hglobal, hredist⟩ := run.split_spec
  have hdraws := remainderTiers_draws (fun hpos ↦ (hredist hpos).2.1) run.r run.remainderTiers_eq
  obtain ⟨hzc, hzagg⟩ := seize_counters run.z run.seize_eq
  have hz : run.z.market.counters = a.state.market.counters :=
    hzc.trans (accrue_counters run.m₁ run.accrue_eq)
  have hgiven : run.z.market.globalContributed = a.state.market.globalContributed :=
    congrArg Counters.globalContributed hz
  have hdrawn : run.z.market.globalDrawn = a.state.market.globalDrawn :=
    congrArg Counters.globalDrawn hz
  have hcounters : run.result.state.market.counters = { a.state.market.counters with
      globalDrawn := a.state.market.globalDrawn + run.split.global } := by
    have hsum : run.r.market.counters = { run.z.market.counters with
        globalDrawn := run.z.market.globalDrawn + run.split.global } := hdraws.counters
    rw [hz, hdrawn] at hsum
    exact hsum
  have hnone : run.bs = none → run.split.global = 0 := by
    intro hbs
    rw [hbs] at hglobal
    exact Nat.le_zero.mp hglobal
  refine ⟨⟨run.split.global, ?_⟩, congrArg Counters.redemptionBaseRate hcounters,
    congrArg Counters.redemptionBaseRateTs hcounters⟩
  refine
    { contributed := congrArg Counters.globalContributed hcounters
      drawnTotal := congrArg Counters.globalDrawn hcounters
      vault := hdraws.vault.trans (reactorTier_vault _ run.reactorTier_eq)
      reserve := ?_
      cut := fun h ↦ absurd h (lt_irrefl 0)
      draw := ?_ }
  · dsimp only [LiquidationRun.result]
    rw [hdraws.reserve]
    exact storeBackstop_moved run.backstop_eq fun h ↦ ⟨rfl, hnone h⟩
  · intro hpos
    rcases backstopAccounts_cases run.backstop_eq with hbs | ⟨b, hb, hbs⟩
    · exact absurd (hnone hbs) hpos.ne'
    · refine ⟨b, hb, run.m₁, run.accrue_eq, hglobal.trans_eq ?_⟩
      simp only [hbs, globalAvailable, hgiven, hdrawn, hzagg]

/-! ## Cuts of the interest -/

variable {m : Market} {fusd : TokenLedger FusdHolder} {amount : ℕ}

theorem mintShare_vault {dst : Option FusdHolder} : Ensures (mintShare fusd dst amount)
    fun fusd' ↦ fusd'.balance .backstopVault = fusd.balance .backstopVault +
      if dst = some .backstopVault then truncate 64 amount else 0 := by
  refine .ite (fun _ ↦ ?_) fun hzero ↦ .ok ?_
  · intro fusd' h
    simp only [bind_eq_ok_iff, okOr_eq_ok, tokenCall_eq_ok] at h
    obtain ⟨dst, rfl, h⟩ := h
    rw [TokenLedger.mintTo_balance h]
    simp only [Option.some.injEq, eq_comm]
  · obtain rfl : amount = 0 := Nat.eq_zero_of_not_pos hzero
    rw [truncate, Nat.zero_mod, ite_self, Nat.add_zero]

theorem contribute_reserve (hfit : amount < 2 ^ 64) : Ensures (contribute m bs fusd amount)
    fun r ↦ r.1.counters = { m.counters with globalContributed := m.globalContributed + amount } ∧
      r.2.1 = bs.map (·.moved amount 0) ∧ (0 < amount → bs.isSome) ∧
      r.2.2.balance .backstopVault = fusd.balance .backstopVault + amount := by
  unfold contribute
  refine .bind mintShare_vault fun fusd₁ hfusd ↦ .ite (fun hpos ↦ ?_) fun hzero ↦ .ok ?_
  · rintro ⟨m', bs', fusd'⟩ h
    simp only [bind_eq_ok_iff, okOr_eq_ok, checkedAdd_eq_some, pure_eq_ok, Prod.mk.injEq] at h
    obtain ⟨_, ⟨-, rfl⟩, b, rfl, _, ⟨-, rfl⟩, rfl, rfl, rfl⟩ := h
    rw [Option.map_some, if_pos rfl, truncate_of_lt hfit] at hfusd
    exact ⟨rfl, rfl, fun _ ↦ rfl, hfusd⟩
  · obtain rfl : amount = 0 := Nat.eq_zero_of_not_pos hzero
    rw [truncate, Nat.zero_mod, ite_self] at hfusd
    exact ⟨rfl, (GlobalBackstopReserve.map_moved_zero bs).symm,
      fun h ↦ absurd h (lt_irrefl 0), hfusd⟩

theorem refreshMarket_reserve {cranker : Option FusdHolder}
    (h : refreshMarket clk cranker withBackstop a = .ok a') :
    (∃ c stray, ReserveMove clk.unixTimestamp a a' c 0 stray ∧
      (cranker ≠ some .backstopVault → stray = 0)) ∧
      BaseRateKept a.state.market a'.state.market := by
  simp only [refreshMarket, bind_eq_ok_iff, okOr_eq_ok, ite_eq_ok] at h
  obtain ⟨buf, -, bs, hbs, m₁, hm₁, ⟨-, h⟩ | ⟨-, h⟩⟩ := h
  · cases h
    have hquiet : Quiet a { a with state := { a.state with
        market := m₁, tally := a.state.tally.book a.state.market m₁ } } :=
      ⟨accrue_counters m₁ hm₁, rfl, rfl⟩
    exact ⟨⟨0, 0, hquiet.reserveMove, fun _ ↦ rfl⟩, hquiet.rateKept⟩
  simp only [pure_eq_ok, Prod.exists] at h
  obtain ⟨d, hd, fusd₁, hbuf, fusd₂, hkeep, m₂, bs₁, fusd₃, hcon, _, -, rfl⟩ := h
  obtain ⟨hamt, hsplit, -, -, -, -, hroom⟩ := SupplyTransition.refresh_spec hd
  obtain ⟨hm₂, hbs₁, hsome, hfusd₃⟩ := contribute_reserve (by omega) _ hcon
  have hfusd₁ := mintShare_vault fusd₁ hbuf
  have hfusd₂ := mintShare_vault fusd₂ hkeep
  rw [if_neg (by simp), Nat.add_zero] at hfusd₁
  have hc₁ := accrue_counters m₁ hm₁
  have hcounters : m₂.counters = { a.state.market.counters with
      globalContributed := a.state.market.globalContributed + d.backstopCut } := by
    have hgiven : m₁.globalContributed = a.state.market.globalContributed :=
      congrArg Counters.globalContributed hc₁
    rw [hc₁, hgiven] at hm₂
    exact hm₂
  refine ⟨⟨d.backstopCut,
      if cranker = some .backstopVault then truncate 64 d.keeperCut else 0, ?_, fun h ↦ if_neg h⟩,
    congrArg Counters.redemptionBaseRate hcounters,
    congrArg Counters.redemptionBaseRateTs hcounters⟩
  refine
    { contributed := congrArg Counters.globalContributed hcounters
      drawnTotal := congrArg Counters.globalDrawn hcounters
      vault := ?_
      reserve := ?_
      cut := ?_
      draw := fun h ↦ absurd h (lt_irrefl 0) }
  · dsimp only at hfusd₃ ⊢
    rw [hfusd₃, hfusd₂, hfusd₁]
    omega
  · dsimp only at hbs₁ ⊢
    rw [hbs₁]
    refine storeBackstop_moved hbs ?_
    rintro rfl
    refine ⟨?_, rfl⟩
    by_contra hne
    exact absurd (hsome (Nat.pos_of_ne_zero hne)) (by simp)
  · intro hpos
    rcases backstopAccounts_cases hbs with rfl | ⟨b, hb, rfl⟩
    · exact absurd (hsome hpos) (by simp)
    · refine ⟨b, hb, ?_⟩
      have hle : d.backstopCut ≤ b.reserveCap - a.fusd.balance .backstopVault := hroom
      omega

theorem Redeemed.reserveMove {now redeemed drawn : ℕ} {m₁ : Market}
    (h : Redeemed now a a' m₁ redeemed drawn) : ReserveMove now a a' 0 0 0 := by
  obtain ⟨baseRate, baseRateTs, hstore⟩ := Market.storeBaseRate_eq a.state.market
    (m₁.bumpedBaseRate now redeemed) now
  have hcounters := h.counters
  rw [hstore] at hcounters
  exact
    { contributed := congrArg Counters.globalContributed hcounters
      drawnTotal := congrArg Counters.globalDrawn hcounters
      vault := h.vault
      reserve := h.backstop.trans (GlobalBackstopReserve.map_moved_zero _).symm
      cut := fun h ↦ absurd h (lt_irrefl 0)
      draw := fun h ↦ absurd h (lt_irrefl 0) }

/-- A refresh that names the vault of the reserve as the account for the keeper's reward. -/
def MarketInstr.rewardsReserve : MarketInstr → Bool
  | .refreshMarket (some .backstopVault) _ => true
  | _ => false

variable {i : MarketInstr}

theorem MarketInstr.run_reserve (hi : Inv clk.unixTimestamp a) (h : i.run cfg clk a = .ok a') :
    ∃ given drawn stray, ReserveMove clk.unixTimestamp a a' given drawn stray ∧
      (i.rewardsReserve = false → stray = 0) := by
  by_cases hstirs : i.stirs = false
  · exact ⟨0, 0, 0, (MarketInstr.run_quiet hi hstirs a' h).reserveMove, fun _ ↦ rfl⟩
  cases i with
  | redeem =>
    obtain ⟨m₁, redeemed, drawn, hredeemed⟩ := redeem_redeemed hi h
    exact ⟨0, 0, 0, hredeemed.reserveMove, fun _ ↦ rfl⟩
  | liquidate =>
    obtain ⟨⟨d, hmove⟩, -⟩ := liquidate_reserve h
    exact ⟨0, d, 0, hmove, fun _ ↦ rfl⟩
  | refreshMarket cranker withBackstop =>
    obtain ⟨⟨c, stray, hmove, hstray⟩, -⟩ := refreshMarket_reserve h
    refine ⟨c, 0, stray, hmove, fun hname ↦ hstray ?_⟩
    rintro rfl
    cases hname
  | _ => exact absurd rfl hstirs

theorem MarketInstr.run_rateKept (hi : Inv clk.unixTimestamp a)
    (hother : ∀ redeemer amount candidates, i ≠ .redeem redeemer amount candidates)
    (h : i.run cfg clk a = .ok a') : BaseRateKept a.state.market a'.state.market := by
  by_cases hstirs : i.stirs = false
  · exact (MarketInstr.run_quiet hi hstirs a' h).rateKept
  cases i with
  | redeem redeemer amount candidates => exact absurd rfl (hother redeemer amount candidates)
  | liquidate => exact (liquidate_reserve h).2
  | refreshMarket => exact (refreshMarket_reserve h).2
  | _ => exact absurd rfl hstirs

end Instructions

/-! ## Caps of a draw -/

/-- A draw within what is available stays, with all earlier draws of the market, below each of the
three arms of the cap. -/
theorem drawAvailable_arms {b : GlobalBackstopReserve} {contributed drawn debt balance d : ℕ}
    (hpos : 0 < d) (h : d ≤ drawAvailable b contributed drawn debt balance) :
    drawn + d ≤ b.drawBaseAllowance + contributed * b.drawKBps / BPS_DENOMINATOR ∧
      drawn + d ≤ balance * b.drawCeilingShareBps / BPS_DENOMINATOR ∧
      drawn + d ≤ debt * b.drawDebtShareBps / BPS_DENOMINATOR := by
  unfold drawAvailable at h
  dsimp only at h
  set contributionArm := saturatingAdd 128 b.drawBaseAllowance
    (saturatingMul 128 contributed b.drawKBps / BPS_DENOMINATOR) with hcontribution
  set ceilingArm := saturatingMul 128 balance b.drawCeilingShareBps / BPS_DENOMINATOR with hceiling
  set debtArm := saturatingMul 128 debt b.drawDebtShareBps / BPS_DENOMINATOR with hdebt
  have h1 : contributionArm ≤
      b.drawBaseAllowance + contributed * b.drawKBps / BPS_DENOMINATOR :=
    (min_le_left _ _).trans
      (Nat.add_le_add_left (Nat.div_le_div_right (min_le_left _ _)) _)
  have h2 : ceilingArm ≤ balance * b.drawCeilingShareBps / BPS_DENOMINATOR :=
    Nat.div_le_div_right (min_le_left _ _)
  have h3 : debtArm ≤ debt * b.drawDebtShareBps / BPS_DENOMINATOR :=
    Nat.div_le_div_right (min_le_left _ _)
  omega

/-! ## The reserve along every run -/

/-- The fUSD that a transfer outside the program brings to the reserve. -/
def Instr.outside : Instr → ℕ
  | .transferFusd _ .backstopVault amount => amount.toNat
  | _ => 0

def Instr.rewardsReserve : Instr → Bool
  | .market _ i => i.rewardsReserve
  | _ => false

/-- What the reserve has booked since it exists. -/
structure ReserveTotals where
  contributed : ℕ
  absorbed : ℕ
  withdrawn : ℕ
  deriving DecidableEq

def reserveTotals (bs : Option GlobalBackstopReserve) : ReserveTotals :=
  bs.elim ⟨0, 0, 0⟩ fun b ↦ ⟨b.totalContributed, b.totalAbsorbed, b.totalWithdrawn⟩

def Protocol.totals (s : Protocol) : ReserveTotals := reserveTotals s.backstop

/-- The vault holds what came in less what went out, and no market claims more contributions than
the reserve has booked. -/
structure Protocol.ReserveBooked (s : Protocol) (outside : ℕ) : Prop where
  balance : s.fusd.balance .backstopVault + s.totals.absorbed + s.totals.withdrawn =
    s.totals.contributed + outside
  contributed : (s.markets.total fun state ↦ state.market.globalContributed) ≤
    s.totals.contributed

section Runs

variable {clk : Clock} {s s' : Protocol} {outside : ℕ}

theorem ReserveMove.totals {now given drawn stray : ℕ} {a a' : Accounts}
    (h : ReserveMove now a a' given drawn stray) :
    reserveTotals a'.backstop =
      { reserveTotals a.backstop with
        contributed := (reserveTotals a.backstop).contributed + given
        absorbed := (reserveTotals a.backstop).absorbed + drawn } := by
  rw [h.reserve]
  cases hb : a.backstop with
  | none =>
    -- without a reserve nothing is given and nothing drawn
    have hgiven : given = 0 := by
      by_contra hne
      obtain ⟨b, hmem, -⟩ := h.cut (Nat.pos_of_ne_zero hne)
      rw [hb] at hmem
      cases hmem
    have hdrawn : drawn = 0 := by
      by_contra hne
      obtain ⟨b, hmem, -⟩ := h.draw (Nat.pos_of_ne_zero hne)
      rw [hb] at hmem
      cases hmem
    rw [hgiven, hdrawn]
    rfl
  | some b => rfl

theorem Protocol.ReserveBooked.onMarket {mint : Pubkey} {i : MarketInstr}
    (hb : s.ReserveBooked outside) (hi : s.Inv clk.unixTimestamp) (hkeep : i.rewardsReserve = false)
    (h : s.onMarket mint (i.run s.config clk) = .ok s') : s'.ReserveBooked outside := by
  obtain ⟨state, a', hl, ha', rfl⟩ := Protocol.onMarket_cases h
  obtain ⟨given, drawn, stray, hmove, hstray⟩ :=
    MarketInstr.run_reserve (hi.markets mint state hl).2 ha'
  obtain rfl := hstray hkeep
  have htotals := hmove.totals
  have hvault := hmove.vault
  have hmarket := hmove.contributed
  have hbalance := hb.balance
  have hsum := hb.contributed
  have htotal := Table.total_insert_of_some
    (fun state : MarketState ↦ state.market.globalContributed) a'.state hl
  unfold Protocol.totals at hbalance hsum
  constructor
  · unfold Protocol.totals
    dsimp only at hvault ⊢
    rw [htotals]
    dsimp only
    omega
  · unfold Protocol.totals
    dsimp only at hmarket htotal ⊢
    rw [htotals]
    dsimp only
    omega

/-- What an instruction does to the reserve: an instruction on a market may move it; the others
leave it alone up to transfers from outside, fund it, or withdraw an excess. -/
inductive ReserveStep (clk : Clock) (s s' : Protocol) (i : Instr) : Prop where
  | market (mint : Pubkey) (j : MarketInstr) (hon : i = .market mint j)
      (h : s.onMarket mint (j.run s.config clk) = .ok s')
  | idle (hsum : (s'.markets.total fun state ↦ state.market.globalContributed) =
        s.markets.total fun state ↦ state.market.globalContributed)
      (htotals : s'.totals = s.totals)
      (hvault : s'.fusd.balance .backstopVault = s.fusd.balance .backstopVault + i.outside)
  | fund (amount : ℕ) (hinside : i.outside = 0) (hmarkets : s'.markets = s.markets)
      (htotals : s'.totals = { s.totals with contributed := s.totals.contributed + amount })
      (hvault : s'.fusd.balance .backstopVault = s.fusd.balance .backstopVault + amount)
  | withdraw (amount : ℕ) (b : GlobalBackstopReserve) (hinside : i.outside = 0)
      (hmarkets : s'.markets = s.markets) (hb : s.backstop = some b)
      (htotals : s'.totals = { s.totals with withdrawn := s.totals.withdrawn + amount })
      (hvault : s'.fusd.balance .backstopVault + amount = s.fusd.balance .backstopVault)
      (hcap : b.reserveCap ≤ s'.fusd.balance .backstopVault)

theorem Instr.run_reserveStep {i : Instr} (h : i.run clk s = .ok s') : ReserveStep clk s s' i := by
  cases i with
  | market mint j => exact .market mint j rfl h
  | initMarket authority mint freeze args =>
    simp only [Instr.run, bind_eq_ok_iff, require_eq_ok, pure_eq_ok, exists_const] at h
    obtain ⟨hnone, state, hstate, rfl⟩ := h
    have hzero : state.market.globalContributed = 0 := by
      rw [initMarket_eq hstate]
      rfl
    refine .idle ?_ rfl rfl
    rw [Table.total_insert_of_none _ state hnone, hzero, Nat.add_zero]
  | initGlobalBackstop authority =>
    simp only [Instr.run, FusionCore.initGlobalBackstop, bind_eq_ok_iff, require_eq_ok,
      Option.isNone_iff_eq_none, pure_eq_ok, exists_const] at h
    obtain ⟨hnone, -, rfl⟩ := h
    exact .idle rfl (by simp [Protocol.totals, reserveTotals, hnone]) rfl
  | fundBackstop funder amount =>
    simp only [Instr.run, FusionCore.fundBackstop, bind_eq_ok_iff, okOr_eq_ok, require_eq_ok,
      tokenCall_eq_ok, checkedAdd_eq_some, pure_eq_ok, exists_const] at h
    obtain ⟨b, hb, -, fusd, hfusd, _, ⟨-, rfl⟩, rfl⟩ := h
    have hvault := TokenLedger.transfer_balance hfusd .backstopVault
    rw [if_neg (by simp), if_pos rfl] at hvault
    exact .fund amount.toNat rfl rfl (by simp [Protocol.totals, reserveTotals, hb]) hvault
  | withdrawBackstopExcess authority recipient amount =>
    simp only [Instr.run, FusionCore.withdrawBackstopExcess, bind_eq_ok_iff, okOr_eq_ok,
      require_eq_ok, tokenCall_eq_ok, checkedAdd_eq_some, pure_eq_ok, exists_const] at h
    obtain ⟨b, hb, -, hpos, hrecipient, hexcess, fusd, hfusd, _, ⟨-, rfl⟩, rfl⟩ := h
    have hvault := TokenLedger.transfer_balance hfusd .backstopVault
    rw [if_pos rfl, if_neg (Ne.symm hrecipient)] at hvault
    have htotals : reserveTotals (some { b with
        totalWithdrawn := b.totalWithdrawn + amount.toNat }) =
        { s.totals with withdrawn := s.totals.withdrawn + amount.toNat } := by
      simp [Protocol.totals, reserveTotals, hb]
    refine .withdraw amount.toNat b rfl rfl hb htotals hvault ?_
    dsimp only
    omega
  | executeGlobalParamChange param value =>
    simp only [Instr.run, FusionCore.executeGlobalParamChange, bind_eq_ok_iff, okOr_eq_ok,
      pure_eq_ok] at h
    obtain ⟨b, hb, _, -, rfl⟩ := h
    refine .idle rfl ?_ rfl
    simp only [Protocol.totals, hb]
    cases param <;> rfl
  | initSupplyReconciliation authority =>
    simp only [Instr.run, FusionCore.initSupplyReconciliation, bind_eq_ok_iff, require_eq_ok,
      pure_eq_ok, exists_const] at h
    obtain ⟨-, -, rfl⟩ := h
    exact .idle rfl rfl rfl
  | reconcileSupply mints =>
    simp only [Instr.run, FusionCore.reconcileSupply, bind_eq_ok_iff, require_eq_ok, pure_eq_ok,
      exists_const] at h
    obtain ⟨-, -, sums, -, rfl⟩ := h
    exact .idle rfl rfl rfl
  | transferFusd owner dst amount =>
    simp only [Instr.run, bind_eq_ok_iff, tokenCall_eq_ok, pure_eq_ok] at h
    obtain ⟨fusd, hfusd, rfl⟩ := h
    have hvault := TokenLedger.transfer_balance hfusd .backstopVault
    rw [if_neg (by simp), Nat.add_zero] at hvault
    refine .idle rfl rfl (hvault.trans (congrArg _ ?_))
    cases dst <;> rfl

theorem Instr.run_reserveBooked {i : Instr} (hi : s.Inv clk.unixTimestamp)
    (hkeep : i.rewardsReserve = false) (hb : s.ReserveBooked outside)
    (h : i.run clk s = .ok s') : s'.ReserveBooked (outside + i.outside) := by
  have hbalance := hb.balance
  have hsum := hb.contributed
  cases i.run_reserveStep h with
  | market mint j hon h =>
    subst hon
    exact hb.onMarket hi hkeep h
  | idle hsum' htotals hvault =>
    constructor
    · rw [htotals, hvault]
      omega
    · rwa [hsum', htotals]
  | fund amount hinside hmarkets htotals hvault =>
    constructor
    · rw [htotals, hvault, hinside]
      dsimp only
      omega
    · rw [hmarkets, htotals]
      exact hsum.trans (Nat.le_add_right _ _)
  | withdraw amount b hinside hmarkets _ htotals hvault =>
    constructor
    · rw [htotals, hinside]
      dsimp only
      omega
    · rwa [hmarkets, htotals]

/-- What a step may do with the reserve.  A draw leaves everything its market has ever drawn below
the three arms of the cap, a cut of the interest leaves the reserve within its cap, and a
withdrawal leaves the cap in the reserve. -/
structure ReserveCapped (clk : Clock) (s s' : Protocol) : Prop where
  draw : ∀ mint state state', s.markets.lookup mint = some state →
    s'.markets.lookup mint = some state' →
    state.market.globalDrawn < state'.market.globalDrawn →
    ∃ b ∈ s.backstop, ∃ m₁, accrue state.market clk.unixTimestamp = .ok m₁ ∧
      state'.market.globalDrawn ≤ b.drawBaseAllowance +
        state'.market.globalContributed * b.drawKBps / BPS_DENOMINATOR ∧
      state'.market.globalDrawn ≤
        s.fusd.balance .backstopVault * b.drawCeilingShareBps / BPS_DENOMINATOR ∧
      state'.market.globalDrawn ≤ m₁.aggRecordedDebt * b.drawDebtShareBps / BPS_DENOMINATOR
  cut : ∀ mint state state', s.markets.lookup mint = some state →
    s'.markets.lookup mint = some state' →
    state.market.globalContributed < state'.market.globalContributed →
    ∃ b ∈ s.backstop, s'.fusd.balance .backstopVault ≤ b.reserveCap
  withdraw : s.totals.withdrawn < s'.totals.withdrawn →
    ∃ b ∈ s.backstop, b.reserveCap ≤ s'.fusd.balance .backstopVault

/-- The instruction that moves a counter of a market, with the move it makes. -/
theorem Instr.run_moved {i : Instr} (hi : s.Inv clk.unixTimestamp)
    (hkeep : i.rewardsReserve = false) (h : i.run clk s = .ok s') {mint : Pubkey}
    {state state' : MarketState} (hl : s.markets.lookup mint = some state)
    (hl' : s'.markets.lookup mint = some state') :
    state' = state ∨ ∃ given drawn, ReserveMove clk.unixTimestamp ⟨state, s.fusd, s.backstop⟩
      ⟨state', s'.fusd, s'.backstop⟩ given drawn 0 := by
  cases i.core_run h mint with
  | idle _ hsame =>
    rw [hsame, hl] at hl'
    exact .inl (Option.some.inj hl').symm
  | birth _ _ _ _ _ hnone =>
    rw [hl] at hnone
    cases hnone
  | run j before a' hon hbefore hrun heq =>
    subst hon heq
    obtain rfl : state = before := Option.some.inj (hl.symm.trans hbefore)
    obtain rfl : a'.state = state' := by simpa using hl'
    obtain ⟨given, drawn, stray, hmove, hstray⟩ :=
      MarketInstr.run_reserve (hi.markets mint state hl).2 hrun
    obtain rfl := hstray hkeep
    exact .inr ⟨given, drawn, hmove⟩

theorem Instr.run_reserveCapped {i : Instr} (hi : s.Inv clk.unixTimestamp)
    (hkeep : i.rewardsReserve = false) (h : i.run clk s = .ok s') : ReserveCapped clk s s' where
  draw := by
    intro mint state state' hl hl' hlt
    rcases Instr.run_moved hi hkeep h hl hl' with rfl | ⟨given, drawn, hmove⟩
    · exact absurd hlt (lt_irrefl _)
    have htotal := hmove.drawnTotal
    have hcontributed := hmove.contributed
    dsimp only at htotal hcontributed
    have hpos : 0 < drawn := by omega
    obtain ⟨b, hb, m₁, hm₁, hle⟩ := hmove.draw hpos
    obtain ⟨h1, h2, h3⟩ := drawAvailable_arms hpos hle
    refine ⟨b, hb, m₁, hm₁, ?_, htotal.trans_le h2, htotal.trans_le h3⟩
    refine (htotal.trans_le h1).trans (Nat.add_le_add_left (Nat.div_le_div_right ?_) _)
    exact Nat.mul_le_mul_right _ (hcontributed.symm ▸ Nat.le_add_right _ _)
  cut := by
    intro mint state state' hl hl' hlt
    rcases Instr.run_moved hi hkeep h hl hl' with rfl | ⟨given, drawn, hmove⟩
    · exact absurd hlt (lt_irrefl _)
    have hcontributed := hmove.contributed
    have hvault := hmove.vault
    dsimp only at hcontributed hvault
    obtain ⟨b, hb, hle⟩ := hmove.cut (by omega)
    refine ⟨b, hb, ?_⟩
    dsimp only at hle
    omega
  withdraw := by
    intro hlt
    cases i.run_reserveStep h with
    | market mint j _ h =>
      obtain ⟨state, a', hl, ha', rfl⟩ := Protocol.onMarket_cases h
      obtain ⟨given, drawn, stray, hmove, -⟩ :=
        MarketInstr.run_reserve (hi.markets mint state hl).2 ha'
      have hsame : (reserveTotals a'.backstop).withdrawn =
          (reserveTotals s.backstop).withdrawn := by rw [hmove.totals]
      exact absurd (hlt.trans_eq hsame) (lt_irrefl _)
    | idle _ htotals =>
      rw [htotals] at hlt
      exact absurd hlt (lt_irrefl _)
    | fund _ _ _ htotals =>
      rw [htotals] at hlt
      exact absurd hlt (lt_irrefl _)
    | withdraw amount b _ _ hb _ _ hcap => exact ⟨b, hb, hcap⟩

/-- The fUSD that has reached the reserve from outside the program. -/
def addOutside (e : Event) (_ _ : World) (outside : ℕ) : ℕ := outside + e.instr.outside

/-- The runs in which no refresh names the reserve's vault as the account of the keeper's reward. -/
def RewardsElsewhere (e : Event) (_ : World) : Prop := e.instr.rewardsReserve = false

instance (e : Event) (w : World) : Decidable (RewardsElsewhere e w) :=
  inferInstanceAs (Decidable (_ = _))

theorem reserveBooked_of_reachable {x : World × ℕ}
    (h : (fusdCore.withGhost 0 addOutside).Reachable (fun e x ↦ RewardsElsewhere e x.1) x) :
    x.1.protocol.ReserveBooked x.2 := by
  induction h with
  | init h =>
    obtain ⟨⟨cfg, hw⟩, hzero⟩ := h
    rw [hw, hzero]
    exact ⟨rfl, le_rfl⟩
  | step e hreach hkeep hs ih =>
    obtain ⟨⟨hclk, hrun, -⟩, hnext⟩ := hs
    rw [hnext]
    apply Instr.run_reserveBooked ?_ hkeep ih hrun
    exact (fusdCore_inv hreach.forget).mono hclk.unixTimestamp

/-- In these runs the reserve is accounted for across all markets, and its caps hold at every
step. -/
theorem backstop_accounted {w : World} {outside : ℕ}
    (h : (fusdCore.withGhost 0 addOutside).Reachable (fun e x ↦ RewardsElsewhere e x.1)
      (w, outside)) :
    w.protocol.ReserveBooked outside ∧
      ∀ e w', RewardsElsewhere e w → fusdCore.step e w w' →
        ReserveCapped e.clock w.protocol w'.protocol := by
  constructor
  · exact reserveBooked_of_reachable h
  · rintro e w' hkeep ⟨hclk, hrun, -⟩
    apply Instr.run_reserveCapped ?_ hkeep hrun
    exact (fusdCore_inv h.forget).mono hclk.unixTimestamp

end Runs

/-! ## A sample run -/

namespace Sample

/-- A reserve with a cut of 30 % and a cap of one dollar, a keeper reward of 10 %, and half a dollar
sent to the vault from outside. -/
def reserved : List Instr :=
  instrs ++
    [.initGlobalBackstop 1,
      .executeGlobalParamChange .cut 3000,
      .executeGlobalParamChange .reserveCap 1000000,
      .market 7 (.executeParamChange .keeperReward 1000),
      .transferFusd 100 .backstopVault 500000]

/-- A year later. -/
def nextYear : Clock := ⟨1000, 1000000 + 31536000, 1⟩

/-- The refresh of the next year, with the keeper's reward paid to `cranker`. -/
def refreshed (cranker : FusdHolder) : Event :=
  ⟨nextYear, .market 7 (.refreshMarket (some cranker) true)⟩

/-- The world and the transfers from outside after a list of events without a reward to the
reserve. -/
def accounted (events : List Event) : Option (World × ℕ) :=
  Machine.execute (fun e x ↦ RewardsElsewhere e x.1)
    (Machine.ghostNext World.next addOutside) (⟨clock, Protocol.genesis ⟨1, 2, 3⟩⟩, 0) events

theorem accounted_reachable {events : List Event} {x : World × ℕ} (h : accounted events = some x) :
    (fusdCore.withGhost 0 addOutside).Reachable (fun e x ↦ RewardsElsewhere e x.1) x :=
  Machine.Reachable.execute (Machine.withGhost_step fusdCore_step_of_next)
    (.init ⟨⟨_, rfl⟩, rfl⟩) h

end Sample

/-- A refresh with the reward to a wallet: the cut fills the reserve up to its cap. -/
theorem backstop_accounted_sample : ∃ w w' b,
    (fusdCore.withGhost 0 addOutside).Reachable (fun e x ↦ RewardsElsewhere e x.1) (w, 500000) ∧
      fusdCore.step (Sample.refreshed (.wallet 9)) w w' ∧ w.protocol.backstop = some b ∧
      b.reserveCap = 1000000 ∧ w'.protocol.fusd.balance .backstopVault = 1000000 ∧
      w.protocol.ReserveBooked 500000 ∧
      ReserveCapped Sample.nextYear w.protocol w'.protocol := by
  have hrun : ((Sample.accounted (Sample.reserved.map fun i ↦ ⟨Sample.clock, i⟩)).bind fun x ↦
      x.1.protocol.backstop.bind fun b ↦
      (World.next (Sample.refreshed (.wallet 9)) x.1).map fun w' ↦
        decide (x.2 = 500000 ∧ b.reserveCap = 1000000 ∧
          w'.protocol.fusd.balance .backstopVault = 1000000)) = some true := by decide +kernel
  simp only [Option.bind_eq_some_iff, Option.map_eq_some_iff, decide_eq_true_eq] at hrun
  obtain ⟨⟨w, outside⟩, hw, b, hb, w', hw', rfl, hcap, hvault⟩ := hrun
  have hreach := Sample.accounted_reachable hw
  have hstep := fusdCore_step_of_next _ _ _ hw'
  obtain ⟨hbooked, hcapped⟩ := backstop_accounted hreach
  have helsewhere : RewardsElsewhere (Sample.refreshed (.wallet 9)) w := rfl
  exact ⟨w, w', b, hreach, hstep, hb, hcap, hvault, hbooked, hcapped _ w' helsewhere hstep⟩

/-- With the reward paid into the vault of the reserve the cut lifts it above its cap, and the
vault holds more than the reserve has booked. -/
theorem backstop_unaccounted : ∃ w w' b state state',
    (fusdCore.withGhost 0 addOutside).Reach (w, 500000) ∧
      (fusdCore.withGhost 0 addOutside).step (Sample.refreshed .backstopVault) (w, 500000)
        (w', 500000) ∧
      w.protocol.backstop = some b ∧ w.protocol.fusd.balance .backstopVault ≤ b.reserveCap ∧
      w.protocol.markets.lookup 7 = some state ∧ w'.protocol.markets.lookup 7 = some state' ∧
      state.market.globalContributed < state'.market.globalContributed ∧
      b.reserveCap < w'.protocol.fusd.balance .backstopVault ∧
      ¬w'.protocol.ReserveBooked 500000 := by
  have hrun : ((Sample.accounted (Sample.reserved.map fun i ↦ ⟨Sample.clock, i⟩)).bind fun x ↦
      x.1.protocol.backstop.bind fun b ↦
      (World.next (Sample.refreshed .backstopVault) x.1).bind fun w' ↦
      (x.1.protocol.markets.lookup 7).bind fun state ↦
      (w'.protocol.markets.lookup 7).map fun state' ↦
        decide (x.2 = 500000 ∧ x.1.protocol.fusd.balance .backstopVault ≤ b.reserveCap ∧
          state.market.globalContributed < state'.market.globalContributed ∧
          b.reserveCap < w'.protocol.fusd.balance .backstopVault ∧
          ¬w'.protocol.fusd.balance .backstopVault + w'.protocol.totals.absorbed +
            w'.protocol.totals.withdrawn = w'.protocol.totals.contributed + 500000)) =
        some true := by decide +kernel
  simp only [Option.bind_eq_some_iff, Option.map_eq_some_iff, decide_eq_true_eq] at hrun
  obtain ⟨⟨w, outside⟩, hw, b, hb, w', hw', state, hl, state', hl', rfl, hbefore, hcut, hafter,
    hbalance⟩ := hrun
  exact ⟨w, w', b, state, state', (Sample.accounted_reachable hw).reach,
    ⟨fusdCore_step_of_next _ _ _ hw', rfl⟩, hb, hbefore, hl, hl', hcut, hafter,
    fun hbooked ↦ hbalance hbooked.balance⟩

end FusionCore
