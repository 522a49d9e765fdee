import FusionCore.System.MarketRuns

/-!
# A market after its shutdown

Shutdown is terminal.  The flag and its reason stay, the debt of the market and its unminted
interest only fall, and the clock of the market stops.  A position is charged the interest up to
that clock once, when it is first touched after the shutdown; from then on it owes no more interest,
whatever is redistributed to it.
-/

namespace FusionCore

open Checked Oracle

/-! ## Later states of a shut-down market -/

/-- The market `m` is shut down and has become `m'`. -/
structure WoundDown (m m' : Market) : Prop where
  shutdown : m'.shutdown = true
  reason : m'.shutdownReason = m.shutdownReason
  agg_le : m'.aggRecordedDebt ≤ m.aggRecordedDebt
  unminted_le : m'.unmintedInterest ≤ m.unmintedInterest
  lastUpdateTs : m'.lastUpdateTs = m.lastUpdateTs

theorem WoundDown.refl {m : Market} (h : m.shutdown = true) : WoundDown m m :=
  ⟨h, rfl, le_rfl, le_rfl, rfl⟩

theorem WoundDown.step {m m' m'' : Market} (h : WoundDown m m') (h' : Frozen m' m'')
    (hreason : m'.shutdownReason ≠ .none) : WoundDown m m'' where
  shutdown := h'.shutdown
  reason := (h'.reason hreason).trans h.reason
  agg_le := h'.agg_le.trans h.agg_le
  unminted_le := h'.unminted_le.trans h.unminted_le
  lastUpdateTs := h'.lastUpdateTs.trans h.lastUpdateTs

/-- The market takes no new debt, serves no ordered redemption and changes no rate. -/
structure Refuses (state : MarketState) : Prop where
  borrow : ∀ clk owner amount fusd backstop, ∃ e,
    borrow clk owner amount ⟨state, fusd, backstop⟩ = .error e
  redeem : ∀ clk redeemer amount candidates fusd backstop, ∃ e,
    redeem clk redeemer amount candidates ⟨state, fusd, backstop⟩ = .error e
  adjustRate : ∀ clk owner newRateBps fusd backstop, ∃ e,
    adjustRate clk owner newRateBps ⟨state, fusd, backstop⟩ = .error e

theorem exists_error {ε α : Type} {x : Except ε α} (h : ∀ a, x ≠ .ok a) : ∃ e, x = .error e := by
  cases x with
  | error e => exact ⟨e, rfl⟩
  | ok a => exact absurd rfl (h a)

theorem Refuses.of_shutdown {state : MarketState} (h : state.market.shutdown = true) :
    Refuses state where
  borrow := by
    intro clk owner amount fusd backstop
    refine exists_error fun a' ha' ↦ ?_
    obtain ⟨run, rfl⟩ := borrow_run ha'
    have haccrue := run.visit.accrue_eq
    -- the accrual of a shut-down market is the identity
    rw [accrue, if_pos (.inr h)] at haccrue
    have hopen := run.opened
    rw [← Except.ok.inj haccrue] at hopen
    exact absurd (hopen.symm.trans h) (by simp)
  redeem := by
    intro clk redeemer amount candidates fusd backstop
    refine exists_error fun a' ha' ↦ ?_
    obtain ⟨run, rfl⟩ := redeem_run ha'
    exact absurd (run.opened.symm.trans h) (by simp)
  adjustRate := by
    intro clk owner newRateBps fusd backstop
    refine exists_error fun a' ha' ↦ ?_
    obtain ⟨run, rfl⟩ := adjustRate_run ha'
    exact absurd (run.opened.symm.trans h) (by simp)

/-! ## Interest -/

/-- Storing `p` as `p'` charges the interest `x` up to the clock of the market, and nothing else but
the redistributed debt, and pays `paid` off. -/
structure Charges (m : Market) (p p' : Position) (paid x : ℕ) : Prop where
  interest : accruedInterest p.recordedDebt p.userRateBps (m.lastUpdateTs - p.lastDebtUpdate)
    = some x
  debt : p'.recordedDebt + paid = p.recordedDebt + x + pendingDebt m p

/-- The position of `owner` was updated at the clock of its market, or later. -/
def MarketState.CaughtUp (owner : Pubkey) (s : MarketState) : Prop :=
  ∀ p, s.positions.lookup owner = some p → s.market.lastUpdateTs ≤ p.lastDebtUpdate

theorem Charges.eq_zero {m : Market} {p p' : Position} {paid x : ℕ} (h : Charges m p p' paid x)
    (hp : m.lastUpdateTs ≤ p.lastDebtUpdate) : x = 0 := by
  have hx := (accruedInterest_eq_some.mp h.interest).2.2
  rw [Nat.sub_eq_zero_of_le hp, Nat.mul_zero, Nat.zero_div] at hx
  exact hx.symm

section Moves

variable {now : ℕ} {t : Transfer} {m m' : Market} {p p₁ p' : Position}

/-- A touch after the shutdown adds no debt of its own, so what is stored is what was charged, less
what is paid off. -/
theorem Touched.charges (h : Touched now t m m' p p₁ p') (hshut : m.shutdown = true) :
    ∃ x, Charges m p p' t.out.2 x := by
  have hreal := realize_spec (.inl hshut) h.realized
  refine ⟨_, hreal.interest, ?_⟩
  rw [← hreal.recordedDebt]
  have hstored : p'.recordedDebt + t.out.2 = p₁.recordedDebt + t.into.2 :=
    congrArg Prod.snd h.holdings
  rw [hstored, (h.frozen hshut).1, Nat.add_zero]

theorem Touched.caught_up (h : Touched now t m m' p p₁ p') (hshut : m.shutdown = true) :
    p'.lastDebtUpdate = m.lastUpdateTs :=
  h.lastDebtUpdate.trans (realize_spec (.inl hshut) h.realized).lastDebtUpdate

/-- Once caught up, a position stays so; one that is opened starts at the present. -/
theorem PositionMove.caught_up {q q' : Option Position} (h : PositionMove now m m' t q q')
    (hshut : m.shutdown = true) (hts : m'.lastUpdateTs = m.lastUpdateTs)
    (hnow : m.lastUpdateTs ≤ now) (hq : ∀ p ∈ q, m.lastUpdateTs ≤ p.lastDebtUpdate) :
    ∀ p ∈ q', m'.lastUpdateTs ≤ p.lastDebtUpdate := by
  rw [hts]
  cases h with
  | keep => exact hq
  | claimed p collSurplus =>
    rintro _ ⟨⟩
    exact hq p rfl
  | touched h =>
    rintro _ ⟨⟩
    exact (h.caught_up hshut).ge
  | opened hdebt hstake hupdate =>
    rintro _ ⟨⟩
    rw [hupdate]
    exact hnow
  | closed => simp

end Moves

/-! ## Runs -/

section Runs

variable {w w' : SystemWorld} {k owner : Pubkey} {state : MarketState}

theorem fusion_shutdown_reason {G : SystemEvent → SystemWorld → Prop}
    (h : fusion.Reachable G w) : w.system.protocol.markets.All fun s ↦
      s.market.shutdown = true → s.market.shutdownReason ≠ .none := by
  refine fusion_market_invariant h ?_ ?_
  · intro cfg authority clk mint freeze args state hinit hshut
    obtain rfl := initMarket_eq hinit
    cases hshut
  · intro cfg clk j a a' hi hrun hreason hshut
    have hb := MarketInstr.run_booked hi hrun
    rcases hb.reason hshut with hbefore | hset
    · rw [(hb.frozen hbefore).reason (hreason hbefore)]
      exact hreason hbefore
    · exact hset

theorem fusion_shutdown_step {e : SystemEvent} (hw : fusion.Reach w) (hs : fusion.step e w w')
    (hl : w.system.protocol.markets.lookup k = some state)
    (hshut : state.market.shutdown = true) :
    ∃ state', w'.system.protocol.markets.lookup k = some state' ∧
      Frozen state.market state'.market ∧
      ∀ owner, PositionMove e.clock.unixTimestamp state.market state'.market
        (movedOn k e w w' state state' owner)
        (state.positions.lookup owner) (state'.positions.lookup owner) := by
  obtain ⟨state', limited, hl', hb⟩ := fusion_market_booked hw hs hl
  exact ⟨state', hl', hb.frozen hshut, hb.positions⟩

theorem fusion_wound_down (hw : fusion.Reach w)
    (hl : w.system.protocol.markets.lookup k = some state) (hshut : state.market.shutdown = true)
    (h : fusion.Leads (fun _ _ ↦ True) w w') :
    ∃ state', w'.system.protocol.markets.lookup k = some state' ∧
      WoundDown state.market state'.market := by
  induction h with
  | refl => exact ⟨state, hl, .refl hshut⟩
  | @step t t' e h _ hs ih =>
    obtain ⟨mid, hmid, hdown⟩ := ih
    have hreach := hw.leads h
    obtain ⟨state', hstate', hfrozen, -⟩ := fusion_shutdown_step hreach hs hmid hdown.shutdown
    exact ⟨state', hstate', hdown.step hfrozen
      (fusion_shutdown_reason hreach k mid hmid hdown.shutdown)⟩

/-- A step touches the position of `owner` in the market of `k`: it stores `p` as `p'` with the
transfer `t`. -/
def TouchStep (k owner : Pubkey) (e : SystemEvent) (w w' : SystemWorld) (t : Transfer)
    (p p' : Position) : Prop :=
  ∃ state state' p₁, w.system.protocol.markets.lookup k = some state ∧
    w'.system.protocol.markets.lookup k = some state' ∧
    state.positions.lookup owner = some p ∧ state'.positions.lookup owner = some p' ∧
    t = movedOn k e w w' state state' owner ∧
    Touched e.clock.unixTimestamp t state.market state'.market p p₁ p'

/-- Somewhere between `w` and `w'` the position of `owner` is touched. -/
def TouchedBetween (k owner : Pubkey) (w w' : SystemWorld) : Prop :=
  ∃ e u u' t p p', fusion.Leads (fun _ _ ↦ True) w u ∧ fusion.step e u u' ∧
    TouchStep k owner e u u' t p p' ∧ fusion.Leads (fun _ _ ↦ True) u' w'

theorem fusion_caught_up (hw : fusion.Reach w)
    (hl : w.system.protocol.markets.lookup k = some state) (hshut : state.market.shutdown = true)
    (hup : state.CaughtUp owner) (h : fusion.Leads (fun _ _ ↦ True) w w') {state' : MarketState}
    (hl' : w'.system.protocol.markets.lookup k = some state') : state'.CaughtUp owner := by
  induction h generalizing state' with
  | refl =>
    obtain rfl := Option.some.inj (hl.symm.trans hl')
    exact hup
  | @step t t' e h _ hs ih =>
    obtain ⟨mid, hmid, hdown⟩ := fusion_wound_down hw hl hshut h
    have hreach := hw.leads h
    obtain ⟨after, hafter, hfrozen, hmoves⟩ :=
      fusion_shutdown_step hreach hs hmid hdown.shutdown
    obtain rfl := Option.some.inj (hafter.symm.trans hl')
    have hnow := (fusion_market_inv hreach hs.1 hmid).book.clock
    exact (hmoves owner).caught_up hdown.shutdown hfrozen.lastUpdateTs hnow (ih hmid)

/-- Along every run: a shut-down market stays shut down for the same reason, its debt and its
unminted interest do not rise, its clock stands still, and it refuses borrows, redemptions and rate
changes.  Every step leaves a position alone, opens it, closes it, or touches it.  The debt that a
touch stores, with what is paid off, is the debt stored before, the interest up to that clock and
the redistributed debt; there is no interest if the position at the address has been touched
before. -/
theorem fusion_shutdown_terminal (hw : fusion.Reach w)
    (hl : w.system.protocol.markets.lookup k = some state) (hshut : state.market.shutdown = true)
    (h : fusion.Leads (fun _ _ ↦ True) w w') :
    ∃ state', w'.system.protocol.markets.lookup k = some state' ∧
      WoundDown state.market state'.market ∧ Refuses state' ∧
      ∀ e w'', fusion.step e w' w'' →
        (∃ state'', w''.system.protocol.markets.lookup k = some state'' ∧
          ∀ owner, PositionMove e.clock.unixTimestamp state'.market state''.market
            (movedOn k e w' w'' state' state'' owner)
            (state'.positions.lookup owner) (state''.positions.lookup owner)) ∧
        ∀ owner t p p', TouchStep k owner e w' w'' t p p' →
          (∃ x, Charges state'.market p p' t.out.2 x) ∧
          (TouchedBetween k owner w w' → Charges state'.market p p' t.out.2 0) := by
  obtain ⟨state', hl', hdown⟩ := fusion_wound_down hw hl hshut h
  have hreach' := hw.leads h
  refine ⟨state', hl', hdown, .of_shutdown hdown.shutdown, ?_⟩
  intro e w'' hs
  constructor
  · obtain ⟨state'', hl'', -, hmoves⟩ := fusion_shutdown_step hreach' hs hl' hdown.shutdown
    exact ⟨state'', hl'', hmoves⟩
  · rintro owner t p p' ⟨before, after, p₁, hbefore, -, hp, -, -, htouch⟩
    obtain rfl := Option.some.inj (hbefore.symm.trans hl')
    obtain ⟨x, hx⟩ := htouch.charges hdown.shutdown
    refine ⟨⟨x, hx⟩, ?_⟩
    rintro ⟨e₁, u, u', _, q, q', hwu, hu, ⟨s₁, s₂, q₁, hs₁, hs₂, hq, hq', -, htouched⟩, hleads⟩
    -- the earlier touch has brought the position up to the clock, where it has stayed
    obtain ⟨s₀, hs₀, hdown₁⟩ := fusion_wound_down hw hl hshut hwu
    obtain rfl := Option.some.inj (hs₀.symm.trans hs₁)
    have hreach₁ := hw.leads hwu
    obtain ⟨s₃, hs₃, hfrozen, -⟩ := fusion_shutdown_step hreach₁ hu hs₁ hdown₁.shutdown
    obtain rfl := Option.some.inj (hs₃.symm.trans hs₂)
    have hup : s₃.CaughtUp owner := by
      intro r hr
      obtain rfl := Option.some.inj (hq'.symm.trans hr)
      rw [hfrozen.lastUpdateTs]
      exact (htouched.caught_up hdown₁.shutdown).ge
    have hlast := fusion_caught_up (.step e₁ hreach₁ trivial hu) hs₃ hfrozen.shutdown hup hleads hl'
    rw [hx.eq_zero (hlast p hp)] at hx
    exact hx

end Runs

namespace Sample

/-- The oracle dies and the market is shut down a day after a thousand dollars were drawn. -/
def shutDown : List SystemEvent :=
  at_ clock (launch ++ drawn clock 15000 1000000000) ++
    [⟨⟨200000, 1086400, 1⟩, .core (.market 7 .shutdown) rfl⟩]

/-- The owner adds collateral after the shutdown. -/
def topUp (slot now : ℕ) : SystemEvent :=
  ⟨⟨slot, now, 1⟩, .core (.market 7 (.deposit 100 1000000)) rfl⟩

/-- The step touches the position of `owner`, and its stored debt has risen from `p` to `p'`, or has
not. -/
def touches (k owner : Pubkey) (charged : Bool) (e : SystemEvent) (w w' : SystemWorld) : Bool :=
  (w.system.protocol.markets.lookup k).any fun s : MarketState ↦
    (w'.system.protocol.markets.lookup k).any fun s' : MarketState ↦
      (s.positions.lookup owner).any fun p : Position ↦
        (s'.positions.lookup owner).any fun p' : Position ↦
          let t := movedOn k e w w' s s' owner
          decide (∃ p₁, realize s.market p e.clock.unixTimestamp = .ok p₁ ∧
            p'.holdings + t.out = p₁.holdings + t.into ∧
            p'.lastDebtUpdate = p₁.lastDebtUpdate ∧ p'.redistLCollSnapshot = s'.market.lColl ∧
            p'.redistLArtSnapshot = s'.market.lArt ∧ s'.market.lColl = s.market.lColl ∧
            s'.market.lArt = s.market.lArt ∧ t.into.2 = 0 ∧
            p'.userRateBps = p₁.userRateBps ∧ t.out.2 = 0 ∧
            charged = decide (p.recordedDebt < p'.recordedDebt))

theorem touchStep_of_touches {k owner : Pubkey} {charged : Bool} {e : SystemEvent}
    {w w' : SystemWorld} (h : touches k owner charged e w w' = true) :
    ∃ t p p', TouchStep k owner e w w' t p p' ∧ t.out.2 = 0 ∧
      charged = decide (p.recordedDebt < p'.recordedDebt) := by
  simp only [touches, Option.any_eq_true, decide_eq_true_eq] at h
  obtain ⟨s, hs, s', hs', p, hp, p', hp', p₁, hreal, hholdings, hupdate, hcoll, hart, hlc, hla,
    hinto, hrate, hout, hcharged⟩ := h
  exact ⟨_, p, p', ⟨s, s', p₁, hs, hs', hp, hp', rfl, hreal, hholdings, hupdate, hcoll, hart,
    .inr ⟨hlc, hla⟩, fun _ ↦ ⟨hinto, hrate⟩⟩, hout, hcharged⟩

end Sample

/-- The first deposit after a shutdown adds a day of interest to the stored debt, the second
none. -/
theorem fusion_shutdown_terminal_sample : ∃ w w' w'' state state' q q' p p' x,
    fusion.Reach w ∧ w.system.protocol.markets.lookup 7 = some state ∧
      state.market.shutdown = true ∧ fusion.step (Sample.topUp 300000 1200000) w w' ∧
      fusion.step (Sample.topUp 400000 1300000) w' w'' ∧
      w'.system.protocol.markets.lookup 7 = some state' ∧
      WoundDown state.market state'.market ∧ Refuses state' ∧
      (∃ t, TouchStep 7 100 (Sample.topUp 300000 1200000) w w' t q q') ∧
      q.recordedDebt < q'.recordedDebt ∧ Charges state.market q q' 0 x ∧
      (∃ t, TouchStep 7 100 (Sample.topUp 400000 1300000) w' w'' t p p') ∧
      p'.recordedDebt = p.recordedDebt ∧ Charges state'.market p p' 0 0 := by
  have hrun : ((Machine.execute (fun _ _ ↦ True) SystemWorld.next Sample.genesis
      Sample.shutDown).bind fun w ↦ (SystemWorld.next (Sample.topUp 300000 1200000) w).bind
        fun w' ↦ (SystemWorld.next (Sample.topUp 400000 1300000) w').map fun w'' ↦
          ((w.system.protocol.markets.lookup 7).any fun s : MarketState ↦ s.market.shutdown) &&
            Sample.touches 7 100 true (Sample.topUp 300000 1200000) w w' &&
            Sample.touches 7 100 false (Sample.topUp 400000 1300000) w' w'') = some true := by
    decide +kernel
  obtain ⟨w, hw, hrun⟩ := Option.bind_eq_some_iff.mp hrun
  obtain ⟨w', hw', hrun⟩ := Option.bind_eq_some_iff.mp hrun
  obtain ⟨w'', hw'', htest⟩ := Option.map_eq_some_iff.mp hrun
  simp only [Bool.and_eq_true, Option.any_eq_true] at htest
  obtain ⟨⟨⟨state, hl, hshut⟩, hfirst⟩, hsecond⟩ := htest
  have hreach : fusion.Reach w :=
    Machine.Reachable.execute fusion_step_of_next (.init Sample.genesis_init) hw
  have hstep := fusion_step_of_next _ _ _ hw'
  have hstep' := fusion_step_of_next _ _ _ hw''
  obtain ⟨t, q, q', hq, hpaid, hrise⟩ := Sample.touchStep_of_touches hfirst
  obtain ⟨t', p, p', hp, hpaid', hsame⟩ := Sample.touchStep_of_touches hsecond
  obtain ⟨before, hbefore, -, -, hfirst⟩ := fusion_shutdown_terminal hreach hl hshut .refl
  obtain rfl := Option.some.inj (hbefore.symm.trans hl)
  obtain ⟨⟨x, hx⟩, -⟩ := (hfirst _ w' hstep).2 100 t q q' hq
  obtain ⟨state', hl', hdown, hrefuses, hlater⟩ :=
    fusion_shutdown_terminal hreach hl hshut (.step _ .refl trivial hstep)
  have hzero := ((hlater _ w'' hstep').2 100 t' p p' hp).2 ⟨_, w, w', t, q, q', .refl, hstep, hq,
    .refl⟩
  rw [hpaid] at hx
  rw [hpaid'] at hzero
  have hstored := hzero.debt
  simp only [Bool.true_eq, Bool.false_eq, decide_eq_true_eq, decide_eq_false_iff_not] at hrise hsame
  refine ⟨w, w', w'', before, state', q, q', p, p', x, hreach, hl, hshut, hstep, hstep', hl', hdown,
    hrefuses, ⟨t, hq⟩, hrise, hx, ⟨t', hp⟩, by omega, hzero⟩

end FusionCore
