import FusionCore.Core.Frame
import FusionCore.Core.RedemptionPasses

/-!
# What an instruction does to one position

An instruction leaves the position at an address alone, opens it, closes it, or touches it once: it
realises the position and then stores it with what the instruction itself puts in and takes out.
The same pass over the instructions records what a shut-down market keeps, where the index of the
redistribution moves, and which instructions reach the outflow limiter.
-/

namespace FusionCore

open Checked

/-! ## Moves -/

/-- The collateral and the debt that a position stores. -/
def Position.holdings (p : Position) : ℕ × ℕ := (p.ink, p.recordedDebt)

/-- Collateral and debt that an instruction puts into a position and takes out of it. -/
structure Transfer where
  into : ℕ × ℕ
  out : ℕ × ℕ

namespace Transfer

def none : Transfer := ⟨(0, 0), (0, 0)⟩

/-- A transfer at the address of `owner`. -/
def only (owner : Pubkey) (t : Transfer) (o : Pubkey) : Transfer := if o = owner then t else none

end Transfer

/-- An instruction touches a position `p`: it realises it as `p₁` and stores it as `p'`, which holds
what `p₁` holds but for the transfer `t`. -/
structure Touched (now : ℕ) (t : Transfer) (m m' : Market) (p p₁ p' : Position) : Prop where
  realized : realize m p now = .ok p₁
  holdings : p'.holdings + t.out = p₁.holdings + t.into
  lastDebtUpdate : p'.lastDebtUpdate = p₁.lastDebtUpdate
  lColl : p'.redistLCollSnapshot = m'.lColl
  lArt : p'.redistLArtSnapshot = m'.lArt
  raised : p'.stake = 0 ∨ (m'.lColl = m.lColl ∧ m'.lArt = m.lArt)
  frozen : m.shutdown = true → t.into.2 = 0 ∧ p'.userRateBps = p₁.userRateBps

/-- What an instruction does to the position at one address while the market goes from `m` to
`m'`. -/
inductive PositionMove (now : ℕ) (m m' : Market) :
    Transfer → Option Position → Option Position → Prop where
  | keep (p : Option Position) : PositionMove now m m' .none p p
  | claimed (p : Position) (collSurplus : ℕ) :
      PositionMove now m m' .none (some p) (some { p with collSurplus })
  | touched {t : Transfer} {p p₁ p' : Position} (h : Touched now t m m' p p₁ p') :
      PositionMove now m m' t (some p) (some p')
  | opened {p' : Position} (hempty : p'.holdings = (0, 0)) (hstake : p'.stake = 0)
      (hupdate : p'.lastDebtUpdate = now) : PositionMove now m m' .none none (some p')
  | closed {p : Position} (hempty : p.holdings = (0, 0)) (hstake : p.stake = 0) :
      PositionMove now m m' .none (some p) none

/-- The index of the redistribution rises by the shares of a liquidation, if there are any. -/
inductive IndexMove (m m' : Market) : Option (ℕ × ℕ) → Prop where
  | keep (h : redistState m' = redistState m) : IndexMove m m' none
  | raise {coll debt : ℕ}
      (h : redistribute (redistState m) m'.totalStakes coll debt = .ok (redistState m')) :
      IndexMove m m' (some (coll, debt))

/-- What a shut-down market keeps. -/
structure Frozen (m m' : Market) : Prop where
  shutdown : m'.shutdown = true
  reason : m.shutdownReason ≠ .none → m'.shutdownReason = m.shutdownReason
  agg_le : m'.aggRecordedDebt ≤ m.aggRecordedDebt
  unminted_le : m'.unmintedInterest ≤ m.unmintedInterest
  lastUpdateTs : m'.lastUpdateTs = m.lastUpdateTs

/-- What one instruction enters into the books: `shares` is what it redistributes, `moved` what it
puts into positions and takes out of them, and only a `limited` one reaches the outflow limiter. -/
structure Booked (now : ℕ) (limited : Bool) (shares : Option (ℕ × ℕ)) (moved : Pubkey → Transfer)
    (a a' : Accounts) : Prop where
  positions : ∀ owner, PositionMove now a.state.market a'.state.market (moved owner)
    (a.state.positions.lookup owner) (a'.state.positions.lookup owner)
  index : IndexMove a.state.market a'.state.market shares
  frozen : a.state.market.shutdown = true → Frozen a.state.market a'.state.market
  reason : a'.state.market.shutdown = true →
    a.state.market.shutdown = true ∨ a'.state.market.shutdownReason ≠ .none
  limiter : limited = false → a'.state.market.rlAccrued = a.state.market.rlAccrued ∧
    a'.state.market.rlLastUpdate = a.state.market.rlLastUpdate

/-! ## Rules -/

section Rules

variable {now x ts : ℕ} {limited : Bool} {a a' : Accounts} {owner : Pubkey} {m m₁ m' : Market}
  {p p₁ p' : Position} {t : Transfer} {moved : Pubkey → Transfer}

theorem realize_accrued (hacc : Accrued m m₁ now x ts) (p : Position) :
    realize m₁ p now = realize m p now := by
  have hcap : (if m₁.shutdown then m₁.lastUpdateTs else now) =
      if m.shutdown then m.lastUpdateTs else now := by
    rw [hacc.eq]
    dsimp only
    split
    next hshut => exact (hacc.frozen hshut).1
    next => rfl
  have hpending : redistPending m₁ p = redistPending m p := by
    rw [hacc.eq]
    rfl
  have hroll : rollSnapshot m₁ = rollSnapshot m := by
    rw [hacc.eq]
    rfl
  simp only [realize, hcap, hpending, hroll]

/-- The market keeps its flags, its clock and its index. -/
structure Carried (m m' : Market) : Prop where
  shutdown : m'.shutdown = m.shutdown
  reason : m'.shutdownReason = m.shutdownReason
  lastUpdateTs : m'.lastUpdateTs = m.lastUpdateTs
  index : redistState m' = redistState m

theorem Carried.refl (m : Market) : Carried m m := ⟨rfl, rfl, rfl, rfl⟩

theorem Carried.trans (h : Carried m m₁) (h' : Carried m₁ m') : Carried m m' where
  shutdown := h'.shutdown.trans h.shutdown
  reason := h'.reason.trans h.reason
  lastUpdateTs := h'.lastUpdateTs.trans h.lastUpdateTs
  index := h'.index.trans h.index

theorem Accrued.eq_of_shutdown (hacc : Accrued m m₁ now x ts) (hshut : m.shutdown = true) :
    m₁ = m := by
  obtain ⟨rfl, rfl⟩ := hacc.frozen hshut
  exact hacc.eq

theorem Booked.of_accrued (hacc : Accrued a.state.market m₁ now x ts)
    (hc : Carried m₁ a'.state.market)
    (hpositions : ∀ owner, PositionMove now a.state.market a'.state.market (moved owner)
      (a.state.positions.lookup owner) (a'.state.positions.lookup owner))
    (hfrozen : m₁.shutdown = true → a'.state.market.aggRecordedDebt ≤ m₁.aggRecordedDebt ∧
      a'.state.market.unmintedInterest ≤ m₁.unmintedInterest)
    (hlimiter : limited = false → a'.state.market.rlAccrued = m₁.rlAccrued ∧
      a'.state.market.rlLastUpdate = m₁.rlLastUpdate) : Booked now limited none moved a a' where
  positions := hpositions
  index := by
    refine .keep (hc.index.trans ?_)
    rw [hacc.eq]
    rfl
  frozen := by
    intro hshut
    obtain rfl := hacc.eq_of_shutdown hshut
    obtain ⟨hagg, hunminted⟩ := hfrozen hshut
    exact ⟨hc.shutdown.trans hshut, fun _ ↦ hc.reason, hagg, hunminted, hc.lastUpdateTs⟩
  reason := by
    intro hshut
    left
    rw [← hshut, hc.shutdown, hacc.eq]
  limiter := by
    intro hlim
    obtain ⟨hrl, hlast⟩ := hlimiter hlim
    rw [hrl, hlast, hacc.eq]
    exact ⟨rfl, rfl⟩

theorem PositionMove.at_owner (owner : Pubkey)
    (h : PositionMove now a.state.market a'.state.market (moved owner)
      (a.state.positions.lookup owner) (a'.state.positions.lookup owner))
    (hne : ∀ o ≠ owner, moved o = .none ∧
      a'.state.positions.lookup o = a.state.positions.lookup o)
    (o : Pubkey) : PositionMove now a.state.market a'.state.market (moved o)
      (a.state.positions.lookup o) (a'.state.positions.lookup o) := by
  by_cases ho : o = owner
  · exact ho ▸ h
  · obtain ⟨hmoved, hsame⟩ := hne o ho
    rw [hmoved, hsame]
    exact .keep _

theorem PositionMove.only (hps : a'.state.positions = a.state.positions.insert owner p')
    (hp : a.state.positions.lookup owner = some p)
    (h : Touched now t a.state.market a'.state.market p p₁ p') (o : Pubkey) :
    PositionMove now a.state.market a'.state.market (.only owner t o)
      (a.state.positions.lookup o) (a'.state.positions.lookup o) := by
  refine PositionMove.at_owner owner ?_ ?_ o
  · rw [hp, hps, AList.lookup_insert, Transfer.only, if_pos rfl]
    exact .touched h
  · intro o ho
    rw [hps, AList.lookup_insert_ne ho]
    exact ⟨if_neg ho, rfl⟩

theorem Booked.of_touch (hacc : Accrued a.state.market m₁ now x ts)
    (hp : a.state.positions.lookup owner = some p) (hp₁ : realize m₁ p now = .ok p₁)
    (hps : a'.state.positions = a.state.positions.insert owner p')
    (hc : Carried m₁ a'.state.market)
    (hholdings : p'.holdings + t.out = p₁.holdings + t.into)
    (hupdate : p'.lastDebtUpdate = p₁.lastDebtUpdate) (hsnap : snapshotOf p' = snapshotOf p₁)
    (hfrozen : m₁.shutdown = true → (a'.state.market.aggRecordedDebt ≤ m₁.aggRecordedDebt ∧
        a'.state.market.unmintedInterest ≤ m₁.unmintedInterest) ∧
      t.into.2 = 0 ∧ p'.userRateBps = p₁.userRateBps)
    (hlimiter : limited = false → a'.state.market.rlAccrued = m₁.rlAccrued ∧
      a'.state.market.rlLastUpdate = m₁.rlLastUpdate) :
    Booked now limited none (.only owner t) a a' := by
  refine .of_accrued hacc hc (.only hps hp ⟨?_, hholdings, hupdate, ?_, ?_, .inr ?_, ?_⟩)
    (fun hshut ↦ (hfrozen hshut).1) hlimiter
  · rw [← realize_accrued hacc]
    exact hp₁
  all_goals
    have hreal := realize_spec hacc.realizable hp₁
    obtain ⟨hsc, hsa⟩ := RedistSnapshot.mk.injEq _ _ _ _ ▸ hsnap
    have hcoll : a'.state.market.lColl = m₁.lColl := congrArg RedistState.lColl hc.index
    have hart : a'.state.market.lArt = m₁.lArt := congrArg RedistState.lArt hc.index
  · rw [hcoll, ← hreal.lColl]
    exact hsc
  · rw [hart, ← hreal.lArt]
    exact hsa
  · rw [hcoll, hart, hacc.eq]
    exact ⟨rfl, rfl⟩
  · intro hshut
    refine (hfrozen ?_).2
    rw [hacc.eq]
    exact hshut

theorem Booked.of_carried (hc : Carried a.state.market a'.state.market)
    (hpositions : ∀ owner, PositionMove now a.state.market a'.state.market (moved owner)
      (a.state.positions.lookup owner) (a'.state.positions.lookup owner))
    (hagg : a'.state.market.aggRecordedDebt = a.state.market.aggRecordedDebt)
    (hunminted : a'.state.market.unmintedInterest = a.state.market.unmintedInterest)
    (hlimiter : limited = false → a'.state.market.rlAccrued = a.state.market.rlAccrued ∧
      a'.state.market.rlLastUpdate = a.state.market.rlLastUpdate) :
    Booked now limited none moved a a' where
  positions := hpositions
  index := .keep hc.index
  frozen := fun hshut ↦
    ⟨hc.shutdown.trans hshut, fun _ ↦ hc.reason, hagg.le, hunminted.le, hc.lastUpdateTs⟩
  reason := fun hshut ↦ .inl (hc.shutdown.symm.trans hshut)
  limiter := hlimiter

theorem Booked.of_market (hc : Carried a.state.market a'.state.market)
    (hps : a'.state.positions = a.state.positions)
    (hagg : a'.state.market.aggRecordedDebt = a.state.market.aggRecordedDebt)
    (hunminted : a'.state.market.unmintedInterest = a.state.market.unmintedInterest)
    (hlimiter : limited = false → a'.state.market.rlAccrued = a.state.market.rlAccrued ∧
      a'.state.market.rlLastUpdate = a.state.market.rlLastUpdate) :
    Booked now limited none (fun _ ↦ .none) a a' := by
  refine .of_carried hc ?_ hagg hunminted hlimiter
  intro owner
  rw [hps]
  exact .keep _

theorem Booked.of_eq (hmarket : a'.state.market = a.state.market)
    (hps : a'.state.positions = a.state.positions) :
    Booked now limited none (fun _ ↦ .none) a a' := by
  refine .of_market ?_ hps ?_ ?_ ?_ <;> rw [hmarket]
  · exact .refl _
  · exact fun _ ↦ ⟨rfl, rfl⟩

end Rules

/-! ## Positions -/

/-- The market of `a` with its interest up to `now`. -/
def Accounts.current (a : Accounts) (now : ℕ) : Market :=
  (accrue a.state.market now).toOption.getD a.state.market

theorem Accounts.current_eq {a : Accounts} {now : ℕ} {m₁ : Market}
    (h : accrue a.state.market now = .ok m₁) : a.current now = m₁ := by
  rw [current, toOption_eq_some.mpr h, Option.getD_some]

/-- The fee that an instruction adds to the debt of a position and to the unminted interest. -/
def feeBooked (now : ℕ) (a a' : Accounts) : ℕ :=
  a'.state.market.unmintedInterest - (a.current now).unmintedInterest

section Positions

variable {clk : Clock} {owner : Pubkey} {amount : ℕ} {a a' : Accounts}

theorem openPosition_booked {userRateBps : ℕ} :
    Ensures (openPosition clk owner userRateBps a)
      (Booked clk.unixTimestamp false none (fun _ ↦ .none) a) := by
  refine .bind require_ensures fun _ hnone ↦ .after fun _ ↦ .ok ?_
  refine .of_carried (.refl _) (PositionMove.at_owner owner ?_ ?_) rfl rfl fun _ ↦ ⟨rfl, rfl⟩
  · rw [hnone, AList.lookup_insert]
    exact .opened rfl rfl rfl
  · exact fun o ho ↦ ⟨rfl, AList.lookup_insert_ne ho⟩

theorem closePosition_booked (hi : Inv clk.unixTimestamp a) :
    Ensures (closePosition owner a)
      (Booked clk.unixTimestamp false none (fun _ ↦ .none) a) := by
  refine .bind okOr_ensures fun p hp ↦ .bind require_ensures fun _ hdebt ↦
    .bind require_ensures fun _ hink ↦ .after fun _ ↦ .ok ?_
  have hstake : p.stake = 0 := by
    have := hi.book.stake_le owner p hp
    omega
  refine .of_carried (.refl _) (PositionMove.at_owner owner ?_ ?_) rfl rfl fun _ ↦ ⟨rfl, rfl⟩
  · rw [hp, AList.lookup_erase]
    exact .closed (Prod.ext hink hdebt) hstake
  · exact fun o ho ↦ ⟨rfl, AList.lookup_erase_ne ho⟩

theorem deposit_booked (hi : Inv clk.unixTimestamp a) (h : deposit clk owner amount a = .ok a') :
    Booked clk.unixTimestamp false none (.only owner ⟨(amount, 0), (0, 0)⟩) a a' := by
  obtain ⟨run, rfl⟩ := exists_depositRun (of_vaultChecked h)
  obtain ⟨x, ts, hacc⟩ := accrue_spec hi.book.clock run.visit.accrue_eq
  refine .of_touch hacc run.visit.position_eq run.visit.realize_eq rfl ⟨rfl, rfl, rfl, rfl⟩ ?_
    (Position.setInk_lastDebtUpdate _ _) ?_ (fun _ ↦ ⟨⟨le_rfl, le_rfl⟩, rfl, ?_⟩) fun _ ↦ ⟨rfl, rfl⟩
  · simp [Visit.position, deposited, Position.holdings]
  · simp [Visit.position, deposited, snapshotOf]
  · simp [Visit.position, deposited]

theorem withdraw_booked (hi : Inv clk.unixTimestamp a)
    (h : withdraw clk owner amount a = .ok a') :
    Booked clk.unixTimestamp false none (.only owner ⟨(0, 0), (amount, 0)⟩) a a' := by
  obtain ⟨run, rfl⟩ := exists_withdrawRun (of_vaultChecked h)
  obtain ⟨x, ts, hacc⟩ := accrue_spec hi.book.clock run.visit.accrue_eq
  refine .of_touch hacc run.visit.position_eq run.visit.realize_eq rfl ⟨rfl, rfl, rfl, rfl⟩ ?_
    (Position.setInk_lastDebtUpdate _ _) ?_ (fun _ ↦ ⟨⟨le_rfl, le_rfl⟩, rfl, ?_⟩) fun _ ↦ ⟨rfl, rfl⟩
  · simp [Visit.position, withdrawn, Position.holdings, run.amount_le.1]
  · simp [Visit.position, withdrawn, snapshotOf]
  · simp [Visit.position, withdrawn]

theorem borrow_booked (hi : Inv clk.unixTimestamp a) (h : borrow clk owner amount a = .ok a') :
    Booked clk.unixTimestamp true none
      (.only owner ⟨(0, amount + feeBooked clk.unixTimestamp a a'), (0, 0)⟩) a a' := by
  obtain ⟨run, rfl⟩ := borrow_run h
  obtain ⟨x, ts, hacc⟩ := accrue_spec hi.book.clock run.visit.accrue_eq
  refine .of_touch hacc run.visit.position_eq run.visit.realize_eq rfl ⟨rfl, rfl, rfl, rfl⟩ ?_ rfl
    rfl (fun hshut ↦ ?_) (by simp)
  · rw [feeBooked, Accounts.current_eq run.visit.accrue_eq]
    simp [Visit.position, Visit.state, Visit.market, BorrowRun.result, borrowed, Position.holdings]
  · rw [run.opened] at hshut
    cases hshut

theorem repay_booked (hamount : amount < 2 ^ 64) (hi : Inv clk.unixTimestamp a)
    (h : repay clk owner amount a = .ok a') :
    Booked clk.unixTimestamp true none (.only owner
      ⟨(0, 0), (0, a.fusd.balance (.wallet owner) - a'.fusd.balance (.wallet owner))⟩) a a' := by
  rcases repay_run h with ⟨run, rfl⟩ | ⟨run, rfl⟩
  · obtain ⟨x, ts, hacc⟩ := accrue_spec hi.book.clock run.accrue_eq
    refine .of_touch hacc run.position_eq run.realize_eq rfl ⟨rfl, rfl, rfl, rfl⟩ ?_ rfl rfl
      (fun _ ↦ ⟨⟨le_rfl, le_rfl⟩, rfl, rfl⟩) (by simp)
    simp [RestakeRun.result, Position.holdings]
  · obtain ⟨x, ts, hacc⟩ := accrue_spec hi.book.clock run.visit.accrue_eq
    have hburn := TokenLedger.burn_balance run.burn_eq (.wallet owner)
    rw [if_pos rfl, truncate_of_lt ((Nat.min_le_left _ _).trans_lt hamount)] at hburn
    obtain ⟨rlAccrued, rlLastUpdate, hrestored⟩ := run.visit.market.restoreOutflow_eq
      clk.unixTimestamp (truncate 64 (min amount run.visit.p₁.recordedDebt))
    rw [RepayRun.result, hrestored]
    refine .of_touch hacc run.visit.position_eq run.visit.realize_eq rfl ⟨rfl, rfl, rfl, rfl⟩ ?_ rfl
      rfl (fun _ ↦ ⟨⟨Nat.sub_le _ _, le_rfl⟩, rfl, rfl⟩) (by simp)
    refine Prod.ext rfl ?_
    dsimp only [Visit.position, repaid, Position.holdings, Prod.snd_add]
    omega

theorem adjustRate_booked {newRateBps : ℕ} (hi : Inv clk.unixTimestamp a)
    (h : adjustRate clk owner newRateBps a = .ok a') :
    Booked clk.unixTimestamp false none
      (.only owner ⟨(0, feeBooked clk.unixTimestamp a a'), (0, 0)⟩) a a' := by
  obtain ⟨run, rfl⟩ := adjustRate_run h
  obtain ⟨x, ts, hacc⟩ := accrue_spec hi.book.clock run.visit.accrue_eq
  refine .of_touch hacc run.visit.position_eq run.visit.realize_eq rfl ⟨rfl, rfl, rfl, rfl⟩ ?_ rfl
    rfl (fun hshut ↦ ?_) fun _ ↦ ⟨rfl, rfl⟩
  · rw [feeBooked, Accounts.current_eq run.visit.accrue_eq]
    simp [Visit.position, Visit.state, Visit.market, AdjustRun.result, readjusted,
      Position.holdings]
  · rw [hacc.eq] at hshut
    exact absurd (run.opened.symm.trans hshut) (by simp)

theorem claimCollSurplus_booked {now : ℕ} :
    Ensures (claimCollSurplus owner a) (Booked now false none (fun _ ↦ .none) a) := by
  refine vaultChecked_ensures (.bind okOr_ensures fun p hp ↦ .after fun _ ↦ .after fun _ ↦
    .after fun _ ↦ .ok ?_)
  refine .of_carried ⟨rfl, rfl, rfl, rfl⟩ (PositionMove.at_owner owner ?_ ?_) rfl rfl
    fun _ ↦ ⟨rfl, rfl⟩
  · rw [hp, AList.lookup_insert]
    exact .claimed p 0
  · exact fun o ho ↦ ⟨rfl, AList.lookup_insert_ne ho⟩

end Positions

end FusionCore
