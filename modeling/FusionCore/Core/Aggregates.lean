import FusionCore.Core.Protocol

/-!
# Aggregates and the redemption index

The sums of a market are the exact sums over its positions, and the redemption index counts
exactly its debt-bearing positions, in every reached state and at every point of the two
redemption loops.
-/

namespace FusionCore

open Checked

/-- The states that the loops of the two redemptions go through, started at time `clk`. -/
inductive LoopState (clk : Clock) (s : MarketState) : MarketState → Prop where
  | validation {m₁ : Market} {lowest : Option ℕ} {candidates : List Candidate} {v : Validation}
      (hm₁ : accrue s.market clk.unixTimestamp = .ok m₁)
      (hv : candidates.foldlM (validateCandidate clk.unixTimestamp lowest)
        ⟨s.accrued m₁, [], []⟩ = .ok v) : LoopState clk s v.state
  | redemption {m₁ : Market} {lowest : Option ℕ} {candidates : List Candidate} {v : Validation}
      {mid amount : ℕ} {order rest : List OrderEntry} {r : Redemption}
      (hm₁ : accrue s.market clk.unixTimestamp = .ok m₁)
      (hv : candidates.foldlM (validateCandidate clk.unixTimestamp lowest)
        ⟨s.accrued m₁, [], []⟩ = .ok v)
      (hsort : v.order.insertionSort OrderEntry.before = order ++ rest)
      (hr : order.foldlM (redeemOne mid) ⟨v.state, amount, 0⟩ = .ok r) : LoopState clk s r.state
  | urgent {m₁ : Market} {candidates : List Candidate} {mid amount : ℕ} {r : UrgentRedemption}
      (hm₁ : accrue s.market clk.unixTimestamp = .ok m₁)
      (hr : candidates.foldlM (urgentOne clk.unixTimestamp mid) ⟨⟨s.accrued m₁, amount, 0⟩, []⟩
        = .ok r) : LoopState clk s r.state

theorem LoopState.book {clk : Clock} {s t : MarketState} (h : LoopState clk s t)
    (hb : Book clk.unixTimestamp s.market s.bitmap s.positions s.tally) :
    Book clk.unixTimestamp t.market t.bitmap t.positions t.tally := by
  cases h with
  | validation hm₁ hv =>
    obtain ⟨x, ts, hacc⟩ := accrue_spec hb.clock hm₁
    exact (ValidationInv.of_pass hb hacc hv).loop.book
  | redemption hm₁ hv hsort hr =>
    obtain ⟨x, ts, hacc⟩ := accrue_spec hb.clock hm₁
    refine (RedemptionInv.of_pass (ValidationInv.of_pass hb hacc hv) ?_ hr).loop.book
    intro e he
    exact (List.perm_insertionSort _ _).mem_iff.mp (hsort ▸ List.mem_append_left _ he)
  | urgent hm₁ hr =>
    obtain ⟨x, ts, hacc⟩ := accrue_spec hb.clock hm₁
    exact (RedemptionInv.of_urgentPass hb hacc hr).loop.book

/-! ## Sums -/

/-- The subtractions of `reweight`, `setStake` and `claimCollSurplus` succeed for every position
and whatever weight `reweight` adds. -/
structure SumSubtractions (s : MarketState) : Prop where
  reweight : ∀ owner p newWeighted, s.positions.lookup owner = some p →
    ∃ d, checkedSub (s.market.aggWeightedDebtSum + newWeighted) (weightOf p) = some d
  setStake : ∀ owner p, s.positions.lookup owner = some p →
    ∃ d, checkedSub s.market.totalStakes p.stake = some d
  claimCollSurplus : ∀ owner p, s.positions.lookup owner = some p →
    ∃ d, checkedSub s.market.totalCollSurplus p.collSurplus = some d

theorem Book.sumSubtractions {now : ℕ} {s : MarketState}
    (hb : Book now s.market s.bitmap s.positions s.tally) : SumSubtractions s where
  reweight := by
    intro owner p newWeighted hp
    exact ⟨_, checkedSub_eq_some.mpr ⟨(hb.weight_le hp).trans (Nat.le_add_right _ _), rfl⟩⟩
  setStake := by
    intro owner p hp
    exact ⟨_, checkedSub_eq_some.mpr ⟨hb.stake_le_totalStakes hp, rfl⟩⟩
  claimCollSurplus := by
    intro owner p hp
    exact ⟨_, checkedSub_eq_some.mpr ⟨hb.collSurplus_le hp, rfl⟩⟩

theorem closePosition_stake {now : ℕ} {owner : Pubkey} {a a' : Accounts} {p : Position}
    (hb : Book now a.state.market a.state.bitmap a.state.positions a.state.tally)
    (hp : a.state.positions.lookup owner = some p) (h : closePosition owner a = .ok a') :
    p.stake = 0 := by
  simp only [closePosition, bind_eq_ok_iff, okOr_eq_ok, require_eq_ok, pure_eq_ok,
    exists_const] at h
  obtain ⟨q, hq, -, hink, -, -⟩ := h
  obtain rfl : p = q := Option.some.inj (hp.symm.trans hq)
  have hle := hb.stake_le owner p hp
  omega

/-- In every reached state of a market its three sums are exact and no stake exceeds its
collateral.  No handler underflows them, inside the redemption loops or outside, and a position
that closes takes no stake with it. -/
theorem sums_exact {w : World} (h : fusdCore.Reach w) {mint : Pubkey} {state : MarketState}
    (hl : w.protocol.markets.lookup mint = some state) :
    state.market.aggWeightedDebtSum =
      state.positions.total (fun p ↦ p.recordedDebt * p.userRateBps) ∧
    state.market.totalStakes = state.positions.total Position.stake ∧
    state.market.totalCollSurplus = state.positions.total Position.collSurplus ∧
    (∀ owner p, state.positions.lookup owner = some p →
      p.stake ≤ p.ink ∧ (p.ink = 0 → p.stake = 0)) ∧
    SumSubtractions state ∧
    (∀ clk, w.clock.Le clk → ∀ t, LoopState clk state t → SumSubtractions t) ∧
    ∀ owner p a', state.positions.lookup owner = some p →
      closePosition owner ⟨state, w.protocol.fusd, w.protocol.backstop⟩ = .ok a' →
      p.stake = 0 := by
  have hi := ((fusdCore_inv h).markets mint state hl).2
  refine ⟨hi.book.weights, hi.book.stakes, hi.book.surplus, fun owner p hp ↦ ?_,
    hi.book.sumSubtractions, fun clk hclk t ht ↦ ?_, fun owner p a' hp hclose ↦ ?_⟩
  · have hle := hi.book.stake_le owner p hp
    exact ⟨hle, fun h0 ↦ by omega⟩
  · exact (ht.book (fusdCore_market_inv h hclk hl).book).sumSubtractions
  · exact closePosition_stake hi.book hp hclose

theorem sums_exact_sample : ∃ w state,
    Sample.redistributed = some w ∧ w.protocol.markets.lookup 7 = some state ∧
    0 < state.positions.total (interestUntil · state.market.lastUpdateTs) ∧
    0 < state.positions.total (pendingDebt state.market) ∧
    state.market.aggWeightedDebtSum =
      state.positions.total (fun p ↦ p.recordedDebt * p.userRateBps) ∧
    state.market.totalStakes = state.positions.total Position.stake ∧ SumSubtractions state := by
  obtain ⟨w, state, hw, hreach, hl, -, hinterest, hdebt, -⟩ := Sample.redistributed_spec
  obtain ⟨hsum, hstakes, -, -, hsub, -⟩ := sums_exact hreach hl
  exact ⟨w, state, hw, hl, hinterest, hdebt, hsum, hstakes, hsub⟩

/-! ## The redemption index -/

/-- The number of debt-bearing positions with a given label. -/
def members (s : MarketState) (label : ℕ) : ℕ :=
  s.positions.entries.countP fun e ↦ 0 < e.2.recordedDebt ∧ e.2.bucket = label

theorem Book.size_eq_members {now : ℕ} {s : MarketState}
    (hb : Book now s.market s.bitmap s.positions s.tally) {label : ℕ}
    (hle : label ≤ ZOMBIE_BUCKET) : s.bitmap.size label = members s label := by
  rw [hb.size label hle, members]
  exact Table.total_ite_one (fun p : Position ↦ 0 < p.recordedDebt ∧ p.bucket = label) s.positions

theorem members_pos_iff {s : MarketState} {label : ℕ} :
    0 < members s label ↔ ∃ owner p, s.positions.lookup owner = some p ∧ 0 < p.recordedDebt ∧
      p.bucket = label := by
  simp only [members, List.countP_pos_iff, decide_eq_true_eq]
  constructor
  · rintro ⟨e, he, hp⟩
    exact ⟨e.1, e.2, Table.lookup_eq_some_iff.mpr he, hp⟩
  · rintro ⟨owner, p, hp, hd⟩
    exact ⟨⟨owner, p⟩, Table.lookup_eq_some_iff.mp hp, hd⟩

/-- What the operations on the index rely on. -/
structure IndexReads (s : MarketState) : Prop where
  removeMember : ∀ owner p, s.positions.lookup owner = some p → 0 < p.recordedDebt →
    ∃ bm, removeMember s.bitmap p.bucket = .ok bm
  firstSet_some : ∀ k, RateBucket.firstSet s.bitmap.words = some k →
    (∃ owner p, s.positions.lookup owner = some p ∧ 0 < p.recordedDebt ∧ p.bucket = k) ∧
    ∀ owner p, s.positions.lookup owner = some p → 0 < p.recordedDebt →
      p.bucket ≠ ZOMBIE_BUCKET → k ≤ p.bucket
  firstSet_none : RateBucket.firstSet s.bitmap.words = none →
    ∀ owner p, s.positions.lookup owner = some p → 0 < p.recordedDebt →
      p.bucket = ZOMBIE_BUCKET

section Index

variable {now : ℕ} {s : MarketState}

/-- The bit of a normal bucket is set exactly when a debt-bearing position carries its label. -/
theorem Book.isSet_iff (hb : Book now s.market s.bitmap s.positions s.tally)
    (k : Fin NUM_RATE_BUCKETS) : RateBucket.isSet s.bitmap.words (bitOf k) = true ↔
      ∃ owner p, s.positions.lookup owner = some p ∧ 0 < p.recordedDebt ∧ p.bucket = k := by
  rw [← members_pos_iff, ← hb.size_eq_members k.isLt.le, hb.coupled k, decide_eq_true_eq]
  simp [RedemptionBitmap.size]

theorem Book.indexReads (hb : Book now s.market s.bitmap s.positions s.tally) :
    IndexReads s where
  removeMember := by
    intro owner p hp hd
    have hle := hb.label owner p hp hd
    refine exists_removeMember hle ?_
    rw [hb.size_eq_members hle, members_pos_iff]
    exact ⟨owner, p, hp, hd, rfl⟩
  firstSet_some := by
    intro k hk
    obtain ⟨hlt, hset, hmin⟩ := RateBucket.firstSet_spec hk
    refine ⟨(hb.isSet_iff ⟨k, hlt⟩).mp hset, fun owner p hp hd hne ↦ ?_⟩
    by_contra hcon
    have hnormal : p.bucket < NUM_RATE_BUCKETS :=
      lt_of_le_of_ne (hb.label owner p hp hd) hne
    have hset' := (hb.isSet_iff ⟨p.bucket, hnormal⟩).mpr ⟨owner, p, hp, hd, rfl⟩
    have hclear := hmin (bitOf ⟨p.bucket, hnormal⟩) (not_le.mp hcon)
    exact Bool.false_ne_true (hclear.symm.trans hset')
  firstSet_none := by
    intro hnone owner p hp hd
    by_contra hne
    have hnormal : p.bucket < NUM_RATE_BUCKETS :=
      lt_of_le_of_ne (hb.label owner p hp hd) hne
    have hset' := (hb.isSet_iff ⟨p.bucket, hnormal⟩).mpr ⟨owner, p, hp, hd, rfl⟩
    exact Bool.false_ne_true ((RateBucket.firstSet_eq_none hnone _).symm.trans hset')

end Index

/-- In every reached state of a market the counts and the bitmap describe its debt-bearing
positions exactly; removing a member never underflows and the first set bit is the lowest
bucket with a debt-bearing position, inside the redemption loops as outside. -/
theorem redemption_index_exact {w : World} (h : fusdCore.Reach w) {mint : Pubkey}
    {state : MarketState} (hl : w.protocol.markets.lookup mint = some state) :
    (∀ k : Fin NUM_RATE_BUCKETS, state.bitmap.counts k =
      state.positions.entries.countP fun e ↦ 0 < e.2.recordedDebt ∧ e.2.bucket = k.val) ∧
    state.bitmap.zombieCount =
      (state.positions.entries.countP fun e ↦
        0 < e.2.recordedDebt ∧ e.2.bucket = ZOMBIE_BUCKET) ∧
    (∀ k : Fin NUM_RATE_BUCKETS,
      RateBucket.isSet state.bitmap.words (bitOf k) = true ↔ 0 < state.bitmap.counts k) ∧
    (∀ owner p, state.positions.lookup owner = some p → 0 < p.recordedDebt →
      p.bucket = ZOMBIE_BUCKET ∨ p.bucket < NUM_RATE_BUCKETS) ∧
    IndexReads state ∧
    ∀ clk, w.clock.Le clk → ∀ t, LoopState clk state t → IndexReads t := by
  have hi := ((fusdCore_inv h).markets mint state hl).2
  refine ⟨fun k ↦ ?_, ?_, fun k ↦ ?_, fun owner p hp hd ↦ ?_, hi.book.indexReads,
    fun clk hclk t ht ↦ (ht.book (fusdCore_market_inv h hclk hl).book).indexReads⟩
  · have hsize := hi.book.size_eq_members k.isLt.le
    simpa [RedemptionBitmap.size, members] using hsize
  · have hsize := hi.book.size_eq_members (le_refl ZOMBIE_BUCKET)
    simpa [RedemptionBitmap.size, members, ZOMBIE_BUCKET] using hsize
  · rw [hi.book.coupled k, decide_eq_true_eq]
  · exact eq_or_lt_of_le (hi.book.label owner p hp hd)

theorem redemption_index_exact_sample : ∃ w state,
    Sample.world Sample.instrs = some w ∧ w.protocol.markets.lookup 7 = some state ∧
    RateBucket.firstSet state.bitmap.words = some 50 ∧
    ∃ owner p, state.positions.lookup owner = some p ∧ 0 < p.recordedDebt ∧
      p.bucket = 50 := by
  have hrun : ((Sample.world Sample.instrs).bind fun w ↦
      (w.protocol.markets.lookup 7).map fun state ↦ RateBucket.firstSet state.bitmap.words) =
      some (some 50) := by decide +kernel
  obtain ⟨w, hw, hrun⟩ := Option.bind_eq_some_iff.mp hrun
  obtain ⟨state, hl, hfact⟩ := Option.map_eq_some_iff.mp hrun
  obtain ⟨-, -, -, -, hreads, -⟩ := redemption_index_exact (Sample.reach hw) hl
  exact ⟨w, state, hw, hl, hfact, (hreads.firstSet_some 50 hfact).1⟩

end FusionCore
