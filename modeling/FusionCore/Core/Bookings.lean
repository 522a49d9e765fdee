import FusionCore.Core.PositionMoves

/-!
# What the instructions enter into the books

The redemption loops touch the candidates they accept, a liquidation closes one position out and
may raise the index for the others, and maintenance leaves all positions alone.  Every instruction
on a market is booked.
-/

namespace FusionCore

open Checked

/-! ## Redemption -/

section Taken

variable {now mid : ℕ} {r r' : Redemption}

/-- What a pass of a redemption loop takes: collateral and debt. -/
def Redemption.taken (r r' : Redemption) : ℕ × ℕ :=
  (r'.drawn - r.drawn, r.remaining - r'.remaining)

theorem Redemption.taken_self (r : Redemption) : r.taken r = 0 :=
  Prod.ext (Nat.sub_self _) (Nat.sub_self _)

/-- What an ordered redemption takes out of the position of `owner`. -/
def redeemTaken (now amount : ℕ) (candidates : List Candidate) (a : Accounts) (owner : Pubkey) :
    Option (ℕ × ℕ) := do
  let m₁ ← (accrue a.state.market now).toOption
  let mid ← (midPrice m₁).toOption
  let v ← (candidates.foldlM (validateCandidate now (RateBucket.firstSet a.state.bitmap.words))
    ⟨a.state.accrued m₁, [], []⟩).toOption
  pure (loopCost (redeemOne mid) Redemption.taken (fun e ↦ e.owner = owner) ⟨v.state, amount, 0⟩
    (v.order.insertionSort OrderEntry.before))

/-- What an urgent redemption takes out of the position of `owner`. -/
def urgentTaken (now amount : ℕ) (candidates : List Candidate) (a : Accounts) (owner : Pubkey) :
    Option (ℕ × ℕ) := do
  let m₁ ← (accrue a.state.market now).toOption
  let mid ← (midPrice m₁).toOption
  pure (loopCost (urgentOne now mid) (fun r r' ↦ r.toRedemption.taken r'.toRedemption)
    (fun c ↦ c = .position owner) ⟨⟨a.state.accrued m₁, amount, 0⟩, []⟩ candidates)

theorem DrawnDown.taken {amt units : ℕ} {p q : Position} (hd : DrawnDown mid amt units p q)
    (hamt : redeemable p mid r.remaining = .ok amt) (hremaining : r'.remaining = r.remaining - amt)
    (hdrawn : r'.drawn = r.drawn + units) : q.holdings + r.taken r' = p.holdings := by
  obtain ⟨hle, hdebt⟩ := redeemable_le hamt
  have hunits : units ≤ p.ink := hd.bought ▸ Nat.min_le_right _ _
  refine Prod.ext ?_ ?_
  · change q.ink + (r'.drawn - r.drawn) = p.ink
    rw [hd.ink, hdrawn]
    omega
  · change q.recordedDebt + (r.remaining - r'.remaining) = p.recordedDebt
    rw [hd.recordedDebt, hremaining]
    omega

/-- What the position at an address holds, if there is one. -/
def heldAt (s : MarketState) (o : Pubkey) : ℕ × ℕ :=
  (s.positions.lookup o).elim 0 Position.holdings

theorem redeemOne_taken {e : OrderEntry} (h : redeemOne mid r e = .ok r') (o : Pubkey) :
    heldAt r'.state o + (if e.owner = o then r.taken r' else 0) = heldAt r.state o := by
  obtain ⟨-, rfl⟩ | ⟨-, p, amt, hp, hamt, ⟨-, rfl⟩ | ⟨-, m, bm, q, units, hdraw, hps, -, hremaining,
    hdrawn⟩⟩ := redeemOne_spec h
  · rw [Redemption.taken_self, ite_self, add_zero]
  · rw [Redemption.taken_self, ite_self, add_zero]
  · rw [heldAt, heldAt, hps]
    by_cases ho : e.owner = o
    · subst ho
      rw [if_pos rfl, AList.lookup_insert, hp]
      exact (drawnDown_of_drawDown hdraw).taken hamt hremaining hdrawn
    · rw [if_neg ho, AList.lookup_insert_ne (Ne.symm ho), add_zero]

/-- What the position at an address holds, once it has been brought current. -/
def UrgentRedemption.heldAt (m : Market) (now : ℕ) (o : Pubkey) (r : UrgentRedemption) : ℕ × ℕ :=
  ((r.state.positions.lookup o).bind fun p ↦
    if o ∈ r.seen then some p else (realize m p now).toOption).elim 0 Position.holdings

theorem urgentOne_taken {s₀ : MarketState} {r r' : UrgentRedemption} {c : Candidate}
    (hrest : r.state.rest = s₀.rest) (h : urgentOne now mid r c = .ok r') (o : Pubkey) :
    r'.heldAt s₀.market now o +
      (if c = .position o then r.toRedemption.taken r'.toRedemption else 0) =
        r.heldAt s₀.market now o := by
  obtain rfl | ⟨owner, p, p₁, q, amt, units, rfl, hp, hnew, hseen, hp₁, hamt, hdown, hps,
    hremaining, hdrawn⟩ := urgentOne_cases h
  · rw [Redemption.taken_self, ite_self, add_zero]
  rw [realize_of_rest hrest] at hp₁
  unfold UrgentRedemption.heldAt
  rw [hps, hseen]
  by_cases ho : owner = o
  · subst ho
    rw [if_pos rfl, AList.lookup_insert, hp]
    simp only [Option.bind_some, List.mem_cons_self, if_true, hnew, if_false,
      toOption_eq_some.mpr hp₁]
    exact hdown.taken hamt hremaining hdrawn
  · have hne : o ≠ owner := Ne.symm ho
    have hother : Candidate.position owner ≠ .position o :=
      fun heq ↦ ho (Candidate.position.inj heq)
    rw [if_neg hother, AList.lookup_insert_ne hne, add_zero]
    simp only [List.mem_cons, hne, false_or]

end Taken

section Redemption

variable {now x ts paid drawn : ℕ} {a a' : Accounts} {m₁ : Market} {s₀ s : MarketState}
  {owners : List Pubkey} {out : Pubkey → ℕ × ℕ}

/-- A loop that started in `s₀` has touched the positions of `owners` and no other. -/
structure LoopMoves (now : ℕ) (s₀ s : MarketState) (owners : List Pubkey) : Prop where
  untouched : ∀ o ∉ owners, s.positions.lookup o = s₀.positions.lookup o
  touched : ∀ o ∈ owners, ∃ p p₁ p', s₀.positions.lookup o = some p ∧
    realize s₀.market p now = .ok p₁ ∧ s.positions.lookup o = some p' ∧ p'.Current s₀.market ∧
    (s₀.market.shutdown = true → p'.userRateBps = p₁.userRateBps)

theorem Booked.of_loop (hacc : Accrued a.state.market m₁ now x ts)
    (hl : LoopInv now (a.state.accrued m₁) s paid drawn)
    (hmoves : LoopMoves now (a.state.accrued m₁) s owners)
    (hnone : ∀ o ∉ owners, out o = 0)
    (htaken : ∀ o ∈ owners, ∀ p p₁ p', a.state.positions.lookup o = some p →
      realize m₁ p now = .ok p₁ → s.positions.lookup o = some p' →
      p'.holdings + out o = p₁.holdings)
    (hc : Carried s.market a'.state.market) (hps : a'.state.positions = s.positions)
    (hagg : a'.state.market.aggRecordedDebt = s.market.aggRecordedDebt)
    (hunminted : a'.state.market.unmintedInterest = s.market.unmintedInterest)
    (hlimiter : a'.state.market.rlAccrued = s.market.rlAccrued ∧
      a'.state.market.rlLastUpdate = s.market.rlLastUpdate) :
    Booked now false none (fun o ↦ ⟨(0, 0), out o⟩) a a' := by
  have hrest : ∀ {α : Type} (f : MarketState → α), f s.rest = f (a.state.accrued m₁).rest :=
    fun f ↦ congrArg f hl.rest
  have hkept : Carried m₁ s.market :=
    ⟨hrest fun s ↦ s.market.shutdown, hrest fun s ↦ s.market.shutdownReason,
      hrest fun s ↦ s.market.lastUpdateTs, hrest fun s ↦ redistState s.market⟩
  have hcarried : Carried m₁ a'.state.market := hkept.trans hc
  refine .of_accrued hacc hcarried ?_ ?_ ?_
  · intro o
    rw [hps]
    by_cases ho : o ∈ owners
    · obtain ⟨p, p₁, p', hp, hp₁, hp', hcur, hrate⟩ := hmoves.touched o ho
      have hreal := realize_spec hacc.realizable hp₁
      have hcoll : a'.state.market.lColl = m₁.lColl := congrArg RedistState.lColl hcarried.index
      have hart : a'.state.market.lArt = m₁.lArt := congrArg RedistState.lArt hcarried.index
      change a.state.positions.lookup o = some p at hp
      have hholdings := htaken o ho p p₁ p' hp hp₁ hp'
      rw [hp, hp']
      refine .touched ⟨?_, hholdings, ?_, ?_, ?_, .inr ⟨?_, ?_⟩, ?_⟩
      · rw [← realize_accrued hacc]
        exact hp₁
      · exact hcur.lastDebtUpdate.trans hreal.lastDebtUpdate.symm
      · exact hcur.lColl.trans hcoll.symm
      · exact hcur.lArt.trans hart.symm
      · rw [hcoll, hacc.eq]
      · rw [hart, hacc.eq]
      · intro hshut
        refine ⟨rfl, hrate (Eq.trans ?_ hshut)⟩
        change m₁.shutdown = _
        rw [hacc.eq]
    · rw [hmoves.untouched o ho, hnone o ho]
      exact .keep _
  · intro _
    have hsum : s.market.aggRecordedDebt + paid = m₁.aggRecordedDebt := hl.agg
    have hun : s.market.unmintedInterest = m₁.unmintedInterest :=
      hrest fun s ↦ s.market.unmintedInterest
    exact ⟨by omega, (hunminted.trans hun).le⟩
  · intro _
    exact ⟨hlimiter.1.trans (hrest fun s ↦ s.market.rlAccrued),
      hlimiter.2.trans (hrest fun s ↦ s.market.rlLastUpdate)⟩

variable {clk : Clock} {redeemer : Pubkey} {amount : ℕ} {candidates : List Candidate}

theorem RedeemRun.loopMoves (run : RedeemRun clk redeemer amount candidates a)
    (hi : Inv clk.unixTimestamp a) (hacc : Accrued a.state.market run.m₁ clk.unixTimestamp x ts) :
    LoopMoves clk.unixTimestamp (a.state.accrued run.m₁) run.r.state
      (run.v.order.map OrderEntry.owner) := by
  constructor
  · intro o ho
    refine foldlM_invariant (P := fun r : Redemption ↦ r.state.positions.lookup o =
      (a.state.accrued run.m₁).positions.lookup o) ?_
      (untouched_of_pass run.validate_eq o ho) run.redeem_eq
    intro e he r r' hsame hstep
    obtain rfl | ⟨p, amt, m, bm, q, units, -, -, -, -, hps, -⟩ := redeemOne_cases hstep
    · exact hsame
    · have hne : o ≠ e.owner := by
        rintro rfl
        exact ho (List.mem_map_of_mem ((List.perm_insertionSort _ _).subset he))
      rw [hps, AList.lookup_insert_ne hne]
      exact hsame
  · intro o ho
    obtain ⟨p, p₁, stake, hp, -, -, hp₁, -⟩ :=
      (Accepted.of_pass hi.book hacc run.validate_eq).accepted o ho
    obtain ⟨p', hp', hcur⟩ := (run.redemptionInv hi).current o ho
    refine ⟨p, p₁, p', hp, hp₁, hp', hcur, fun hshut ↦ ?_⟩
    change run.m₁.shutdown = true at hshut
    rw [hacc.eq] at hshut
    exact absurd (run.opened.symm.trans hshut) (by simp)

theorem RedeemRun.heldAt_taken (run : RedeemRun clk redeemer amount candidates a) (o : Pubkey) :
    heldAt run.r.state o + (redeemTaken clk.unixTimestamp amount candidates a o).getD 0 =
      heldAt run.v.state o := by
  simp only [redeemTaken, toOption_eq_some.mpr run.accrue_eq,
    toOption_eq_some.mpr run.midPrice_eq, toOption_eq_some.mpr run.validate_eq,
    Option.bind_eq_bind, Option.bind_some, Option.pure_def, Option.getD_some]
  exact loopCost_spec (I := fun _ ↦ True) (v := fun r : Redemption ↦ heldAt r.state o)
    (fun e _ r r' _ hstep ↦ ⟨trivial, redeemOne_taken hstep o⟩) trivial run.redeem_eq

theorem redeem_booked (hi : Inv clk.unixTimestamp a)
    (h : redeem clk redeemer amount candidates a = .ok a') :
    Booked clk.unixTimestamp false none
      (fun o ↦ ⟨(0, 0), (redeemTaken clk.unixTimestamp amount candidates a o).getD 0⟩) a a' := by
  obtain ⟨run, rfl⟩ := redeem_run h
  obtain ⟨x, ts, hacc⟩ := accrue_spec hi.book.clock run.accrue_eq
  have hmoves := run.loopMoves hi hacc
  obtain ⟨baseRate, baseRateTs, hresult⟩ := run.result_eq
  rw [hresult]
  refine .of_loop hacc (run.redemptionInv hi).loop hmoves ?_ ?_ ⟨rfl, rfl, rfl, rfl⟩ rfl rfl rfl
    ⟨rfl, rfl⟩
  · intro o ho
    have hsame := run.heldAt_taken o
    rw [heldAt, heldAt, hmoves.untouched o ho, ← untouched_of_pass run.validate_eq o ho] at hsame
    exact add_eq_left.mp hsame
  · intro o ho p p₁ p' hp hp₁ hp'
    obtain ⟨q, q₁, stake, hq, -, -, hq₁, hv⟩ :=
      (Accepted.of_pass hi.book hacc run.validate_eq).accepted o ho
    obtain rfl := Option.some.inj (hq.symm.trans hp)
    obtain rfl := Except.ok.inj (hq₁.symm.trans hp₁)
    have hsum := run.heldAt_taken o
    rwa [heldAt, heldAt, hp', hv] at hsum

theorem LoopMoves.urgentStep {mid : ℕ} {r r' : UrgentRedemption} {c : Candidate}
    (h₀ : s₀.market.shutdown = true ∨ s₀.market.lastUpdateTs = now)
    (hrest : r.state.rest = s₀.rest) (hm : LoopMoves now s₀ r.state r.seen)
    (h : urgentOne now mid r c = .ok r') : LoopMoves now s₀ r'.state r'.seen := by
  obtain rfl | ⟨owner, p, p₁, p', amt, units, -, hp, hnew, hseen, hp₁, -, hleft, hps, -, -⟩ :=
    urgentOne_cases h
  · exact hm
  rw [hm.untouched owner hnew] at hp
  rw [realize_of_rest hrest] at hp₁
  constructor
  · intro o ho
    rw [hseen, List.mem_cons, not_or] at ho
    rw [hps, AList.lookup_insert_ne ho.1]
    exact hm.untouched o ho.2
  · intro o ho
    rw [hps]
    by_cases hne : o = owner
    · subst hne
      have hreal := realize_spec h₀ hp₁
      obtain ⟨hsc, hsa⟩ := RedistSnapshot.mk.injEq _ _ _ _ ▸ hleft.snapshot
      exact ⟨p, p₁, p', hp, hp₁, AList.lookup_insert _,
        ⟨hleft.lastDebtUpdate.trans hreal.lastDebtUpdate, hsc.trans hreal.lColl,
          hsa.trans hreal.lArt⟩, fun _ ↦ hleft.userRateBps⟩
    · rw [AList.lookup_insert_ne hne]
      rw [hseen] at ho
      exact hm.touched o ((List.mem_cons.mp ho).resolve_left hne)

/-- Along the urgent loop a position is worth what it was when brought current, less what the loop
has taken from it. -/
theorem urgentPass_booked {mid : ℕ} {r : UrgentRedemption}
    (h₀ : s₀.market.shutdown = true ∨ s₀.market.lastUpdateTs = now)
    (hstart : RedemptionInv now s₀ amount [] ⟨s₀, amount, 0⟩)
    (h : candidates.foldlM (urgentOne now mid) ⟨⟨s₀, amount, 0⟩, []⟩ = .ok r) :
    RedemptionInv now s₀ amount [] r.toRedemption ∧ LoopMoves now s₀ r.state r.seen ∧
      ∀ o, r.heldAt s₀.market now o + loopCost (urgentOne now mid)
          (fun r r' ↦ r.toRedemption.taken r'.toRedemption) (fun c ↦ c = .position o)
          ⟨⟨s₀, amount, 0⟩, []⟩ candidates =
        UrgentRedemption.heldAt s₀.market now o ⟨⟨s₀, amount, 0⟩, []⟩ := by
  rw [← and_assoc]
  constructor
  · refine foldlM_invariant (P := fun r : UrgentRedemption ↦
      RedemptionInv now s₀ amount [] r.toRedemption ∧ LoopMoves now s₀ r.state r.seen) ?_ ?_ h
    · intro c _ r r' hinv hstep
      exact ⟨hinv.1.urgentStep h₀ hstep, hinv.2.urgentStep h₀ hinv.1.loop.rest hstep⟩
    · exact ⟨hstart, fun _ _ ↦ rfl, by simp⟩
  · intro o
    refine loopCost_spec (v := UrgentRedemption.heldAt s₀.market now o)
      (I := fun r ↦ RedemptionInv now s₀ amount [] r.toRedemption) ?_ hstart h
    intro c _ r r' hinv hstep
    exact ⟨hinv.urgentStep h₀ hstep, urgentOne_taken hinv.loop.rest hstep o⟩

theorem urgentRedeem_booked (hi : Inv clk.unixTimestamp a)
    (h : urgentRedeem clk redeemer amount candidates a = .ok a') :
    Booked clk.unixTimestamp false none
      (fun o ↦ ⟨(0, 0), (urgentTaken clk.unixTimestamp amount candidates a o).getD 0⟩) a a' := by
  obtain ⟨run, rfl⟩ := urgentRedeem_run h
  obtain ⟨x, ts, hacc⟩ := accrue_spec hi.book.clock run.accrue_eq
  obtain ⟨hinv, hmoves, hheld⟩ := urgentPass_booked hacc.realizable
    ⟨by simpa using LoopInv.init hi.book hacc, le_rfl, by simp [AllCurrent]⟩ run.redeem_eq
  have htaken : ∀ o, (urgentTaken clk.unixTimestamp amount candidates a o).getD 0 =
      loopCost (urgentOne clk.unixTimestamp run.mid)
        (fun r r' ↦ r.toRedemption.taken r'.toRedemption) (fun c ↦ c = .position o)
        ⟨⟨a.state.accrued run.m₁, amount, 0⟩, []⟩ candidates := by
    intro o
    simp only [urgentTaken, toOption_eq_some.mpr run.accrue_eq,
      toOption_eq_some.mpr run.midPrice_eq, Option.bind_eq_bind, Option.bind_some,
      Option.pure_def, Option.getD_some]
  refine .of_loop (s := run.r.state) hacc hinv.loop hmoves ?_ ?_ (.refl _) rfl rfl rfl ⟨rfl, rfl⟩
  · intro o ho
    have hsame := hheld o
    simp only [UrgentRedemption.heldAt, hmoves.untouched o ho, ho, if_false, List.not_mem_nil]
      at hsame
    rw [htaken]
    exact add_eq_left.mp hsame
  · intro o ho p p₁ p' hp hp₁ hp'
    have hsum := hheld o
    have hp₀ : (a.state.accrued run.m₁).positions.lookup o = some p := hp
    have hreal : realize (a.state.accrued run.m₁).market p clk.unixTimestamp = .ok p₁ := hp₁
    rw [htaken]
    simpa only [UrgentRedemption.heldAt, hp', hp₀, Option.bind_some, ho, if_true, List.not_mem_nil,
      if_false, toOption_eq_some.mpr hreal, Option.elim_some] using hsum

end Redemption

/-! ## Liquidation -/

section Liquidation

variable {clk : Clock} {liquidator owner : Pubkey} {withBackstop : Bool} {a a' : Accounts}

/-- What a liquidation hands to the other positions: the remainder of the seized collateral and
the remainder of the debt.  Nothing, where no remainder is redistributed. -/
def liquidationShares (now : ℕ) (owner : Pubkey) (withBackstop : Bool) (a : Accounts) :
    Option (ℕ × ℕ) := do
  let p ← a.state.positions.lookup owner
  let rp ← a.state.reactor
  let bs ← (backstopAccounts a withBackstop).toOption
  let m ← (accrue a.state.market now).toOption
  let p₁ ← (realize m p now).toOption
  let z ← (seize m p₁).toOption
  let distributable := z.seizeColl - z.gasComp
  let split := absorb p₁.recordedDebt rp.state.totalDeposits (decide (0 < z.market.totalStakes))
    (a.fusd.balance (.bufferVault a.state.mint)) (globalAvailable a z.market bs)
  let collSp ← mulDivFloor distributable split.reactor p₁.recordedDebt
  if 0 < split.redist then some (distributable - collSp, split.redist) else none

/-- What a liquidation takes out of a position: what the counters of the market lose, and what is
handed to the others. -/
def seizedFrom (now : ℕ) (owner : Pubkey) (withBackstop : Bool) (a a' : Accounts) : ℕ × ℕ :=
  let shares := (liquidationShares now owner withBackstop a).getD (0, 0)
  let m := a.current now
  let m' := a'.state.market
  (m.totalCollateral + shares.1 - m'.totalCollateral,
    m.aggRecordedDebt + shares.2 - m'.aggRecordedDebt)

/-- Everything that the tiers write of a market that is booked. -/
structure Absorbed (m m' : Market) (p : Position) (shares : Option (ℕ × ℕ)) : Prop where
  shuts : Shuts m m'
  index : IndexMove m m' shares
  lastUpdateTs : m'.lastUpdateTs = m.lastUpdateTs
  unminted : m'.unmintedInterest = m.unmintedInterest
  limiter : m'.rlAccrued = m.rlAccrued ∧ m'.rlLastUpdate = m.rlLastUpdate
  coll : m'.totalCollateral + p.ink = m.totalCollateral + (shares.getD (0, 0)).1
  agg : m'.aggRecordedDebt + p.recordedDebt = m.aggRecordedDebt + (shares.getD (0, 0)).2

theorem Booked.of_seizure {now x ts : ℕ} {m₁ : Market} {p p₁ p' : Position} {t : Transfer}
    {shares : Option (ℕ × ℕ)} (hacc : Accrued a.state.market m₁ now x ts)
    (hp : a.state.positions.lookup owner = some p) (hp₁ : realize m₁ p now = .ok p₁)
    (hps : a'.state.positions = a.state.positions.insert owner p')
    (hholdings : p'.holdings + t.out = p₁.holdings + t.into) (hinto : t.into.2 = 0)
    (hupdate : p'.lastDebtUpdate = p₁.lastDebtUpdate)
    (hrate : p'.userRateBps = p₁.userRateBps) (hstake : p'.stake = 0)
    (hcoll : p'.redistLCollSnapshot = a'.state.market.lColl)
    (hart : p'.redistLArtSnapshot = a'.state.market.lArt)
    (habs : Absorbed m₁ a'.state.market p₁ shares)
    (hagg : a'.state.market.aggRecordedDebt ≤ m₁.aggRecordedDebt) :
    Booked now false shares (.only owner t) a a' where
  positions := by
    refine .only hps hp
      ⟨?_, hholdings, hupdate, hcoll, hart, .inl hstake, fun _ ↦ ⟨hinto, hrate⟩⟩
    rw [← realize_accrued hacc]
    exact hp₁
  index := by
    have hsame : redistState m₁ = redistState a.state.market := by
      rw [hacc.eq]
      rfl
    cases habs.index with
    | keep h => exact .keep (h.trans hsame)
    | raise h =>
      rw [hsame] at h
      exact .raise h
  frozen := by
    intro hshut
    obtain rfl := hacc.eq_of_shutdown hshut
    exact ⟨habs.shuts.shutdown hshut, habs.shuts.reason, hagg, habs.unminted.le,
      habs.lastUpdateTs⟩
  reason := by
    intro hshut
    have hflag : m₁.shutdown = a.state.market.shutdown := by rw [hacc.eq]
    rw [← hflag]
    exact habs.shuts.opened hshut
  limiter := by
    intro _
    rw [habs.limiter.1, habs.limiter.2, hacc.eq]
    exact ⟨rfl, rfl⟩

theorem LiquidationRun.shares_eq (run : LiquidationRun clk liquidator owner withBackstop a) :
    liquidationShares clk.unixTimestamp owner withBackstop a =
      if 0 < run.split.redist then
        some (run.z.seizeColl - run.z.gasComp - run.collSp, run.split.redist)
      else none := by
  simp only [liquidationShares, run.position_eq, run.reactor_eq, run.backstop_eq, run.accrue_eq,
    run.realize_eq, run.seize_eq, ← run.split_eq, run.collSp_eq, Except.toOption,
    Option.bind_eq_bind, Option.bind_some]

theorem LiquidationRun.absorbed (run : LiquidationRun clk liquidator owner withBackstop a)
    (hi : Inv clk.unixTimestamp a) :
    Absorbed run.m₁ run.result.state.market run.p₁
      (liquidationShares clk.unixTimestamp owner withBackstop a) := by
  obtain ⟨x, ts, hacc⟩ := accrue_spec hi.book.clock run.accrue_eq
  obtain ⟨surplus, -, -, hzm, -⟩ := run.seize_spec hi
  obtain ⟨hparts, -, -⟩ := run.split_spec
  have hclosed := run.closed_le
  have hinkle := (hi.book.accrue hacc).coll_le run.position_eq
    (realize_spec hacc.realizable run.realize_eq).folded
  obtain ⟨hplaced, -, -⟩ := run.remainderTiers_spec
  rw [hzm] at hplaced hclosed
  dsimp only at hplaced hclosed
  rw [run.shares_eq]
  cases hplaced with
  | redistributed st hpos hst heq =>
    rw [if_pos hpos]
    simp only [LiquidationRun.result, heq]
    refine ⟨⟨id, fun _ ↦ rfl, .inl⟩, .raise hst, rfl, rfl, ⟨rfl, rfl⟩, ?_, ?_⟩
    · simp only [Option.getD_some]
      omega
    · simp only [writeState, Option.getD_some]
      omega
  | kept drawn shut reason hzero heq hshuts =>
    rw [if_neg (by omega)]
    obtain ⟨hshut, hreason, hopened⟩ := hshuts
    rw [heq] at hshut hreason hopened
    simp only [LiquidationRun.result, heq]
    refine ⟨⟨hshut, hreason, hopened⟩, .keep rfl, rfl, rfl, ⟨rfl, rfl⟩, ?_, ?_⟩
    · simp only [Option.getD_none]
      omega
    · simp only [Option.getD_none]
      omega

theorem liquidate_booked (hi : Inv clk.unixTimestamp a)
    (h : liquidate clk liquidator owner withBackstop a = .ok a') :
    Booked clk.unixTimestamp false (liquidationShares clk.unixTimestamp owner withBackstop a)
      (.only owner ⟨(0, 0), seizedFrom clk.unixTimestamp owner withBackstop a a'⟩) a a' := by
  obtain ⟨run, rfl⟩ := liquidate_run h
  obtain ⟨x, ts, hacc⟩ := accrue_spec hi.book.clock run.accrue_eq
  obtain ⟨surplus, -, -, -, hzp⟩ := run.seize_spec hi
  obtain ⟨hparts, -, -⟩ := run.split_spec
  have habs := run.absorbed hi
  have hcoll := habs.coll
  have hagg := habs.agg
  refine .of_seizure hacc run.position_eq run.realize_eq rfl ?_ rfl ?_ ?_ rfl rfl rfl habs ?_
  · rw [seizedFrom, Accounts.current_eq run.accrue_eq]
    refine Prod.ext ?_ ?_
    · simp only [Position.holdings, closedOut_ink, Prod.fst_add]
      omega
    · simp only [Position.holdings, closedOut_recordedDebt, Prod.snd_add]
      omega
  · simp [closedOut, hzp]
  · simp [closedOut, hzp]
  · rw [run.shares_eq] at hagg
    split at hagg <;> simp only [Option.getD_some, Option.getD_none] at hagg <;> omega

end Liquidation

/-! ## All instructions -/

section Maintenance

variable {now amount : ℕ} {cfg : Config} {clk : Clock} {authority : Pubkey} {a a' : Accounts}

theorem refreshMarket_booked {cranker : Option FusdHolder} {withBackstop : Bool}
    (hi : Inv clk.unixTimestamp a) (h : refreshMarket clk cranker withBackstop a = .ok a') :
    Booked clk.unixTimestamp false none (fun _ ↦ .none) a a' := by
  obtain ⟨m₁, _, _, _, hm₁, hunminted, hmarket, hps, -⟩ := refreshMarket_cases h
  obtain ⟨x, ts, hacc⟩ := accrue_spec hi.book.clock hm₁
  refine .of_accrued hacc ?_ ?_ (fun _ ↦ ?_) fun _ ↦ ?_
  · rw [hmarket]
    exact ⟨rfl, rfl, rfl, rfl⟩
  · rw [hps]
    exact fun _ ↦ .keep _
  · rw [hmarket]
    exact ⟨le_rfl, hunminted⟩
  · rw [hmarket]
    exact ⟨rfl, rfl⟩

theorem shutdown_booked (hi : Inv clk.unixTimestamp a) :
    Ensures (shutdown clk a) (Booked clk.unixTimestamp false none (fun _ ↦ .none) a) := by
  refine .bind require_ensures fun _ hopen ↦ .bind (fun _ ↦ accrue_spec hi.book.clock) ?_
  rintro m₁ ⟨x, ts, hacc⟩
  refine .after fun _ ↦ .ok ⟨fun _ ↦ .keep _, .keep ?_, ?_, ?_, ?_⟩
  · rw [hacc.eq]
    rfl
  · intro hshut
    exact absurd (hopen.symm.trans hshut) (by simp)
  · intro _
    right
    dsimp only
    split <;> simp
  · intro _
    rw [hacc.eq]
    exact ⟨rfl, rfl⟩

theorem storeLine_booked {l : DebtCeilingLine} (hi : Inv clk.unixTimestamp a) :
    Ensures (storeLine clk l a) (Booked clk.unixTimestamp false none (fun _ ↦ .none) a) := by
  refine .bind (fun _ ↦ accrue_spec hi.book.clock) ?_
  rintro m₁ ⟨x, ts, hacc⟩
  exact .ok (.of_accrued hacc ⟨rfl, rfl, rfl, rfl⟩ (fun _ ↦ .keep _) (fun _ ↦ ⟨le_rfl, le_rfl⟩)
    fun _ ↦ ⟨rfl, rfl⟩)

theorem updatePrice_booked {commit : Option PriceCommit} (h : updatePrice clk commit a = .ok a') :
    Booked now false none (fun _ ↦ .none) a a' := by
  obtain ⟨m, hpriced, rfl⟩ := updatePrice_cases h
  cases hpriced <;> exact .of_market ⟨rfl, rfl, rfl, rfl⟩ rfl rfl rfl fun _ ↦ ⟨rfl, rfl⟩

theorem payFromCounter_booked {counter : ℕ} {m' : Market} {recipient : CollHolder}
    (hc : Carried a.state.market m') (hagg : m'.aggRecordedDebt = a.state.market.aggRecordedDebt)
    (hunminted : m'.unmintedInterest = a.state.market.unmintedInterest)
    (hlimiter : m'.rlAccrued = a.state.market.rlAccrued ∧
      m'.rlLastUpdate = a.state.market.rlLastUpdate) :
    Ensures (payFromCounter cfg authority counter m' recipient amount a)
      (Booked now false none (fun _ ↦ .none) a) :=
  .after fun _ ↦ .after fun _ ↦ .after fun _ ↦ .after fun _ ↦ .after fun _ ↦
    .ok (.of_market hc rfl hagg hunminted fun _ ↦ hlimiter)

end Maintenance

/-- The instructions that reach the outflow limiter. -/
def MarketInstr.limited : MarketInstr → Bool
  | .borrow _ _ => true
  | .repay _ _ => true
  | .executeParamChange _ _ => true
  | _ => false

/-- What an instruction redistributes. -/
def MarketInstr.shares (now : ℕ) : MarketInstr → Accounts → Option (ℕ × ℕ)
  | .liquidate _ owner withBackstop, a => liquidationShares now owner withBackstop a
  | _, _ => none

/-- What an instruction puts into the position of an owner and takes out of it, besides realising
it: a deposit, a withdrawal, a loan with its fee, the fUSD that is burned for a debt, a fee, what is
redeemed and what is seized. -/
def MarketInstr.moved (now : ℕ) (a a' : Accounts) : MarketInstr → Pubkey → Transfer
  | .deposit owner amount => .only owner ⟨(amount.toNat, 0), (0, 0)⟩
  | .withdraw owner amount => .only owner ⟨(0, 0), (amount.toNat, 0)⟩
  | .borrow owner amount => .only owner ⟨(0, amount.toNat + feeBooked now a a'), (0, 0)⟩
  | .repay owner _ => .only owner
      ⟨(0, 0), (0, a.fusd.balance (.wallet owner) - a'.fusd.balance (.wallet owner))⟩
  | .adjustRate owner _ => .only owner ⟨(0, feeBooked now a a'), (0, 0)⟩
  | .redeem _ amount candidates => fun owner ↦
      ⟨(0, 0), (redeemTaken now amount.toNat candidates a owner).getD 0⟩
  | .urgentRedeem _ amount candidates => fun owner ↦
      ⟨(0, 0), (urgentTaken now amount.toNat candidates a owner).getD 0⟩
  | .liquidate _ owner withBackstop => .only owner
      ⟨(0, 0), seizedFrom now owner withBackstop a a'⟩
  | _ => fun _ ↦ .none

theorem MarketInstr.run_booked {cfg : Config} {clk : Clock} {i : MarketInstr} {a a' : Accounts}
    (hi : Inv clk.unixTimestamp a) (h : i.run cfg clk a = .ok a') :
    Booked clk.unixTimestamp i.limited (i.shares clk.unixTimestamp a)
      (i.moved clk.unixTimestamp a a') a a' := by
  have hquiet : Ensures (i.run cfg clk a) (Booked clk.unixTimestamp i.limited none
      (fun _ ↦ .none) a) → Booked clk.unixTimestamp i.limited none (fun _ ↦ .none) a a' :=
    fun hall ↦ hall a' h
  cases i with
  | openPosition => exact hquiet openPosition_booked
  | closePosition => exact hquiet (closePosition_booked hi)
  | deposit => exact deposit_booked hi h
  | withdraw => exact withdraw_booked hi h
  | borrow => exact borrow_booked hi h
  | repay _ amount => exact repay_booked amount.toNat_lt hi h
  | adjustRate => exact adjustRate_booked hi h
  | claimCollSurplus => exact hquiet claimCollSurplus_booked
  | redeem => exact redeem_booked hi h
  | urgentRedeem => exact urgentRedeem_booked hi h
  | liquidate => exact liquidate_booked hi h
  | openReactorDeposit => exact hquiet (.after fun _ ↦ .after fun _ ↦ .ok (.of_eq rfl rfl))
  | provideToReactor | withdrawFromReactor | claimReactorGains =>
    exact hquiet (.after fun _ ↦ .after fun _ ↦ .after fun _ ↦ .ok (.of_eq rfl rfl))
  | refreshMarket => exact refreshMarket_booked hi h
  | settleBadDebt =>
    refine hquiet (.after fun _ ↦ .after fun _ ↦ .after fun _ ↦ .after fun _ ↦ .after fun _ ↦
      .ok ?_)
    exact .of_market ⟨rfl, rfl, rfl, rfl⟩ rfl rfl rfl fun _ ↦ ⟨rfl, rfl⟩
  | shutdown => exact hquiet (shutdown_booked hi)
  | fundBuffer =>
    exact hquiet (.after fun _ ↦ .after fun _ ↦ .after fun _ ↦ .after fun _ ↦
      .ok (.of_eq rfl rfl))
  | sweepProtocolCollateral | withdrawSurplus =>
    exact hquiet (vaultChecked_ensures
      (payFromCounter_booked ⟨rfl, rfl, rfl, rfl⟩ rfl rfl ⟨rfl, rfl⟩))
  | initReactorPool | initInsuranceBuffer | guardianDerisk =>
    refine hquiet (.after fun _ ↦ .after fun _ ↦ .ok ?_)
    exact .of_market ⟨rfl, rfl, rfl, rfl⟩ rfl rfl rfl fun _ ↦ ⟨rfl, rfl⟩
  | initDebtCeilingLine | setDebtCeilingLine | bumpDebtCeiling =>
    exact hquiet (.after fun _ ↦ .after fun _ ↦ storeLine_booked hi)
  | updatePrice => exact updatePrice_booked h
  | rebindFeeds authority =>
    obtain ⟨anchor, -, rfl⟩ := rebindFeeds_cases h
    exact .of_market ⟨rfl, rfl, rfl, rfl⟩ rfl rfl rfl fun _ ↦ ⟨rfl, rfl⟩
  | executeParamChange =>
    obtain ⟨-, rlAccrued, rfl⟩ := executeParamChange_cases h
    exact .of_market ⟨rfl, rfl, rfl, rfl⟩ rfl rfl rfl (by simp [MarketInstr.limited])
  | mintCollateral | burnCollateral | transferCollateral =>
    exact hquiet (.after fun _ ↦ .ok (.of_eq rfl rfl))

end FusionCore
