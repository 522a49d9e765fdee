import FusionCore.Core.Aggregates
import FusionCore.Core.RedemptionPasses

/-!
# The redemption floor

Ordered redemption only reaches the lowest normal bucket and the zombie pen.  It goes through
exactly when one of the positions there is worth a unit, so a position that a redemption leaves
in its normal bucket with less collateral than that wedges the floor.
-/

namespace FusionCore

open Checked

/-- The value at the mid price of the collateral of a position, once it is current. -/
def valueAtMid (m : Market) (now : ℕ) (p : Position) : Except ProgramError ℕ := do
  let m₁ ← accrue m now
  let mid ← midPrice m₁
  let p₁ ← realize m₁ p now
  okOr (rayMul p₁.ink mid) .mathOverflow

/-- A position with debt and with collateral worth at least one unit. -/
def Redeemable (m : Market) (now : ℕ) (p : Position) : Prop :=
  0 < p.recordedDebt ∧ ∃ v, valueAtMid m now p = .ok v ∧ 0 < v

/-- The label of a position that redemption can reach. -/
def Exposed (bm : RedemptionBitmap) (p : Position) : Prop :=
  p.bucket = ZOMBIE_BUCKET ∨ RateBucket.firstSet bm.words = some p.bucket

instance (m : Market) (now : ℕ) (p : Position) : Decidable (Redeemable m now p) :=
  inferInstanceAs (Decidable (_ ∧ _))

instance (bm : RedemptionBitmap) (p : Position) : Decidable (Exposed bm p) :=
  inferInstanceAs (Decidable (_ ∨ _))

/-! ## Calls -/

structure RedeemCall where
  clock : Clock
  redeemer : Pubkey
  amount : UInt64
  candidates : List Candidate

def RedeemCall.run (c : RedeemCall) (a : Accounts) : Except ProgramError Accounts :=
  redeem c.clock c.redeemer c.amount.toNat c.candidates a

/-- How many of these calls succeed, made one after another.  A failed call leaves the accounts
as they are. -/
def successes (a : Accounts) : List RedeemCall → ℕ
  | [] => 0
  | c :: calls =>
    match c.run a with
    | .ok a' => successes a' calls + 1
    | .error _ => successes a calls

theorem successes_pos_iff {a : Accounts} {calls : List RedeemCall} :
    0 < successes a calls ↔ ∃ c ∈ calls, ∃ a', c.run a = .ok a' := by
  induction calls with
  | nil => simp [successes]
  | cons c calls ih =>
    rw [successes]
    cases hc : c.run a with
    | ok a' => simp [hc]
    | error e => simp [hc, ih]

/-! ## Where a redemption succeeds -/

section Succeeds

variable {clk : Clock} {redeemer : Pubkey} {amount : ℕ} {candidates : List Candidate}
  {a a' : Accounts}

/-- A redemption only succeeds for somebody who holds fUSD, and only where a position that it
can reach is worth a unit. -/
theorem exposed_of_redeem (hamount : amount < 2 ^ 64) (hi : Inv clk.unixTimestamp a)
    (h : redeem clk redeemer amount candidates a = .ok a') :
    0 < a.fusd.balance (.wallet redeemer) ∧
    ∃ owner p, a.state.positions.lookup owner = some p ∧ Exposed a.state.bitmap p ∧
      Redeemable a.state.market clk.unixTimestamp p := by
  obtain ⟨run, rfl⟩ := redeem_run h
  obtain ⟨x, ts, hacc⟩ := accrue_spec hi.book.clock run.accrue_eq
  have hacc' := Accepted.of_pass hi.book hacc run.validate_eq
  have hburn := TokenLedger.burn_le run.burn_eq
  rw [truncate_of_lt ((Nat.sub_le _ _).trans_lt hamount)] at hburn
  refine ⟨run.redeemed_pos.trans_le hburn, ?_⟩
  obtain ⟨e, he, q, amt, hq, hamt, hamtpos⟩ :=
    exists_redeemable_of_pass run.redeem_eq (Nat.lt_of_sub_pos run.redeemed_pos)
  have hmem : e.owner ∈ run.v.order.map OrderEntry.owner :=
    List.mem_map_of_mem ((List.perm_insertionSort _ _).subset he)
  obtain ⟨p, p₁, stake, hp, hd, hb, hreal, hq'⟩ := hacc'.accepted e.owner hmem
  obtain rfl : { p₁ with stake } = q := Option.some.inj (hq'.symm.trans hq)
  refine ⟨e.owner, p, hp, hb, hd, ?_⟩
  simp only [redeemable, bind_eq_ok_iff, okOr_eq_ok, pure_eq_ok] at hamt
  obtain ⟨value, hvalue, rfl⟩ := hamt
  refine ⟨value, ?_, by omega⟩
  simp only [valueAtMid, bind_eq_ok_iff, okOr_eq_ok]
  exact ⟨run.m₁, run.accrue_eq, run.mid, run.midPrice_eq, p₁, hreal, hvalue⟩

/-- The redemption `a ⟶ a'` has taken from the position of `owner` the whole value `v` of its
collateral, which is less than its debt.  The position was `pr` when it was redeemed and is `q`
afterwards. -/
structure Capped (c : RedeemCall) (a a' : Accounts) (owner : Pubkey) (m : Market) (mid v : ℕ)
    (pr q : Position) : Prop where
  run : c.run a = .ok a'
  submitted : .position owner ∈ c.candidates
  accepted : ∃ p, a.state.positions.lookup owner = some p ∧ 0 < p.recordedDebt ∧
    Exposed a.state.bitmap p ∧ realize m p c.clock.unixTimestamp = .ok pr
  accrued : accrue a.state.market c.clock.unixTimestamp = .ok m
  price : midPrice m = .ok mid
  value : rayMul pr.ink mid = some v
  pos : 0 < v
  lt_debt : v < pr.recordedDebt
  left : a'.state.positions.lookup owner = some q
  taken : q.recordedDebt + v = pr.recordedDebt

/-- A capped position leaves its normal bucket exactly when its value buys all of its collateral
back, or the rest of its debt is below the minimum. -/
theorem Capped.zombie_iff {c : RedeemCall} {owner : Pubkey} {m : Market} {mid v : ℕ}
    {pr q : Position} (hi : Inv c.clock.unixTimestamp a)
    (hc : Capped c a a' owner m mid v pr q) :
    q.bucket = ZOMBIE_BUCKET ↔ pr.ink ≤ v * RAY / mid ∨ q.recordedDebt < m.minDebt := by
  obtain ⟨run, hrun⟩ := redeem_run hc.run
  obtain rfl : run.m₁ = m := Except.ok.inj (run.accrue_eq.symm.trans hc.accrued)
  obtain rfl : run.mid = mid := Except.ok.inj (run.midPrice_eq.symm.trans hc.price)
  have hps : a'.state.positions = run.r.state.positions := hrun ▸ rfl
  obtain ⟨p, hp, hd, hexp, hpr⟩ := hc.accepted
  obtain ⟨x, ts, hacc⟩ := accrue_spec hi.book.clock run.accrue_eq
  have hvalid := run.validationInv hi
  have haccepted := Accepted.of_pass hi.book hacc run.validate_eq
  have hmem : owner ∈ run.v.order.map OrderEntry.owner :=
    Accepted.mem_order hacc.realizable ⟨LoopInv.init hi.book hacc, by simp [AllCurrent]⟩
      ⟨fun _ _ ↦ rfl, by simp, by simp, by simp, by simp⟩ run.validate_eq hc.submitted hp hd hexp
  obtain ⟨p', p₁, stake, hp', -, -, hp₁, hstate⟩ := haccepted.accepted owner hmem
  obtain rfl : p = p' := Option.some.inj (hp.symm.trans hp')
  obtain rfl : pr = p₁ := Except.ok.inj (hpr.symm.trans hp₁)
  have hperm := (List.perm_insertionSort OrderEntry.before run.v.order).map OrderEntry.owner
  have hdrawn := (drawn_of_pass (hperm.nodup_iff.mpr haccepted.nodup)
    (fun o _ p hp ↦ hvalid.loop.book.label o p hp) run.redeem_eq owner).2
  have hmin : run.v.state.market.minDebt = run.m₁.minDebt :=
    congrArg (fun s ↦ s.market.minDebt) hvalid.loop.rest
  have htaken := hc.taken
  have hlt := hc.lt_debt
  have hpos := hc.pos
  rw [← hps, hc.left, hstate] at hdrawn
  generalize hpr' : { pr with stake } = pr' at hdrawn
  have hdebt' : pr'.recordedDebt = pr.recordedDebt := hpr' ▸ rfl
  have hink' : pr'.ink = pr.ink := hpr' ▸ rfl
  cases hdrawn with
  | kept => omega
  | drawn amt hdebt hink hbucket =>
    have hleft : 0 < q.recordedDebt := by omega
    obtain rfl : amt = v := by
      clear hink
      omega
    rw [hbucket hleft, hink, hink', Nat.sub_eq_zero_iff_le, le_min_iff]
    simp [hmin]

end Succeeds

/-! ## Where a redemption goes through -/

/-- The widths that a redemption of one position of the market needs: its weight fits twice
over into the weighted sum, and the index has room for another member. -/
structure RedeemFits (s : MarketState) (now : ℕ) : Prop where
  weights : ∀ m, accrue s.market now = .ok m → s.positions.All fun p ↦
    ∀ p₁, realize m p now = .ok p₁ → m.aggWeightedDebtSum + 2 * weightOf p₁ < 2 ^ 128
  room : s.bitmap.Room

section GoesThrough

variable {mid : ℕ} {m : Market} {bm : RedemptionBitmap} {p : Position}

theorem midPrice_pos (h : midPrice m = .ok mid) : 0 < mid := by
  simp only [midPrice, bind_eq_ok_iff, require_eq_ok, okOr_eq_ok, checkedAdd_eq_some, pure_eq_ok,
    exists_const] at h
  obtain ⟨⟨hspot, hdebt⟩, _, ⟨-, rfl⟩, rfl⟩ := h
  omega

theorem exists_drawDown (hmid : 0 < mid) (hdebt : 0 < p.recordedDebt)
    (hagg : p.recordedDebt ≤ m.aggRecordedDebt) (hcoll : p.ink ≤ m.totalCollateral)
    (hcoll' : m.totalCollateral < 2 ^ 64) (hweight : weightOf p ≤ m.aggWeightedDebtSum)
    (hweights : m.aggWeightedDebtSum + weightOf p < 2 ^ 128)
    (hsnap : m.totalCollateralSnapshot = 0 ∨ m.totalStakesSnapshot ≤ m.totalCollateralSnapshot)
    (hstake : p.stake ≤ m.totalStakes) (hstakes : m.totalStakes ≤ m.totalCollateral)
    (hroom : bm.Room) (hmember : ∃ bm', removeMember bm p.bucket = .ok bm') :
    ∃ m' bm' q units, drawDown m bm p mid 1 (weightOf p) p.recordedDebt =
      .ok (m', bm', q, units) := by
  have hbought : 1 * RAY / mid < 2 ^ 128 := by
    calc 1 * RAY / mid ≤ 1 * RAY := Nat.div_le_self _ _
      _ < 2 ^ 128 := by decide
  generalize hu : 1 * RAY / mid = bought at hbought
  set p₁ : Position :=
    { p with recordedDebt := p.recordedDebt - 1 }.setInk (p.ink - min bought p.ink) with hp₁
  set m₁ : Market := { m with
    aggRecordedDebt := m.aggRecordedDebt - 1
    totalCollateral := m.totalCollateral - min bought p.ink } with hm₁
  have hless : weightOf p₁ ≤ weightOf p := by
    simp only [weightOf, hp₁, Position.setInk_recordedDebt, Position.setInk_userRateBps]
    exact Nat.mul_le_mul_right _ (Nat.sub_le _ _)
  obtain ⟨m₂, hm₂⟩ : ∃ m₂, reweight m₁ p₁ (weightOf p) = .ok m₂ :=
    exists_reweight (lt_of_le_of_lt (Nat.add_le_add_left hless _) hweights) hweight
  obtain ⟨sum, -, rfl⟩ := reweight_spec hm₂
  have hink : p₁.ink ≤ p.ink := by simp [hp₁]
  obtain ⟨m₃, p₂, hs⟩ : ∃ m₃ p₂, setStake { m₁ with aggWeightedDebtSum := sum } p₁ =
      .ok (m₃, p₂) := by
    refine exists_setStake hsnap ?_ ?_
    · simpa [hp₁, hm₁] using hstake
    · simp only [hm₁]
      omega
  obtain ⟨stake, total, -, -, -, -, rfl, rfl⟩ := setStake_spec hs
  obtain ⟨bm', q, hrec⟩ := exists_reconcile (p := { p₁ with stake })
    { m₁ with aggWeightedDebtSum := sum, totalStakes := total } hdebt hroom
    (by simpa [hp₁] using hmember)
  simp only [drawDown, bind_eq_ok_iff, okOr_eq_ok, mulDivFloor_eq_some, hu,
    SupplyTransition.redeemStep_eq_some, checkedSub_eq_some, pure_eq_ok, Prod.exists]
  exact ⟨_, _, _, _, bought, ⟨hmid, hbought, rfl⟩, _, ⟨by omega, rfl⟩, _, ⟨by omega, rfl⟩, _, hm₂,
    _, _, hs, bm', q, hrec, rfl⟩

theorem payOut_isOk {coll : TokenLedger CollHolder} {redeemer : Pubkey} {amount : ℕ}
    (h : amount ≤ coll.balance .vault) : ∃ coll', payOut coll redeemer amount = .ok coll' := by
  unfold payOut
  split
  · rw [truncate_of_lt (h.trans_lt (coll.balance_lt .vault))]
    obtain ⟨coll', hcoll⟩ := TokenLedger.exists_transfer (.wallet redeemer) h
    exact ⟨coll', tokenCall_eq_ok.mpr hcoll⟩
  · exact ⟨coll, rfl⟩

variable {clk : Clock} {redeemer owner : Pubkey} {a : Accounts}

theorem exists_validateCandidate {p₁ : Position} {s : MarketState} {now : ℕ} (lowest : Option ℕ)
    (hb : Book now s.market s.bitmap s.positions s.tally)
    (hcoll : s.market.totalCollateral < 2 ^ 64) (hp : s.positions.lookup owner = some p)
    (hd : 0 < p.recordedDebt) (hexp : p.bucket = ZOMBIE_BUCKET ∨ lowest = some p.bucket)
    (hcur : s.market.shutdown = true ∨ s.market.lastUpdateTs = now)
    (hp₁ : realize s.market p now = .ok p₁)
    (hweights : s.market.aggWeightedDebtSum + weightOf p₁ < 2 ^ 128) :
    ∃ sum total stake, sum + weightOf p = s.market.aggWeightedDebtSum + weightOf p₁ ∧
      validateCandidate now lowest ⟨s, [], []⟩ (.position owner) = .ok
        { state := { s with
            market := { s.market with aggWeightedDebtSum := sum, totalStakes := total }
            positions := s.positions.insert owner { p₁ with stake }
            tally := s.tally.realized 1 }
          seen := [owner]
          order := [⟨owner, p₁.ink, p₁.recordedDebt⟩] } := by
  have hreal := realize_spec hcur hp₁
  have hstakes := hb.stakes_le
  obtain ⟨m₁, hm₁⟩ : ∃ m₁, reweight s.market p₁ (weightOf p) = .ok m₁ :=
    exists_reweight hweights (hb.weight_le hp)
  obtain ⟨sum, ⟨hsum, -⟩, rfl⟩ := reweight_spec hm₁
  obtain ⟨m₂, p₂, hs⟩ : ∃ m₂ p₂,
      setStake { s.market with aggWeightedDebtSum := sum } p₁ = .ok (m₂, p₂) := by
    refine exists_setStake hb.snapshot_le ?_ ?_
    · rw [hreal.stake]
      exact hb.stake_le_totalStakes hp
    · have hink := hb.coll_le hp hreal.folded
      dsimp only
      omega
  obtain ⟨stake, total, -, -, -, -, rfl, rfl⟩ := setStake_spec hs
  have hweight : weightOf p < 2 ^ 128 := (hb.weight_le hp).trans_lt hb.weights_lt
  refine ⟨sum, total, stake, hsum, ?_⟩
  simp only [validateCandidate, loadCandidate, hp, Option.map_some, bind_eq_ok_iff,
    Except.ok.injEq, exists_eq_left', require_eq_ok, List.not_mem_nil, not_false_eq_true,
    exists_const, true_and, hd, hexp, and_self, if_true, weighted_eq_ok, hp₁, pure_eq_ok,
    List.nil_append]
  exact ⟨_, ⟨hweight, rfl⟩, _, hm₁, _, hs, rfl⟩

theorem exists_redeemOne {s : MarketState} {now : ℕ} {e : OrderEntry}
    (hb : Book now s.market s.bitmap s.positions s.tally)
    (hcoll : s.market.totalCollateral < 2 ^ 64) (hp : s.positions.lookup e.owner = some p)
    (hcur : p.Current s.market) (hd : 0 < p.recordedDebt) {v : ℕ} (hmid : 0 < mid)
    (hv : rayMul p.ink mid = some v) (hpos : 0 < v)
    (hweights : s.market.aggWeightedDebtSum + weightOf p < 2 ^ 128) (hroom : s.bitmap.Room) :
    ∃ r, redeemOne mid ⟨s, 1, 0⟩ e = .ok r ∧ r.remaining = 0 := by
  have hink := hb.coll_le hp hcur.folded
  obtain ⟨m', bm', q, units, hdraw⟩ := exists_drawDown hmid hd (hb.debt_le hp hcur.folded) hink
    hcoll (hb.weight_le hp) hweights hb.snapshot_le (hb.stake_le_totalStakes hp) hb.stakes_le
    hroom (hb.indexReads.removeMember e.owner p hp hd)
  have hunits : units ≤ p.ink := by
    simp only [drawDown, bind_eq_ok_iff, pure_eq_ok, Prod.mk.injEq] at hdraw
    obtain ⟨bought, -, -, -, -, -, -, -, -, -, -, -, -, -, -, rfl⟩ := hdraw
    exact min_le_right _ _
  have hweight : weightOf p < 2 ^ 128 := (hb.weight_le hp).trans_lt hb.weights_lt
  have hamt : redeemable p mid 1 = .ok 1 := by
    simp only [redeemable, bind_eq_ok_iff, okOr_eq_ok, pure_eq_ok]
    exact ⟨v, hv, by omega⟩
  unfold redeemOne
  simp only [one_ne_zero, if_false, hp, okOr_some, ok_bind, hamt, bind_eq_ok_iff, okOr_eq_ok,
    weighted_eq_ok, checkedAdd_eq_some, pure_eq_ok, Prod.exists]
  exact ⟨_, ⟨_, ⟨hweight, rfl⟩, m', bm', q, units, hdraw, _, ⟨by omega, rfl⟩, rfl⟩, rfl⟩

/-- Once both passes are done, the payment goes through: the vault and the counters cover it. -/
theorem redeem_of_passes {amount : ℕ} {candidates : List Candidate} {m₁ : Market}
    {val : Validation} {r : Redemption} (hamount : amount < 2 ^ 64)
    (hi : Inv clk.unixTimestamp a) (hopen : a.state.market.shutdown = false)
    (hfresh : a.state.market.fresh clk.slot)
    (hlen : candidates.length ≤ MAX_REDEMPTION_CANDIDATES)
    (hm₁ : accrue a.state.market clk.unixTimestamp = .ok m₁) (hmid : midPrice m₁ = .ok mid)
    (htarget : (RateBucket.firstSet a.state.bitmap.words).isSome ∨ 0 < a.state.bitmap.zombieCount)
    (hpass : candidates.foldlM (validateCandidate clk.unixTimestamp
      (RateBucket.firstSet a.state.bitmap.words)) ⟨a.state.accrued m₁, [], []⟩ = .ok val)
    (horder : val.order ≠ [])
    (hloop : (val.order.insertionSort OrderEntry.before).foldlM (redeemOne mid)
      ⟨val.state, amount, 0⟩ = .ok r)
    (hpos : 0 < amount - r.remaining)
    (hheld : amount - r.remaining ≤ a.fusd.balance (.wallet redeemer)) :
    ∃ a', redeem clk redeemer amount candidates a = .ok a' := by
  obtain ⟨x, ts, hacc⟩ := accrue_spec hi.book.clock hm₁
  have hvalid := ValidationInv.of_pass hi.book hacc hpass
  have hred := RedemptionInv.of_pass hvalid (List.perm_insertionSort _ _).subset hloop
  have hdrawn := LoopInv.drawn_lt hi hacc hred.loop
  rw [redeem, vaultChecked_eq fun a' ha' ↦ by
    have := (redeemUnchecked_effect hamount hi ha').inv.vault
    omega]
  set m₂ := r.state.market.storeBaseRate
    (m₁.bumpedBaseRate clk.unixTimestamp (amount - r.remaining)) clk.unixTimestamp with hm₂
  have hsurplus : m₂.surplusCollateral = r.state.market.surplusCollateral := by
    obtain ⟨baseRate, baseRateTs, hstore⟩ := Market.storeBaseRate_eq r.state.market
      (m₁.bumpedBaseRate clk.unixTimestamp (amount - r.remaining)) clk.unixTimestamp
    rw [hm₂, hstore]
  set bps := effectiveFeeBps (m₁.bumpedBaseRate clk.unixTimestamp (amount - r.remaining))
    m₂.redemptionFeeBps m₁.redemptionBaseRateMaxBps MAX_REDEMPTION_FEE_BPS with hbps
  have hbps_le : bps ≤ BPS_DENOMINATOR := effectiveFeeBps_le.trans (by decide)
  have hscaled : r.drawn * bps < 2 ^ 128 :=
    (Nat.mul_le_mul hdrawn.le hbps_le).trans_lt (by decide)
  have hfee : r.drawn * bps / BPS_DENOMINATOR ≤ r.drawn := by
    refine Nat.div_le_of_le_mul ?_
    rw [Nat.mul_comm BPS_DENOMINATOR]
    exact Nat.mul_le_mul_left _ hbps_le
  -- what the loop has drawn is still in the vault, beside the surplus
  have hcovered : r.state.market.surplusCollateral + r.drawn ≤ a.state.coll.balance .vault := by
    have h1 : r.state.market.totalCollateral + r.drawn = m₁.totalCollateral := hred.loop.coll
    have h2 : r.state.market.surplusCollateral = m₁.surplusCollateral :=
      congrArg (fun s ↦ s.market.surplusCollateral) hred.loop.rest
    have h3 := hi.vault
    have h4 := hacc.tracked
    simp only [tracked] at h3 h4
    omega
  have hvault := a.state.coll.balance_lt .vault
  obtain ⟨fusd, hburn⟩ := TokenLedger.exists_burn hheld
  obtain ⟨coll, hpay⟩ : ∃ coll, payOut a.state.coll redeemer
      (r.drawn - r.drawn * bps / BPS_DENOMINATOR) = .ok coll :=
    payOut_isOk ((Nat.sub_le _ _).trans (by omega))
  have hadd : m₂.surplusCollateral + truncate 64 (r.drawn * bps / BPS_DENOMINATOR) < 2 ^ 64 := by
    rw [hsurplus, truncate_of_lt (hfee.trans_lt hdrawn)]
    exact ((Nat.add_le_add_left hfee _).trans hcovered).trans_lt hvault
  rw [← truncate_of_lt ((Nat.sub_le amount r.remaining).trans_lt hamount)] at hburn
  simp only [redeemUnchecked, bind_eq_ok_iff, okOr_eq_ok, require_eq_ok, tokenCall_eq_ok,
    checkedAdd_eq_some, checkedMul_eq_some, pure_eq_ok, exists_const]
  exact ⟨_, by omega, hlen, hopen, m₁, hm₁, mid, hmid, by rw [hacc.eq]; exact hfresh, htarget, val,
    hpass, horder, r, hloop, hpos, _, ⟨hscaled, rfl⟩, _, ⟨hadd, rfl⟩, fusd, hburn, coll, hpay, rfl⟩

theorem exists_redeem {v : ℕ} (hi : Inv clk.unixTimestamp a)
    (hopen : a.state.market.shutdown = false) (hfresh : a.state.market.fresh clk.slot)
    (hfits : RedeemFits a.state clk.unixTimestamp)
    (hheld : 0 < a.fusd.balance (.wallet redeemer))
    (hp : a.state.positions.lookup owner = some p) (hexp : Exposed a.state.bitmap p)
    (hd : 0 < p.recordedDebt) (hv : valueAtMid a.state.market clk.unixTimestamp p = .ok v)
    (hpos : 0 < v) : ∃ a', redeem clk redeemer 1 [.position owner] a = .ok a' := by
  simp only [valueAtMid, bind_eq_ok_iff, okOr_eq_ok] at hv
  obtain ⟨m₁, hm₁, mid, hmid, p₁, hp₁, hv⟩ := hv
  obtain ⟨x, ts, hacc⟩ := accrue_spec hi.book.clock hm₁
  have hb := hi.book.accrue hacc
  have hvault := hi.vault
  have hvault_lt := a.state.coll.balance_lt .vault
  have htracked := hacc.tracked
  simp only [tracked] at hvault htracked
  have hcoll : m₁.totalCollateral < 2 ^ 64 := by omega
  have hweights := hfits.weights m₁ hm₁ owner p hp p₁ hp₁
  have hreal := realize_spec hacc.realizable hp₁
  have hdebt : p.recordedDebt ≤ p₁.recordedDebt := by
    have := hreal.recordedDebt
    omega
  obtain ⟨sum, total, stake, hsum, hval⟩ := exists_validateCandidate (s := a.state.accrued m₁)
    (RateBucket.firstSet a.state.bitmap.words) hb hcoll hp hd hexp hacc.realizable hp₁
    (show m₁.aggWeightedDebtSum + weightOf p₁ < 2 ^ 128 by omega)
  change sum + weightOf p = m₁.aggWeightedDebtSum + weightOf p₁ at hsum
  set entry : OrderEntry := ⟨owner, p₁.ink, p₁.recordedDebt⟩
  generalize hv' : Validation.mk _ [owner] [entry] = val at hval
  have horder : val.order = [entry] := hv' ▸ rfl
  have hpass : [Candidate.position owner].foldlM (validateCandidate clk.unixTimestamp
      (RateBucket.firstSet a.state.bitmap.words)) ⟨a.state.accrued m₁, [], []⟩ = .ok val := by
    rw [List.foldlM_cons, hval]
    rfl
  have hvalid := ValidationInv.of_pass hi.book hacc hpass
  have hp₂ : val.state.positions.lookup owner = some { p₁ with stake } := by
    rw [← hv']
    exact AList.lookup_insert _
  have hcur : Position.Current val.state.market { p₁ with stake } := by
    obtain ⟨q, hq, hcur⟩ := hvalid.current owner (by simp [horder, entry])
    obtain rfl : { p₁ with stake } = q := Option.some.inj (hp₂.symm.trans hq)
    exact hvalid.loop.current_iff.mpr hcur
  obtain ⟨r, hr, hrem⟩ : ∃ r, redeemOne mid ⟨val.state, 1, 0⟩ entry = .ok r ∧ r.remaining = 0 := by
    refine exists_redeemOne hvalid.loop.book ?_ hp₂ hcur (hd.trans_le hdebt) (midPrice_pos hmid)
      hv hpos ?_ ?_
    · rw [← hv']
      exact hcoll
    · rw [← hv']
      change sum + weightOf p₁ < 2 ^ 128
      omega
    · rw [← hv']
      exact hfits.room
  have hloop : (val.order.insertionSort OrderEntry.before).foldlM (redeemOne mid)
      ⟨val.state, 1, 0⟩ = .ok r := by
    rw [horder, List.insertionSort_cons, List.insertionSort_nil, List.orderedInsert_nil,
      List.foldlM_cons, hr]
    rfl
  have htarget : (RateBucket.firstSet a.state.bitmap.words).isSome ∨
      0 < a.state.bitmap.zombieCount := by
    rcases hexp with hpen | hlowest
    · right
      rw [← RedemptionBitmap.size_zombie, hi.book.size_eq_members le_rfl]
      exact members_pos_iff.mpr ⟨owner, p, hp, hd, hpen⟩
    · exact .inl (Option.isSome_of_eq_some hlowest)
  exact redeem_of_passes (by decide) hi hopen hfresh
    (show 1 ≤ MAX_REDEMPTION_CANDIDATES by decide) hm₁ hmid htarget hpass (by simp [horder])
    hloop (by omega) (by omega)

end GoesThrough

instance (s : MarketState) (now : ℕ) : Decidable (RedeemFits s now) :=
  decidable_of_iff ((∀ m, accrue s.market now = .ok m → s.positions.All fun p ↦
      ∀ p₁, realize m p now = .ok p₁ → m.aggWeightedDebtSum + 2 * weightOf p₁ < 2 ^ 128) ∧
      (∀ j < NUM_RATE_BUCKETS, s.bitmap.size j + 1 < 2 ^ 32) ∧
      s.bitmap.size ZOMBIE_BUCKET + 1 < 2 ^ 64)
    ⟨fun ⟨h₁, h₂, h₃⟩ ↦ ⟨h₁, h₂, h₃⟩, fun ⟨h₁, h₂, h₃⟩ ↦ ⟨h₁, h₂, h₃⟩⟩

/-- In every reached state of an open market with a fresh price, and within the widths, some
redemption goes through exactly when somebody holds fUSD and a position of the lowest bucket or
of the pen is worth a unit.  A redemption that takes the whole value of a position leaves it in
a normal bucket, unless that value buys all of the collateral back or the remaining debt is below
the minimum. -/
theorem redemption_floor_live_iff {w : World} (h : fusdCore.Reach w) {mint : Pubkey}
    {state : MarketState} {clk : Clock} (hl : w.protocol.markets.lookup mint = some state)
    (hclk : w.clock.Le clk) (hopen : state.market.shutdown = false)
    (hfresh : state.market.fresh clk.slot) (hfits : RedeemFits state clk.unixTimestamp) :
    ((∃ calls, (∀ c ∈ calls, c.clock = clk) ∧
        0 < successes ⟨state, w.protocol.fusd, w.protocol.backstop⟩ calls) ↔
      (∃ holder, 0 < w.protocol.fusd.balance (.wallet holder)) ∧
      ∃ owner p, state.positions.lookup owner = some p ∧ Exposed state.bitmap p ∧
        Redeemable state.market clk.unixTimestamp p) ∧
    ∀ c a' owner m mid v pr q, w.clock.Le c.clock →
      Capped c ⟨state, w.protocol.fusd, w.protocol.backstop⟩ a' owner m mid v pr q →
      (¬(0 < q.recordedDebt ∧ q.bucket < NUM_RATE_BUCKETS) ↔
        pr.ink ≤ v * RAY / mid ∨ pr.recordedDebt < m.minDebt + v) := by
  refine ⟨⟨?_, ?_⟩, ?_⟩
  · rintro ⟨calls, hcalls, hpos⟩
    obtain ⟨c, hc, a', hrun⟩ := successes_pos_iff.mp hpos
    have hi := fusdCore_market_inv h hclk hl
    rw [← hcalls c hc] at hi ⊢
    obtain ⟨hheld, hexposed⟩ := exposed_of_redeem c.amount.toNat_lt hi hrun
    exact ⟨⟨c.redeemer, hheld⟩, hexposed⟩
  · rintro ⟨⟨holder, hheld⟩, owner, p, hp, hexp, hd, v, hv, hpos⟩
    have hi := fusdCore_market_inv h hclk hl
    obtain ⟨a', hrun⟩ := exists_redeem hi hopen hfresh hfits hheld hp hexp hd hv hpos
    refine ⟨[⟨clk, holder, 1, [.position owner]⟩], by simp, ?_⟩
    exact successes_pos_iff.mpr ⟨_, List.mem_singleton_self _, a', hrun⟩
  · intro c a' owner m mid v pr q hle hcapped
    have hi := fusdCore_market_inv h hle hl
    have hzombie := hcapped.zombie_iff hi
    have hlabel := (redeem_effect c.amount.toNat_lt hi hcapped.run).inv.book.label owner q
      hcapped.left
    have htaken := hcapped.taken
    have hlt := hcapped.lt_debt
    have hleft : 0 < q.recordedDebt := by omega
    have hnormal : ¬q.bucket < NUM_RATE_BUCKETS ↔ q.bucket = ZOMBIE_BUCKET :=
      ⟨fun hnot ↦ le_antisymm (hlabel hleft) (not_lt.mp hnot), fun heq ↦ heq ▸ lt_irrefl _⟩
    rw [not_and, hnormal]
    have hrest : pr.recordedDebt < m.minDebt + v ↔ q.recordedDebt < m.minDebt := by omega
    rw [hrest, ← hzombie]
    exact ⟨fun himp ↦ himp hleft, fun hz _ ↦ hz⟩

theorem valueAtMid_eq {m : Market} {p : Position} {now v : ℕ} (hle : m.lastUpdateTs ≤ now)
    (h : valueAtMid m now p = .ok v) : v = ownedColl m p * ((m.spot + m.debtSpot) / 2) / RAY := by
  simp only [valueAtMid, midPrice, bind_eq_ok_iff, require_eq_ok, okOr_eq_ok, checkedAdd_eq_some,
    rayMul_eq_some, pure_eq_ok, exists_const] at h
  obtain ⟨m₁, hm₁, _, ⟨-, _, ⟨-, rfl⟩, rfl⟩, p₁, hp₁, -, rfl⟩ := h
  obtain ⟨x, ts, hacc⟩ := accrue_spec hle hm₁
  have hink : p₁.ink = ownedColl m₁ p := (realize_spec hacc.realizable hp₁).ink
  rw [hink, hacc.eq]
  rfl

namespace Sample

/-- What the redemption of the sample market needs, for the position of owner 100. -/
def Live (w : World) (state : MarketState) (p : Position) : Prop :=
  w.clock.Le clock ∧ state.market.shutdown = false ∧ state.market.fresh clock.slot ∧
    RedeemFits state clock.unixTimestamp ∧ 0 < w.protocol.fusd.balance (.wallet 100) ∧
    Exposed state.bitmap p ∧ Redeemable state.market clock.unixTimestamp p

instance (w : World) (state : MarketState) (p : Position) : Decidable (Live w state p) :=
  inferInstanceAs (Decidable (_ ∧ _))

end Sample

theorem redemption_floor_live_iff_sample : ∃ w state,
    fusdCore.Reach w ∧ w.protocol.markets.lookup 7 = some state ∧
    state.market.shutdown = false ∧ state.market.fresh Sample.clock.slot ∧
    ∃ calls, (∀ c ∈ calls, c.clock = Sample.clock) ∧
      0 < successes ⟨state, w.protocol.fusd, w.protocol.backstop⟩ calls := by
  have hrun : ((Sample.world Sample.instrs).bind fun w ↦
      (w.protocol.markets.lookup 7).bind fun state ↦
        (state.positions.lookup 100).map fun p ↦ decide (Sample.Live w state p)) =
      some true := by decide +kernel
  simp only [Option.bind_eq_some_iff, Option.map_eq_some_iff, decide_eq_true_eq] at hrun
  obtain ⟨w, hw, state, hl, p, hp, hclk, hopen, hfresh, hfits, hheld, hexp, hworth⟩ := hrun
  have hiff := redemption_floor_live_iff (Sample.reach hw) hl hclk hopen hfresh hfits
  exact ⟨w, state, Sample.reach hw, hl, hopen, hfresh,
    hiff.1.mpr ⟨⟨100, hheld⟩, 100, p, hp, hexp, hworth⟩⟩

namespace Sample

/-- Owner 100 holds one unit more than ten tokens in a low bucket, owner 200 a thousand tokens
in a high one; then the price falls from 150 to 50 dollars. -/
def crashed : List Instr :=
  onboard 0 ++ [.market 7 (.mintCollateral 100 10000000001),
      .market 7 (.mintCollateral 200 1000000000000), quote (15 * 10 ^ 25)] ++
    borrows 100 300 10000000001 ++ borrows 200 1000 1000000000000 ++ [quote (5 * 10 ^ 25)]

/-- Owner 200 redeems against owner 100. -/
def call : RedeemCall := ⟨clock, 200, 600000000, [.position 100]⟩

/-- Owner 200 holds fUSD and a position worth redeeming, but what redemption can reach is worth
nothing. -/
def Wedged (w : World) (state : MarketState) (p : Position) : Prop :=
  state.market.shutdown = false ∧ state.market.fresh w.clock.slot ∧
    0 < w.protocol.fusd.balance (.wallet 200) ∧
    Redeemable state.market w.clock.unixTimestamp p ∧
    state.positions.All fun p ↦ Exposed state.bitmap p →
      ownedColl state.market p * ((state.market.spot + state.market.debtSpot) / 2) / RAY = 0

instance (w : World) (state : MarketState) (p : Position) : Decidable (Wedged w state p) :=
  inferInstanceAs (Decidable (_ ∧ _))

end Sample

/-- Where nothing that redemption can reach is worth a unit, no sequence of calls succeeds, at
any time. -/
theorem successes_eq_zero {w : World} (h : fusdCore.Reach w) {mint : Pubkey}
    {state : MarketState} (hl : w.protocol.markets.lookup mint = some state)
    (hdust : state.positions.All fun p ↦ Exposed state.bitmap p →
      ownedColl state.market p * ((state.market.spot + state.market.debtSpot) / 2) / RAY = 0)
    {calls : List RedeemCall} (hcalls : ∀ c ∈ calls, w.clock.Le c.clock) :
    successes ⟨state, w.protocol.fusd, w.protocol.backstop⟩ calls = 0 := by
  apply Nat.eq_zero_of_not_pos
  intro hpos
  obtain ⟨c, hc, a', hrun⟩ := successes_pos_iff.mp hpos
  have hi := fusdCore_market_inv h (hcalls c hc) hl
  obtain ⟨-, owner, p, hp, hexp, -, v, hv, hvpos⟩ := exposed_of_redeem c.amount.toNat_lt hi hrun
  have hvalue := valueAtMid_eq hi.book.clock hv
  rw [hdust owner p hp hexp] at hvalue
  exact hvpos.ne' hvalue

/-- A redemption takes the 500 dollars that the position of owner 100 is worth and leaves one
unit of collateral and its bucket to it; after that no redemption succeeds. -/
theorem redemption_floor_wedged :
    (∃ w state, fusdCore.Reach w ∧ w.protocol.markets.lookup 7 = some state ∧
      state.market.shutdown = false ∧ state.market.fresh w.clock.slot ∧
      (∃ holder, 0 < w.protocol.fusd.balance (.wallet holder)) ∧
      (∃ owner p, state.positions.lookup owner = some p ∧
        Redeemable state.market w.clock.unixTimestamp p) ∧
      ∀ calls, (∀ c ∈ calls, w.clock.Le c.clock) →
        successes ⟨state, w.protocol.fusd, w.protocol.backstop⟩ calls = 0) ∧
    ∃ w state a' m mid v pr q, fusdCore.Reach w ∧ w.protocol.markets.lookup 7 = some state ∧
      w.clock.Le Sample.call.clock ∧
      Capped Sample.call ⟨state, w.protocol.fusd, w.protocol.backstop⟩ a' 100 m mid v pr q ∧
      0 < q.recordedDebt ∧ q.bucket < NUM_RATE_BUCKETS := by
  constructor
  · have hrun : ((Sample.world (Sample.crashed ++
          [.market 7 (.redeem 200 600000000 [.position 100])])).bind fun w ↦
        (w.protocol.markets.lookup 7).bind fun state ↦
          (state.positions.lookup 200).map fun p ↦ decide (Sample.Wedged w state p)) =
        some true := by decide +kernel
    simp only [Option.bind_eq_some_iff, Option.map_eq_some_iff, decide_eq_true_eq] at hrun
    obtain ⟨w, hw, state, hl, p, hp, hopen, hfresh, hheld, hworth, hdust⟩ := hrun
    exact ⟨w, state, Sample.reach hw, hl, hopen, hfresh, ⟨200, hheld⟩, ⟨200, p, hp, hworth⟩,
      fun calls hcalls ↦ successes_eq_zero (Sample.reach hw) hl hdust hcalls⟩
  · have hrun : ((Sample.world Sample.crashed).bind fun w ↦
        (w.protocol.markets.lookup 7).bind fun state ↦
        (state.positions.lookup 100).bind fun p ↦
        (accrue state.market Sample.clock.unixTimestamp).toOption.bind fun m ↦
        (midPrice m).toOption.bind fun mid ↦
        (realize m p Sample.clock.unixTimestamp).toOption.bind fun pr ↦
        (rayMul pr.ink mid).bind fun v ↦
        (Sample.call.run ⟨state, w.protocol.fusd, w.protocol.backstop⟩).toOption.bind fun a' ↦
        (a'.state.positions.lookup 100).map fun q ↦
          decide (w.clock.Le Sample.call.clock ∧ 0 < p.recordedDebt ∧ Exposed state.bitmap p ∧
            0 < v ∧ v < pr.recordedDebt ∧ q.recordedDebt + v = pr.recordedDebt ∧
            0 < q.recordedDebt ∧ q.bucket < NUM_RATE_BUCKETS)) = some true := by
      decide +kernel
    simp only [Option.bind_eq_some_iff, Option.map_eq_some_iff, toOption_eq_some,
      decide_eq_true_eq] at hrun
    obtain ⟨w, hw, state, hl, p, hp, m, hm, mid, hmid, pr, hpr, v, hv, a', ha', q, hq, hclk, hd,
      hexp, hpos, hlt, htaken, hleft, hnormal⟩ := hrun
    refine ⟨w, state, a', m, mid, v, pr, q, Sample.reach hw, hl, hclk, ?_, hleft, hnormal⟩
    exact ⟨ha', List.mem_singleton_self _, ⟨p, hp, hd, hexp, hpr⟩, hm, hmid, hv, hpos, hlt, hq,
      htaken⟩

end FusionCore
