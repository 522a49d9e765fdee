import FusionCore.Core.RedemptionOrder

/-!
# What a redemption takes and what it pays

Both redemption loops draw positions down at one price.  A draw never buys more collateral than
the debt it removes is worth, and never removes more debt than the collateral is worth; so a
covered position stays covered, at no lower a ratio, and the sums over the draws bound what the
redeemer and the protocol receive by the fUSD that is burned.
-/

namespace FusionCore

open Checked

/-! ## Draws -/

/-- What a redemption does to one position: `current` is the position brought current. -/
structure Draw where
  owner : Pubkey
  current : Position
  left : Position

namespace Draw

/-- The debt a draw removes. -/
def taken (d : Draw) : ℕ := d.current.recordedDebt - d.left.recordedDebt

/-- The collateral a draw removes. -/
def units (d : Draw) : ℕ := d.current.ink - d.left.ink

/-- A draw at the price `mid` that neither overpays nor takes more than the collateral is worth. -/
structure Fair (mid : ℕ) (d : Draw) : Prop where
  recordedDebt_le : d.left.recordedDebt ≤ d.current.recordedDebt
  ink_le : d.left.ink ≤ d.current.ink
  units_worth : d.units * mid ≤ d.taken * RAY
  taken_le : d.taken ≤ d.current.ink * mid / RAY

end Draw

/-- The collateral of a position is worth at least its debt. -/
def Position.CoveredAt (mid : ℕ) (p : Position) : Prop := p.recordedDebt * RAY ≤ p.ink * mid

/-- The exact ratio of collateral to debt. -/
def Position.ratio (p : Position) : ℚ := p.ink / p.recordedDebt

def takenBy (draws : List Draw) : ℕ := (draws.map Draw.taken).sum

def unitsOf (draws : List Draw) : ℕ := (draws.map Draw.units).sum

section Draw

variable {mid : ℕ} {d : Draw} {draws : List Draw}

theorem Draw.Fair.left_recordedDebt (hf : d.Fair mid) :
    d.left.recordedDebt + d.taken = d.current.recordedDebt :=
  Nat.add_sub_cancel' hf.recordedDebt_le

theorem Draw.Fair.left_ink (hf : d.Fair mid) : d.left.ink + d.units = d.current.ink :=
  Nat.add_sub_cancel' hf.ink_le

theorem Draw.Fair.covered (hf : d.Fair mid) (h : d.current.CoveredAt mid) :
    d.left.CoveredAt mid := by
  unfold Position.CoveredAt at h ⊢
  have hworth := hf.units_worth
  rw [← hf.left_recordedDebt, ← hf.left_ink, Nat.add_mul, Nat.add_mul] at h
  omega

theorem Draw.Fair.units_mul_le (hf : d.Fair mid) (h : d.current.CoveredAt mid) :
    d.units * d.current.recordedDebt ≤ d.current.ink * d.taken := by
  refine Nat.le_of_mul_le_mul_right ?_ RAY_pos
  calc
    d.units * d.current.recordedDebt * RAY = d.units * (d.current.recordedDebt * RAY) :=
      Nat.mul_assoc _ _ _
    _ ≤ d.units * (d.current.ink * mid) := Nat.mul_le_mul_left _ h
    _ = d.current.ink * (d.units * mid) := Nat.mul_left_comm _ _ _
    _ ≤ d.current.ink * (d.taken * RAY) := Nat.mul_le_mul_left _ hf.units_worth
    _ = d.current.ink * d.taken * RAY := (Nat.mul_assoc _ _ _).symm

theorem Draw.Fair.ratio_le (hf : d.Fair mid) (h : d.current.CoveredAt mid)
    (hleft : 0 < d.left.recordedDebt) : d.current.ratio ≤ d.left.ratio := by
  have hcurrent : 0 < d.current.recordedDebt := hleft.trans_le hf.recordedDebt_le
  have hcross : d.current.ink * d.left.recordedDebt ≤ d.left.ink * d.current.recordedDebt := by
    have hshare := hf.units_mul_le h
    have hink := congrArg (· * d.current.recordedDebt) hf.left_ink
    have hdebt := congrArg (d.current.ink * ·) hf.left_recordedDebt
    simp only [Nat.add_mul] at hink
    simp only [Nat.mul_add] at hdebt
    omega
  unfold Position.ratio
  rw [div_le_div_iff₀ (by exact_mod_cast hcurrent) (by exact_mod_cast hleft)]
  exact_mod_cast hcross

theorem unitsOf_worth (h : ∀ d ∈ draws, d.Fair mid) :
    unitsOf draws * mid ≤ takenBy draws * RAY := by
  unfold unitsOf takenBy
  rw [← List.sum_map_mul_right, ← List.sum_map_mul_right]
  exact List.sum_le_sum fun d hd ↦ (h d hd).units_worth

end Draw

/-! ## One visit of a loop -/

section Visit

variable {mid remaining amt units : ℕ} {p q : Position}

theorem redeemable_le_value (h : redeemable p mid remaining = .ok amt) :
    amt ≤ p.ink * mid / RAY := by
  simp only [redeemable, bind_eq_ok_iff, okOr_eq_ok, rayMul_eq_some, pure_eq_ok] at h
  obtain ⟨_, ⟨-, rfl⟩, rfl⟩ := h
  exact Nat.min_le_right _ _

theorem DrawnDown.fair (hd : DrawnDown mid amt units p q)
    (h : redeemable p mid remaining = .ok amt) (owner : Pubkey) :
    Draw.Fair mid ⟨owner, p, q⟩ ∧ Draw.taken ⟨owner, p, q⟩ = amt ∧
      Draw.units ⟨owner, p, q⟩ = units := by
  have hle := (redeemable_le h).2
  have hunits : units ≤ p.ink := hd.bought ▸ Nat.min_le_right _ _
  have htaken : Draw.taken ⟨owner, p, q⟩ = amt := by
    simp only [Draw.taken, hd.recordedDebt]
    omega
  have hgiven : Draw.units ⟨owner, p, q⟩ = units := by
    simp only [Draw.units, hd.ink]
    omega
  refine ⟨⟨?_, ?_, ?_, ?_⟩, htaken, hgiven⟩
  · exact hd.recordedDebt ▸ Nat.sub_le _ _
  · exact hd.ink ▸ Nat.sub_le _ _
  · rw [htaken, hgiven, hd.bought]
    exact (Nat.mul_le_mul_right mid (Nat.min_le_left _ _)).trans (Nat.div_mul_le_self _ _)
  · rw [htaken]
    exact redeemable_le_value h

theorem Draw.fair_refl (mid : ℕ) (owner : Pubkey) (p : Position) :
    Draw.Fair mid ⟨owner, p, p⟩ ∧ Draw.taken ⟨owner, p, p⟩ = 0 ∧ Draw.units ⟨owner, p, p⟩ = 0 := by
  have htaken : Draw.taken ⟨owner, p, p⟩ = 0 := Nat.sub_self _
  have hunits : Draw.units ⟨owner, p, p⟩ = 0 := Nat.sub_self _
  refine ⟨⟨le_refl _, le_refl _, ?_, ?_⟩, htaken, hunits⟩
  · rw [hunits, Nat.zero_mul]
    exact Nat.zero_le _
  · rw [htaken]
    exact Nat.zero_le _

theorem redeemOne_draw {r r' : Redemption} {e : OrderEntry} (h : redeemOne mid r e = .ok r')
    (hp : r.state.positions.lookup e.owner = some p) :
    ∃ q, r'.state.positions.lookup e.owner = some q ∧
      (∀ o ≠ e.owner, r'.state.positions.lookup o = r.state.positions.lookup o) ∧
      Draw.Fair mid ⟨e.owner, p, q⟩ ∧
      r'.remaining + Draw.taken ⟨e.owner, p, q⟩ = r.remaining ∧
      r'.drawn = r.drawn + Draw.units ⟨e.owner, p, q⟩ := by
  obtain ⟨hfair, htaken, hunits⟩ := Draw.fair_refl mid e.owner p
  obtain ⟨-, rfl⟩ | ⟨-, p', amt, hp', hamt, hcase⟩ := redeemOne_spec h
  · exact ⟨p, hp, fun _ _ ↦ rfl, hfair, by rw [htaken, Nat.add_zero],
      by rw [hunits, Nat.add_zero]⟩
  obtain rfl := Option.some.inj (hp.symm.trans hp')
  obtain ⟨-, rfl⟩ | ⟨-, m, bm, q, units, hdraw, hps, -, hremaining, hdrawn⟩ := hcase
  · exact ⟨p, hp, fun _ _ ↦ rfl, hfair, by rw [htaken, Nat.add_zero],
      by rw [hunits, Nat.add_zero]⟩
  · obtain ⟨hfair', htaken', hunits'⟩ := (drawnDown_of_drawDown hdraw).fair hamt e.owner
    have hle := (redeemable_le hamt).1
    refine ⟨q, ?_, ?_, hfair', ?_, ?_⟩
    · rw [hps, AList.lookup_insert]
    · intro o ho
      rw [hps, AList.lookup_insert_ne ho]
    · rw [htaken']
      omega
    · rw [hunits']
      exact hdrawn

end Visit

/-! ## Whole loops -/

/-- From `s` to `s'` exactly the positions of `draws` are touched, each once: it is brought
current, and then drawn down at the price `mid`. -/
structure Redeems (now mid : ℕ) (m : Market) (s s' : MarketState) (draws : List Draw) : Prop where
  nodup : (draws.map Draw.owner).Nodup
  touched : ∀ d ∈ draws, ∃ p p₁ stake, s.positions.lookup d.owner = some p ∧
    realize m p now = .ok p₁ ∧ d.current = { p₁ with stake } ∧
    s'.positions.lookup d.owner = some d.left
  fair : ∀ d ∈ draws, d.Fair mid
  untouched : ∀ o ∉ draws.map Draw.owner, s'.positions.lookup o = s.positions.lookup o

section Loops

variable {now mid amount : ℕ} {s : MarketState} {m₁ : Market}

theorem exists_draws {r r' : Redemption} {l : List OrderEntry}
    (hnodup : (l.map OrderEntry.owner).Nodup)
    (hentries : ∀ e ∈ l, ∃ p, r.state.positions.lookup e.owner = some p)
    (h : l.foldlM (redeemOne mid) r = .ok r') :
    ∃ draws, draws.map Draw.owner = l.map OrderEntry.owner ∧
      (∀ d ∈ draws, r.state.positions.lookup d.owner = some d.current ∧
        r'.state.positions.lookup d.owner = some d.left ∧ d.Fair mid) ∧
      (∀ o ∉ draws.map Draw.owner,
        r'.state.positions.lookup o = r.state.positions.lookup o) ∧
      r'.remaining + takenBy draws = r.remaining ∧ r'.drawn = r.drawn + unitsOf draws := by
  induction l generalizing r with
  | nil =>
    rw [List.foldlM_nil, pure_eq_ok] at h
    subst h
    exact ⟨[], rfl, by simp, fun _ _ ↦ rfl, rfl, rfl⟩
  | cons e l ih =>
    rw [List.foldlM_cons] at h
    obtain ⟨r₁, hr₁, hrest⟩ := bind_eq_ok_iff.mp h
    rw [List.map_cons, List.nodup_cons] at hnodup
    obtain ⟨p, hp⟩ := hentries e List.mem_cons_self
    obtain ⟨q, hq, hother, hfair, hremaining, hdrawn⟩ := redeemOne_draw hr₁ hp
    have hne : ∀ o ∈ l.map OrderEntry.owner, o ≠ e.owner := fun o ho heq ↦ hnodup.1 (heq ▸ ho)
    have hlater : ∀ f ∈ l, ∃ p, r₁.state.positions.lookup f.owner = some p := by
      intro f hf
      rw [hother _ (hne _ (List.mem_map_of_mem hf))]
      exact hentries f (List.mem_cons_of_mem e hf)
    obtain ⟨draws, howners, hdraws, hout, htaken, hunits⟩ := ih hnodup.2 hlater hrest
    have hmem : ∀ d ∈ draws, d.owner ∈ l.map OrderEntry.owner :=
      fun d hd ↦ howners ▸ List.mem_map_of_mem hd
    refine ⟨⟨e.owner, p, q⟩ :: draws, ?_, ?_, ?_, ?_, ?_⟩
    · rw [List.map_cons, List.map_cons, howners]
    · intro d hd
      rcases List.mem_cons.mp hd with rfl | hd
      · refine ⟨hp, ?_, hfair⟩
        rw [hout _ (howners ▸ hnodup.1)]
        exact hq
      · obtain ⟨hcur, hleft, hd'⟩ := hdraws d hd
        rw [hother _ (hne _ (hmem d hd))] at hcur
        exact ⟨hcur, hleft, hd'⟩
    · intro o ho
      rw [List.map_cons, List.mem_cons, not_or] at ho
      rw [hout o ho.2, hother o ho.1]
    · simp only [takenBy, List.map_cons, List.sum_cons] at htaken ⊢
      omega
    · simp only [unitsOf, List.map_cons, List.sum_cons] at hunits ⊢
      omega

theorem redeems_of_passes {x ts : ℕ} {lowest : Option ℕ} {candidates : List Candidate}
    {v : Validation} {r : Redemption}
    (hb : Book now s.market s.bitmap s.positions s.tally) (hacc : Accrued s.market m₁ now x ts)
    (hv : candidates.foldlM (validateCandidate now lowest) ⟨s.accrued m₁, [], []⟩ = .ok v)
    (hr : (v.order.insertionSort OrderEntry.before).foldlM (redeemOne mid) ⟨v.state, amount, 0⟩ =
      .ok r) :
    ∃ draws, Redeems now mid m₁ s r.state draws ∧ r.remaining + takenBy draws = amount ∧
      r.drawn = unitsOf draws := by
  have haccepted := Accepted.of_pass hb hacc hv
  have hperm := List.perm_insertionSort OrderEntry.before v.order
  have hnodup := (hperm.map OrderEntry.owner).nodup_iff.mpr haccepted.nodup
  have hentries : ∀ e ∈ v.order.insertionSort OrderEntry.before,
      ∃ p, v.state.positions.lookup e.owner = some p := by
    intro e he
    obtain ⟨q, hq, -⟩ := haccepted.entries e (hperm.subset he)
    exact ⟨q, hq⟩
  obtain ⟨draws, howners, hdraws, hout, htaken, hunits⟩ := exists_draws hnodup hentries hr
  have hmem : ∀ o, o ∈ draws.map Draw.owner ↔ o ∈ v.order.map OrderEntry.owner := by
    intro o
    rw [howners]
    exact (hperm.map OrderEntry.owner).mem_iff
  refine ⟨draws, ⟨howners ▸ hnodup, ?_, fun d hd ↦ (hdraws d hd).2.2, ?_⟩, htaken, ?_⟩
  · intro d hd
    obtain ⟨hcur, hleft, -⟩ := hdraws d hd
    obtain ⟨p, p₁, stake, hp, -, -, hp₁, hq⟩ :=
      haccepted.accepted d.owner ((hmem _).mp (List.mem_map_of_mem hd))
    exact ⟨p, p₁, stake, hp, hp₁, Option.some.inj (hcur.symm.trans hq), hleft⟩
  · intro o ho
    rw [hout o ho]
    exact untouched_of_pass hv o ((hmem o).not.mp ho)
  · rw [hunits]
    exact Nat.zero_add _

/-- What the urgent loop has done so far. -/
structure UrgentDraws (now mid amount : ℕ) (m : Market) (s : MarketState) (r : UrgentRedemption)
    (draws : List Draw) : Prop where
  redeems : Redeems now mid m s r.state draws
  seen : ∀ d ∈ draws, d.owner ∈ r.seen
  remaining : r.remaining + takenBy draws = amount
  drawn : r.drawn = unitsOf draws

theorem UrgentDraws.step {r r' : UrgentRedemption} {c : Candidate} {draws : List Draw}
    (hrest : r.state.rest = (s.accrued m₁).rest) (hd : UrgentDraws now mid amount m₁ s r draws)
    (h : urgentOne now mid r c = .ok r') : ∃ draws', UrgentDraws now mid amount m₁ s r' draws' := by
  obtain rfl | ⟨owner, p, p₁, q, amt, units, -, hp, hnew, hseen, hp₁, hamt, hdown, hps, hremaining,
    hdrawn⟩ := urgentOne_cases h
  · exact ⟨draws, hd⟩
  -- a candidate that has not been met is still as it was at the start
  have hfresh : owner ∉ draws.map Draw.owner := by
    intro hmem
    obtain ⟨d, hdm, rfl⟩ := List.mem_map.mp hmem
    exact hnew (hd.seen d hdm)
  rw [hd.redeems.untouched owner hfresh] at hp
  rw [realize_of_rest hrest] at hp₁
  obtain ⟨hfair, htaken, hunits⟩ := hdown.fair hamt owner
  have hle := (redeemable_le hamt).1
  have hother : ∀ o ≠ owner, r'.state.positions.lookup o = r.state.positions.lookup o := by
    intro o ho
    rw [hps, AList.lookup_insert_ne ho]
  refine ⟨⟨owner, p₁, q⟩ :: draws, ⟨?_, ?_, ?_, ?_⟩, ?_, ?_, ?_⟩
  · rw [List.map_cons, List.nodup_cons]
    exact ⟨hfresh, hd.redeems.nodup⟩
  · intro d hdm
    rcases List.mem_cons.mp hdm with rfl | hdm
    · refine ⟨p, p₁, p₁.stake, hp, hp₁, rfl, ?_⟩
      rw [hps, AList.lookup_insert]
    · rw [hother d.owner fun heq ↦ hfresh (heq ▸ List.mem_map_of_mem hdm)]
      exact hd.redeems.touched d hdm
  · intro d hdm
    rcases List.mem_cons.mp hdm with rfl | hdm
    · exact hfair
    · exact hd.redeems.fair d hdm
  · intro o ho
    rw [List.map_cons, List.mem_cons, not_or] at ho
    rw [hother o ho.1, hd.redeems.untouched o ho.2]
  · intro d hdm
    rw [hseen]
    rcases List.mem_cons.mp hdm with rfl | hdm
    · exact List.mem_cons_self
    · exact List.mem_cons_of_mem owner (hd.seen d hdm)
  · have hsum := hd.remaining
    simp only [takenBy, List.map_cons, List.sum_cons, htaken] at hsum ⊢
    omega
  · rw [hdrawn, hd.drawn]
    simp only [unitsOf, List.map_cons, List.sum_cons, hunits]
    exact Nat.add_comm _ _

theorem redeems_of_urgentPass {x ts : ℕ} {candidates : List Candidate} {r : UrgentRedemption}
    (hb : Book now s.market s.bitmap s.positions s.tally) (hacc : Accrued s.market m₁ now x ts)
    (hr : candidates.foldlM (urgentOne now mid) ⟨⟨s.accrued m₁, amount, 0⟩, []⟩ = .ok r) :
    ∃ draws, Redeems now mid m₁ s r.state draws ∧ r.remaining + takenBy draws = amount ∧
      r.drawn = unitsOf draws := by
  have hboth : RedemptionInv now (s.accrued m₁) amount [] r.toRedemption ∧
      ∃ draws, UrgentDraws now mid amount m₁ s r draws := by
    refine foldlM_invariant (P := fun r : UrgentRedemption ↦
      RedemptionInv now (s.accrued m₁) amount [] r.toRedemption ∧
        ∃ draws, UrgentDraws now mid amount m₁ s r draws) ?_ ?_ hr
    · rintro c - r r' ⟨hinv, draws, hd⟩ hstep
      exact ⟨hinv.urgentStep hacc.realizable hstep, hd.step hinv.loop.rest hstep⟩
    · refine ⟨⟨by simpa using LoopInv.init hb hacc, le_rfl, by simp [AllCurrent]⟩, [], ?_⟩
      exact ⟨⟨by simp, by simp, by simp, fun _ _ ↦ rfl⟩, by simp, rfl, rfl⟩
  obtain ⟨-, draws, hd⟩ := hboth
  exact ⟨draws, hd.redeems, hd.remaining, hd.drawn⟩

end Loops

/-! ## What changes hands -/

/-- The tokens of a redemption: the redeemer burns the debt that was taken, receives `payout`, and
the market keeps `fee`. -/
structure Settled (redeemer : Pubkey) (amount : ℕ) (a a' : Accounts) (draws : List Draw)
    (payout fee : ℕ) : Prop where
  requested : takenBy draws ≤ amount
  supply : a'.fusd.supply + takenBy draws = a.fusd.supply
  burned : a'.fusd.balance (.wallet redeemer) + takenBy draws = a.fusd.balance (.wallet redeemer)
  vault : a'.state.coll.balance .vault + payout = a.state.coll.balance .vault
  received : a'.state.coll.balance (.wallet redeemer) =
    a.state.coll.balance (.wallet redeemer) + payout
  surplus : a'.state.market.surplusCollateral = a.state.market.surplusCollateral + fee
  removed : payout + fee = unitsOf draws
  collateral : a'.state.market.totalCollateral + unitsOf draws = a.state.market.totalCollateral

theorem payOut_wallet {coll coll' : TokenLedger CollHolder} {redeemer : Pubkey} {amount : ℕ}
    (hfit : amount < 2 ^ 64) (h : payOut coll redeemer amount = .ok coll') :
    coll'.balance (.wallet redeemer) = coll.balance (.wallet redeemer) + amount := by
  rcases ite_eq_ok.mp h with ⟨-, h⟩ | ⟨hzero, h⟩
  · rw [truncate_of_lt hfit, tokenCall_eq_ok] at h
    simpa using TokenLedger.transfer_balance h (.wallet redeemer)
  · cases h
    rw [Nat.eq_zero_of_not_pos hzero, Nat.add_zero]

section Handlers

variable {clk : Clock} {redeemer : Pubkey} {amount : ℕ} {candidates : List Candidate}
  {a a' : Accounts}

theorem settled_of_loop {now x ts remaining drawn fee : ℕ} {m₁ : Market} {s : MarketState}
    {draws : List Draw} {coll : TokenLedger CollHolder} {fusd : TokenLedger FusdHolder}
    (hi : Inv now a) (hacc : Accrued a.state.market m₁ now x ts)
    (hl : LoopInv now (a.state.accrued m₁) s (amount - remaining) drawn)
    (hremaining : remaining + takenBy draws = amount) (hdrawn : drawn = unitsOf draws)
    (hfee : fee ≤ drawn)
    (hburn : a.fusd.burn (.wallet redeemer) (amount - remaining) = .ok fusd)
    (hpay : payOut a.state.coll redeemer (drawn - fee) = .ok coll)
    (hcoll : a'.state.coll = coll) (hfusd : a'.fusd = fusd)
    (htotal : a'.state.market.totalCollateral = s.market.totalCollateral)
    (hsurplus : a'.state.market.surplusCollateral = s.market.surplusCollateral + fee) :
    Settled redeemer amount a a' draws (drawn - fee) fee := by
  have hfit : drawn - fee < 2 ^ 64 :=
    (Nat.sub_le _ _).trans_lt (LoopInv.drawn_lt hi hacc hl)
  have htaken : amount - remaining = takenBy draws := by omega
  rw [htaken] at hburn
  have hkept : s.market.surplusCollateral = a.state.market.surplusCollateral := by
    have hrest : s.market.surplusCollateral = m₁.surplusCollateral :=
      congrArg (fun s ↦ s.market.surplusCollateral) hl.rest
    rw [hrest, hacc.eq]
  have hremoved : s.market.totalCollateral + drawn = a.state.market.totalCollateral := by
    have hloop : s.market.totalCollateral + drawn = m₁.totalCollateral := hl.coll
    rw [hloop, hacc.eq]
  constructor
  · omega
  · rw [hfusd]
    exact TokenLedger.burn_supply hburn
  · rw [hfusd]
    simpa using TokenLedger.burn_balance hburn (.wallet redeemer)
  · rw [hcoll]
    exact payOut_balance hfit hpay
  · rw [hcoll]
    exact payOut_wallet hfit hpay
  · rw [hsurplus, hkept]
  · rw [← hdrawn]
    exact Nat.sub_add_cancel hfee
  · rw [htotal, ← hdrawn]
    exact hremoved

/-- A redemption of the market `a.state` at the price `mid`. -/
def RedeemsAt (clk : Clock) (redeemer : Pubkey) (amount : ℕ) (a a' : Accounts) (mid : ℕ)
    (draws : List Draw) (payout fee : ℕ) : Prop :=
  ∃ m, accrue a.state.market clk.unixTimestamp = .ok m ∧ midPrice m = .ok mid ∧
    Redeems clk.unixTimestamp mid m a.state a'.state draws ∧
    Settled redeemer amount a a' draws payout fee

theorem redeem_redeemsAt (hamount : amount < 2 ^ 64) (hi : Inv clk.unixTimestamp a)
    (h : redeem clk redeemer amount candidates a = .ok a') :
    ∃ mid draws payout fee, RedeemsAt clk redeemer amount a a' mid draws payout fee := by
  obtain ⟨run, rfl⟩ := redeem_run h
  obtain ⟨x, ts, hacc⟩ := accrue_spec hi.book.clock run.accrue_eq
  have hloop := (run.redemptionInv hi).loop
  have hdrawn := LoopInv.drawn_lt hi hacc hloop
  obtain ⟨draws, hredeems, htaken, hunits⟩ :=
    redeems_of_passes hi.book hacc run.validate_eq run.redeem_eq
  have hburn := run.burn_eq
  rw [truncate_of_lt ((Nat.sub_le _ _).trans_lt hamount)] at hburn
  obtain ⟨baseRate, baseRateTs, hresult⟩ := run.result_eq
  rw [hresult, truncate_of_lt (run.fee_le.trans_lt hdrawn)]
  exact ⟨run.mid, draws, run.r.drawn - run.fee, run.fee, run.m₁, run.accrue_eq, run.midPrice_eq,
    { hredeems with }, settled_of_loop hi hacc hloop htaken hunits run.fee_le hburn run.payOut_eq
      rfl rfl rfl rfl⟩

theorem urgentRedeem_redeemsAt (hamount : amount < 2 ^ 64) (hi : Inv clk.unixTimestamp a)
    (h : urgentRedeem clk redeemer amount candidates a = .ok a') :
    ∃ mid draws payout, RedeemsAt clk redeemer amount a a' mid draws payout 0 := by
  obtain ⟨run, rfl⟩ := urgentRedeem_run h
  obtain ⟨x, ts, hacc⟩ := accrue_spec hi.book.clock run.accrue_eq
  have hloop := (run.redemptionInv hi).loop
  obtain ⟨draws, hredeems, htaken, hunits⟩ := redeems_of_urgentPass hi.book hacc run.redeem_eq
  have hburn := run.burn_eq
  rw [truncate_of_lt ((Nat.sub_le _ _).trans_lt hamount)] at hburn
  exact ⟨run.mid, draws, run.r.drawn, run.m₁, run.accrue_eq, run.midPrice_eq, { hredeems with },
    settled_of_loop hi hacc hloop htaken hunits (Nat.zero_le _) hburn run.payOut_eq
      rfl rfl rfl rfl⟩

end Handlers

/-- Every redemption of a reached market, ordered or urgent, burns exactly the debt it takes, at
most what was asked for; what the redeemer and the market receive is the collateral it takes,
worth at most the fUSD burned; and no position loses more debt than its collateral is worth, so
that a covered one stays covered at no lower a ratio. -/
theorem redemption_fair {w w' : World} (h : fusdCore.Reach w) {clk : Clock}
    {mint redeemer : Pubkey} {amount : UInt64} {candidates : List Candidate} {instr : MarketInstr}
    (hinstr : instr = .redeem redeemer amount candidates ∨
      instr = .urgentRedeem redeemer amount candidates)
    (hstep : fusdCore.step ⟨clk, .market mint instr⟩ w w') :
    ∃ state state' mid draws payout fee,
      w.protocol.markets.lookup mint = some state ∧
      w'.protocol.markets.lookup mint = some state' ∧
      RedeemsAt clk redeemer amount.toNat ⟨state, w.protocol.fusd, w.protocol.backstop⟩
        ⟨state', w'.protocol.fusd, w'.protocol.backstop⟩ mid draws payout fee ∧
      (payout + fee) * mid ≤ takenBy draws * RAY ∧
      ∀ d ∈ draws, d.taken ≤ d.current.ink * mid / RAY ∧
        (d.current.CoveredAt mid → d.left.CoveredAt mid ∧
          (0 < d.left.recordedDebt → d.current.ratio ≤ d.left.ratio)) := by
  obtain ⟨hclk, hrun, -⟩ := hstep
  simp only [Instr.run, Protocol.onMarket, bind_eq_ok_iff, okOr_eq_ok, pure_eq_ok] at hrun
  obtain ⟨state, hl, a', hexec, hw'⟩ := hrun
  have hi := fusdCore_market_inv h hclk hl
  obtain ⟨mid, draws, payout, fee, hat⟩ : ∃ mid draws payout fee, RedeemsAt clk redeemer
      amount.toNat ⟨state, w.protocol.fusd, w.protocol.backstop⟩ a' mid draws payout fee := by
    rcases hinstr with rfl | rfl
    · exact redeem_redeemsAt amount.toNat_lt hi hexec
    · obtain ⟨mid, draws, payout, hat⟩ := urgentRedeem_redeemsAt amount.toNat_lt hi hexec
      exact ⟨mid, draws, payout, 0, hat⟩
  refine ⟨state, a'.state, mid, draws, payout, fee, hl, ?_, ?_, ?_, ?_⟩
  · rw [← hw', AList.lookup_insert]
  · rw [← hw']
    exact hat
  · obtain ⟨m, -, -, hredeems, hsettled⟩ := hat
    rw [hsettled.removed]
    exact unitsOf_worth hredeems.fair
  · obtain ⟨m, -, -, hredeems, -⟩ := hat
    intro d hd
    have hf := hredeems.fair d hd
    exact ⟨hf.taken_le, fun hcov ↦ ⟨hf.covered hcov, hf.ratio_le hcov⟩⟩

/-- The redemption of two positions, the second in part. -/
theorem redemption_fair_sample : ∃ w w' state state' mid draws payout fee,
    fusdCore.Reach w ∧ fusdCore.step ⟨Sample.clock, Sample.redeemBoth⟩ w w' ∧
    RedeemsAt Sample.clock 200 1200000000 ⟨state, w.protocol.fusd, w.protocol.backstop⟩
      ⟨state', w'.protocol.fusd, w'.protocol.backstop⟩ mid draws payout fee ∧
    w'.protocol.fusd.supply + 1200000000 = w.protocol.fusd.supply ∧
    (payout + fee) * mid ≤ takenBy draws * RAY := by
  have hrun : ((Sample.world Sample.borrowers).bind fun w ↦
      (Sample.redeemBoth.run Sample.clock w.protocol).toOption.map fun s ↦
        decide (w.clock.Le Sample.clock ∧
          s.fusd.supply + 1200000000 = w.protocol.fusd.supply)) = some true := by decide +kernel
  simp only [Option.bind_eq_some_iff, Option.map_eq_some_iff, decide_eq_true_eq,
    toOption_eq_some] at hrun
  obtain ⟨w, hw, s, hs, hclk, hsupply⟩ := hrun
  have hstep : fusdCore.step ⟨Sample.clock, Sample.redeemBoth⟩ w ⟨Sample.clock, s⟩ :=
    ⟨hclk, hs, rfl⟩
  obtain ⟨state, state', mid, draws, payout, fee, -, -, hat, hworth, -⟩ :=
    redemption_fair (Sample.reach hw) (.inl rfl) hstep
  exact ⟨w, _, state, state', mid, draws, payout, fee, Sample.reach hw, hstep, hat, hsupply,
    hworth⟩

end FusionCore
