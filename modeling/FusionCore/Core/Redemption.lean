import FusionCore.Core.Positions
import Mathlib.Data.List.Sort

/-!
# Redemption

`redeem` drains the lowest normal rate bucket and the zombie pen in two passes over the
candidates: the first validates them and brings them current, the second draws down the
riskiest ones first.  `urgentRedeem` winds a shut-down market down in one pass.
-/

namespace FusionCore

open Checked

/-- An account passed as a redemption candidate. -/
inductive Candidate where
  /-- The position address of this market for `owner`; empty once the position is closed. -/
  | position (owner : Pubkey)
  /-- An account that the program does not own. -/
  | unowned
  /-- An account of the program that is no position. -/
  | otherAccount
  /-- A position of another market. -/
  | otherMarket
  deriving DecidableEq, Repr

/-- A closed candidate is skipped; a present one of the wrong kind fails the call. -/
def loadCandidate (s : MarketState) : Candidate → Except ProgramError (Option (Pubkey × Position))
  | .position owner => .ok ((s.positions.lookup owner).map fun p ↦ (owner, p))
  | .unowned => .ok none
  | .otherAccount => .error .accountDiscriminatorMismatch
  | .otherMarket => .error .unauthorized

/-- Both price legs are needed for the mid price. -/
def midPrice (m : Market) : Except ProgramError ℕ := do
  require (0 < m.spot ∧ 0 < m.debtSpot) .oracleUnavailable
  let sum ← okOr (checkedAdd 128 m.spot m.debtSpot) .mathOverflow
  pure (sum / 2)

/-- What the redeemer can take: at most `remaining`, the debt, and the value of the
collateral. -/
def redeemable (p : Position) (mid remaining : ℕ) : Except ProgramError ℕ := do
  let collValue ← okOr (rayMul p.ink mid) .mathOverflow
  pure (min (min remaining p.recordedDebt) collValue)

/-- Take `redeemAmt` of debt and the collateral it buys out of a current position. -/
def drawDown (m : Market) (bm : RedemptionBitmap) (p : Position)
    (mid redeemAmt oldWeighted artBefore : ℕ) :
    Except ProgramError (Market × RedemptionBitmap × Position × ℕ) := do
  let units ← okOr (mulDivFloor redeemAmt RAY mid) .mathOverflow
  let collTotal := min units p.ink
  let d ← okOr (SupplyTransition.redeemStep m.aggRecordedDebt redeemAmt) .mathOverflow
  let p₁ := { p with recordedDebt := p.recordedDebt - redeemAmt }.setInk (p.ink - collTotal)
  let totalCollateral ← okOr (checkedSub m.totalCollateral collTotal) .mathOverflow
  let m₁ := { m with aggRecordedDebt := d.newAgg, totalCollateral }
  let m₂ ← reweight m₁ p₁ oldWeighted
  let (m₃, p₂) ← setStake m₂ p₁
  let (bm', p₃) ← reconcile bm m₃ p₂ artBefore
  pure (m₃, bm', p₃, collTotal)

/-- The state of a redemption loop. -/
structure Redemption where
  state : MarketState
  remaining : ℕ
  drawn : ℕ

/-! ## Ordered redemption -/

/-- A validated candidate with the collateral and the debt it is sorted by. -/
structure OrderEntry where
  owner : Pubkey
  ink : ℕ
  debt : ℕ
  deriving DecidableEq, Repr

structure Validation where
  state : MarketState
  seen : List Pubkey
  order : List OrderEntry

/-- The validation pass for one candidate. -/
def validateCandidate (now : ℕ) (lowestNormal : Option ℕ) (v : Validation) (c : Candidate) :
    Except ProgramError Validation := do
  let loaded ← loadCandidate v.state c
  match loaded with
  | none => pure v
  | some (owner, p) => do
    require (owner ∉ v.seen) .duplicateRedemptionTarget
    let seen := owner :: v.seen
    if 0 < p.recordedDebt ∧ (p.bucket = ZOMBIE_BUCKET ∨ lowestNormal = some p.bucket) then do
      let oldWeighted ← weighted p
      let p₁ ← realize v.state.market p now
      let m₁ ← reweight v.state.market p₁ oldWeighted
      let (m₂, p₂) ← setStake m₁ p₁
      pure
        { state := { v.state with
            market := m₂
            positions := v.state.positions.insert owner p₂
            tally := v.state.tally.realized 1 }
          seen
          order := v.order ++ [⟨owner, p₂.ink, p₂.recordedDebt⟩] }
    else pure { v with seen }

/-- Lowest collateral ratio first. -/
def OrderEntry.before (e f : OrderEntry) : Prop :=
  RateBucket.cmpCollateralRatio e.ink e.debt f.ink f.debt ≠ .gt

instance : DecidableRel OrderEntry.before := fun e f ↦
  inferInstanceAs (Decidable (RateBucket.cmpCollateralRatio e.ink e.debt f.ink f.debt ≠ .gt))

/-- The redemption pass for one candidate.  Once nothing remains the loop has ended. -/
def redeemOne (mid : ℕ) (r : Redemption) (e : OrderEntry) : Except ProgramError Redemption :=
  if r.remaining = 0 then .ok r
  else do
    let p ← okOr (r.state.positions.lookup e.owner) .accountNotInitialized
    let redeemAmt ← redeemable p mid r.remaining
    if redeemAmt = 0 then pure r
    else do
      let oldWeighted ← weighted p
      let (m, bitmap, p', collTotal) ←
        drawDown r.state.market r.state.bitmap p mid redeemAmt oldWeighted p.recordedDebt
      let drawn ← okOr (checkedAdd 128 r.drawn collTotal) .mathOverflow
      pure
        { state := { r.state with
            market := m
            bitmap
            positions := r.state.positions.insert e.owner p' }
          remaining := r.remaining - redeemAmt
          drawn }

/-- The base rate decayed to `now` and bumped by a redemption of `redeemed`, as a share of the
debt before it. -/
def Market.bumpedBaseRate (m : Market) (now redeemed : ℕ) : ℕ :=
  if 0 < m.redemptionBaseRateMaxBps then
    bumpBaseRate (decayBaseRate m.redemptionBaseRate (now - m.redemptionBaseRateTs)) redeemed
      m.aggRecordedDebt
  else 0

/-- Store the base rate; its clock advances by whole minutes only. -/
def Market.storeBaseRate (m : Market) (rate now : ℕ) : Market :=
  if 0 < m.redemptionBaseRateMaxBps then
    { m with
      redemptionBaseRate := rate
      redemptionBaseRateTs :=
        if 60 ≤ now - m.redemptionBaseRateTs then now else m.redemptionBaseRateTs }
  else m

/-- Pay the redeemer, if anything is due. -/
def payOut (coll : TokenLedger CollHolder) (redeemer : Pubkey) (amount : ℕ) :
    Except ProgramError (TokenLedger CollHolder) :=
  if 0 < amount then tokenCall (coll.transfer .vault (.wallet redeemer) (truncate 64 amount))
  else pure coll

def redeemUnchecked (clk : Clock) (redeemer : Pubkey) (amount : ℕ) (candidates : List Candidate)
    (a : Accounts) : Except ProgramError Accounts := do
  require (0 < amount) .zeroAmount
  require (candidates.length ≤ MAX_REDEMPTION_CANDIDATES) .tooManyRedemptionCandidates
  require (a.state.market.shutdown = false) .marketShutdown
  let now := clk.unixTimestamp
  let m₁ ← accrue a.state.market now
  let mid ← midPrice m₁
  require (m₁.fresh clk.slot) .stalePrice
  let lowestNormal := RateBucket.firstSet a.state.bitmap.words
  require (lowestNormal.isSome ∨ 0 < a.state.bitmap.zombieCount) .nothingToRedeem
  let s₁ := { a.state with market := m₁, tally := a.state.tally.book a.state.market m₁ }
  let v ← candidates.foldlM (validateCandidate now lowestNormal) ⟨s₁, [], []⟩
  require (v.order ≠ []) .nothingToRedeem
  let order := v.order.insertionSort OrderEntry.before
  let r ← order.foldlM (redeemOne mid) ⟨v.state, amount, 0⟩
  let redeemedFusd := amount - r.remaining
  require (0 < redeemedFusd) .nothingToRedeem
  let newBaseRate := m₁.bumpedBaseRate now redeemedFusd
  let m₂ := r.state.market.storeBaseRate newBaseRate now
  let feeBps := effectiveFeeBps newBaseRate m₂.redemptionFeeBps m₁.redemptionBaseRateMaxBps
    MAX_REDEMPTION_FEE_BPS
  let scaled ← okOr (checkedMul 128 r.drawn feeBps) .mathOverflow
  let feeCollTotal := scaled / BPS_DENOMINATOR
  let redeemerCollTotal := r.drawn - feeCollTotal
  let surplusCollateral ← okOr
    (checkedAdd 64 m₂.surplusCollateral (truncate 64 feeCollTotal)) .mathOverflow
  let m₃ := { m₂ with surplusCollateral }
  let fusd ← tokenCall (a.fusd.burn (.wallet redeemer) (truncate 64 redeemedFusd))
  let coll ← payOut a.state.coll redeemer redeemerCollTotal
  pure { a with state := { r.state with market := m₃, coll }, fusd }

def redeem (clk : Clock) (redeemer : Pubkey) (amount : ℕ) (candidates : List Candidate)
    (a : Accounts) : Except ProgramError Accounts :=
  vaultChecked (redeemUnchecked clk redeemer amount candidates a)

/-! ## Urgent redemption -/

/-- The loop of an urgent redemption and the candidates it has met. -/
structure UrgentRedemption extends Redemption where
  seen : List Pubkey

/-- One pass of the urgent loop.  Every candidate it loads is touched, whether or not it has
anything to redeem. -/
def urgentOne (now mid : ℕ) (r : UrgentRedemption) (c : Candidate) :
    Except ProgramError UrgentRedemption :=
  if r.remaining = 0 then .ok r
  else do
    let loaded ← loadCandidate r.state c
    match loaded with
    | none => pure r
    | some (owner, p) => do
      require (owner ∉ r.seen) .duplicateRedemptionTarget
      let seen := owner :: r.seen
      let oldWeighted ← weighted p
      let artBefore := p.recordedDebt
      let p₁ ← realize r.state.market p now
      let tally := r.state.tally.realized 1
      let redeemAmt ← redeemable p₁ mid r.remaining
      if redeemAmt = 0 then do
        let m₁ ← reweight r.state.market p₁ oldWeighted
        let (m₂, p₂) ← setStake m₁ p₁
        let (bitmap, p₃) ← reconcile r.state.bitmap m₂ p₂ artBefore
        pure { r with
          state := { r.state with
            market := m₂
            bitmap
            positions := r.state.positions.insert owner p₃
            tally }
          seen }
      else do
        let (m, bitmap, p₂, collTotal) ←
          drawDown r.state.market r.state.bitmap p₁ mid redeemAmt oldWeighted artBefore
        let drawn ← okOr (checkedAdd 128 r.drawn collTotal) .mathOverflow
        pure
          { state := { r.state with
              market := m
              bitmap
              positions := r.state.positions.insert owner p₂
              tally }
            remaining := r.remaining - redeemAmt
            drawn
            seen }

def urgentRedeemUnchecked (clk : Clock) (redeemer : Pubkey) (amount : ℕ)
    (candidates : List Candidate) (a : Accounts) : Except ProgramError Accounts := do
  require (0 < amount) .zeroAmount
  require (a.state.market.shutdown = true) .marketNotShutdown
  require (candidates.length ≤ MAX_REDEMPTION_CANDIDATES) .tooManyRedemptionCandidates
  let now := clk.unixTimestamp
  let m₁ ← accrue a.state.market now
  let mid ← midPrice m₁
  let s₁ := { a.state with market := m₁, tally := a.state.tally.book a.state.market m₁ }
  let r ← candidates.foldlM (urgentOne now mid) ⟨⟨s₁, amount, 0⟩, []⟩
  let redeemedFusd := amount - r.remaining
  require (0 < redeemedFusd) .nothingToRedeem
  let fusd ← tokenCall (a.fusd.burn (.wallet redeemer) (truncate 64 redeemedFusd))
  let coll ← payOut a.state.coll redeemer r.drawn
  pure { a with state := { r.state with coll }, fusd }

def urgentRedeem (clk : Clock) (redeemer : Pubkey) (amount : ℕ) (candidates : List Candidate)
    (a : Accounts) : Except ProgramError Accounts :=
  vaultChecked (urgentRedeemUnchecked clk redeemer amount candidates a)

/-! ## What the loops keep -/

/-- The part of a market that a redemption loop leaves alone. -/
def MarketState.rest (s : MarketState) : MarketState :=
  { s with
    market := { s.market with
      aggRecordedDebt := 0
      aggWeightedDebtSum := 0
      totalStakes := 0
      totalCollateral := 0 }
    bitmap := RedemptionBitmap.zeroed
    positions := ∅
    tally := ⟨0, 0⟩ }

/-- A loop started in `s₀` has redeemed `paid` of debt for `drawn` of collateral. -/
structure LoopInv (now : ℕ) (s₀ s : MarketState) (paid drawn : ℕ) : Prop where
  book : Book now s.market s.bitmap s.positions s.tally
  rest : s.rest = s₀.rest
  agg : s.market.aggRecordedDebt + paid = s₀.market.aggRecordedDebt
  coll : s.market.totalCollateral + drawn = s₀.market.totalCollateral
  advance : Advance s₀.positions s.positions

section Loops

variable {now mid paid drawn : ℕ} {s₀ s : MarketState} {owner : Pubkey} {m' : Market}
  {bm bm' : RedemptionBitmap} {p pr p' : Position}

theorem LoopInv.touch {k debt ink amt units agg sum total tc : ℕ}
    (h : LoopInv now s₀ s paid drawn) (hp : s.positions.lookup owner = some p)
    (ht : Touch k s.market { s.market with
      aggRecordedDebt := agg
      aggWeightedDebtSum := sum
      totalStakes := total
      totalCollateral := tc } p p' debt ink)
    (hr : Relabel s.bitmap bm p p') (hagg : agg + amt = s.market.aggRecordedDebt)
    (hcoll : tc + units = s.market.totalCollateral) :
    LoopInv now s₀
      { s with
        market := { s.market with
          aggRecordedDebt := agg
          aggWeightedDebtSum := sum
          totalStakes := total
          totalCollateral := tc }
        bitmap := bm
        positions := s.positions.insert owner p'
        tally := s.tally.realized k } (paid + amt) (drawn + units) where
  book := h.book.touch hp ht hr
  rest := h.rest
  agg := by
    have := h.agg
    dsimp only
    omega
  coll := by
    have := h.coll
    dsimp only
    omega
  advance := h.advance.insert hp ht.advances

/-- The accounts a redemption loop starts from. -/
def MarketState.accrued (s : MarketState) (m₁ : Market) : MarketState :=
  { s with market := m₁, tally := s.tally.book s.market m₁ }

theorem LoopInv.init {x ts : ℕ} {m₁ : Market}
    (hb : Book now s.market s.bitmap s.positions s.tally)
    (hacc : Accrued s.market m₁ now x ts) :
    LoopInv now (s.accrued m₁) (s.accrued m₁) 0 0 :=
  ⟨hb.accrue hacc, rfl, rfl, rfl, Advance.refl _⟩

theorem LoopInv.realizable (h : LoopInv now s₀ s paid drawn)
    (h₀ : s₀.market.shutdown = true ∨ s₀.market.lastUpdateTs = now) :
    s.market.shutdown = true ∨ s.market.lastUpdateTs = now := by
  have hs : s.market.shutdown = s₀.market.shutdown :=
    congrArg (fun s ↦ s.market.shutdown) h.rest
  have ht : s.market.lastUpdateTs = s₀.market.lastUpdateTs :=
    congrArg (fun s ↦ s.market.lastUpdateTs) h.rest
  rw [hs, ht]
  exact h₀

theorem LoopInv.current_iff (h : LoopInv now s₀ s paid drawn) :
    p.Current s.market ↔ p.Current s₀.market := by
  have ht : s.market.lastUpdateTs = s₀.market.lastUpdateTs :=
    congrArg (fun s ↦ s.market.lastUpdateTs) h.rest
  have hc : s.market.lColl = s₀.market.lColl := congrArg (fun s ↦ s.market.lColl) h.rest
  have ha : s.market.lArt = s₀.market.lArt := congrArg (fun s ↦ s.market.lArt) h.rest
  constructor
  · rintro ⟨h1, h2, h3⟩
    exact ⟨h1.trans ht, h2.trans hc, h3.trans ha⟩
  · rintro ⟨h1, h2, h3⟩
    exact ⟨h1.trans ht.symm, h2.trans hc.symm, h3.trans ha.symm⟩

/-- The positions of all listed owners are current. -/
def AllCurrent (m : Market) (ps : Table Pubkey Position) (owners : List Pubkey) : Prop :=
  ∀ o ∈ owners, ∃ p, ps.lookup o = some p ∧ p.Current m

theorem AllCurrent.insert {m : Market} {ps : Table Pubkey Position} {owners : List Pubkey}
    (h : AllCurrent m ps owners) (hp' : p'.Current m) (owner : Pubkey) :
    AllCurrent m (ps.insert owner p') (owner :: owners) := by
  intro o ho
  by_cases hne : o = owner
  · subst hne
    exact ⟨p', AList.lookup_insert _, hp'⟩
  · rw [AList.lookup_insert_ne hne]
    exact h o ((List.mem_cons.mp ho).resolve_left hne)

/-- Drawing down a position touches it and takes `amt` of debt and `units` of collateral. -/
theorem drawDown_spec {k amt units : ℕ} {m : Market}
    (hsnap : m.totalCollateralSnapshot = 0 ∨ m.totalStakesSnapshot ≤ m.totalCollateralSnapshot)
    (hf : Folded k m p pr) (hlabel : 0 < p.recordedDebt → p.bucket ≤ ZOMBIE_BUCKET)
    (hamt : amt ≤ pr.recordedDebt)
    (h : drawDown m bm pr mid amt (weightOf p) p.recordedDebt = .ok (m', bm', p', units)) :
    (∃ agg sum total tc, agg + amt = m.aggRecordedDebt ∧ tc + units = m.totalCollateral ∧
      m' = { m with
        aggRecordedDebt := agg
        aggWeightedDebtSum := sum
        totalStakes := total
        totalCollateral := tc }) ∧
      Touch k m m' p p' pr.recordedDebt pr.ink ∧ p'.Current m ∧ Relabel bm bm' p p' := by
  simp only [drawDown, bind_eq_ok_iff, okOr_eq_ok, SupplyTransition.redeemStep_eq_some,
    checkedSub_eq_some, pure_eq_ok, Prod.exists, Prod.mk.injEq] at h
  obtain ⟨q, -, _, ⟨hagg, rfl⟩, _, ⟨htc, rfl⟩, m₂, hm₂, m₃, p₂, hs, bm₃, p₃, hrec, rfl, rfl, rfl,
    rfl⟩ := h
  have hc : Change m
      { m with
        aggRecordedDebt := m.aggRecordedDebt - amt
        totalCollateral := m.totalCollateral - min q pr.ink }
      pr ({ pr with recordedDebt := pr.recordedDebt - amt }.setInk (pr.ink - min q pr.ink)) := by
    constructor <;> simp [redistState, snapshotOf]
    · omega
    · omega
  obtain ⟨sum, hsum, rfl⟩ := reweight_spec hm₂
  obtain ⟨ht, hcur⟩ := touch_of_folded hsnap hf hc hsum hs
  obtain ⟨stake, total, -, -, -, -, rfl, rfl⟩ := setStake_spec hs
  obtain ⟨⟨label, rfl⟩, hrel⟩ := relabel_of_reconcile hrec
    ((Position.setInk_bucket _ _).trans hf.bucket) hlabel
  exact ⟨⟨_, _, _, _, Nat.sub_add_cancel hagg, Nat.sub_add_cancel htc, rfl⟩, { ht with },
    ⟨hcur.1, hcur.2, hcur.3⟩, hrel⟩

theorem loadCandidate_eq_some {c : Candidate} (h : loadCandidate s c = .ok (some (owner, p))) :
    c = .position owner ∧ s.positions.lookup owner = some p := by
  cases c with
  | position o =>
    simp only [loadCandidate, Except.ok.injEq, Option.map_eq_some_iff, Prod.mk.injEq] at h
    obtain ⟨q, hq, rfl, rfl⟩ := h
    exact ⟨rfl, hq⟩
  | unowned => simp [loadCandidate] at h
  | otherAccount => cases h
  | otherMarket => cases h

/-- What the validation pass keeps: nothing is redeemed and every accepted candidate is
current. -/
structure ValidationInv (now : ℕ) (s₀ : MarketState) (v : Validation) : Prop where
  loop : LoopInv now s₀ v.state 0 0
  current : AllCurrent s₀.market v.state.positions (v.order.map OrderEntry.owner)

theorem ValidationInv.step {lowest : Option ℕ} {v v' : Validation} {c : Candidate}
    (h₀ : s₀.market.shutdown = true ∨ s₀.market.lastUpdateTs = now)
    (hv : ValidationInv now s₀ v) (h : validateCandidate now lowest v c = .ok v') :
    ValidationInv now s₀ v' := by
  obtain ⟨loaded, hload, h⟩ := bind_eq_ok_iff.mp h
  match loaded with
  | none =>
    cases h
    exact hv
  | some (owner, p) =>
    have hp := (loadCandidate_eq_some hload).2
    simp only [bind_eq_ok_iff, require_eq_ok, exists_const, ite_eq_ok] at h
    obtain ⟨-, ⟨⟨hd, -⟩, h⟩ | ⟨-, h⟩⟩ := h
    · simp only [weighted_eq_ok, pure_eq_ok, Prod.exists] at h
      obtain ⟨_, ⟨-, rfl⟩, p₁, hp₁, m₁, hm₁, m₂, p₂, hs, rfl⟩ := h
      have hreal := realize_spec (hv.loop.realizable h₀) hp₁
      have hc : Change v.state.market v.state.market p₁ p₁ := by constructor <;> rfl
      obtain ⟨sum, hsum, rfl⟩ := reweight_spec hm₁
      obtain ⟨ht, hcur⟩ := touch_of_folded hv.loop.book.snapshot_le hreal.folded hc hsum hs
      obtain ⟨stake, total, -, -, -, -, rfl, rfl⟩ := setStake_spec hs
      -- the debt only grew, so the membership stays where it is
      have hrel : Relabel v.state.bitmap v.state.bitmap p { p₁ with stake } :=
        Relabel.refl (by have := hreal.recordedDebt; dsimp only; omega) hreal.bucket
          (hv.loop.book.label owner p hp)
      refine ⟨hv.loop.touch hp ht hrel (Nat.add_zero _) (Nat.add_zero _), ?_⟩
      rw [List.map_append]
      intro o ho
      refine hv.current.insert (hv.loop.current_iff.mp hcur) owner o ?_
      simpa [or_comm] using ho
    · cases h
      exact ⟨hv.loop, hv.current⟩

/-- What the redemption pass keeps. -/
structure RedemptionInv (now : ℕ) (s₀ : MarketState) (amount : ℕ) (owners : List Pubkey)
    (r : Redemption) : Prop where
  loop : LoopInv now s₀ r.state (amount - r.remaining) r.drawn
  remaining_le : r.remaining ≤ amount
  current : AllCurrent s₀.market r.state.positions owners

theorem redeemable_le {remaining amt : ℕ} (h : redeemable p mid remaining = .ok amt) :
    amt ≤ remaining ∧ amt ≤ p.recordedDebt := by
  simp only [redeemable, bind_eq_ok_iff, okOr_eq_ok, pure_eq_ok] at h
  obtain ⟨value, -, rfl⟩ := h
  omega

theorem RedemptionInv.step {amount : ℕ} {owners : List Pubkey} {r r' : Redemption}
    {e : OrderEntry} (hr : RedemptionInv now s₀ amount owners r) (he : e.owner ∈ owners)
    (h : redeemOne mid r e = .ok r') : RedemptionInv now s₀ amount owners r' := by
  unfold redeemOne at h
  rcases ite_eq_ok.mp h with ⟨-, h⟩ | ⟨-, h⟩
  · cases h
    exact hr
  simp only [bind_eq_ok_iff, okOr_eq_ok, ite_eq_ok] at h
  obtain ⟨p, hp, amt, hamt, ⟨-, h⟩ | ⟨-, h⟩⟩ := h
  · cases h
    exact hr
  simp only [weighted_eq_ok, checkedAdd_eq_some, pure_eq_ok, Prod.exists] at h
  obtain ⟨_, ⟨-, rfl⟩, m', bm', p', units, hdraw, _, ⟨-, rfl⟩, rfl⟩ := h
  obtain ⟨hle, hdebt⟩ := redeemable_le hamt
  have hcur : p.Current s₀.market := by
    obtain ⟨q, hq, hcur⟩ := hr.current e.owner he
    exact (Option.some.inj (hp.symm.trans hq)) ▸ hcur
  obtain ⟨⟨agg, sum, total, tc, hagg, htc, rfl⟩, ht, hcur', hrel⟩ :=
    drawDown_spec hr.loop.book.snapshot_le (hr.loop.current_iff.mpr hcur).folded
      (hr.loop.book.label e.owner p hp) hdebt hdraw
  have hrem := hr.remaining_le
  refine ⟨?_, by dsimp only; omega, ?_⟩
  · have hpaid : amount - (r.remaining - amt) = amount - r.remaining + amt := by omega
    rw [hpaid]
    exact hr.loop.touch hp ht hrel hagg htc
  · intro o ho
    exact hr.current.insert (hr.loop.current_iff.mp hcur') e.owner o (List.mem_cons_of_mem _ ho)

theorem RedemptionInv.urgentStep {amount : ℕ} {r r' : UrgentRedemption} {c : Candidate}
    (h₀ : s₀.market.shutdown = true ∨ s₀.market.lastUpdateTs = now)
    (hr : RedemptionInv now s₀ amount [] r.toRedemption) (h : urgentOne now mid r c = .ok r') :
    RedemptionInv now s₀ amount [] r'.toRedemption := by
  unfold urgentOne at h
  rcases ite_eq_ok.mp h with ⟨-, h⟩ | ⟨-, h⟩
  · cases h
    exact hr
  obtain ⟨loaded, hload, h⟩ := bind_eq_ok_iff.mp h
  match loaded with
  | none =>
    cases h
    exact hr
  | some (owner, p) =>
    have hp := (loadCandidate_eq_some hload).2
    simp only [bind_eq_ok_iff, require_eq_ok, weighted_eq_ok, exists_const, ite_eq_ok] at h
    obtain ⟨-, _, ⟨-, rfl⟩, p₁, hp₁, amt, hamt, ⟨-, h⟩ | ⟨-, h⟩⟩ := h
    · simp only [pure_eq_ok, Prod.exists] at h
      obtain ⟨m₁, hm₁, m₂, p₂, hs, bm, p₃, hrec, rfl⟩ := h
      have hreal := realize_spec (hr.loop.realizable h₀) hp₁
      have hc : Change r.state.market r.state.market p₁ p₁ := by constructor <;> rfl
      obtain ⟨sum, hsum, rfl⟩ := reweight_spec hm₁
      obtain ⟨ht, -⟩ := touch_of_folded hr.loop.book.snapshot_le hreal.folded hc hsum hs
      obtain ⟨stake, total, -, -, -, -, rfl, rfl⟩ := setStake_spec hs
      obtain ⟨⟨label, rfl⟩, hrel⟩ := relabel_of_reconcile hrec hreal.bucket
        (hr.loop.book.label owner p hp)
      have ht' : Touch 1 r.state.market _ p { p₁ with stake, bucket := label } _ _ := { ht with }
      exact ⟨hr.loop.touch hp ht' hrel (Nat.add_zero _) (Nat.add_zero _), hr.remaining_le,
        by simp [AllCurrent]⟩
    · simp only [okOr_eq_ok, checkedAdd_eq_some, pure_eq_ok, Prod.exists] at h
      obtain ⟨m', bm', p', units, hdraw, _, ⟨-, rfl⟩, rfl⟩ := h
      have hreal := realize_spec (hr.loop.realizable h₀) hp₁
      obtain ⟨hle, hdebt⟩ := redeemable_le hamt
      obtain ⟨⟨agg, sum, total, tc, hagg, htc, rfl⟩, ht, -, hrel⟩ :=
        drawDown_spec hr.loop.book.snapshot_le hreal.folded (hr.loop.book.label owner p hp)
          hdebt hdraw
      have hrem := hr.remaining_le
      refine ⟨?_, by dsimp only; omega, by simp [AllCurrent]⟩
      have hpaid : amount - (r.remaining - amt) = amount - r.remaining + amt := by omega
      rw [hpaid]
      exact hr.loop.touch hp ht hrel hagg htc

theorem ValidationInv.of_pass {x ts : ℕ} {m₁ : Market} {lowest : Option ℕ}
    {candidates : List Candidate} {v : Validation}
    (hb : Book now s.market s.bitmap s.positions s.tally)
    (hacc : Accrued s.market m₁ now x ts)
    (hv : candidates.foldlM (validateCandidate now lowest) ⟨s.accrued m₁, [], []⟩ = .ok v) :
    ValidationInv now (s.accrued m₁) v :=
  foldlM_invariant (fun _ _ _ _ hv h ↦ hv.step hacc.realizable h)
    ⟨LoopInv.init hb hacc, by simp [AllCurrent]⟩ hv

theorem RedemptionInv.of_pass {amount : ℕ} {v : Validation} {entries : List OrderEntry}
    {r : Redemption} (hv : ValidationInv now s₀ v) (hsub : entries ⊆ v.order)
    (hr : entries.foldlM (redeemOne mid) ⟨v.state, amount, 0⟩ = .ok r) :
    RedemptionInv now s₀ amount (v.order.map OrderEntry.owner) r := by
  have hstart : RedemptionInv now s₀ amount (v.order.map OrderEntry.owner)
      ⟨v.state, amount, 0⟩ := ⟨by simpa using hv.loop, le_rfl, hv.current⟩
  exact foldlM_invariant
    (fun e he r r' hr h ↦ hr.step (List.mem_map_of_mem (hsub he)) h) hstart hr

theorem RedemptionInv.of_urgentPass {x ts amount : ℕ} {m₁ : Market}
    {candidates : List Candidate} {r : UrgentRedemption}
    (hb : Book now s.market s.bitmap s.positions s.tally)
    (hacc : Accrued s.market m₁ now x ts)
    (hr : candidates.foldlM (urgentOne now mid) ⟨⟨s.accrued m₁, amount, 0⟩, []⟩ = .ok r) :
    RedemptionInv now (s.accrued m₁) amount [] r.toRedemption := by
  have hstart : RedemptionInv now (s.accrued m₁) amount [] ⟨s.accrued m₁, amount, 0⟩ :=
    ⟨by simpa using LoopInv.init hb hacc, le_rfl, by simp [AllCurrent]⟩
  exact foldlM_invariant (P := fun r : UrgentRedemption ↦
      RedemptionInv now (s.accrued m₁) amount [] r.toRedemption)
    (fun c _ r r' hr h ↦ hr.urgentStep hacc.realizable h) hstart hr

end Loops

/-! ## Effects -/

theorem payOut_balance {coll coll' : TokenLedger CollHolder} {redeemer : Pubkey} {amount : ℕ}
    (hfit : amount < 2 ^ 64) (h : payOut coll redeemer amount = .ok coll') :
    coll'.balance .vault + amount = coll.balance .vault := by
  rcases ite_eq_ok.mp h with ⟨-, h⟩ | ⟨hzero, h⟩
  · rw [truncate_of_lt hfit, tokenCall_eq_ok] at h
    simpa using TokenLedger.transfer_balance h .vault
  · cases h
    rw [Nat.eq_zero_of_not_pos hzero, Nat.add_zero]

theorem Market.storeBaseRate_eq (m : Market) (rate now : ℕ) : ∃ baseRate baseRateTs,
    m.storeBaseRate rate now =
      { m with redemptionBaseRate := baseRate, redemptionBaseRateTs := baseRateTs } := by
  unfold Market.storeBaseRate
  split
  · exact ⟨_, _, rfl⟩
  · exact ⟨m.redemptionBaseRate, m.redemptionBaseRateTs, rfl⟩

theorem redemptionFee_le (drawn rate floorBps maxBps : ℕ) :
    drawn * effectiveFeeBps rate floorBps maxBps MAX_REDEMPTION_FEE_BPS / BPS_DENOMINATOR ≤
      drawn := by
  refine Nat.div_le_of_le_mul ?_
  rw [Nat.mul_comm BPS_DENOMINATOR]
  exact Nat.mul_le_mul_left _ (effectiveFeeBps_le.trans (by decide))

/-! ## A redemption step by step -/

/-- What a redemption that succeeds has read and computed, under the names of the handler. -/
structure RedeemRun (clk : Clock) (redeemer : Pubkey) (amount : ℕ) (candidates : List Candidate)
    (a : Accounts) where
  m₁ : Market
  mid : ℕ
  v : Validation
  r : Redemption
  fusd : TokenLedger FusdHolder
  coll : TokenLedger CollHolder
  opened : a.state.market.shutdown = false
  accrue_eq : accrue a.state.market clk.unixTimestamp = .ok m₁
  midPrice_eq : midPrice m₁ = .ok mid
  fresh : m₁.fresh clk.slot
  validate_eq : candidates.foldlM (validateCandidate clk.unixTimestamp
    (RateBucket.firstSet a.state.bitmap.words)) ⟨a.state.accrued m₁, [], []⟩ = .ok v
  redeem_eq : (v.order.insertionSort OrderEntry.before).foldlM (redeemOne mid)
    ⟨v.state, amount, 0⟩ = .ok r
  redeemed_pos : 0 < amount - r.remaining
  burn_eq : a.fusd.burn (.wallet redeemer) (truncate 64 (amount - r.remaining)) = .ok fusd
  payOut_eq : payOut a.state.coll redeemer (r.drawn - r.drawn *
    effectiveFeeBps (m₁.bumpedBaseRate clk.unixTimestamp (amount - r.remaining))
      r.state.market.redemptionFeeBps m₁.redemptionBaseRateMaxBps MAX_REDEMPTION_FEE_BPS
    / BPS_DENOMINATOR) = .ok coll

/-- What an urgent redemption that succeeds has read and computed. -/
structure UrgentRun (clk : Clock) (redeemer : Pubkey) (amount : ℕ) (candidates : List Candidate)
    (a : Accounts) where
  m₁ : Market
  mid : ℕ
  r : UrgentRedemption
  fusd : TokenLedger FusdHolder
  coll : TokenLedger CollHolder
  accrue_eq : accrue a.state.market clk.unixTimestamp = .ok m₁
  midPrice_eq : midPrice m₁ = .ok mid
  redeem_eq : candidates.foldlM (urgentOne clk.unixTimestamp mid)
    ⟨⟨a.state.accrued m₁, amount, 0⟩, []⟩ = .ok r
  burn_eq : a.fusd.burn (.wallet redeemer) (truncate 64 (amount - r.remaining)) = .ok fusd
  payOut_eq : payOut a.state.coll redeemer r.drawn = .ok coll

section Runs

variable {clk : Clock} {redeemer : Pubkey} {amount : ℕ} {candidates : List Candidate}
  {a a' : Accounts}

namespace RedeemRun

variable (run : RedeemRun clk redeemer amount candidates a)

/-- The base rate after the redemption. -/
def rate : ℕ :=
  run.m₁.bumpedBaseRate clk.unixTimestamp (amount - run.r.remaining)

/-- The part of the collateral that stays in the vault. -/
def fee : ℕ :=
  run.r.drawn * effectiveFeeBps run.rate run.r.state.market.redemptionFeeBps
    run.m₁.redemptionBaseRateMaxBps MAX_REDEMPTION_FEE_BPS / BPS_DENOMINATOR

/-- What the redemption writes. -/
def result : Accounts :=
  { a with
    state := { run.r.state with
      market := { run.r.state.market.storeBaseRate run.rate clk.unixTimestamp with
        surplusCollateral := run.r.state.market.surplusCollateral + truncate 64 run.fee }
      coll := run.coll }
    fusd := run.fusd }

theorem result_eq : ∃ baseRate baseRateTs, run.result =
    { a with
      state := { run.r.state with
        market := { run.r.state.market with
          redemptionBaseRate := baseRate
          redemptionBaseRateTs := baseRateTs
          surplusCollateral := run.r.state.market.surplusCollateral + truncate 64 run.fee }
        coll := run.coll }
      fusd := run.fusd } := by
  obtain ⟨baseRate, baseRateTs, hstore⟩ := Market.storeBaseRate_eq run.r.state.market run.rate
    clk.unixTimestamp
  refine ⟨baseRate, baseRateTs, ?_⟩
  rw [result, hstore]

theorem fee_le : run.fee ≤ run.r.drawn :=
  redemptionFee_le _ _ _ _

theorem validationInv (hi : Inv clk.unixTimestamp a) :
    ValidationInv clk.unixTimestamp (a.state.accrued run.m₁) run.v := by
  obtain ⟨x, ts, hacc⟩ := accrue_spec hi.book.clock run.accrue_eq
  exact .of_pass hi.book hacc run.validate_eq

theorem redemptionInv (hi : Inv clk.unixTimestamp a) :
    RedemptionInv clk.unixTimestamp (a.state.accrued run.m₁) amount
      (run.v.order.map OrderEntry.owner) run.r :=
  .of_pass (run.validationInv hi) (List.perm_insertionSort _ _).subset run.redeem_eq

end RedeemRun

namespace UrgentRun

variable (run : UrgentRun clk redeemer amount candidates a)

/-- What the urgent redemption writes. -/
def result : Accounts :=
  { a with state := { run.r.state with coll := run.coll }, fusd := run.fusd }

theorem redemptionInv (hi : Inv clk.unixTimestamp a) :
    RedemptionInv clk.unixTimestamp (a.state.accrued run.m₁) amount [] run.r.toRedemption := by
  obtain ⟨x, ts, hacc⟩ := accrue_spec hi.book.clock run.accrue_eq
  exact .of_urgentPass hi.book hacc run.redeem_eq

end UrgentRun

theorem exists_redeemRun (h : redeemUnchecked clk redeemer amount candidates a = .ok a') :
    ∃ run : RedeemRun clk redeemer amount candidates a, run.result = a' := by
  simp only [redeemUnchecked, bind_eq_ok_iff, okOr_eq_ok, require_eq_ok, tokenCall_eq_ok,
    checkedAdd_eq_some, checkedMul_eq_some, pure_eq_ok, exists_const] at h
  obtain ⟨-, -, hopen, m₁, hm₁, mid, hmid, hfresh, -, v, hv, -, r, hr, hpos, _, ⟨-, rfl⟩, _,
    ⟨-, rfl⟩, fusd, hburn, coll, hpay, rfl⟩ := h
  obtain ⟨baseRate, baseRateTs, hstore⟩ := Market.storeBaseRate_eq r.state.market
    (m₁.bumpedBaseRate clk.unixTimestamp (amount - r.remaining)) clk.unixTimestamp
  have hpay' := hpay
  rw [hstore] at hpay'
  refine ⟨⟨m₁, mid, v, r, fusd, coll, hopen, hm₁, hmid, hfresh, hv, hr, hpos, hburn, hpay'⟩, ?_⟩
  simp only [RedeemRun.result, RedeemRun.fee, RedeemRun.rate, hstore]

theorem redeem_run (h : redeem clk redeemer amount candidates a = .ok a') :
    ∃ run : RedeemRun clk redeemer amount candidates a, run.result = a' :=
  exists_redeemRun (of_vaultChecked h)

theorem exists_urgentRun (h : urgentRedeemUnchecked clk redeemer amount candidates a = .ok a') :
    ∃ run : UrgentRun clk redeemer amount candidates a, run.result = a' := by
  simp only [urgentRedeemUnchecked, bind_eq_ok_iff, require_eq_ok, tokenCall_eq_ok, pure_eq_ok,
    exists_const] at h
  obtain ⟨-, -, -, m₁, hm₁, mid, hmid, r, hr, -, fusd, hburn, coll, hpay, rfl⟩ := h
  exact ⟨⟨m₁, mid, r, fusd, coll, hm₁, hmid, hr, hburn, hpay⟩, rfl⟩

theorem urgentRedeem_run (h : urgentRedeem clk redeemer amount candidates a = .ok a') :
    ∃ run : UrgentRun clk redeemer amount candidates a, run.result = a' :=
  exists_urgentRun (of_vaultChecked h)

end Runs

section Effects

variable {clk : Clock} {redeemer : Pubkey} {amount : ℕ} {candidates : List Candidate}
  {a a' : Accounts}

theorem LoopInv.drawn_lt {now x ts paid drawn : ℕ} {m₁ : Market} {s : MarketState}
    (hi : Inv now a) (hacc : Accrued a.state.market m₁ now x ts)
    (hl : LoopInv now (a.state.accrued m₁) s paid drawn) : drawn < 2 ^ 64 := by
  have h1 : s.market.totalCollateral + drawn = m₁.totalCollateral := hl.coll
  have h2 := hi.vault
  have h3 := a.state.coll.balance_lt .vault
  have h4 := hacc.tracked
  simp only [tracked] at h2 h4
  have h5 : m₁.totalCollateral = a.state.market.totalCollateral := by rw [hacc.eq]
  omega

/-- A redemption whose loop is done: burn the fUSD, keep the fee, pay out the rest. -/
theorem Effect.of_loop {now x ts paid drawn fee baseRate baseRateTs : ℕ} {m₁ : Market}
    {s : MarketState} {coll : TokenLedger CollHolder} {fusd : TokenLedger FusdHolder}
    (hi : Inv now a) (hacc : Accrued a.state.market m₁ now x ts)
    (hl : LoopInv now (a.state.accrued m₁) s paid drawn) (hfee : fee ≤ drawn)
    (hburn : a.fusd.burn (.wallet redeemer) paid = .ok fusd)
    (hcoll : coll.balance .vault + (drawn - fee) = a.state.coll.balance .vault) :
    Effect now a
      { a with
        state := { s with
          market := { s.market with
            redemptionBaseRate := baseRate
            redemptionBaseRateTs := baseRateTs
            surplusCollateral := s.market.surplusCollateral + fee }
          coll }
        fusd } := by
  have hrest : ∀ {α : Type} (f : MarketState → α), f s.rest = f (a.state.accrued m₁).rest :=
    fun f ↦ congrArg f hl.rest
  have hmint : s.mint = a.state.mint := hrest MarketState.mint
  have hdonated : s.donated = a.state.donated := hrest MarketState.donated
  have hreactor : s.reactor = a.state.reactor := hrest MarketState.reactor
  have hparams : s.market.toMarketParams = m₁.toMarketParams :=
    hrest fun s ↦ s.market.toMarketParams
  have hunminted : s.market.unmintedInterest = m₁.unmintedInterest :=
    hrest fun s ↦ s.market.unmintedInterest
  have hbad : s.market.badDebt = m₁.badDebt := hrest fun s ↦ s.market.badDebt
  have hsurplus : s.market.surplusCollateral = m₁.surplusCollateral :=
    hrest fun s ↦ s.market.surplusCollateral
  have hclaims : s.market.totalCollSurplus = m₁.totalCollSurplus :=
    hrest fun s ↦ s.market.totalCollSurplus
  have hprotocol : s.market.protocolCollateral = m₁.protocolCollateral :=
    hrest fun s ↦ s.market.protocolCollateral
  have hspares : Spares Set.univ a.fusd fusd := Spares.of_burn hburn fun k _ ↦ by simp
  exact
    { inv :=
        { book := { hl.book with }
          vault := by
            have h1 := hi.vault
            have h2 := hacc.tracked
            have h3 : s.market.totalCollateral + drawn = m₁.totalCollateral := hl.coll
            simp only [tracked] at h1 h2 ⊢
            omega
          pool := by
            intro rp hrp
            rw [hreactor] at hrp
            rw [hmint]
            exact (hi.pool rp hrp).trans (hspares _ trivial)
          valid := by
            rw [hparams, hacc.params]
            exact hi.valid }
      mint := hmint
      supply := by
        have h1 := TokenLedger.burn_supply hburn
        have h2 := hacc.net
        have h3 : s.market.aggRecordedDebt + paid = m₁.aggRecordedDebt := hl.agg
        simp only [net] at h2 ⊢
        omega
      spares := hspares.mono (Set.subset_univ _)
      reactor := by
        dsimp only
        rw [hreactor]
        exact .keep _
      ink := fun o ↦ .stay (hl.advance o) }

theorem redeemUnchecked_effect (hamount : amount < 2 ^ 64) (hi : Inv clk.unixTimestamp a)
    (h : redeemUnchecked clk redeemer amount candidates a = .ok a') :
    Effect clk.unixTimestamp a a' := by
  obtain ⟨run, rfl⟩ := exists_redeemRun h
  obtain ⟨x, ts, hacc⟩ := accrue_spec hi.book.clock run.accrue_eq
  have hloop := (run.redemptionInv hi).loop
  have hdrawn := LoopInv.drawn_lt hi hacc hloop
  have hburn := run.burn_eq
  rw [truncate_of_lt ((Nat.sub_le _ _).trans_lt hamount)] at hburn
  obtain ⟨baseRate, baseRateTs, hresult⟩ := run.result_eq
  rw [hresult, truncate_of_lt (run.fee_le.trans_lt hdrawn)]
  exact Effect.of_loop hi hacc hloop run.fee_le hburn
    (payOut_balance ((Nat.sub_le _ _).trans_lt hdrawn) run.payOut_eq)

theorem redeem_effect (hamount : amount < 2 ^ 64) (hi : Inv clk.unixTimestamp a)
    (h : redeem clk redeemer amount candidates a = .ok a') : Effect clk.unixTimestamp a a' :=
  redeemUnchecked_effect hamount hi (of_vaultChecked h)

theorem urgentRedeemUnchecked_effect (hamount : amount < 2 ^ 64) (hi : Inv clk.unixTimestamp a)
    (h : urgentRedeemUnchecked clk redeemer amount candidates a = .ok a') :
    Effect clk.unixTimestamp a a' := by
  obtain ⟨run, rfl⟩ := exists_urgentRun h
  obtain ⟨x, ts, hacc⟩ := accrue_spec hi.book.clock run.accrue_eq
  have hloop := (run.redemptionInv hi).loop
  have hdrawn := LoopInv.drawn_lt hi hacc hloop
  have hburn := run.burn_eq
  rw [truncate_of_lt ((Nat.sub_le _ _).trans_lt hamount)] at hburn
  exact Effect.of_loop hi hacc hloop (Nat.zero_le _) hburn (payOut_balance hdrawn run.payOut_eq)

theorem urgentRedeem_effect (hamount : amount < 2 ^ 64) (hi : Inv clk.unixTimestamp a)
    (h : urgentRedeem clk redeemer amount candidates a = .ok a') :
    Effect clk.unixTimestamp a a' :=
  urgentRedeemUnchecked_effect hamount hi (of_vaultChecked h)

end Effects
end FusionCore
