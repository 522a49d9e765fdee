import FusionCore.Core.Aggregates
import FusionCore.Core.Envelope

/-!
# When a liquidation goes through

In a reached state the only things that can stop the liquidation of a position below its
minimum ratio are the fixed widths and the grid of the Reactor Pool: every subtraction,
every token transfer, the redemption index and the final vault check are covered by the
invariants.
-/

namespace FusionCore

open Checked

/-- The waterfall's split of the debt of `p`, once `p` has left the stakes of `m`. -/
def lossSplit (a : Accounts) (rp : ReactorPool) (bs : Option GlobalBackstopReserve) (m : Market)
    (p : Position) : Absorption :=
  absorb p.recordedDebt rp.state.totalDeposits (decide (0 < m.totalStakes - p.stake))
    (a.fusd.balance (.bufferVault a.state.mint)) (globalAvailable a m bs)

/-- Every tier of the waterfall that is used stays within its widths. -/
structure WaterfallFits (rp : ReactorPool) (buf : InsuranceBuffer)
    (bs : Option GlobalBackstopReserve) (m : Market) (p : Position) (split : Absorption)
    (distributable : ℕ) : Prop where
  reactor : 0 < split.reactor → OffsetFits rp.state rp.grid REACTOR_MAX_SCALES split.reactor
    (distributable * split.reactor / p.recordedDebt)
  redist : 0 < split.redist → RedistFits (redistState m) (m.totalStakes - p.stake)
    (distributable - distributable * split.reactor / p.recordedDebt) split.redist
  buffer : 0 < split.buffer → buf.totalAbsorbed + split.buffer < 2 ^ 128
  backstop : 0 < split.global → m.globalDrawn + split.global < 2 ^ 128 ∧
    ∀ reserve ∈ bs, reserve.totalAbsorbed + split.global < 2 ^ 128
  badDebt : m.badDebt + split.unhomed < 2 ^ 128

/-- The overflow envelope of a liquidation: the interest and the collar of the position fit,
and so does the waterfall. -/
def LiquidationFits (a : Accounts) (rp : ReactorPool) (buf : InsuranceBuffer)
    (bs : Option GlobalBackstopReserve) (now : ℕ) (p : Position) : Prop :=
  ∃ m p₁ seized surplus, accrue a.state.market now = .ok m ∧ realize m p now = .ok p₁ ∧
    seizeCollateral p₁.ink p₁.recordedDebt m.debtSpot m.liqBonusBps = some (seized, surplus) ∧
    WaterfallFits rp buf bs m p₁ (lossSplit a rp bs m p₁)
      (seized - seized * m.liqGasCompBps / BPS_DENOMINATOR)

/-- Once accrued and realised, the position has debt and is below the minimum ratio at the high
price. -/
def BelowMcr (m : Market) (now : ℕ) (p : Position) : Prop :=
  ∀ m₁ p₁, accrue m now = .ok m₁ → realize m₁ p now = .ok p₁ →
    0 < p₁.recordedDebt ∧ isHealthy p₁.ink p₁.recordedDebt m₁.debtSpot m₁.mcrBps = false

instance (m : Market) (now : ℕ) (p : Position) : Decidable (BelowMcr m now p) :=
  match hm : accrue m now with
  | .error _ => .isTrue fun _ _ h ↦ by simp [hm] at h
  | .ok m₁ =>
    match hp : realize m₁ p now with
    | .error _ => .isTrue fun _ _ h h' ↦ by
        cases hm.symm.trans h
        simp [hp] at h'
    | .ok p₁ => decidable_of_iff
        (0 < p₁.recordedDebt ∧ isHealthy p₁.ink p₁.recordedDebt m₁.debtSpot m₁.mcrBps = false)
        ⟨fun hb _ _ h h' ↦ by
          cases hm.symm.trans h
          cases hp.symm.trans h'
          exact hb, fun hb ↦ hb m₁ p₁ hm hp⟩

/-! ## Stages -/

section Seize

variable {m : Market} {p : Position}

theorem bookSurplus_eq {surplus : ℕ} (hp : p.collSurplus + surplus < 2 ^ 64)
    (hm : m.totalCollSurplus + surplus < 2 ^ 64) :
    bookSurplus m p surplus = .ok ({ m with totalCollSurplus := m.totalCollSurplus + surplus },
      { p with collSurplus := p.collSurplus + surplus }) := by
  unfold bookSurplus
  split
  · simp only [bind_eq_ok_iff, okOr_eq_ok, checkedAdd_eq_some, pure_eq_ok]
    exact ⟨_, ⟨hp, rfl⟩, _, ⟨hm, rfl⟩, rfl⟩
  next h0 =>
    obtain rfl : surplus = 0 := Nat.eq_zero_of_not_pos h0
    rfl

theorem seize_eq_ok_iff {z : Seizure} (hstake : p.stake ≤ m.totalStakes)
    (hink : p.ink ≤ m.totalCollateral) (hsurplus : p.collSurplus ≤ m.totalCollSurplus)
    (hvault : m.totalCollateral + m.totalCollSurplus < 2 ^ 64)
    (hgas : m.liqGasCompBps ≤ BPS_DENOMINATOR) :
    seize m p = .ok z ↔ ∃ seized surplus,
      seizeCollateral p.ink p.recordedDebt m.debtSpot m.liqBonusBps = some (seized, surplus) ∧
        z = { market := { m with
                totalStakes := m.totalStakes - p.stake
                totalCollateral := m.totalCollateral - p.ink
                totalCollSurplus := m.totalCollSurplus + surplus }
              position := { p with collSurplus := p.collSurplus + surplus }
              seizeColl := seized
              gasComp := seized * m.liqGasCompBps / BPS_DENOMINATOR } := by
  simp only [seize, bind_eq_ok_iff, okOr_eq_ok, checkedSub_eq_some, checkedMul_eq_some,
    pure_eq_ok, Prod.exists]
  constructor
  · rintro ⟨_, ⟨-, rfl⟩, _, ⟨-, rfl⟩, seized, surplus, hseize, m₁, p₁, hbook, _, ⟨-, rfl⟩, rfl⟩
    obtain ⟨rfl, rfl⟩ := bookSurplus_spec hbook
    exact ⟨seized, surplus, hseize, rfl⟩
  · rintro ⟨seized, surplus, hseize, rfl⟩
    have hsplit : seized + surplus = p.ink := seizeCollateral_spec hseize
    have hscaled : seized * m.liqGasCompBps < 2 ^ 128 := by
      have : seized * m.liqGasCompBps ≤ 2 ^ 64 * BPS_DENOMINATOR :=
        Nat.mul_le_mul (by omega) hgas
      exact this.trans_lt (by decide)
    exact ⟨_, ⟨hstake, rfl⟩, _, ⟨hink, rfl⟩, seized, surplus, hseize, _, _,
      bookSurplus_eq (by omega) (by dsimp only; omega), _, ⟨hscaled, rfl⟩, rfl⟩

end Seize

section Tiers

variable {mint : Pubkey} {coll : TokenLedger CollHolder} {fusd : TokenLedger FusdHolder}

theorem payGasComp_isOk {liquidator : Pubkey} {gas : ℕ} (h : gas ≤ coll.balance .vault) :
    ∃ coll', payGasComp coll liquidator gas = .ok coll' := by
  unfold payGasComp
  split
  · have hlt := h.trans_lt (coll.balance_lt .vault)
    obtain ⟨coll', hcoll⟩ := TokenLedger.exists_transfer (.wallet liquidator) h
    refine ⟨coll', ?_⟩
    simp only [bind_eq_ok_iff, okOr_eq_ok, tryFit_eq_some, tokenCall_eq_ok]
    exact ⟨_, ⟨hlt, rfl⟩, hcoll⟩
  · exact ⟨coll, rfl⟩

/-- The pool tier stops only at the offset itself. -/
theorem reactorTier_isOk_iff {rp : ReactorPool} {off collSp : ℕ}
    (hoff : off ≤ rp.state.totalDeposits)
    (hvault : rp.state.totalDeposits ≤ fusd.balance (.reactorVault mint))
    (hcoll : collSp ≤ coll.balance .vault) :
    (∃ r, reactorTier mint rp coll fusd off collSp = .ok r) ↔
      (0 < off → ∃ r, offset rp.state rp.grid REACTOR_MAX_SCALES off collSp = .ok r) := by
  unfold reactorTier
  by_cases hpos : 0 < off
  · simp only [hpos, if_true, true_imp_iff, bind_eq_ok_iff, okOr_eq_ok, tryFit_eq_some,
      tokenCall_eq_ok, pure_eq_ok]
    constructor
    · rintro ⟨_, rp', hpool, -⟩
      obtain ⟨st, grid, h, -⟩ := Pool.offset_eq_ok.mp hpool
      exact ⟨_, h⟩
    · rintro ⟨⟨st, grid⟩, h⟩
      have hlt := (hoff.trans hvault).trans_lt (fusd.balance_lt _)
      have hlt' := hcoll.trans_lt (coll.balance_lt _)
      obtain ⟨fusd', hburn⟩ := TokenLedger.exists_burn (hoff.trans hvault)
      have hmove : ∃ coll', (if 0 < collSp then do
          let collSp64 ← okOr (tryFit 64 collSp) ProgramError.mathOverflow
          tokenCall (coll.transfer .vault .reactorVault collSp64)
        else pure coll) = .ok coll' := by
        split
        · obtain ⟨coll', hc⟩ := TokenLedger.exists_transfer .reactorVault hcoll
          refine ⟨coll', ?_⟩
          simp only [bind_eq_ok_iff, okOr_eq_ok, tryFit_eq_some, tokenCall_eq_ok]
          exact ⟨_, ⟨hlt', rfl⟩, hc⟩
        · exact ⟨coll, rfl⟩
      obtain ⟨coll', hc⟩ := hmove
      exact ⟨_, _, Pool.offset_eq_ok.mpr ⟨st, grid, h, rfl⟩, _, ⟨hlt, rfl⟩, fusd', hburn, coll',
        hc, rfl⟩
  · simp only [hpos, if_false, false_imp_iff, iff_true]
    exact ⟨_, rfl⟩

theorem bufferTier_isOk_iff (buf : InsuranceBuffer) {amount : ℕ}
    (hle : amount ≤ fusd.balance (.bufferVault mint)) :
    (∃ r, bufferTier mint buf fusd amount = .ok r) ↔
      (0 < amount → buf.totalAbsorbed + amount < 2 ^ 128) := by
  unfold bufferTier
  by_cases hpos : 0 < amount
  · simp only [hpos, if_true, true_imp_iff, bind_eq_ok_iff, okOr_eq_ok, tryFit_eq_some,
      tokenCall_eq_ok, checkedAdd_eq_some, pure_eq_ok]
    constructor
    · rintro ⟨_, _, -, _, -, _, ⟨hlt, -⟩, -⟩
      exact hlt
    · intro hlt
      obtain ⟨fusd', hburn⟩ := TokenLedger.exists_burn hle
      exact ⟨_, _, ⟨hle.trans_lt (fusd.balance_lt _), rfl⟩, fusd', hburn, _, ⟨hlt, rfl⟩, rfl⟩
  · simp only [hpos, if_false, false_imp_iff, iff_true]
    exact ⟨_, rfl⟩

theorem bufferTier_backstop {buf buf' : InsuranceBuffer} {fusd' : TokenLedger FusdHolder}
    {amount : ℕ} (h : bufferTier mint buf fusd amount = .ok (buf', fusd')) :
    fusd'.balance .backstopVault = fusd.balance .backstopVault := by
  simpa using bufferTier_balance h .backstopVault

theorem backstopTier_isOk_iff (m : Market) {bs : Option GlobalBackstopReserve} {amount : ℕ}
    (hle : amount ≤ fusd.balance .backstopVault) (hsome : 0 < amount → bs.isSome) :
    (∃ r, backstopTier m bs fusd amount = .ok r) ↔
      (0 < amount → m.globalDrawn + amount < 2 ^ 128 ∧
        ∀ reserve ∈ bs, reserve.totalAbsorbed + amount < 2 ^ 128) := by
  unfold backstopTier
  by_cases hpos : 0 < amount
  · obtain ⟨reserve, rfl⟩ := Option.isSome_iff_exists.mp (hsome hpos)
    simp only [hpos, if_true, true_imp_iff, bind_eq_ok_iff, okOr_eq_ok, tryFit_eq_some,
      tokenCall_eq_ok, checkedAdd_eq_some, pure_eq_ok, Option.mem_some_iff, forall_eq',
      Option.some.injEq]
    constructor
    · rintro ⟨_, _, rfl, _, -, _, -, _, ⟨hdrawn, -⟩, _, ⟨habs, -⟩, -⟩
      exact ⟨hdrawn, habs⟩
    · rintro ⟨hdrawn, habs⟩
      obtain ⟨fusd', hburn⟩ := TokenLedger.exists_burn hle
      exact ⟨_, _, rfl, _, ⟨hle.trans_lt (fusd.balance_lt _), rfl⟩, fusd', hburn, _,
        ⟨hdrawn, rfl⟩, _, ⟨habs, rfl⟩, rfl⟩
  · simp only [hpos, if_false, false_imp_iff, iff_true]
    exact ⟨_, rfl⟩

theorem reactorTier_others {rp rp' : ReactorPool} {coll' : TokenLedger CollHolder}
    {fusd' : TokenLedger FusdHolder} {off collSp : ℕ}
    (h : reactorTier mint rp coll fusd off collSp = .ok (rp', coll', fusd')) {k : FusdHolder}
    (hk : k ≠ .reactorVault mint) : fusd'.balance k = fusd.balance k := by
  rcases ite_eq_ok.mp h with ⟨-, h⟩ | ⟨-, h⟩
  · simp only [bind_eq_ok_iff, okOr_eq_ok, tryFit_eq_some, tokenCall_eq_ok, pure_eq_ok,
      Prod.mk.injEq] at h
    obtain ⟨_, -, _, ⟨-, rfl⟩, fusd₁, hburn, _, -, -, -, rfl⟩ := h
    have hbal := TokenLedger.burn_balance hburn k
    rwa [if_neg hk, Nat.add_zero] at hbal
  · cases h
    rfl

/-- The tiers below the pool stop only at a counter or an accumulator that is full. -/
theorem remainderTiers_isOk_iff {split : Absorption} {collR : ℕ} {r : Remainder}
    (hstakes : 0 < split.redist → 0 < r.market.totalStakes)
    (hstakes' : r.market.totalStakes < 2 ^ 128)
    (hcoll : r.market.totalCollateral + collR < 2 ^ 64)
    (hprotocol : r.market.protocolCollateral + collR < 2 ^ 64)
    (hbuffer : split.buffer ≤ r.fusd.balance (.bufferVault mint))
    (hglobal : split.global ≤ r.fusd.balance .backstopVault)
    (hsome : 0 < split.global → r.backstop.isSome)
    (hredist : 0 < split.redist → split.buffer = 0 ∧ split.global = 0 ∧ split.unhomed = 0) :
    (∃ r', remainderTiers mint split collR r = .ok r') ↔
      (0 < split.redist →
        RedistFits (redistState r.market) r.market.totalStakes collR split.redist) ∧
      (0 < split.buffer → r.buffer.totalAbsorbed + split.buffer < 2 ^ 128) ∧
      (0 < split.global → r.market.globalDrawn + split.global < 2 ^ 128 ∧
        ∀ reserve ∈ r.backstop, reserve.totalAbsorbed + split.global < 2 ^ 128) := by
  unfold remainderTiers
  by_cases hpos : 0 < split.redist
  · -- redistribution takes all of the remainder
    obtain ⟨hb, hg, -⟩ := hredist hpos
    have hiff := redistribute_isOk_iff (redistState r.market) collR split.redist (hstakes hpos)
      hstakes'
    simp only [hpos, if_true, true_imp_iff, hb, hg, lt_irrefl, false_imp_iff, and_true,
      redistTier, bind_eq_ok_iff, mapError_eq_ok, okOr_eq_ok, checkedAdd_eq_some, pure_eq_ok,
      ← hiff]
    constructor
    · rintro ⟨_, _, ⟨st, hst, -⟩, -⟩
      exact ⟨st, hst⟩
    · rintro ⟨st, hst⟩
      exact ⟨_, _, ⟨st, hst, _, ⟨by simp only [writeState]; omega, rfl⟩, rfl⟩, rfl⟩
  · simp only [hpos, if_false, false_imp_iff, true_and]
    by_cases hrest : 0 < split.buffer ∨ 0 < split.global ∨ 0 < split.unhomed
    · have hbufIff := bufferTier_isOk_iff r.buffer hbuffer
      simp only [hrest, if_true, bind_eq_ok_iff, okOr_eq_ok, tryFit_eq_some, checkedAdd_eq_some,
        pure_eq_ok, Prod.exists]
      constructor
      · rintro ⟨_, _, ⟨-, rfl⟩, _, ⟨-, rfl⟩, buf, fusd₁, hbuf, m₂, bs, fusd₂, hback, -⟩
        have hkeep := bufferTier_backstop hbuf
        exact ⟨hbufIff.mp ⟨_, hbuf⟩, (backstopTier_isOk_iff
          { r.market with protocolCollateral := r.market.protocolCollateral + collR }
          (by rw [hkeep]; exact hglobal) hsome).mp ⟨_, hback⟩⟩
      · rintro ⟨hb, hg⟩
        obtain ⟨⟨buf, fusd₁⟩, hbuf⟩ := hbufIff.mpr hb
        have hkeep := bufferTier_backstop hbuf
        obtain ⟨⟨m₂, bs, fusd₂⟩, hback⟩ := (backstopTier_isOk_iff
          { r.market with protocolCollateral := r.market.protocolCollateral + collR }
          (by rw [hkeep]; exact hglobal) hsome).mpr hg
        exact ⟨_, _, ⟨by omega, rfl⟩, _, ⟨hprotocol, rfl⟩, buf, fusd₁, hbuf, m₂, bs, fusd₂, hback,
          rfl⟩
    · rw [if_neg hrest]
      have hb : ¬0 < split.buffer := by omega
      have hg : ¬0 < split.global := by omega
      simp only [hb, hg, false_imp_iff, and_true, iff_true]
      exact ⟨r, rfl⟩

end Tiers

section Close

variable (m mc : Market) (p : Position) {old artBefore : ℕ} {bm : RedemptionBitmap}

theorem reweight_closedOut (hle : old ≤ m.aggWeightedDebtSum)
    (hlt : m.aggWeightedDebtSum < 2 ^ 128) : ∃ m', reweight m (closedOut mc p) old = .ok m' := by
  apply exists_reweight _ hle
  simpa [weightOf] using hlt

theorem reconcile_closedOut
    (h : 0 < artBefore → ∃ bm', removeMember bm p.bucket = .ok bm') :
    ∃ r, reconcile bm m (closedOut mc p) artBefore = .ok r := by
  have hnone : target m (closedOut mc p) = none := target_eq_none.mpr (closedOut_recordedDebt mc p)
  unfold reconcile
  rw [hnone]
  by_cases hpos : 0 < artBefore
  · obtain ⟨bm', hbm'⟩ := h hpos
    simp only [hpos, decide_true, closedOut_bucket, hbm', ok_bind]
    exact ⟨_, rfl⟩
  · simp only [hpos, decide_false]
    exact ⟨_, rfl⟩

end Close

/-! ## The waterfall -/

section Waterfall

variable {a : Accounts} {rp : ReactorPool} {buf : InsuranceBuffer}
  {bs : Option GlobalBackstopReserve} {m : Market} {p : Position}

theorem globalAvailable_le (a : Accounts) (m : Market) (bs : Option GlobalBackstopReserve) :
    globalAvailable a m bs ≤ a.fusd.balance .backstopVault := by
  unfold globalAvailable
  split
  · exact drawAvailable_le _ _ _ _ _
  · exact Nat.zero_le _

theorem lossSplit_spec (a : Accounts) (rp : ReactorPool) (bs : Option GlobalBackstopReserve)
    (m : Market) (p : Position) :
    let split := lossSplit a rp bs m p
    split.reactor + split.redist + split.buffer + split.global + split.unhomed = p.recordedDebt ∧
      split.reactor ≤ rp.state.totalDeposits ∧
      split.buffer ≤ a.fusd.balance (.bufferVault a.state.mint) ∧
      split.global ≤ globalAvailable a m bs ∧
      (0 < split.redist → 0 < m.totalStakes - p.stake) ∧
      (0 < split.redist → split.buffer = 0 ∧ split.global = 0 ∧ split.unhomed = 0) := by
  intro split
  obtain ⟨hparts, hcap, hbuffer, hglobal, hnone, hredist⟩ := absorb_spec p.recordedDebt
    rp.state.totalDeposits (decide (0 < m.totalStakes - p.stake))
    (a.fusd.balance (.bufferVault a.state.mint)) (globalAvailable a m bs)
  refine ⟨hparts, hcap, hbuffer, hglobal, fun hpos ↦ ?_, hredist⟩
  by_contra hzero
  exact hpos.ne' (hnone (decide_eq_false hzero))

/-- Within the invariants the waterfall goes through exactly inside its envelope. -/
theorem waterfall_isOk_iff (coll : TokenLedger CollHolder) (dist surplus : ℕ)
    (hw : rp.Wf REACTOR_MAX_SCALES) (hseat : rp.Seated REACTOR_MAX_SCALES)
    (hT : rp.state.totalDeposits < DECIMAL_PRECISION)
    (hpool : rp.state.totalDeposits ≤ a.fusd.balance (.reactorVault a.state.mint))
    (hcoll : dist ≤ coll.balance .vault) (hdist : dist ≤ p.ink)
    (hink : p.ink ≤ m.totalCollateral)
    (hvault : m.totalCollateral + m.protocolCollateral < 2 ^ 64)
    (hstakes : m.totalStakes < 2 ^ 128) :
    let split := lossSplit a rp bs m p
    let collSp := dist * split.reactor / p.recordedDebt
    (∃ rp₁ coll₂ fusd₁ r,
        reactorTier a.state.mint rp coll a.fusd split.reactor collSp = .ok (rp₁, coll₂, fusd₁) ∧
        remainderTiers a.state.mint split (dist - collSp)
          ⟨m.absorbed p split surplus, buf, bs, fusd₁⟩ = .ok r) ∧
      m.badDebt + split.unhomed < 2 ^ 128 ↔ WaterfallFits rp buf bs m p split dist := by
  obtain ⟨hparts, hcap, hbuffer, hglobal, hothers, hredist⟩ := lossSplit_spec a rp bs m p
  intro split collSp
  have hshare : split.reactor ≤ p.recordedDebt := by
    change split.reactor + split.redist + split.buffer + split.global + split.unhomed = _ at hparts
    omega
  have hsp : collSp ≤ dist := by
    refine Nat.div_le_of_le_mul ?_
    rw [Nat.mul_comm p.recordedDebt]
    exact Nat.mul_le_mul_left _ hshare
  have hsp64 : collSp < 2 ^ 64 := (hsp.trans hcoll).trans_lt (coll.balance_lt _)
  have hrest : dist - collSp ≤ dist := Nat.sub_le _ _
  obtain ⟨cur, hcur⟩ := hseat
  have hoffset (hpos : 0 < split.reactor) :
      (∃ r, offset rp.state rp.grid REACTOR_MAX_SCALES split.reactor collSp = .ok r) ↔
        OffsetFits rp.state rp.grid REACTOR_MAX_SCALES split.reactor collSp :=
    offset_isOk_iff (by decide : REACTOR_GRID_LEN = 32 * REACTOR_MAX_SCALES) (by decide)
      hw.p_ge hw.p_le hw.lossError_lt hw.collError_lt hcur hT hpos hcap hsp64
  have htier : (∃ r, reactorTier a.state.mint rp coll a.fusd split.reactor collSp = .ok r) ↔ _ :=
    reactorTier_isOk_iff hcap hpool (hsp.trans hcoll)
  have hrem (fusd₁ : TokenLedger FusdHolder)
      (hkeep : ∀ k, k ≠ .reactorVault a.state.mint → fusd₁.balance k = a.fusd.balance k) :
      (∃ r, remainderTiers a.state.mint split (dist - collSp)
        ⟨m.absorbed p split surplus, buf, bs, fusd₁⟩ = .ok r) ↔ _ :=
    remainderTiers_isOk_iff
      hothers (by simp only [Market.absorbed]; omega) (by simp only [Market.absorbed]; omega)
      (by simp only [Market.absorbed]; omega)
      (by rw [hkeep _ (by simp)]; exact hbuffer)
      (by rw [hkeep _ (by simp)]; exact hglobal.trans (globalAvailable_le a m bs))
      (fun hpos ↦ by
        cases bs with
        | none => exact absurd (hpos.trans_le hglobal) (lt_irrefl 0)
        | some reserve => rfl)
      hredist
  constructor
  · rintro ⟨⟨rp₁, coll₂, fusd₁, r, hreactor, hremainder⟩, hbad⟩
    obtain ⟨h1, h2, h3⟩ := (hrem fusd₁ fun k ↦ reactorTier_others hreactor).mp ⟨r, hremainder⟩
    exact ⟨fun hpos ↦ (hoffset hpos).mp (htier.mp ⟨_, hreactor⟩ hpos), h1, h2, h3, hbad⟩
  · rintro ⟨h0, h1, h2, h3, hbad⟩
    obtain ⟨⟨rp₁, coll₂, fusd₁⟩, hreactor⟩ := htier.mpr fun hpos ↦ (hoffset hpos).mpr (h0 hpos)
    obtain ⟨r, hremainder⟩ := (hrem fusd₁ fun k ↦ reactorTier_others hreactor).mpr ⟨h1, h2, h3⟩
    exact ⟨⟨rp₁, coll₂, fusd₁, r, hreactor, hremainder⟩, hbad⟩

end Waterfall

/-! ## The handler -/

/-- What the invariants say about a position once its market is accrued and it is realised. -/
structure Realizable (a : Accounts) (slot : ℕ) (p : Position) (m : Market) (p₁ : Position) :
    Prop where
  gates : liquidationGates a.state.market slot = .ok () → liquidationGates m slot = .ok ()
  stake_le : p₁.stake ≤ m.totalStakes
  ink_le : p₁.ink ≤ m.totalCollateral
  debt_le : p₁.recordedDebt ≤ m.aggRecordedDebt
  surplus_le : p₁.collSurplus ≤ m.totalCollSurplus
  tracked_le : tracked m ≤ a.state.coll.balance .vault
  stakes_le : m.totalStakes ≤ m.totalCollateral
  gas_le : m.liqGasCompBps ≤ BPS_DENOMINATOR
  weight_le : weightOf p ≤ m.aggWeightedDebtSum
  weights_lt : m.aggWeightedDebtSum < 2 ^ 128
  bucket : p₁.bucket = p.bucket

section Handler

variable {clk : Clock} {liquidator owner : Pubkey} {withBackstop : Bool} {a : Accounts}
  {rp : ReactorPool} {buf : InsuranceBuffer} {bs : Option GlobalBackstopReserve} {p : Position}

theorem Inv.realizable {m : Market} {p₁ : Position} (hi : Inv clk.unixTimestamp a)
    (hp : a.state.positions.lookup owner = some p)
    (hm : accrue a.state.market clk.unixTimestamp = .ok m)
    (hp₁ : realize m p clk.unixTimestamp = .ok p₁) : Realizable a clk.slot p m p₁ := by
  obtain ⟨x, ts, hacc⟩ := accrue_spec hi.book.clock hm
  have hb := hi.book.accrue hacc
  have hfold := (realize_spec hacc.realizable hp₁).folded
  exact
    { gates := by
        rw [hacc.eq]
        exact id
      stake_le := by
        rw [hfold.stake]
        exact hb.stake_le_totalStakes hp
      ink_le := hb.coll_le hp hfold
      debt_le := hb.debt_le hp hfold
      surplus_le := by
        rw [hfold.collSurplus]
        exact hb.collSurplus_le hp
      tracked_le := by
        rw [hacc.tracked, hi.vault]
        exact Nat.le_add_right _ _
      stakes_le := hb.stakes_le
      gas_le := by
        have hgas := hi.valid.gas_le
        rw [← hacc.params] at hgas
        exact hgas.trans (by decide)
      weight_le := hb.weight_le hp
      weights_lt := hb.weights_lt
      bucket := hfold.bucket }

theorem distributable_le {seized surplus gas ink before after : ℕ} (hsplit : seized + surplus = ink)
    (hink : ink ≤ before) (hpaid : after + gas = before) :
    seized - gas ≤ after ∧ seized - gas ≤ ink := by
  omega

theorem liquidateUnchecked_isOk_iff (hi : Inv clk.unixTimestamp a)
    (hw : rp.Wf REACTOR_MAX_SCALES) (hseat : rp.Seated REACTOR_MAX_SCALES)
    (hT : rp.state.totalDeposits < DECIMAL_PRECISION)
    (hp : a.state.positions.lookup owner = some p) (hrp : a.state.reactor = some rp)
    (hbuf : a.state.buffer = some buf) (hbs : backstopAccounts a withBackstop = .ok bs)
    (hgates : liquidationGates a.state.market clk.slot = .ok ())
    (hunder : BelowMcr a.state.market clk.unixTimestamp p) :
    (∃ a', liquidateUnchecked clk liquidator owner withBackstop a = .ok a') ↔
      LiquidationFits a rp buf bs clk.unixTimestamp p := by
  have hvault := a.state.coll.balance_lt .vault
  have hpool := hi.pool rp hrp
  constructor
  · rintro ⟨a', h⟩
    obtain ⟨⟨_, _, _, _, m, p₁, z, _, _, coll₁, rp₁, coll₂, fusd₁, r, _, _, _, hp', hrp', hbuf',
      hbs', hm, -, hp₁, hdebt, -, hz, rfl, -, hbad, hcollSp, hgas, htier, hrem, -⟩, -⟩ :=
      exists_liquidationRun h
    obtain rfl := Option.some.inj (hp.symm.trans hp')
    obtain rfl := Option.some.inj (hrp.symm.trans hrp')
    obtain rfl := Option.some.inj (hbuf.symm.trans hbuf')
    obtain rfl := Except.ok.inj (hbs.symm.trans hbs')
    obtain ⟨-, -, rfl⟩ := mulDivFloor_eq_some.mp hcollSp
    have hf := hi.realizable hp hm hp₁
    have htracked := hf.tracked_le
    unfold tracked at htracked
    obtain ⟨seized, surplus, hseize, rfl⟩ := (seize_eq_ok_iff hf.stake_le hf.ink_le hf.surplus_le
      (by omega) hf.gas_le).mp hz
    have hink := hf.ink_le
    have hstakes := hf.stakes_le
    obtain ⟨hdist, hdist'⟩ := distributable_le (seizeCollateral_spec hseize)
      (show p₁.ink ≤ a.state.coll.balance .vault by omega) (payGasComp_balance hgas)
    exact ⟨m, p₁, seized, surplus, hm, hp₁, hseize,
      (waterfall_isOk_iff coll₁ _ surplus hw hseat hT hpool hdist hdist' hf.ink_le
        (by omega) (by omega)).mp ⟨⟨rp₁, coll₂, fusd₁, r, htier, hrem⟩, hbad⟩⟩
  · rintro ⟨m, p₁, seized, surplus, hm, hp₁, hseize, hfits⟩
    obtain ⟨hdebt, hunhealthy⟩ := hunder m p₁ hm hp₁
    have hf := hi.realizable hp hm hp₁
    have htracked := hf.tracked_le
    unfold tracked at htracked
    have hz := (seize_eq_ok_iff hf.stake_le hf.ink_le hf.surplus_le (by omega) hf.gas_le).mpr
      ⟨seized, surplus, hseize, rfl⟩
    have hsplit : seized + surplus = p₁.ink := seizeCollateral_spec hseize
    have hink := hf.ink_le
    have hstakes := hf.stakes_le
    have hgasle : seized * m.liqGasCompBps / BPS_DENOMINATOR ≤ seized := by
      refine Nat.div_le_of_le_mul ?_
      rw [Nat.mul_comm BPS_DENOMINATOR]
      exact Nat.mul_le_mul_left _ hf.gas_le
    obtain ⟨coll₁, hgas⟩ : ∃ coll', payGasComp a.state.coll liquidator
        (seized * m.liqGasCompBps / BPS_DENOMINATOR) = .ok coll' :=
      payGasComp_isOk (by omega)
    obtain ⟨hdist, hdist'⟩ := distributable_le hsplit
      (show p₁.ink ≤ a.state.coll.balance .vault by omega) (payGasComp_balance hgas)
    obtain ⟨⟨rp₁, coll₂, fusd₁, r, htier, hrem⟩, hbad⟩ :=
      (waterfall_isOk_iff coll₁ _ surplus hw hseat hT hpool hdist hdist' hf.ink_le
        (by omega) (by omega)).mpr hfits
    obtain ⟨hparts, hcap, hbuffer, hglobal, -, hredist⟩ := lossSplit_spec a rp bs m p₁
    set split := lossSplit a rp bs m p₁
    set dist := seized - seized * m.liqGasCompBps / BPS_DENOMINATOR
    obtain ⟨hplaced, -, -⟩ := remainderTiers_spec hrem hredist (by
      intro h1 h2 h3 h4
      have hall : split.reactor = p₁.recordedDebt := by omega
      rw [hall, Nat.mul_div_cancel _ hdebt, Nat.sub_self])
    have hweights : r.market.aggWeightedDebtSum = m.aggWeightedDebtSum := hplaced.weights
    have hweight := hf.weight_le
    have hweights_lt := hf.weights_lt
    set m₅ : Market := { r.market with
      totalStakesSnapshot := r.market.totalStakes
      totalCollateralSnapshot :=
        if r.market.totalStakes = 0 then 0 else r.market.totalCollateral } with hm₅
    set pz : Position := { p₁ with collSurplus := p₁.collSurplus + surplus } with hpz
    obtain ⟨m₆, hm₆⟩ : ∃ m', reweight m₅ (closedOut m₅ pz) (weightOf p) = .ok m' :=
      reweight_closedOut m₅ m₅ pz (by rw [hm₅]; dsimp only; omega) (by rw [hm₅]; dsimp only; omega)
    obtain ⟨⟨bm, p₄⟩, hrec⟩ : ∃ x,
        reconcile a.state.bitmap m₆ (closedOut m₅ pz) p.recordedDebt = .ok x := by
      refine reconcile_closedOut m₆ m₅ pz fun hd ↦ ?_
      have hbucket : pz.bucket = p.bucket := hf.bucket
      rw [hbucket]
      exact hi.book.indexReads.removeMember owner p hp hd
    have hfee : dist * split.reactor / p₁.recordedDebt < 2 ^ 128 := by
      have hle : dist * split.reactor / p₁.recordedDebt ≤ dist := by
        refine Nat.div_le_of_le_mul ?_
        rw [Nat.mul_comm p₁.recordedDebt]
        exact Nat.mul_le_mul_left _ (by omega)
      omega
    have hburn : split.reactor + split.buffer + split.global < 2 ^ 128 := by
      have h1 := a.fusd.balance_lt (.reactorVault a.state.mint)
      have h2 := a.fusd.balance_lt (.bufferVault a.state.mint)
      have h3 := a.fusd.balance_lt .backstopVault
      have h4 := globalAvailable_le a m bs
      omega
    have hagg : split.reactor + split.buffer + split.global + split.unhomed ≤
        m.aggRecordedDebt := by
      have := hf.debt_le
      omega
    simp only [liquidateUnchecked, bind_eq_ok_iff, okOr_eq_ok, require_eq_ok, weighted_eq_ok,
      SupplyTransition.liquidate_eq_some, mulDivFloor_eq_some, pure_eq_ok, Prod.exists,
      exists_const]
    exact ⟨_, p, hp, rp, hrp, buf, hbuf, bs, hbs, m, hm, (), hf.gates hgates, _,
      ⟨by omega, rfl⟩, p₁, hp₁, hdebt, hunhealthy, _, hz, _, ⟨hagg, hburn, hbad, rfl⟩, _,
      ⟨hdebt, hfee, rfl⟩, coll₁, hgas, rp₁, coll₂, fusd₁, htier, r, hrem, m₆, hm₆, bm, p₄, hrec,
      rfl⟩

end Handler

/-- In every state reached with fewer than `10 ^ 18` units in the pools, a position below its
minimum ratio can be liquidated at a fresh price outside both pauses exactly inside the
overflow envelope, and the waterfall then splits all of its debt. -/
theorem liquidate_isOk_iff {w : World} (h : fusdCore.Reachable (fun _ w ↦ w.PoolsSmall) w)
    (hsmall : w.PoolsSmall) {mint owner : Pubkey} {state : MarketState} {p : Position}
    {rp : ReactorPool} {buf : InsuranceBuffer} {clk : Clock} (liquidator : Pubkey)
    (withBackstop : Bool) {bs : Option GlobalBackstopReserve}
    (hl : w.protocol.markets.lookup mint = some state)
    (hp : state.positions.lookup owner = some p) (hrp : state.reactor = some rp)
    (hbuf : state.buffer = some buf)
    (hbs : backstopAccounts ⟨state, w.protocol.fusd, w.protocol.backstop⟩ withBackstop = .ok bs)
    (hclk : w.clock.Le clk) (hprice : 0 < state.market.spot ∧ 0 < state.market.debtSpot)
    (hfresh : state.market.fresh clk.slot) (hgrace : state.market.liqGraceUntil ≤ clk.slot)
    (hdivergence : state.market.liqDivergenceUntil ≤ clk.slot)
    (hunder : BelowMcr state.market clk.unixTimestamp p) :
    ((∃ a', liquidate clk liquidator owner withBackstop
        ⟨state, w.protocol.fusd, w.protocol.backstop⟩ = .ok a') ↔
      LiquidationFits ⟨state, w.protocol.fusd, w.protocol.backstop⟩ rp buf bs
        clk.unixTimestamp p) ∧
    ∀ m p₁, accrue state.market clk.unixTimestamp = .ok m →
      realize m p clk.unixTimestamp = .ok p₁ →
      let split := lossSplit ⟨state, w.protocol.fusd, w.protocol.backstop⟩ rp bs m p₁
      split.reactor + split.redist + split.buffer + split.global + split.unhomed =
        p₁.recordedDebt := by
  have hi := fusdCore_market_inv h hclk hl
  obtain ⟨flow, hpool⟩ := market_pool_reachable h mint state hl rp hrp
  have hw := (PoolRun.inv_of_reachable (fun _ _ hg ↦ hg) hpool).wf
  have hseat := PoolRun.seated_of_reachable (by decide) (by decide) hpool
  have hgates : liquidationGates state.market clk.slot = .ok () :=
    liquidationGates_eq_ok.mpr ⟨hprice, hfresh, hgrace, hdivergence⟩
  refine ⟨?_, fun m p₁ _ _ ↦ (lossSplit_spec _ rp bs m p₁).1⟩
  -- the vault check at the end never fails
  rw [liquidate, vaultChecked_eq fun a' ha' ↦ by
    have := (liquidateUnchecked_effect hi ha').inv.vault
    omega]
  exact liquidateUnchecked_isOk_iff hi hw hseat (hsmall mint state hl rp hrp) hp hrp hbuf hbs
    hgates hunder

namespace Sample

/-- The sample market with a Reactor Pool deposit, after a fall of the price to 110 dollars. -/
def fallen : List Instr :=
  instrs ++ [.market 7 (.openReactorDeposit 100), .market 7 (.provideToReactor 100 100000000),
    quote (11 * 10 ^ 25)]

/-- The same with a collateral worth one dollar, fallen to 55 cents. -/
def cheap : List Instr :=
  onboard 0 ++ [.market 7 (.mintCollateral 100 1000000000000000), quote (10 ^ 24)] ++
    borrows 100 500 2000000000000 ++ [.market 7 (.openReactorDeposit 100),
      .market 7 (.provideToReactor 100 100000000), quote (55 * 10 ^ 22)]

/-- The position can be liquidated now, as far as its owner and the oracle are concerned. -/
def Due (w : World) (state : MarketState) (p : Position) : Prop :=
  w.PoolsSmall ∧ w.clock.Le clock ∧ (0 < state.market.spot ∧ 0 < state.market.debtSpot) ∧
    state.market.fresh clock.slot ∧ state.market.liqGraceUntil ≤ clock.slot ∧
    state.market.liqDivergenceUntil ≤ clock.slot ∧
    BelowMcr state.market clock.unixTimestamp p

instance (w : World) (state : MarketState) (p : Position) : Decidable (Due w state p) :=
  inferInstanceAs (Decidable (_ ∧ _))

/-- The position of owner 100 with its market's accounts, whether it is due, and how its
liquidation ends. -/
def trial (instrs : List Instr) : Option (Bool × Option ProgramError) :=
  (guardedWorld (fun _ w ↦ w.PoolsSmall) instrs).bind fun w ↦
    (w.protocol.markets.lookup 7).bind fun state ↦
      (state.positions.lookup 100).bind fun p ↦
        state.reactor.bind fun _ ↦
          state.buffer.map fun _ ↦
            (decide (Due w state p),
              match liquidate clock 5 100 false
                ⟨state, w.protocol.fusd, w.protocol.backstop⟩ with
              | .ok _ => none
              | .error e => some e)

theorem of_trial {instrs : List Instr} {e : Option ProgramError}
    (h : trial instrs = some (true, e)) : ∃ w state p rp buf,
      fusdCore.Reachable (fun _ w ↦ w.PoolsSmall) w ∧
      w.protocol.markets.lookup 7 = some state ∧ state.positions.lookup 100 = some p ∧
      state.reactor = some rp ∧ state.buffer = some buf ∧ Due w state p ∧
      (match liquidate clock 5 100 false ⟨state, w.protocol.fusd, w.protocol.backstop⟩ with
        | .ok _ => none
        | .error e => some e) = e := by
  simp only [trial, Option.bind_eq_some_iff, Option.map_eq_some_iff, Prod.mk.injEq,
    decide_eq_true_eq] at h
  obtain ⟨w, hw, state, hl, p, hp, rp, hrp, buf, hbuf, hdue, he⟩ := h
  exact ⟨w, state, p, rp, buf, reachable hw, hl, hp, hrp, hbuf, hdue, he⟩

end Sample

theorem liquidate_isOk_iff_sample : ∃ w state p rp buf,
    fusdCore.Reachable (fun _ w ↦ w.PoolsSmall) w ∧
    w.protocol.markets.lookup 7 = some state ∧ state.positions.lookup 100 = some p ∧
    Sample.Due w state p ∧
    LiquidationFits ⟨state, w.protocol.fusd, w.protocol.backstop⟩ rp buf none
      Sample.clock.unixTimestamp p := by
  obtain ⟨w, state, p, rp, buf, hreach, hl, hp, hrp, hbuf, hdue, hok⟩ :=
    Sample.of_trial (show Sample.trial Sample.fallen = some (true, none) by decide +kernel)
  obtain ⟨hsmall, hclk, hprice, hfresh, hgrace, hdiv, hunder⟩ := id hdue
  have hiff := liquidate_isOk_iff hreach hsmall 5 false hl hp hrp hbuf rfl hclk hprice hfresh
    hgrace hdiv hunder
  refine ⟨w, state, p, rp, buf, hreach, hl, hp, hdue, hiff.1.mp ?_⟩
  split at hok
  next a' h => exact ⟨a', h⟩
  next => cases hok

/-- A collateral worth one dollar with nine decimals: the collateral credited per unit of the
pool overflows, and the liquidation of a due position reverts. -/
theorem liquidate_stalls : ∃ w state p,
    fusdCore.Reachable (fun _ w ↦ w.PoolsSmall) w ∧
    w.protocol.markets.lookup 7 = some state ∧ state.positions.lookup 100 = some p ∧
    Sample.Due w state p ∧
    liquidate Sample.clock 5 100 false ⟨state, w.protocol.fusd, w.protocol.backstop⟩ =
      .error .mathOverflow := by
  obtain ⟨w, state, p, rp, buf, hreach, hl, hp, hrp, hbuf, hdue, herr⟩ :=
    Sample.of_trial
      (show Sample.trial Sample.cheap = some (true, some .mathOverflow) by decide +kernel)
  refine ⟨w, state, p, hreach, hl, hp, hdue, ?_⟩
  split at herr
  next => cases herr
  next e h =>
    rw [h]
    exact congrArg _ (Option.some.inj herr)

end FusionCore
